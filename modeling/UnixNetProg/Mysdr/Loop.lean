import UnixNetProg.Lib.Endian
import UnixNetProg.Libc

/-!
# The listener for session announcements (`mysdr/loop.c`)

`buf` is one buffer for all datagrams, and it is not initialized. A turn of the loop prints two texts: the sender
with the hash, and the announcement or why it is not printed; `none` is a string that does not end inside `buf`.
-/

namespace UnixNetProg.Mysdr

open Lib

def BUFFSIZE : ℕ := 8192

/-- The size of `struct sap_packet`; `sap_data` is at offset 8. -/
def sizeofBuf : ℕ := 8 + BUFFSIZE

def SAP_VERSION_MASK : ℕ := 0xe0000000
def SAP_VERSION_SHIFT : ℕ := 29
def SAP_IPV6 : ℕ := 0x10000000
def SAP_DELETE : ℕ := 0x04000000
def SAP_ENCRYPTED : ℕ := 0x02000000
def SAP_COMPRESSED : ℕ := 0x01000000
def SAP_AUTHLEN_MASK : ℕ := 0x00ff0000
def SAP_AUTHLEN_SHIFT : ℕ := 16
def SAP_HASH_MASK : ℕ := 0x0000ffff

/-- A datagram, with what `Sock_ntop` makes of its sender. -/
structure Datagram where
  bytes : List Byte
  sender : CString
  deriving DecidableEq, Repr

/-- The string at `p`. -/
def strAt (m : Memory Byte) (p : ℕ) : Option CString :=
  if 0 ∈ m.slice p sizeofBuf then some (stringOf (m.slice p sizeofBuf)) else none

def hashText (sender : CString) (header : ℕ) : CString :=
  cstr "From " ++ sender ++ cstr " hash 0x" ++ zeroPad 4 (hexadecimal (header &&& SAP_HASH_MASK)) ++ cstr "\n"

/-- What is said about a packet that is not parsed. -/
def refusal (header : ℕ) : Option CString :=
  if 1 < (header &&& SAP_VERSION_MASK) >>> SAP_VERSION_SHIFT then
    some (cstr "... version field not 1 (0x" ++ zeroPad 8 (hexadecimal header) ++ cstr ")\n")
  else if header &&& SAP_IPV6 ≠ 0 then some (cstr "... IPv6\n")
  else if header &&& (SAP_DELETE ||| SAP_ENCRYPTED ||| SAP_COMPRESSED) ≠ 0 then
    some (cstr "... can't parse this packet type (0x" ++ zeroPad 8 (hexadecimal header) ++ cstr ")\n")
  else none

/-- The offset of `p`, behind the authentication data. -/
def payload (header : ℕ) : ℕ := 8 + (header &&& SAP_AUTHLEN_MASK) >>> SAP_AUTHLEN_SHIFT

def applicationSdp : CString := cstr "application/sdp"

/-- What `Recvfrom` stores, with the 0 behind it. -/
def filled (buf : Memory Byte) (data : List Byte) : Memory Byte := (buf.store 0 data).store data.length [0]

/-- A turn of the loop, on a host of byte order `e`: the buffer behind it and the texts. -/
def turn (e : Endian) (buf : Memory Byte) (d : Datagram) : Memory Byte × List (Option CString) :=
  let data := d.bytes.take (sizeofBuf - 1)
  let buf := filled buf data
  let header := buf.load32 .big 0
  let buf := buf.store 0 (bytes32 e header)
  match refusal header with
  | some text => (buf, [some (hashText d.sender header), some text])
  | none =>
    let p := payload header
    let p := if strAt buf p = some applicationSdp then p + 16 else p
    (buf, [some (hashText d.sender header), (strAt buf p).map (· ++ cstr "\n")])

/-- The buffer behind a sequence of datagrams. -/
def bufAfter (e : Endian) (buf : Memory Byte) (ds : List Datagram) : Memory Byte :=
  ds.foldl (fun buf d => (turn e buf d).1) buf

/-! ### The text of a datagram alone -/

/-- The bytes of a datagram, with zeros behind them. -/
def ownBytes (data : List Byte) : Memory Byte := fun k => data.getD k 0

def ownHeader (data : List Byte) : ℕ := (ownBytes data).load32 .big 0

/-- What is to be printed. -/
def ownTexts (d : Datagram) : List (Option CString) :=
  let data := d.bytes.take (sizeofBuf - 1)
  match refusal (ownHeader data) with
  | some text => [some (hashText d.sender (ownHeader data)), some text]
  | none =>
    let p := payload (ownHeader data)
    let p := if stringOf (data.drop p) = applicationSdp then p + 16 else p
    [some (hashText d.sender (ownHeader data)), some (stringOf (data.drop p) ++ cstr "\n")]

/-- The header is there (but for its last byte, if that is 0), and unless the packet is refused the payload starts in
the datagram or at its end, and is not just the type. -/
def SelfContained (data : List Byte) : Prop :=
  3 ≤ data.length ∧ (refusal (ownHeader data) ≠ none ∨
    (payload (ownHeader data) ≤ data.length ∧ data.drop (payload (ownHeader data)) ≠ applicationSdp))

/-! ### The buffer -/

section Buffer

variable {buf m : Memory Byte} {data : List Byte} {e : Endian} {k p n : ℕ}

theorem filled_of_le (hk : k ≤ data.length) : filled buf data k = ownBytes data k := by
  rcases Nat.lt_or_eq_of_le hk with hk | rfl
  · rw [filled, Memory.store_of_notMem _ (.inl hk), Memory.store_zero_of_lt _ 0 hk, ownBytes]
  · rw [filled, ownBytes, List.getD_eq_default _ _ (Nat.le_refl _)]
    simp [Memory.store]

theorem filled_of_lt (hk : data.length < k) : filled buf data k = buf k := by
  rw [filled, Memory.store_of_notMem _ (.inr hk), Memory.store_of_notMem _ (.inr (by omega))]

theorem header_eq (h : 3 ≤ data.length) : (filled buf data).load32 .big 0 = ownHeader data :=
  Memory.load32_congr .big fun k hk => filled_of_le (by omega)

theorem payload_le (header : ℕ) : payload header ≤ 263 := by
  have hmask : header &&& SAP_AUTHLEN_MASK ≤ 0x00ff0000 := Nat.and_le_right
  have hshift : (header &&& SAP_AUTHLEN_MASK) >>> SAP_AUTHLEN_SHIFT ≤ 255 := by
    rw [SAP_AUTHLEN_SHIFT, Nat.shiftRight_eq_div_pow]
    exact Nat.div_le_div_right hmask
  exact Nat.add_le_add_left hshift 8

theorem strAt_of_zero (hp : p ≤ n) (hn : n < sizeofBuf) (hzero : m n = 0) :
    strAt m p = some (stringOf (m.slice p n)) := by
  have hone : m.slice n (n + 1) = [m n] := by
    simp [Memory.slice]
  have hslice : m.slice p sizeofBuf = m.slice p n ++ 0 :: m.slice (n + 1) sizeofBuf := by
    rw [← Memory.slice_append m hp hn.le, ← Memory.slice_append m (Nat.le_succ n) hn, hone, hzero]
    rfl
  rw [strAt, hslice, if_pos (by simp), stringOf_append_zero]

theorem slice_received (hp : 4 ≤ p) :
    ((filled buf data).store 0 (bytes32 e n)).slice p data.length = data.drop p := by
  have hdrop : (buf.store 0 data).slice (0 + p) data.length = data.drop p := by
    rw [Memory.slice_add_left, Memory.slice_store_zero]
  rw [Nat.zero_add] at hdrop
  rw [← hdrop]
  apply Memory.slice_congr
  intro k hk hlt
  rw [Memory.store_of_notMem _ (.inr (by rw [length_bytes32]; omega)), filled,
    Memory.store_of_notMem _ (.inl hlt)]

theorem received_of_lt (hk : data.length < k) (h4 : 4 ≤ k) :
    (filled buf data).store 0 (bytes32 e n) k = buf k := by
  rw [Memory.store_of_notMem _ (.inr (by rw [length_bytes32]; omega)), filled_of_lt hk]

theorem strAt_received (hp : 4 ≤ p) (hle : p ≤ data.length) (hlt : data.length < sizeofBuf) :
    strAt ((filled buf data).store 0 (bytes32 e n)) p = some (stringOf (data.drop p)) := by
  have hzero : (filled buf data).store 0 (bytes32 e n) data.length = 0 := by
    rw [Memory.store_of_notMem _ (.inr (by rw [length_bytes32]; omega)), filled_of_le (Nat.le_refl _)]
    exact List.getD_eq_default _ _ (Nat.le_refl _)
  rw [strAt_of_zero hle hlt hzero, slice_received hp]

theorem sdp_le (hdata : data.drop p ≠ applicationSdp) (hstring : stringOf (data.drop p) = applicationSdp) :
    p + 16 ≤ data.length := by
  have hpre := List.takeWhile_prefix (· != 0) (l := data.drop p)
  have hle : 15 ≤ (data.drop p).length := by
    have hlen := hpre.length_le
    rw [← stringOf, hstring] at hlen
    exact hlen
  have hne : (data.drop p).length ≠ 15 := by
    intro heq
    refine hdata ((hpre.eq_of_length ?_).symm.trans hstring)
    rw [← stringOf, hstring, heq]
    rfl
  rw [List.length_drop] at hle hne
  omega

end Buffer

/-! ### What a turn prints -/

section Prints

variable {e : Endian} {buf : Memory Byte} {d : Datagram}

theorem length_data_lt (d : Datagram) : (d.bytes.take (sizeofBuf - 1)).length < sizeofBuf := by
  have hle := List.length_take_le (sizeofBuf - 1) d.bytes
  have hsize : sizeofBuf = 8200 := rfl
  omega

theorem turn_texts (e : Endian) (buf : Memory Byte) (h : SelfContained (d.bytes.take (sizeofBuf - 1))) :
    (turn e buf d).2 = ownTexts d := by
  obtain ⟨hthree, hown⟩ := h
  have hlt := length_data_lt d
  simp only [turn, ownTexts]
  generalize d.bytes.take (sizeofBuf - 1) = data at hthree hown hlt ⊢
  rw [header_eq hthree]
  cases hrefusal : refusal (ownHeader data) with
  | some text => rfl
  | none =>
    obtain ⟨hle, hdata⟩ := hown.resolve_left (not_not.mpr hrefusal)
    have hp : 8 ≤ payload (ownHeader data) := Nat.le_add_right 8 _
    have hstr : strAt ((filled buf data).store 0 (bytes32 e (ownHeader data))) (payload (ownHeader data)) =
        some (stringOf (data.drop (payload (ownHeader data)))) := strAt_received (by omega) hle hlt
    simp only [hstr, Option.some.injEq]
    by_cases hsdp : stringOf (data.drop (payload (ownHeader data))) = applicationSdp
    · rw [if_pos hsdp, strAt_received (by omega) (sdp_le hdata hsdp) hlt, Option.map_some]
    · rw [if_neg hsdp, hstr, Option.map_some]

theorem turn_head (e : Endian) (buf : Memory Byte) (d : Datagram) :
    (turn e buf d).2.head? =
      some (some (hashText d.sender ((filled buf (d.bytes.take (sizeofBuf - 1))).load32 .big 0))) := by
  simp only [turn]
  split <;> rfl

theorem turn_of_short (h : (d.bytes.take (sizeofBuf - 1)).length < 3) :
    (turn e (fun _ => 0) d).2 ≠ (turn e (fun k => if k = 3 then 1 else 0) d).2 := by
  intro heq
  have hhead := congrArg List.head? heq
  rw [turn_head, turn_head] at hhead
  generalize d.bytes.take (sizeofBuf - 1) = data at h hhead
  have hhash := Option.some.inj (Option.some.inj hhead)
  have htwo : ∀ buf : Memory Byte, buf 2 = 0 → filled buf data 2 = 0 := by
    intro buf hbuf
    rcases Nat.lt_or_ge 2 data.length with hlt | hge
    · omega
    · rcases Nat.lt_or_eq_of_le hge with hlt | heq
      · rw [filled_of_lt hlt, hbuf]
      · rw [filled_of_le heq.ge]
        exact List.getD_eq_default _ _ heq.le
  have hlow : ∀ buf : Memory Byte, buf 2 = 0 →
      (filled buf data).load32 .big 0 &&& SAP_HASH_MASK = (buf 3).toNat := by
    intro buf hbuf
    have hlt := (buf 3).toNat_lt
    have hmod := Nat.and_two_pow_sub_one_eq_mod ((filled buf data).load32 .big 0) 16
    have hword : (filled buf data).load16 .big 2 = (buf 3).toNat := by
      rw [Memory.load16, htwo buf hbuf, filled_of_lt h, word16]
      show 256 * 0 + _ = _
      rw [Nat.zero_add]
    refine hmod.trans ?_
    rw [Memory.load32, Nat.zero_add, hword]
    omega
  rw [hashText, hashText, hlow _ rfl, hlow _ rfl] at hhash
  simp only [List.append_assoc, List.append_cancel_left_eq] at hhash
  exact absurd hhash (by decide +kernel)

theorem strAt_stale {p n : ℕ} {data : List Byte} (hp : data.length < p) (h4 : 4 ≤ p) (hlt : p + 1 < sizeofBuf) :
    strAt ((filled (fun _ => 0) data).store 0 (bytes32 e n)) p = some [] ∧
      strAt ((filled (fun k => if k = p then 65 else 0) data).store 0 (bytes32 e n)) p = some [65] := by
  constructor
  · rw [strAt_of_zero (Nat.le_refl p) (by omega) (received_of_lt hp h4), Memory.slice_self]
    rfl
  · have hone : ∀ m : Memory Byte, m.slice p (p + 1) = [m p] := by
      intro m
      simp [Memory.slice]
    have hzero : (filled (fun k => if k = p then 65 else 0) data).store 0 (bytes32 e n) (p + 1) = 0 :=
      (received_of_lt (by omega) (by omega)).trans (if_neg (Nat.succ_ne_self p))
    rw [strAt_of_zero (Nat.le_succ p) hlt hzero, hone, received_of_lt hp h4, if_pos rfl]
    rfl

theorem turn_of_stale (hthree : 3 ≤ (d.bytes.take (sizeofBuf - 1)).length)
    (h : ¬ SelfContained (d.bytes.take (sizeofBuf - 1))) : ∃ p,
    (turn e (fun _ => 0) d).2 ≠ (turn e (fun k => if k = p then 65 else 0) d).2 := by
  have hlt := length_data_lt d
  simp only [turn]
  generalize d.bytes.take (sizeofBuf - 1) = data at hthree h hlt ⊢
  simp only [header_eq hthree]
  have hrefusal : refusal (ownHeader data) = none := by
    by_contra hne
    exact h ⟨hthree, .inl hne⟩
  have hp : 8 ≤ payload (ownHeader data) := Nat.le_add_right 8 _
  have hmax := payload_le (ownHeader data)
  have hsize : sizeofBuf = 8200 := rfl
  rw [hrefusal]
  rcases Nat.lt_or_ge data.length (payload (ownHeader data)) with hbehind | hinside
  · -- The payload itself is behind the datagram.
    refine ⟨payload (ownHeader data), fun heq => ?_⟩
    obtain ⟨hzero, hA⟩ := strAt_stale (e := e) (n := ownHeader data) hbehind (by omega) (by omega)
    simp only [hzero, hA] at heq
    rw [if_neg (by decide), if_neg (by decide), hzero, hA] at heq
    exact absurd (List.cons.inj (List.cons.inj heq).2).1 (by decide)
  · -- It is just the type, and its 0 is the one behind the datagram.
    have hsdp : data.drop (payload (ownHeader data)) = applicationSdp := by
      by_contra hne
      exact h ⟨hthree, .inr ⟨hinside, hne⟩⟩
    have hlen : data.length = payload (ownHeader data) + 15 := by
      have hlen := congrArg List.length hsdp
      rw [List.length_drop] at hlen
      have h15 : applicationSdp.length = 15 := rfl
      omega
    refine ⟨payload (ownHeader data) + 16, fun heq => ?_⟩
    have hbehind : data.length < payload (ownHeader data) + 16 := by omega
    obtain ⟨hzero, hA⟩ := strAt_stale (e := e) (n := ownHeader data) hbehind (by omega) (by omega)
    have hstr : ∀ buf : Memory Byte, strAt ((filled buf data).store 0 (bytes32 e (ownHeader data)))
        (payload (ownHeader data)) = some applicationSdp := by
      intro buf
      rw [strAt_received (by omega) hinside hlt, hsdp]
      rfl
    simp only [hstr, if_true, hzero, hA] at heq
    exact absurd (List.cons.inj (List.cons.inj heq).2).1 (by decide)

/-- **What is printed for a datagram**, behind any others, is a function of it alone exactly if it is self-contained. -/
theorem prints_alone_iff (e : Endian) (d : Datagram) :
    (∀ buf buf' ds ds', (turn e (bufAfter e buf ds) d).2 = (turn e (bufAfter e buf' ds') d).2) ↔
      SelfContained (d.bytes.take (sizeofBuf - 1)) := by
  constructor
  · intro hall
    by_contra hself
    by_cases hthree : 3 ≤ (d.bytes.take (sizeofBuf - 1)).length
    · obtain ⟨p, hne⟩ := turn_of_stale (e := e) hthree hself
      exact hne (hall _ _ [] [])
    · exact turn_of_short (Nat.not_le.mp hthree) (hall _ _ [] [])
  · intro hself buf buf' ds ds'
    rw [turn_texts e _ hself, turn_texts e _ hself]

/-- The second datagram is a header that announces a byte of authentication data; behind the first one the program
prints `BCD` for it, alone an empty line. -/
theorem prints_earlier_bytes :
    (turn .little (bufAfter .little (fun _ => 0) [⟨[0x20, 0, 0, 0, 10, 0, 0, 1, 65, 66, 67, 68], cstr "10.0.0.1"⟩])
        ⟨[0x20, 1, 0, 0, 10, 0, 0, 2], cstr "10.0.0.2"⟩).2 ≠
      (turn .little (bufAfter .little (fun _ => 0) []) ⟨[0x20, 1, 0, 0, 10, 0, 0, 2], cstr "10.0.0.2"⟩).2 := by
  decide +kernel

end Prints

end UnixNetProg.Mysdr
