import UnixNetProg.Udpcksum.InCksum

/-!
# Captured packets (`udpcksum/udpread.c`)

`next_pcap` gives a pointer and the number of captured bytes, an `int`. `udp_read` takes the link header off, and
`udp_check` compares what is left with sizes of type `size_t`. Each run comes with the offsets of the bytes that it
looked at, from the start of the capture; what is behind the captured bytes can be anything.
-/

namespace UnixNetProg.Udpcksum

open Lib

/-- What `pcap_datalink` returns. -/
inductive Datalink where
  | null
  | en10mb
  | slip
  | ppp
  | other (datalink : ℕ)
  deriving DecidableEq, Repr

structure Capture where
  bytes : Memory Byte
  len : ℕ
  len_le : len ≤ INT_MAX

def ETHERTYPE_IP : ℕ := 0x0800

/-- What `udp_read` returns, the memory in which `ip_sum` has been assigned, or the message of `err_quit`; and the
offsets that were looked at. -/
structure UdpRun where
  result : Except CString (Memory Byte)
  examined : List ℕ

def UdpRun.after (looks : List ℕ) (r : UdpRun) : UdpRun := { r with examined := looks ++ r.examined }

/-- `udp_check` of the `len` bytes at `ptr`; in each comparison `len` is made a `size_t`. -/
def udpCheckAt (e : Endian) (m : Memory Byte) (ptr : ℕ) (len : ℤ) : UdpRun :=
  let ipV := (m ptr).toNat / 16
  let ipHl := (m ptr).toNat % 16
  let hlen := ipHl * 4
  if toSize len < sizeofIp + sizeofUdphdr then ⟨.error (cstr "len = " ++ decimal len.toNat), []⟩
  else if ipV ≠ IPVERSION then ⟨.error (cstr "ip_v = " ++ decimal ipV), [ptr]⟩
  else if hlen < sizeofIp then ⟨.error (cstr "ip_hl = " ++ decimal ipHl), [ptr]⟩
  else if toSize len < hlen + sizeofUdphdr then
    ⟨.error (cstr "len = " ++ decimal len.toNat ++ cstr ", hlen = " ++ decimal hlen), [ptr]⟩
  else
    let ipSum := inCksum e (m.slice ptr (ptr + hlen))
    let m' := m.store (ptr + 10) (bytes16 e ipSum.toNat)
    if ipSum ≠ 0 then ⟨.error (cstr "ip checksum error"), ptr :: List.range' ptr hlen⟩
    else if m' (ptr + 9) = IPPROTO_UDP then ⟨.ok m', ptr :: List.range' ptr hlen ++ [ptr + 9]⟩
    else ⟨.error (cstr "not a UDP packet"), ptr :: List.range' ptr hlen ++ [ptr + 9]⟩

def udpRead (e : Endian) (datalink : Datalink) (c : Capture) : UdpRun :=
  match datalink with
  | .null => udpCheckAt e c.bytes 4 (c.len - 4)
  | .en10mb =>
    if c.bytes.load16 .big 12 ≠ ETHERTYPE_IP then
      ⟨.error (cstr "Ethernet type " ++ hexadecimal (c.bytes.load16 .big 12) ++ cstr " not IP"), [12, 13]⟩
    else (udpCheckAt e c.bytes 14 (c.len - 14)).after [12, 13]
  | .slip => udpCheckAt e c.bytes 24 (c.len - 24)
  | .ppp => udpCheckAt e c.bytes 24 (c.len - 24)
  | .other datalink => ⟨.error (cstr "unsupported datalink (" ++ decimal datalink ++ cstr ")"), []⟩

/-- The size of the link header of the types that are supported. -/
def linkHeader : Datalink → Option ℕ
  | .null => some 4
  | .en10mb => some 14
  | .slip => some 24
  | .ppp => some 24
  | .other _ => none

/-- A packet that is returned has a valid header inside the capture, and nothing behind the capture is looked at. -/
structure Validated (e : Endian) (datalink : Datalink) (c : Capture) (r : UdpRun) : Prop where
  returned : ∀ m, r.result = .ok m → ∃ ptr ∈ linkHeader datalink, ∃ hl, (c.bytes ptr).toNat = 16 * IPVERSION + hl ∧
    5 ≤ hl ∧ hl < 16 ∧ ptr + (hl * 4 + sizeofUdphdr) ≤ c.len ∧ c.bytes (ptr + 9) = IPPROTO_UDP ∧
    inCksum e (c.bytes.slice ptr (ptr + hl * 4)) = 0
  inside : ∀ i ∈ r.examined, i < c.len

/-! ### Packets with a whole link header -/

section Check

variable {e : Endian} {m : Memory Byte} {ptr n : ℕ}

theorem toSize_natCast (h : n ≤ INT_MAX) : toSize n = n := by
  have hmax : INT_MAX = 2147483647 := rfl
  rw [toSize]
  omega

theorem udpCheckAt_spec (e : Endian) (m : Memory Byte) (ptr : ℕ) (hn : n ≤ INT_MAX) :
    (∀ m', (udpCheckAt e m ptr n).result = .ok m' → ∃ hl, (m ptr).toNat = 16 * IPVERSION + hl ∧ 5 ≤ hl ∧ hl < 16 ∧
      hl * 4 + sizeofUdphdr ≤ n ∧ m (ptr + 9) = IPPROTO_UDP ∧ inCksum e (m.slice ptr (ptr + hl * 4)) = 0) ∧
    ∀ i ∈ (udpCheckAt e m ptr n).examined, i < ptr + n := by
  have hip : sizeofIp = 20 := rfl
  simp only [udpCheckAt, toSize_natCast hn]
  split_ifs with hshort hv hhlen hdata hsum hproto
  · exact ⟨nofun, nofun⟩
  · refine ⟨nofun, fun i hi => ?_⟩
    rw [List.mem_singleton.mp hi]
    omega
  · refine ⟨nofun, fun i hi => ?_⟩
    rw [List.mem_singleton.mp hi]
    omega
  · refine ⟨nofun, fun i hi => ?_⟩
    rw [List.mem_singleton.mp hi]
    omega
  all_goals
    have hlooks : ∀ i ∈ ptr :: List.range' ptr ((m ptr).toNat % 16 * 4), i < ptr + n := by
      intro i hi
      rcases List.mem_cons.mp hi with rfl | hi
      · omega
      · have hlt := (List.mem_range'_1.mp hi).2
        omega
  · exact ⟨nofun, hlooks⟩
  all_goals
    have hlooks' : ∀ i ∈ ptr :: List.range' ptr ((m ptr).toNat % 16 * 4) ++ [ptr + 9], i < ptr + n := by
      intro i hi
      rcases List.mem_append.mp hi with hi | hi
      · exact hlooks i hi
      · rw [List.mem_singleton.mp hi]
        omega
  · refine ⟨fun _ _ => ⟨(m ptr).toNat % 16, ?_, ?_, ?_, ?_, ?_, ?_⟩, hlooks'⟩
    · rw [← not_ne_iff.mp hv]
      omega
    · omega
    · omega
    · omega
    · rw [← hproto]
      exact (Memory.store_of_notMem m (.inl (by omega))).symm
    · exact not_ne_iff.mp hsum
  · exact ⟨nofun, hlooks'⟩

/-- A length below 0 is a `size_t` that passes the first check, and the IP header is looked at. -/
theorem mem_examined_of_neg (e : Endian) (m : Memory Byte) (ptr : ℕ) {len : ℤ} (hlen : len < 0)
    (hmin : -(2 ^ 31) ≤ len) :
    ptr ∈ (udpCheckAt e m ptr len).examined := by
  have hlarge : ¬ toSize len < sizeofIp + sizeofUdphdr := by
    show ¬ (len % 2 ^ 64).toNat < 28
    omega
  simp only [udpCheckAt]
  rw [if_neg hlarge]
  split_ifs <;> simp

theorem getD_slice {k : ℕ} (hk : k < n) : (m.slice ptr (ptr + n)).getD k 0 = m (ptr + k) := by
  rw [List.getD_eq_getElem?_getD, Memory.getElem?_slice m (by omega), Option.getD_some]

theorem take_slice {k : ℕ} (hk : k ≤ n) : (m.slice ptr (ptr + n)).take k = m.slice ptr (ptr + k) := by
  rw [← Memory.slice_append m (Nat.le_add_right ptr k) (Nat.add_le_add_left hk ptr)]
  exact List.take_left' (by rw [Memory.length_slice, Nat.add_sub_cancel_left])

theorem udpCheckAt_eq_udpCheck (hn : n ≤ INT_MAX) :
    (udpCheckAt e m ptr n).result.map (fun m' => m'.slice ptr (ptr + n)) = udpCheck e (m.slice ptr (ptr + n)) := by
  simp only [udpCheckAt, udpCheck, toSize_natCast hn, Memory.length_slice, Nat.add_sub_cancel_left, Int.toNat_natCast]
  by_cases hshort : n < sizeofIp + sizeofUdphdr
  · rw [if_pos hshort, if_pos hshort]
    rfl
  have hn28 : 28 ≤ n := Nat.not_lt.mp hshort
  have hfirst : (m.slice ptr (ptr + n)).getD 0 0 = m ptr := getD_slice (by omega)
  have hninth : (m.slice ptr (ptr + n)).getD 9 0 = m (ptr + 9) := getD_slice (by omega)
  rw [if_neg hshort, if_neg hshort, hfirst, hninth]
  by_cases hv : (m ptr).toNat / 16 ≠ IPVERSION
  · rw [if_pos hv, if_pos hv]
    rfl
  rw [if_neg hv, if_neg hv]
  by_cases hhlen : (m ptr).toNat % 16 * 4 < sizeofIp
  · rw [if_pos hhlen, if_pos hhlen]
    rfl
  rw [if_neg hhlen, if_neg hhlen]
  by_cases hdata : n < (m ptr).toNat % 16 * 4 + sizeofUdphdr
  · rw [if_pos hdata, if_pos hdata]
    rfl
  rw [if_neg hdata, if_neg hdata, take_slice (by omega)]
  generalize inCksum e (m.slice ptr (ptr + (m ptr).toNat % 16 * 4)) = ipSum
  have hproto : m.store (ptr + 10) (bytes16 e ipSum.toNat) (ptr + 9) = m (ptr + 9) :=
    Memory.store_of_notMem m (.inl (by omega))
  rw [hproto]
  by_cases hsum : ipSum ≠ 0
  · rw [if_pos hsum, if_pos hsum]
    rfl
  rw [if_neg hsum, if_neg hsum]
  by_cases hudp : m (ptr + 9) = IPPROTO_UDP
  · rw [if_pos hudp, if_pos hudp]
    have hdrop : (m.slice ptr (ptr + n)).drop 12 = m.slice (ptr + 12) (ptr + n) := (m.slice_add_left _ _ _).symm
    have hstore := Memory.slice_store m (Nat.le_add_right ptr 10) (bytes16 e ipSum.toNat)
    rw [length_bytes16] at hstore
    have hrest : (m.store (ptr + 10) (bytes16 e ipSum.toNat)).slice (ptr + 12) (ptr + n) =
        m.slice (ptr + 12) (ptr + n) := Memory.slice_store_of_le m (by rw [length_bytes16])
    have happend := Memory.slice_append (m.store (ptr + 10) (bytes16 e ipSum.toNat)) (Nat.le_add_right ptr 12)
      (by omega : ptr + 12 ≤ ptr + n)
    rw [take_slice (by omega), hdrop, ← hstore, ← hrest]
    exact congrArg Except.ok happend.symm
  · rw [if_neg hudp, if_neg hudp]
    rfl

end Check

section Read

variable (e : Endian) (datalink : Datalink) (c : Capture)

theorem validated_at_iff {ptr : ℕ} (hptr : linkHeader datalink = some ptr) (looks : List ℕ)
    (hlooks : ∀ i ∈ looks, i < ptr) (hmax : ptr ≤ 24) :
    Validated e datalink c ((udpCheckAt e c.bytes ptr (c.len - ptr)).after looks) ↔ ptr ≤ c.len := by
  constructor
  · intro h
    by_contra hlt
    have hneg : (c.len : ℤ) - ptr < 0 := by omega
    have hlook := mem_examined_of_neg e c.bytes ptr hneg (by omega)
    exact hlt (h.inside ptr (List.mem_append_right _ hlook)).le
  · intro hle
    have hlen : (c.len : ℤ) - ptr = (c.len - ptr : ℕ) := by omega
    have hle' := c.len_le
    obtain ⟨hreturned, hinside⟩ := udpCheckAt_spec e c.bytes ptr (n := c.len - ptr) (by omega)
    rw [hlen]
    constructor
    · intro m hm
      obtain ⟨hl, hfirst, hlo, hhi, hdata, hproto, hsum⟩ := hreturned m hm
      exact ⟨ptr, hptr, hl, hfirst, hlo, hhi, by omega, hproto, hsum⟩
    · intro i hi
      rcases List.mem_append.mp hi with hi | hi
      · have hi' := hlooks i hi
        omega
      · have hi' := hinside i hi
        omega

/-- A packet is validated exactly if the capture has the whole link header. -/
theorem validated_iff : Validated e datalink c (udpRead e datalink c) ↔ ∀ ptr ∈ linkHeader datalink, ptr ≤ c.len := by
  have hall : ∀ {ptr : ℕ}, (∀ ptr' ∈ some ptr, ptr' ≤ c.len) ↔ ptr ≤ c.len := by
    simp
  cases datalink with
  | null => exact (validated_at_iff e .null c rfl [] nofun (by decide)).trans hall.symm
  | slip => exact (validated_at_iff e .slip c rfl [] nofun (by decide)).trans hall.symm
  | ppp => exact (validated_at_iff e .ppp c rfl [] nofun (by decide)).trans hall.symm
  | en10mb =>
    rw [udpRead]
    split_ifs with htype
    · refine Iff.trans ⟨fun h => ?_, fun h => ⟨nofun, fun i hi => ?_⟩⟩ hall.symm
      · exact h.inside 13 (List.mem_cons_of_mem _ List.mem_cons_self)
      · have hi' : i = 12 ∨ i = 13 := by simpa using hi
        omega
    · exact (validated_at_iff e .en10mb c rfl [12, 13] (by decide) (by decide)).trans hall.symm
  | other n => exact iff_of_true ⟨nofun, nofun⟩ nofun

/-- A capture of two bytes on the loopback interface; what is behind them looks like a packet. -/
theorem short_capture_not_validated :
    ¬ Validated .little .null ⟨fun i => if i = 4 then 0x45 else 0, 2, by decide⟩
      (udpRead .little .null ⟨fun i => if i = 4 then 0x45 else 0, 2, by decide⟩) := by
  intro h
  have hlook := h.inside 4 (by decide +kernel)
  exact absurd hlook (by decide)

end Read

end UnixNetProg.Udpcksum
