import UnixNetProg.Lib.Memory
import UnixNetProg.Unp

/-!
# The addresses of a routing message (`libroute/get_rtaddrs.c`)

Behind the header of a routing message stand socket addresses, for each bit of a mask one, each with its length
in its first byte and padded to a multiple of `sizeof(u_long)`. `get_rtaddrs` makes a table of them. The
parameter `w` is `sizeof(u_long)`.
-/

namespace UnixNetProg.Libroute

open Lib

def RTAX_IFP : ℕ := 4
def RTAX_IFA : ℕ := 5
def RTAX_BRD : ℕ := 7
def RTAX_MAX : ℕ := 8

/-- `ROUNDUP(a, size)`. -/
def roundup (a size : ℕ) : ℕ := if a &&& (size - 1) ≠ 0 then 1 + (a ||| (size - 1)) else a

/-- What `NEXT_SA` goes on by, for a `sa_len`. -/
def nextSa (w saLen : ℕ) : ℕ := if saLen ≠ 0 then roundup saLen w else w

/-- The loop of `get_rtaddrs`, with `n` entries to go; an entry of the table is an offset behind the header. -/
def rtaddrsLoop (w addrs : ℕ) (body : Memory Byte) : ℕ → ℕ → ℕ → List (Option ℕ)
  | 0, _, _ => []
  | n + 1, i, sa =>
    if addrs.testBit i then some sa :: rtaddrsLoop w addrs body n (i + 1) (sa + nextSa w (body sa).toNat)
    else none :: rtaddrsLoop w addrs body n (i + 1) sa

def getRtaddrs (w addrs : ℕ) (body : Memory Byte) : List (Option ℕ) := rtaddrsLoop w addrs body RTAX_MAX 0 0

/-- `rti_info[i]`. -/
def rtiInfo (w addrs : ℕ) (body : Memory Byte) (i : ℕ) : Option ℕ := (getRtaddrs w addrs body).getD i none

/-- The `sa_len` bytes of the address at `sa`. -/
def saBytes (body : Memory Byte) (sa : ℕ) : List Byte := body.slice sa (sa + (body sa).toNat)

/-! ### Messages of the kernel -/

/-- A socket address with its padding. -/
structure PaddedSa (w : ℕ) where
  bytes : List Byte
  length_bytes : bytes.length = nextSa w (bytes.headD 0).toNat
  saLen_le : (bytes.headD 0).toNat ≤ bytes.length
  ne_nil : bytes ≠ []

def PaddedSa.value {w : ℕ} (sa : PaddedSa w) : List Byte := sa.bytes.take (sa.bytes.headD 0).toNat

/-- The bytes of the addresses with these numbers. -/
def packed {w : ℕ} (sas : ℕ → Option (PaddedSa w)) (is : List ℕ) : List Byte :=
  is.flatMap fun i => ((sas i).map PaddedSa.bytes).getD []

/-- A message with the addresses that its mask says. -/
structure RtMsg (w : ℕ) where
  addrs : ℕ
  body : Memory Byte
  sas : ℕ → Option (PaddedSa w)
  mask : ∀ i < RTAX_MAX, addrs.testBit i = (sas i).isSome
  body_eq : body.slice 0 (packed sas (List.range RTAX_MAX)).length = packed sas (List.range RTAX_MAX)

section Table

variable {w : ℕ}

/-- Where the address of number `i` starts. -/
def RtMsg.offset (x : RtMsg w) (i : ℕ) : ℕ := (packed x.sas (List.range i)).length

theorem packed_range_succ (sas : ℕ → Option (PaddedSa w)) (i : ℕ) :
    packed sas (List.range (i + 1)) = packed sas (List.range i) ++ ((sas i).map PaddedSa.bytes).getD [] := by
  rw [packed, List.range_succ, List.flatMap_append, List.flatMap_singleton]
  rfl

theorem packed_split (sas : ℕ → Option (PaddedSa w)) {i n : ℕ} (hi : i < n) :
    ∃ rest, packed sas (List.range n) = packed sas (List.range (i + 1)) ++ rest := by
  obtain ⟨k, rfl⟩ := Nat.exists_eq_add_of_le (Nat.succ_le_of_lt hi)
  refine ⟨packed sas ((List.range k).map (i.succ + ·)), ?_⟩
  rw [packed, List.range_add, List.flatMap_append]
  rfl

theorem RtMsg.slice_offset (x : RtMsg w) {i : ℕ} (hi : i < RTAX_MAX) {sa : PaddedSa w} (hsa : x.sas i = some sa) :
    x.body.slice (x.offset i) (x.offset i + sa.bytes.length) = sa.bytes := by
  obtain ⟨rest, hrest⟩ := packed_split x.sas hi
  have hbody := x.body_eq
  rw [hrest, packed_range_succ, hsa] at hbody
  have hlen : (packed x.sas (List.range i) ++ ((some sa).map PaddedSa.bytes).getD [] ++ rest).length =
      x.offset i + sa.bytes.length + rest.length := by
    rw [List.length_append, List.length_append]
    rfl
  have hdrop : (x.body.slice 0 (x.offset i + sa.bytes.length + rest.length)).drop (x.offset i) =
      sa.bytes ++ rest := by
    rw [← hlen, hbody, List.append_assoc]
    exact List.drop_left
  rw [← Memory.slice_add_left, Nat.zero_add] at hdrop
  have happend := x.body.slice_append (Nat.le_add_right (x.offset i) sa.bytes.length)
    (Nat.le_add_right (x.offset i + sa.bytes.length) rest.length)
  have hinj := List.append_inj (happend.trans hdrop) (by rw [Memory.length_slice]; omega)
  exact hinj.1

theorem RtMsg.saLen_eq (x : RtMsg w) {i : ℕ} (hi : i < RTAX_MAX) {sa : PaddedSa w} (hsa : x.sas i = some sa) :
    x.body (x.offset i) = sa.bytes.headD 0 := by
  have hslice := x.slice_offset hi hsa
  have hpos : 0 < sa.bytes.length := List.length_pos_iff.mpr sa.ne_nil
  have hfirst := Memory.getElem?_slice x.body
    (show 0 < x.offset i + sa.bytes.length - x.offset i by omega)
  rw [hslice, Nat.add_zero] at hfirst
  rw [List.headD_eq_head?_getD, List.head?_eq_getElem?, hfirst]
  rfl

theorem RtMsg.rtaddrsLoop_getD (x : RtMsg w) (n : ℕ) {i : ℕ} (hn : n + i = RTAX_MAX) {k : ℕ} (hk : k < n) :
    (rtaddrsLoop w x.addrs x.body n i (x.offset i)).getD k none = (x.sas (i + k)).map fun _ => x.offset (i + k) := by
  induction n generalizing i k with
  | zero => exact absurd hk (Nat.not_lt_zero k)
  | succ n ih =>
    have hi : i < RTAX_MAX := by omega
    rw [rtaddrsLoop, x.mask i hi]
    cases hsa : x.sas i with
    | none =>
      have hsame : x.offset (i + 1) = x.offset i := by
        rw [RtMsg.offset, packed_range_succ, hsa]
        exact congrArg List.length (List.append_nil _)
      rw [Option.isSome_none, if_neg Bool.false_ne_true]
      cases k with
      | zero =>
        show none = (x.sas i).map _
        rw [hsa]
        rfl
      | succ k =>
        have hrest := ih (i := i + 1) (by omega) (Nat.lt_of_succ_lt_succ hk)
        rw [hsame, Nat.add_assoc, Nat.add_comm 1 k] at hrest
        exact hrest
    | some sa =>
      have hnext : x.offset (i + 1) = x.offset i + nextSa w (x.body (x.offset i)).toNat := by
        rw [x.saLen_eq hi hsa, ← sa.length_bytes, RtMsg.offset, packed_range_succ, hsa, List.length_append]
        rfl
      rw [if_pos Option.isSome_some]
      cases k with
      | zero =>
        show some (x.offset i) = (x.sas i).map _
        rw [hsa]
        rfl
      | succ k =>
        have hrest := ih (i := i + 1) (by omega) (Nat.lt_of_succ_lt_succ hk)
        rw [hnext, Nat.add_assoc i, Nat.add_comm 1 k] at hrest
        exact hrest

/-- **The table of a message**: each address is found where it starts. -/
theorem RtMsg.rtiInfo_eq (x : RtMsg w) {i : ℕ} (hi : i < RTAX_MAX) :
    rtiInfo w x.addrs x.body i = (x.sas i).map fun _ => x.offset i := by
  have hloop := x.rtaddrsLoop_getD RTAX_MAX (Nat.add_zero _) hi
  rw [Nat.zero_add] at hloop
  exact hloop

theorem RtMsg.saBytes_eq (x : RtMsg w) {i : ℕ} (hi : i < RTAX_MAX) :
    (rtiInfo w x.addrs x.body i).map (saBytes x.body) = (x.sas i).map PaddedSa.value := by
  rw [x.rtiInfo_eq hi]
  cases hsa : x.sas i with
  | none => rfl
  | some sa =>
    have hle := sa.saLen_le
    have hslice := x.slice_offset hi hsa
    have hvalue : saBytes x.body (x.offset i) = sa.value := by
      rw [saBytes, x.saLen_eq hi hsa, PaddedSa.value]
      have happend := x.body.slice_append (Nat.le_add_right (x.offset i) (sa.bytes.headD 0).toNat)
        (Nat.add_le_add_left hle (x.offset i))
      have htake := congrArg (List.take (sa.bytes.headD 0).toNat) (happend.trans hslice)
      rw [List.take_append_of_le_length (by rw [Memory.length_slice]; omega), List.take_of_length_le
        (by rw [Memory.length_slice]; omega)] at htake
      exact htake
    exact congrArg some hvalue

end Table

end UnixNetProg.Libroute
