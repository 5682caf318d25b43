import Mathlib.Algebra.Ring.Nat
import Mathlib.Data.Nat.Count
import UnixNetProg.Libroute.GetRtaddrs

/-!
# The list of addresses behind a mask (`libroute/get_rtaddrs.c`)

The addresses of a message, given as a list in the order of the bits that they belong to. An address occupies its
`sa_len` rounded up to a multiple of `sizeof(u_long)`, which is a power of 2, and an address without a length one
`u_long`. The run of `get_rtaddrs` is that of `getRtaddrs` with the places where it looks at a `sa_len`.
-/

namespace UnixNetProg.Libroute

open Lib

structure RtaddrsRun where
  rtiInfo : List (Option ℕ)
  saLens : List ℕ
  deriving DecidableEq, Repr

section Run

variable (w addrs : ℕ) (body : Memory Byte)

/-- The loop of `get_rtaddrs`, which looks at a `sa_len` in `NEXT_SA`. -/
def rtaddrsRunLoop : ℕ → ℕ → ℕ → RtaddrsRun
  | 0, _, _ => ⟨[], []⟩
  | n + 1, i, sa =>
    if addrs.testBit i then
      let r := rtaddrsRunLoop n (i + 1) (sa + nextSa w (body sa).toNat)
      ⟨some sa :: r.rtiInfo, sa :: r.saLens⟩
    else
      let r := rtaddrsRunLoop n (i + 1) sa
      ⟨none :: r.rtiInfo, r.saLens⟩

def getRtaddrsRun : RtaddrsRun := rtaddrsRunLoop w addrs body RTAX_MAX 0 0

variable {w addrs body}

theorem rtaddrsRunLoop_rtiInfo (n i sa : ℕ) :
    (rtaddrsRunLoop w addrs body n i sa).rtiInfo = rtaddrsLoop w addrs body n i sa := by
  induction n generalizing i sa with
  | zero => rfl
  | succ n ih =>
    rw [rtaddrsRunLoop, rtaddrsLoop]
    split_ifs
    · exact congrArg _ (ih _ _)
    · exact congrArg _ (ih _ _)

theorem rtaddrsRunLoop_saLens (n i sa : ℕ) :
    (rtaddrsRunLoop w addrs body n i sa).saLens = (rtaddrsLoop w addrs body n i sa).filterMap id := by
  induction n generalizing i sa with
  | zero => rfl
  | succ n ih =>
    rw [rtaddrsRunLoop, rtaddrsLoop]
    split_ifs
    · rw [List.filterMap_cons_some (show id (some sa) = some sa from rfl)]
      exact congrArg _ (ih _ _)
    · rw [List.filterMap_cons_none (show id (none : Option ℕ) = none from rfl)]
      exact ih _ _

theorem length_rtaddrsLoop (n i sa : ℕ) : (rtaddrsLoop w addrs body n i sa).length = n := by
  induction n generalizing i sa with
  | zero => rfl
  | succ n ih =>
    rw [rtaddrsLoop]
    split_ifs
    · exact congrArg _ (ih _ _)
    · exact congrArg _ (ih _ _)

end Run

/-! ### What an address occupies -/

def occupied (w saLen : ℕ) : ℕ := if saLen = 0 then w else (saLen + (w - 1)) / w * w

theorem or_two_pow_sub_one (a k : ℕ) : a ||| (2 ^ k - 1) = 2 ^ k * (a / 2 ^ k) + (2 ^ k - 1) := by
  have hpos := Nat.two_pow_pos k
  have hmod : a % 2 ^ k < 2 ^ k := Nat.mod_lt a hpos
  have hmask : 2 ^ k - 1 < 2 ^ k := Nat.sub_lt hpos Nat.one_pos
  have hlow : a % 2 ^ k ||| (2 ^ k - 1) = 2 ^ k - 1 :=
    Nat.le_antisymm (Nat.le_sub_one_of_lt (Nat.or_lt_two_pow hmod hmask)) Nat.right_le_or
  calc a ||| (2 ^ k - 1) = (2 ^ k * (a / 2 ^ k) + a % 2 ^ k) ||| (2 ^ k - 1) := by rw [Nat.div_add_mod]
    _ = 2 ^ k * (a / 2 ^ k) ||| (a % 2 ^ k ||| (2 ^ k - 1)) := by
      rw [Nat.two_pow_add_eq_or_of_lt hmod, Nat.or_assoc]
    _ = 2 ^ k * (a / 2 ^ k) + (2 ^ k - 1) := by rw [hlow, ← Nat.two_pow_add_eq_or_of_lt hmask]

theorem roundup_eq (k a : ℕ) : roundup a (2 ^ k) = (a + (2 ^ k - 1)) / 2 ^ k * 2 ^ k := by
  have hpos := Nat.two_pow_pos k
  have hmask : (2 ^ k - 1) / 2 ^ k = 0 := Nat.div_eq_of_lt (Nat.sub_lt hpos Nat.one_pos)
  have hdiv := Nat.div_add_mod a (2 ^ k)
  have hmod : a % 2 ^ k < 2 ^ k := Nat.mod_lt a hpos
  rw [roundup, Nat.and_two_pow_sub_one_eq_mod, or_two_pow_sub_one]
  by_cases hzero : a % 2 ^ k = 0
  · have hsum : a + (2 ^ k - 1) = 2 ^ k * (a / 2 ^ k) + (2 ^ k - 1) := by omega
    rw [if_neg (not_not.mpr hzero), hsum, Nat.mul_add_div hpos, hmask, Nat.add_zero, Nat.mul_comm]
    omega
  · have hsum : a + (2 ^ k - 1) = 2 ^ k * (a / 2 ^ k + 1) + (a % 2 ^ k - 1) := by
      rw [Nat.mul_succ]
      omega
    have hrest : (a % 2 ^ k - 1) / 2 ^ k = 0 := Nat.div_eq_of_lt (by omega)
    rw [if_pos hzero, hsum, Nat.mul_add_div hpos, hrest, Nat.add_zero, Nat.mul_comm _ (2 ^ k), Nat.mul_succ]
    omega

theorem nextSa_eq (k saLen : ℕ) : nextSa (2 ^ k) saLen = occupied (2 ^ k) saLen := by
  rw [nextSa, occupied, roundup_eq, ite_not]

theorem le_occupied (k saLen : ℕ) : saLen ≤ occupied (2 ^ k) saLen := by
  rw [occupied]
  split_ifs with hzero
  · rw [hzero]
    exact Nat.zero_le _
  · have hpos := Nat.two_pow_pos k
    have hdiv := Nat.div_add_mod' (saLen + (2 ^ k - 1)) (2 ^ k)
    have hmod := Nat.mod_lt (saLen + (2 ^ k - 1)) hpos
    omega

/-- An address of a list, with the bytes behind its `sa_len` up to the next one. -/
structure ListedSa (w : ℕ) where
  saLen : Byte
  rest : List Byte
  length_rest : 1 + rest.length = occupied w saLen.toNat

def ListedSa.bytes {w : ℕ} (x : ListedSa w) : List Byte := x.saLen :: x.rest

/-! ### Where the addresses are -/

/-- How many bits there are below bit `i`. -/
def before (addrs i : ℕ) : ℕ := Nat.count (fun b => addrs.testBit b = true) i

/-- Where the address of number `j` starts. -/
def startOf {w : ℕ} (sas : List (ListedSa w)) (j : ℕ) : ℕ := ((sas.take j).map fun x => occupied w x.saLen.toNat).sum

section Decode

variable {k addrs i : ℕ} {body : Memory Byte}

theorem ListedSa.length_bytes {w : ℕ} (x : ListedSa w) : x.bytes.length = occupied w x.saLen.toNat := by
  rw [← x.length_rest, ListedSa.bytes, List.length_cons, Nat.add_comm]

/-- The address as one of a message. -/
def ListedSa.padded (x : ListedSa (2 ^ k)) : PaddedSa (2 ^ k) where
  bytes := x.bytes
  length_bytes := x.length_bytes.trans (nextSa_eq k x.saLen.toNat).symm
  saLen_le := by
    rw [x.length_bytes]
    exact le_occupied k x.saLen.toNat
  ne_nil := List.cons_ne_nil _ _

theorem length_flatMap_take {w : ℕ} (sas : List (ListedSa w)) (j : ℕ) :
    ((sas.take j).flatMap ListedSa.bytes).length = startOf sas j := by
  rw [List.length_flatMap, startOf]
  exact congrArg List.sum (List.map_congr_left fun x _ => x.length_bytes)

theorem before_succ_of_testBit (h : addrs.testBit i = true) : before addrs (i + 1) = before addrs i + 1 := by
  rw [before, Nat.count_succ, if_pos h]
  rfl

theorem before_succ_of_not (h : ¬ addrs.testBit i = true) : before addrs (i + 1) = before addrs i := by
  rw [before, Nat.count_succ, if_neg h]
  rfl

theorem before_lt (h : addrs.testBit i = true) (hi : i < RTAX_MAX) : before addrs i < before addrs RTAX_MAX :=
  Nat.count_strict_mono h hi

/-- The address of bit `i`. -/
def addressOf (addrs : ℕ) (sas : List (ListedSa (2 ^ k))) (i : ℕ) : Option (PaddedSa (2 ^ k)) :=
  if addrs.testBit i then (sas[before addrs i]?).map ListedSa.padded else none

theorem packed_addressOf (addrs : ℕ) (sas : List (ListedSa (2 ^ k))) (i : ℕ) :
    packed (addressOf addrs sas) (List.range i) = (sas.take (before addrs i)).flatMap ListedSa.bytes := by
  induction i with
  | zero => rfl
  | succ i ih =>
    rw [packed_range_succ, ih, addressOf]
    by_cases hbit : addrs.testBit i = true
    · rw [if_pos hbit, before_succ_of_testBit hbit, List.take_add_one, List.flatMap_append]
      cases sas[before addrs i]? with
      | none => rfl
      | some x =>
        rw [Option.toList_some, List.flatMap_singleton]
        rfl
    · rw [if_neg hbit, before_succ_of_not hbit]
      exact List.append_nil _

/-- The message that a list of addresses makes. -/
def listMsg (addrs : ℕ) (sas : List (ListedSa (2 ^ k))) (body : Memory Byte)
    (hcount : sas.length = before addrs RTAX_MAX)
    (hbody : body.slice 0 (sas.flatMap ListedSa.bytes).length = sas.flatMap ListedSa.bytes) : RtMsg (2 ^ k) where
  addrs := addrs
  body := body
  sas := addressOf addrs sas
  mask := by
    intro i hi
    rw [addressOf]
    by_cases hbit : addrs.testBit i = true
    · rw [if_pos hbit, List.getElem?_eq_getElem (hcount ▸ before_lt hbit hi)]
      exact hbit
    · rw [if_neg hbit]
      exact Bool.eq_false_iff.mpr hbit
  body_eq := by
    rw [packed_addressOf, ← hcount, List.take_length]
    exact hbody

/-- The entry of `rti_info` for a list of addresses. -/
def entryOf (addrs : ℕ) (sas : List (ListedSa (2 ^ k))) (i : ℕ) : Option ℕ :=
  if addrs.testBit i then some (startOf sas (before addrs i)) else none

theorem filterMap_entryOf (addrs : ℕ) (sas : List (ListedSa (2 ^ k))) (i : ℕ) :
    (List.range i).filterMap (entryOf addrs sas) = (List.range (before addrs i)).map (startOf sas) := by
  induction i with
  | zero => rfl
  | succ i ih =>
    rw [List.range_succ, List.filterMap_append, ih]
    by_cases hbit : addrs.testBit i = true
    · have hentry : entryOf addrs sas i = some (startOf sas (before addrs i)) := if_pos hbit
      rw [List.filterMap_cons_some hentry, before_succ_of_testBit hbit, List.range_succ, List.map_append]
      rfl
    · have hentry : entryOf addrs sas i = none := if_neg hbit
      rw [List.filterMap_cons_none hentry, before_succ_of_not hbit]
      exact List.append_nil _

variable {sas : List (ListedSa (2 ^ k))}

theorem exists_addressOf (hcount : sas.length = before addrs RTAX_MAX) (hi : i < RTAX_MAX)
    (hbit : addrs.testBit i = true) :
    ∃ x, sas[before addrs i]? = some x ∧ addressOf addrs sas i = some x.padded := by
  have hlt : before addrs i < sas.length := hcount ▸ before_lt hbit hi
  refine ⟨sas[before addrs i], List.getElem?_eq_getElem hlt, ?_⟩
  rw [addressOf, if_pos hbit, List.getElem?_eq_getElem hlt]
  rfl

theorem offset_eq (x : RtMsg (2 ^ k)) (hx : x.sas = addressOf addrs sas) (i : ℕ) :
    x.offset i = startOf sas (before addrs i) := by
  rw [RtMsg.offset, hx, packed_addressOf, length_flatMap_take]

theorem getRtaddrs_eq (hcount : sas.length = before addrs RTAX_MAX)
    (hbody : body.slice 0 (sas.flatMap ListedSa.bytes).length = sas.flatMap ListedSa.bytes) :
    getRtaddrs (2 ^ k) addrs body = (List.range RTAX_MAX).map (entryOf addrs sas) := by
  have hlen : (getRtaddrs (2 ^ k) addrs body).length = RTAX_MAX := length_rtaddrsLoop _ _ _
  apply List.ext_getElem
  · rw [hlen, List.length_map, List.length_range]
  · intro i hlt hlt'
    have hi : i < RTAX_MAX := hlen ▸ hlt
    have hinfo : (getRtaddrs (2 ^ k) addrs body).getD i none = (addressOf addrs sas i).map fun _ => _ :=
      (listMsg addrs sas body hcount hbody).rtiInfo_eq hi
    have hentry : (addressOf addrs sas i).map (fun _ => startOf sas (before addrs i)) = entryOf addrs sas i := by
      by_cases hbit : addrs.testBit i = true
      · obtain ⟨x, -, hx⟩ := exists_addressOf hcount hi hbit
        rw [hx, entryOf, if_pos hbit]
        rfl
      · rw [addressOf, entryOf, if_neg hbit, if_neg hbit]
        rfl
    rw [offset_eq _ rfl, hentry, List.getD_eq_getElem _ _ hlt] at hinfo
    rw [List.getElem_map, List.getElem_range]
    exact hinfo

/-- **The list of addresses** is decoded: the entry of each bit of the mask is where the address that belongs to it
starts, the others are `NULL`, and the `sa_len` of each address is looked at and nothing behind the last one. -/
theorem get_rtaddrs_decodes (k addrs : ℕ) (sas : List (ListedSa (2 ^ k))) (body : Memory Byte)
    (hcount : sas.length = before addrs RTAX_MAX)
    (hbody : body.slice 0 (sas.flatMap ListedSa.bytes).length = sas.flatMap ListedSa.bytes) :
    (getRtaddrsRun (2 ^ k) addrs body).rtiInfo = (List.range RTAX_MAX).map (fun i =>
        if addrs.testBit i then some (startOf sas (before addrs i)) else none) ∧
      (∀ i < RTAX_MAX, addrs.testBit i → ∃ x, sas[before addrs i]? = some x ∧
        body.slice (startOf sas (before addrs i)) (startOf sas (before addrs i) + x.bytes.length) = x.bytes) ∧
      (getRtaddrsRun (2 ^ k) addrs body).saLens = (List.range sas.length).map (startOf sas) := by
  have htable := getRtaddrs_eq hcount hbody
  refine ⟨?_, fun i hi hbit => ?_, ?_⟩
  · exact (rtaddrsRunLoop_rtiInfo _ _ _).trans htable
  · obtain ⟨x, hx, haddress⟩ := exists_addressOf hcount hi hbit
    have hslice := (listMsg addrs sas body hcount hbody).slice_offset hi haddress
    rw [offset_eq _ rfl] at hslice
    exact ⟨x, hx, hslice⟩
  · have hloop : (getRtaddrsRun (2 ^ k) addrs body).saLens = (getRtaddrs (2 ^ k) addrs body).filterMap id :=
      rtaddrsRunLoop_saLens _ _ _
    rw [hloop, htable, List.filterMap_map, hcount, ← filterMap_entryOf]
    rfl

/-- Addresses of 16, 0 and 20 bytes. -/
def threeSas : List (ListedSa (2 ^ 3)) :=
  [⟨16, List.replicate 15 1, by decide⟩, ⟨0, List.replicate 7 1, by decide⟩, ⟨20, List.replicate 23 1, by decide⟩]

/-- The bits 0, 2 and 4, and one that is none of the `RTAX_MAX`. -/
theorem get_rtaddrs_decodes_sample :
    getRtaddrsRun (2 ^ 3) 0b1000010101 (Memory.store (fun _ => 9) 0 (threeSas.flatMap ListedSa.bytes)) =
      ⟨[some 0, none, some 16, none, some 24, none, none, none], [0, 16, 24]⟩ := by
  obtain ⟨htable, -, hreads⟩ := get_rtaddrs_decodes 3 0b1000010101 threeSas
    (Memory.store (fun _ => 9) 0 (threeSas.flatMap ListedSa.bytes)) (by decide) (Memory.slice_store_zero _ _)
  generalize getRtaddrsRun (2 ^ 3) 0b1000010101 (Memory.store (fun _ => 9) 0 (threeSas.flatMap ListedSa.bytes)) = run
    at htable hreads ⊢
  obtain ⟨rtiInfo, saLens⟩ := run
  exact congrArg₂ RtaddrsRun.mk htable hreads

end Decode

end UnixNetProg.Libroute
