import UnixNetProg.Libfree.Inet4

/-!
# `inet_pton` for IPv6 (`libfree/inet_pton.c`)

A text for an IPv6 address is a list of fields with colons between them. A field is a hexadecimal group, or empty
at the gap `::`, and the last one can be an IPv4 address. The bytes behind the gap are moved to the end of `tmp[]`
when all of the text has been read.
-/

namespace UnixNetProg.Libfree

open Lib Libgai

/-- The locals of `inet_pton6`: `tp` and `colonp` are places in `tmp[]`, `curtok` is the string there. -/
structure Pton6 where
  tmp : Memory Byte
  tp : ℕ
  colonp : Option ℕ
  curtok : CString
  sawXdigit : Bool
  val : ℕ

/-- The two bytes of `val` at `tp`. -/
def Pton6.put (s : Pton6) : Pton6 :=
  { s with tmp := s.tmp.store s.tp [UInt8.ofNat (s.val >>> 8), UInt8.ofNat s.val], tp := s.tp + 2 }

def pton6Loop : CString → Pton6 → Option Pton6
  | [], s => some s
  | ch :: src, s =>
    if isxdigit ch then
      let val := s.val <<< 4 ||| hexDigit ch
      if 0xffff < val then none else pton6Loop src { s with val := val, sawXdigit := true }
    else if ch = 58 then
      if ¬ s.sawXdigit then
        if s.colonp.isSome then none else pton6Loop src { s with curtok := src, colonp := some s.tp }
      else if 16 < s.tp + 2 then none
      else pton6Loop src { s.put with curtok := src, sawXdigit := false, val := 0 }
    else if ch = 46 ∧ s.tp + 4 ≤ 16 then
      match inetPton4 s.curtok with
      | some addr => some { s with tmp := s.tmp.store s.tp addr, tp := s.tp + 4, sawXdigit := false }
      | none => none
    else none

/-- `tmp[]` after `i` steps of the shift by hand, of which there are `n`. -/
def shiftLoop (colonp n : ℕ) (tmp : Memory Byte) : ℕ → Memory Byte
  | 0 => tmp
  | i + 1 =>
    let tmp' := shiftLoop colonp n tmp i
    (tmp'.store (16 - (i + 1)) [tmp' (colonp + (n - (i + 1)))]).store (colonp + (n - (i + 1))) [0]

/-- What follows the loop. -/
def pton6End (s : Pton6) : Option (List Byte) :=
  if s.sawXdigit ∧ 16 < s.tp + 2 then none
  else
    let s := if s.sawXdigit then s.put else s
    match s.colonp with
    | some colonp => some ((shiftLoop colonp (s.tp - colonp) s.tmp (s.tp - colonp)).slice 0 16)
    | none => if s.tp ≠ 16 then none else some (s.tmp.slice 0 16)

/-- Leading :: requires some special handling. -/
def inetPton6 (src : CString) : Option (List Byte) :=
  if firstByte src = 58 then
    if firstByte src.tail ≠ 58 then none
    else (pton6Loop src.tail ⟨fun _ => 0, 0, none, src.tail, false, 0⟩).bind pton6End
  else (pton6Loop src ⟨fun _ => 0, 0, none, src, false, 0⟩).bind pton6End

/-! ### The shift -/

/-- The cells of `tmp[]` while the bytes of `done` behind the gap move, the last ones first. -/
structure Shifted (done : List Byte) (i : ℕ) (tmp : Memory Byte) : Prop where
  front : ∀ k < done.length - i, tmp k = done.getD k 0
  zeros : ∀ k, done.length - i ≤ k → k < 16 - i → tmp k = 0
  back : ∀ k, 16 - i ≤ k → k < 16 → tmp k = if done.length = 16 then 0 else done.getD (k - (16 - done.length)) 0

theorem shifted_store (done : List Byte) : Shifted done 0 (Memory.store (fun _ => 0) 0 done) := by
  refine ⟨fun k hk => Memory.store_zero_of_lt _ 0 hk, fun k hk _ => ?_, fun k hk hlt => by omega⟩
  rw [Memory.store, dif_neg (by omega)]

theorem Shifted.step {done : List Byte} {i : ℕ} {tmp : Memory Byte} (h : Shifted done i tmp)
    (hdone : done.length ≤ 16) (hi : i < done.length) :
    Shifted done (i + 1) ((tmp.store (16 - (i + 1)) [tmp (done.length - (i + 1))]).store
      (done.length - (i + 1)) [0]) := by
  have hstore : ∀ (m : Memory Byte) (j k : ℕ) (b : Byte), m.store j [b] k = if k = j then b else m k := by
    intro m j k b
    by_cases hk : k = j
    · subst hk
      simp [Memory.store]
    · rw [if_neg hk, Memory.store, dif_neg (by simp; omega)]
  have hlast := h.front (done.length - (i + 1)) (by omega)
  refine ⟨fun k hk => ?_, fun k hk hlt => ?_, fun k hk hlt => ?_⟩
  · rw [hstore, if_neg (by omega), hstore, if_neg (by omega)]
    exact h.front k (by omega)
  · rw [hstore]
    by_cases hnew : k = done.length - (i + 1)
    · rw [if_pos hnew]
    · rw [if_neg hnew, hstore, if_neg (by omega)]
      exact h.zeros k (by omega) (by omega)
  · rw [hstore, hstore]
    by_cases hfull : done.length = 16
    · by_cases hnew : k = 16 - (i + 1)
      · rw [if_pos (by omega), if_pos hfull]
      · rw [if_neg (by omega), if_neg hnew]
        exact h.back k (by omega) hlt
    · rw [if_neg (by omega)]
      by_cases hnew : k = 16 - (i + 1)
      · have hk : k - (16 - done.length) = done.length - (i + 1) := by omega
        rw [if_pos hnew, if_neg hfull, hk, hlast]
      · rw [if_neg hnew]
        exact h.back k (by omega) hlt

theorem shifted_shiftLoop {done : List Byte} (hdone : done.length ≤ 16) {p : ℕ} (hp : p ≤ done.length) (i : ℕ)
    (hi : i ≤ done.length - p) :
    Shifted done i (shiftLoop p (done.length - p) (Memory.store (fun _ => 0) 0 done) i) := by
  induction i with
  | zero => exact shifted_store done
  | succ i ih =>
    have hplace : p + (done.length - p - (i + 1)) = done.length - (i + 1) := by omega
    rw [shiftLoop, hplace]
    exact (ih (by omega)).step hdone (by omega)

/-- The 16 bytes for a text with a gap before the byte `p`: a gap that stands for nothing sets to 0 what is behind
it. -/
def fillGap (done : List Byte) (p : ℕ) : List Byte :=
  done.take p ++ List.replicate (16 - done.length) 0 ++
    if done.length = 16 then List.replicate (16 - p) 0 else done.drop p

theorem slice_eq_replicate {m : Memory Byte} {i j : ℕ} (h : ∀ k, i ≤ k → k < j → m k = 0) :
    m.slice i j = List.replicate (j - i) 0 := by
  rw [List.eq_replicate_iff]
  refine ⟨Memory.length_slice m i j, fun b hb => ?_⟩
  obtain ⟨k, hk, rfl⟩ := List.mem_map.mp hb
  obtain ⟨hle, hlt⟩ := List.mem_range'_1.mp hk
  exact h k hle (by omega)

theorem slice_shiftLoop {done : List Byte} (hdone : done.length ≤ 16) {p : ℕ} (hp : p ≤ done.length) :
    (shiftLoop p (done.length - p) (Memory.store (fun _ => 0) 0 done) (done.length - p)).slice 0 16 =
      fillGap done p := by
  have h := shifted_shiftLoop hdone hp (done.length - p) (le_refl _)
  revert h
  generalize shiftLoop p (done.length - p) (Memory.store (fun _ => 0) 0 done) (done.length - p) = tmp
  intro h
  have hfront : tmp.slice 0 p = done.take p := by
    refine List.ext_getElem? fun k => ?_
    by_cases hk : k < p
    · rw [Memory.getElem?_slice _ (by omega), Nat.zero_add, h.front k (by omega), List.getElem?_take_of_lt hk,
        List.getD_eq_getElem _ _ (by omega), List.getElem?_eq_getElem]
    · rw [List.getElem?_eq_none (by simp; omega), List.getElem?_eq_none (by simp; omega)]
  have hzeros : tmp.slice p (p + (16 - done.length)) = List.replicate (16 - done.length) 0 := by
    rw [slice_eq_replicate fun k hk hlt => h.zeros k (by omega) (by omega), Nat.add_sub_cancel_left]
  have hback : tmp.slice (p + (16 - done.length)) 16 =
      if done.length = 16 then List.replicate (16 - p) 0 else done.drop p := by
    split_ifs with hfull
    · rw [hfull, Nat.sub_self, Nat.add_zero]
      refine slice_eq_replicate fun k hk hlt => ?_
      rw [h.back k (by omega) hlt, if_pos hfull]
    · refine List.ext_getElem? fun k => ?_
      by_cases hk : k < done.length - p
      · have hcell : p + (16 - done.length) + k - (16 - done.length) = p + k := by omega
        rw [Memory.getElem?_slice _ (by omega), h.back _ (by omega) (by omega), if_neg hfull, hcell,
          List.getElem?_drop, List.getD_eq_getElem _ _ (by omega), List.getElem?_eq_getElem]
      · rw [List.getElem?_eq_none (by simp; omega), List.getElem?_eq_none (by simp; omega)]
  rw [fillGap, ← hfront, ← hzeros, ← hback, Memory.slice_append _ (Nat.zero_le p) (Nat.le_add_right _ _),
    Memory.slice_append _ (Nat.zero_le _) (by omega)]

/-! ### The fields -/

/-- A numeral of at most 0xffff, with any number of zeros in front. -/
structure Group where
  digits : CString
  ne_nil : digits ≠ []
  all_xdigits : ∀ c ∈ digits, isxdigit c
  le : numeral 16 hexDigit 0 digits ≤ 0xffff

def Group.value (g : Group) : List Byte := bytes16 .big (numeral 16 hexDigit 0 g.digits)

/-- The group that a field is, if it is one. -/
def group? (f : CString) : Option (List Byte) :=
  if f ≠ [] ∧ AllOf isxdigit f ∧ numeral 16 hexDigit 0 f ≤ 0xffff then
    some (bytes16 .big (numeral 16 hexDigit 0 f))
  else none

theorem group?_eq_none_of_mem {c : Byte} {f : CString} (hc : c ∈ f) (hxdigit : ¬ isxdigit c = true) : group? f = none :=
  if_neg fun hgroup => hxdigit (hgroup.2.1 c hc)

theorem group?_append_eq_none {ds : CString} (h : 0xffff < numeral 16 hexDigit 0 ds) (f : CString) :
    group? (ds ++ f) = none := by
  refine if_neg fun hgroup => ?_
  have hle := numeral_le_append (show 0 < 16 by decide) hexDigit 0 ds f
  omega

/-- The last field can also be empty, or an IPv4 address. -/
def lastField? (f : CString) : Option (List Byte) := if f = [] then some [] else (group? f).or (inetPton4 f)

/-- The address for the bytes that were read, with the gap before the byte `p` of them. -/
def addrOf (done : List Byte) (gap : Option ℕ) : Option (List Byte) :=
  if 16 < done.length then none
  else
    match gap with
    | some p => some (fillGap done p)
    | none => if done.length = 16 then some done else none

theorem addrOf_eq_none {done : List Byte} (h : 16 < done.length) (gap : Option ℕ) : addrOf done gap = none := if_pos h

theorem addrOf_of_le {done : List Byte} (h : done.length ≤ 16) (gap : Option ℕ) :
    addrOf done gap =
      match gap with
      | some p => some (fillGap done p)
      | none => if done.length = 16 then some done else none := if_neg (Nat.not_lt_of_le h)

/-- The address for the bytes that were read and the fields that are left. -/
def fieldsFrom (done : List Byte) (gap : Option ℕ) : List CString → Option (List Byte)
  | [] => none
  | [f] => (lastField? f).bind fun bytes => addrOf (done ++ bytes) gap
  | f :: fs =>
    if f = [] then if gap.isSome then none else fieldsFrom done (some done.length) fs
    else (group? f).bind fun bytes => fieldsFrom (done ++ bytes) gap fs

theorem fieldsFrom_eq_none (fs : List CString) {done : List Byte} (hdone : 16 < done.length) (gap : Option ℕ) :
    fieldsFrom done gap fs = none := by
  induction fs generalizing done gap with
  | nil => rfl
  | cons f fs ih =>
    cases fs with
    | nil =>
      rw [fieldsFrom]
      cases lastField? f with
      | none => rfl
      | some bytes => exact addrOf_eq_none (by rw [List.length_append]; omega) gap
    | cons f' fs =>
      rw [fieldsFrom]
      · split_ifs
        · rfl
        · exact ih hdone _
        · cases group? f with
          | none => rfl
          | some bytes => exact ih (by rw [List.length_append]; omega) _
      · intro h
        cases h

theorem fieldsFrom_cons (done : List Byte) (gap : Option ℕ) (f : CString) {fs : List CString} (hne : fs ≠ []) :
    fieldsFrom done gap (f :: fs) =
      if f = [] then if gap.isSome then none else fieldsFrom done (some done.length) fs
      else (group? f).bind fun bytes => fieldsFrom (done ++ bytes) gap fs := by
  cases fs with
  | nil => exact absurd rfl hne
  | cons f' fs =>
    rw [fieldsFrom]
    intro h
    cases h

/-! ### What the loop reads -/

theorem isxdigit_iff {c : Byte} :
    isxdigit c = true ↔ 48 ≤ c.toNat ∧ c.toNat ≤ 57 ∨ 97 ≤ c.toNat ∧ c.toNat ≤ 102 ∨ 65 ≤ c.toNat ∧ c.toNat ≤ 70 := by
  simp only [isxdigit, isdigit, Bool.or_eq_true, Bool.and_eq_true, decide_eq_true_eq, UInt8.le_iff_toNat_le, or_assoc]
  exact Iff.rfl

theorem hexDigit_lt {c : Byte} (h : isxdigit c = true) : hexDigit c < 16 := by
  have hc := isxdigit_iff.mp h
  rw [hexDigit]
  simp only [isdigit, Bool.and_eq_true, decide_eq_true_eq, UInt8.le_iff_toNat_le, UInt8.reduceToNat]
  split_ifs <;> omega

theorem isxdigit_of_isdigit {c : Byte} (h : isdigit c = true) : isxdigit c = true ∧ hexDigit c = decDigit c := by
  refine ⟨?_, if_pos h⟩
  rw [isxdigit, h]
  rfl

theorem not_isxdigit_colon : ¬ isxdigit 58 = true := by decide

theorem not_isxdigit_dot : ¬ isxdigit 46 = true := by decide

theorem decDigit_lt {c : Byte} (h : isdigit c = true) : decDigit c < 10 := by
  simp only [isdigit, Bool.and_eq_true, decide_eq_true_eq, UInt8.le_iff_toNat_le, UInt8.reduceToNat] at h
  rw [decDigit]
  omega

theorem mem_intercalate {sep c : Byte} {fs : List CString} (h : c ∈ [sep].intercalate fs) :
    c = sep ∨ ∃ f ∈ fs, c ∈ f := by
  induction fs with
  | nil => cases h
  | cons f fs ih =>
    cases fs with
    | nil =>
      rw [List.intercalate_singleton] at h
      exact .inr ⟨f, List.mem_cons_self, h⟩
    | cons f' fs =>
      rw [List.intercalate_cons_cons, List.mem_append, List.mem_append, List.mem_singleton] at h
      rcases h with (hf | hsep) | hfs
      · exact .inr ⟨f, List.mem_cons_self, hf⟩
      · exact .inl hsep
      · refine (ih hfs).imp_right ?_
        rintro ⟨g, hg, hc⟩
        exact ⟨g, List.mem_cons_of_mem f hg, hc⟩

theorem isdigit_or_dot_of_inetPton4 {s : CString} {addr : List Byte} (h : inetPton4 s = some addr) :
    addr.length = 4 ∧ ∀ c ∈ s, isdigit c = true ∨ c = 46 := by
  obtain ⟨os, hlen, rfl, rfl⟩ := exists_octets_of_inetPton4 h
  refine ⟨by rw [List.length_map, hlen], fun c hc => ?_⟩
  rcases mem_intercalate hc with hc | ⟨f, hf, hc⟩
  · exact .inr hc
  · obtain ⟨o, -, rfl⟩ := List.mem_map.mp hf
    exact .inl (o.all_digits c hc)

theorem inetPton4_eq_none_of_mem {c : Byte} {s : CString} (hc : c ∈ s) (hdigit : ¬ isdigit c = true) (hdot : c ≠ 46) :
    inetPton4 s = none := by
  rw [Option.eq_none_iff_forall_ne_some]
  intro addr haddr
  exact ((isdigit_or_dot_of_inetPton4 haddr).2 c hc).elim hdigit hdot

/-- A dotted quad does not start with more than 0xffff: an octet has at most three digits behind its zeros. -/
theorem inetPton4_append_eq_none {ds : CString} (hds : ∀ c ∈ ds, isxdigit c)
    (h : 0xffff < numeral 16 hexDigit 0 ds) (src : CString) : inetPton4 (ds ++ src) = none := by
  have hdot : 46 ∉ ds := fun hmem => not_isxdigit_dot (hds 46 hmem)
  obtain ⟨f, fs, -, hsplit⟩ := exists_splitOn_append hdot src
  have hnone : octet? (ds ++ f) = none := by
    refine if_neg fun hoctet => ?_
    obtain ⟨-, hdigits, hle⟩ := hoctet
    have hlt : numeral 16 hexDigit 0 (ds ++ f) < 16 ^ 3 := by
      refine numeral_lt_pow (show 10 ≤ 16 by decide) (fun c hc => ?_)
        (show numeral 10 decDigit 0 (ds ++ f) < 10 ^ 3 by omega)
      exact ⟨decDigit_lt (hdigits c hc), (isxdigit_of_isdigit (hdigits c hc)).2⟩
    have hge := numeral_le_append (show 0 < 16 by decide) hexDigit 0 ds f
    omega
  rw [inetPton4_eq, hsplit, octetsFrom_cons_none hnone]

/-- `ds` is what has been read of the field that the loop is in, `src` the string that is left. -/
structure Pton6.At (s : Pton6) (done : List Byte) (gap : Option ℕ) (ds src : CString) : Prop where
  tmp : s.tmp = Memory.store (fun _ => 0) 0 done
  tp : s.tp = done.length
  colonp : s.colonp = gap
  gap_le : ∀ p ∈ gap, p ≤ done.length
  curtok : s.curtok = ds ++ src
  xdigits : ∀ c ∈ ds, isxdigit c
  sawXdigit : s.sawXdigit = decide (ds ≠ [])
  val : s.val = numeral 16 hexDigit 0 ds
  le : numeral 16 hexDigit 0 ds ≤ 0xffff
  room : done.length ≤ 16

variable {s : Pton6} {done : List Byte} {gap : Option ℕ} {ds src : CString}

namespace Pton6.At

theorem not_mem {c : Byte} (h : s.At done gap ds src) (hc : ¬ isxdigit c = true) : c ∉ ds :=
  fun hmem => hc (h.xdigits c hmem)

theorem new_val (h : s.At done gap ds src) {ch : Byte} (hch : isxdigit ch = true) :
    s.val <<< 4 ||| hexDigit ch = numeral 16 hexDigit 0 (ds ++ [ch]) := by
  rw [← Nat.shiftLeft_add_eq_or_of_lt (hexDigit_lt hch), numeral_concat, h.val, Nat.shiftLeft_eq, Nat.mul_comm]

theorem xdigit {ch : Byte} (h : s.At done gap ds (ch :: src)) (hch : isxdigit ch = true)
    (hle : numeral 16 hexDigit 0 (ds ++ [ch]) ≤ 0xffff) :
    { s with val := numeral 16 hexDigit 0 (ds ++ [ch]), sawXdigit := true : Pton6 }.At done gap (ds ++ [ch]) src where
  tmp := h.tmp
  tp := h.tp
  colonp := h.colonp
  gap_le := h.gap_le
  curtok := by rw [h.curtok, List.append_assoc]; rfl
  xdigits := List.forall_mem_append.mpr ⟨h.xdigits, List.forall_mem_singleton.mpr hch⟩
  sawXdigit := by simp
  val := rfl
  le := hle
  room := h.room

theorem colon (h : s.At done none [] (58 :: src)) :
    { s with curtok := src, colonp := some s.tp : Pton6 }.At done (some done.length) [] src where
  tmp := h.tmp
  tp := h.tp
  colonp := congrArg some h.tp
  gap_le := by simp
  curtok := rfl
  xdigits := h.xdigits
  sawXdigit := h.sawXdigit
  val := h.val
  le := h.le
  room := h.room

theorem group? (h : s.At done gap ds src) (hne : ds ≠ []) :
    Libfree.group? ds = some (bytes16 .big (numeral 16 hexDigit 0 ds)) := if_pos ⟨hne, h.xdigits, h.le⟩

theorem put_tmp (h : s.At done gap ds src) :
    s.put.tmp = Memory.store (fun _ => 0) 0 (done ++ bytes16 .big (numeral 16 hexDigit 0 ds)) := by
  have hstore := Memory.store_append (fun _ => 0) 0 done (bytes16 .big (numeral 16 hexDigit 0 ds))
  rw [Nat.zero_add] at hstore
  rw [← hstore, Pton6.put, h.tmp, h.tp, h.val, Nat.shiftRight_eq_div_pow]
  rfl

theorem put_tp (h : s.At done gap ds src) :
    s.put.tp = (done ++ bytes16 .big (numeral 16 hexDigit 0 ds)).length := by
  rw [Pton6.put, h.tp, List.length_append, length_bytes16]

theorem group {c : Byte} (h : s.At done gap ds (c :: src)) (hroom : done.length + 2 ≤ 16) :
    { s.put with curtok := src, sawXdigit := false, val := 0 : Pton6 }.At
      (done ++ bytes16 .big (numeral 16 hexDigit 0 ds)) gap [] src where
  tmp := h.put_tmp
  tp := h.put_tp
  colonp := h.colonp
  gap_le := fun p hp => le_trans (h.gap_le p hp) (by rw [List.length_append]; exact Nat.le_add_right _ _)
  curtok := rfl
  xdigits := by simp
  sawXdigit := rfl
  val := rfl
  le := by simp
  room := by rw [List.length_append, length_bytes16]; exact hroom

theorem pton6Loop_dot (h : s.At done gap ds (46 :: src)) :
    pton6Loop (46 :: src) s =
      if done.length + 4 ≤ 16 then
        (inetPton4 (ds ++ 46 :: src)).map fun addr =>
          { s with tmp := s.tmp.store s.tp addr, tp := s.tp + 4, sawXdigit := false }
      else none := by
  rw [pton6Loop, if_neg not_isxdigit_dot, if_neg (by decide), h.tp, h.curtok]
  by_cases hroom : done.length + 4 ≤ 16
  · rw [if_pos ⟨rfl, hroom⟩, if_pos hroom]
    cases inetPton4 (ds ++ 46 :: src) with
    | none => rfl
    | some addr => rfl
  · rw [if_neg fun hand => hroom hand.2, if_neg hroom]

end Pton6.At

theorem pton6End_eq (htmp : s.tmp = Memory.store (fun _ => 0) 0 done) (htp : s.tp = done.length)
    (hgap : ∀ p ∈ s.colonp, p ≤ done.length) (hroom : done.length ≤ 16) (hsaw : s.sawXdigit = false) :
    pton6End s = addrOf done s.colonp := by
  have hnot : ¬ s.sawXdigit = true := by simp [hsaw]
  rw [pton6End, if_neg fun h => hnot h.1, if_neg hnot, addrOf_of_le hroom]
  dsimp only
  rw [htmp, htp]
  cases hc : s.colonp with
  | some p => exact congrArg some (slice_shiftLoop hroom (hgap p hc))
  | none =>
    dsimp only
    by_cases hfull : done.length = 16
    · have hslice := Memory.slice_store_zero (fun _ => 0) done
      rw [hfull] at hslice
      rw [if_neg (not_not_intro hfull), if_pos hfull, hslice]
    · rw [if_pos hfull, if_neg hfull]

theorem Pton6.At.last (h : s.At done gap ds []) :
    pton6End s = (lastField? ds).bind fun bytes => addrOf (done ++ bytes) gap := by
  have hgap := h.gap_le
  rw [← h.colonp] at hgap ⊢
  by_cases hnil : ds = []
  · have hsaw : s.sawXdigit = false := by rw [h.sawXdigit, hnil]; rfl
    rw [pton6End_eq h.tmp h.tp hgap h.room hsaw, hnil]
    exact congrArg (addrOf · s.colonp) (List.append_nil done).symm
  · have hsaw : s.sawXdigit = true := by rw [h.sawXdigit]; exact decide_eq_true hnil
    have hlast : lastField? ds = some (bytes16 .big (numeral 16 hexDigit 0 ds)) := by
      rw [lastField?, if_neg hnil, h.group? hnil]
      rfl
    rw [hlast, Option.bind_some]
    by_cases hfull : 16 < done.length + 2
    · rw [pton6End, if_pos ⟨hsaw, by rw [h.tp]; exact hfull⟩]
      exact (addrOf_eq_none (by rw [List.length_append, length_bytes16]; exact hfull) _).symm
    · have hput : pton6End s = pton6End { s.put with sawXdigit := false } := by
        rw [pton6End, if_neg (by rw [h.tp]; omega), if_pos hsaw]
        rfl
      rw [hput]
      exact pton6End_eq (s := { s.put with sawXdigit := false }) h.put_tmp h.put_tp
        (fun p hp => le_trans (hgap p hp) (by rw [List.length_append]; exact Nat.le_add_right _ _))
        (by rw [List.length_append, length_bytes16]; omega) rfl

theorem lastField?_eq_none {f : CString} (hne : f ≠ []) (hgroup : group? f = none) (hpton : inetPton4 f = none) :
    lastField? f = none := by
  rw [lastField?, if_neg hne, hgroup, hpton]
  rfl

theorem fieldsFrom_cons_none {f : CString} (hne : f ≠ []) (hgroup : group? f = none) (hpton : inetPton4 f = none)
    (done : List Byte) (gap : Option ℕ) (fs : List CString) : fieldsFrom done gap (f :: fs) = none := by
  cases fs with
  | nil =>
    rw [fieldsFrom, lastField?_eq_none hne hgroup hpton]
    rfl
  | cons f' fs =>
    rw [fieldsFrom_cons _ _ _ (by simp), if_neg hne, hgroup]
    rfl

theorem Pton6.At.dot (h : s.At done gap ds (46 :: src)) :
    (pton6Loop (46 :: src) s).bind pton6End =
      (inetPton4 (ds ++ 46 :: src)).bind fun addr => addrOf (done ++ addr) gap := by
  rw [h.pton6Loop_dot]
  cases hpton : inetPton4 (ds ++ 46 :: src) with
  | none => rw [Option.map_none, ite_self]; rfl
  | some addr =>
    have hlen := (isdigit_or_dot_of_inetPton4 hpton).1
    by_cases hroom : done.length + 4 ≤ 16
    · have hstore := Memory.store_append (fun _ => 0) 0 done addr
      rw [Nat.zero_add, ← h.tmp, ← h.tp] at hstore
      have hgap := h.gap_le
      rw [if_pos hroom, Option.map_some, Option.bind_some, Option.bind_some]
      rw [← h.colonp] at hgap ⊢
      exact pton6End_eq (s := { s with tmp := s.tmp.store s.tp addr, tp := s.tp + 4, sawXdigit := false }) hstore
        (by rw [List.length_append, hlen, ← h.tp])
        (fun p hp => le_trans (hgap p hp) (by rw [List.length_append]; exact Nat.le_add_right _ _))
        (by rw [List.length_append, hlen]; exact hroom) rfl
    · rw [if_neg hroom, Option.bind_some, addrOf_eq_none (by rw [List.length_append]; omega)]
      rfl

theorem Pton6.At.overflow {ch : Byte} (h : s.At done gap ds (ch :: src)) (hxdigit : isxdigit ch = true)
    (hbig : 0xffff < numeral 16 hexDigit 0 (ds ++ [ch])) :
    pton6Loop (ch :: src) s = none ∧ fieldsFrom done gap ((ds ++ [ch] ++ src).splitOn 58) = none := by
  have hall : ∀ c ∈ ds ++ [ch], isxdigit c = true :=
    List.forall_mem_append.mpr ⟨h.xdigits, List.forall_mem_singleton.mpr hxdigit⟩
  obtain ⟨f, fs, -, hsplit⟩ := exists_splitOn_append (fun hmem => not_isxdigit_colon (hall 58 hmem)) src
  constructor
  · rw [pton6Loop, if_pos hxdigit]
    dsimp only
    rw [h.new_val hxdigit, if_pos hbig]
  · rw [hsplit]
    exact fieldsFrom_cons_none (by simp) (group?_append_eq_none hbig f) (inetPton4_append_eq_none hall hbig f)
      done gap fs

/-- A field with a dot: the last one is an IPv4 address, and `inet_pton4` does not read a colon behind another. -/
theorem Pton6.At.fields_dot (h : s.At done gap ds (46 :: src)) :
    fieldsFrom done gap ((ds ++ [46] ++ src).splitOn 58) =
      (inetPton4 (ds ++ [46] ++ src)).bind fun addr => addrOf (done ++ addr) gap := by
  have hdot : 58 ∉ ds ++ [46] := by simp [h.not_mem not_isxdigit_colon]
  obtain ⟨f, fs, hsrc, hsplit⟩ := exists_splitOn_append hdot src
  have hgroup : Libfree.group? (ds ++ [46] ++ f) = none := group?_eq_none_of_mem (by simp) not_isxdigit_dot
  have hint : [58].intercalate (src.splitOn 58) = src := List.intercalate_splitOn 58
  rw [hsrc] at hint
  rw [hsplit]
  cases fs with
  | nil =>
    rw [List.intercalate_singleton] at hint
    rw [fieldsFrom, lastField?, if_neg (by simp), hgroup, hint]
    rfl
  | cons f' fs =>
    rw [List.intercalate_cons_cons] at hint
    have hpton : inetPton4 (ds ++ [46] ++ src) = none :=
      inetPton4_eq_none_of_mem (c := 58) (by simp [← hint]) (by decide) (by decide)
    rw [hpton, fieldsFrom_cons _ _ _ (by simp), if_neg (by simp), hgroup]
    rfl

theorem Pton6.At.other {ch : Byte} (h : s.At done gap ds (ch :: src)) (hxdigit : ¬ isxdigit ch = true)
    (hcolon : ch ≠ 58) (hdot : ch ≠ 46) :
    pton6Loop (ch :: src) s = none ∧ fieldsFrom done gap ((ds ++ [ch] ++ src).splitOn 58) = none := by
  have hnot : 58 ∉ ds ++ [ch] := by simp [h.not_mem not_isxdigit_colon, Ne.symm hcolon]
  have hdigit : ¬ isdigit ch = true := fun hdigit => hxdigit (isxdigit_of_isdigit hdigit).1
  obtain ⟨f, fs, -, hsplit⟩ := exists_splitOn_append hnot src
  constructor
  · rw [pton6Loop, if_neg hxdigit, if_neg hcolon, if_neg (by simp [hdot])]
  · rw [hsplit]
    exact fieldsFrom_cons_none (by simp) (group?_eq_none_of_mem (by simp) hxdigit)
      (inetPton4_eq_none_of_mem (by simp) hdigit hdot) done gap fs

theorem pton6Loop_eq (src : CString) {s : Pton6} {done : List Byte} {gap : Option ℕ} {ds : CString}
    (h : s.At done gap ds src) :
    (pton6Loop src s).bind pton6End = fieldsFrom done gap ((ds ++ src).splitOn 58) := by
  induction src generalizing s done gap ds with
  | nil =>
    rw [pton6Loop, List.append_nil, List.splitOn_eq_singleton (h.not_mem not_isxdigit_colon), fieldsFrom]
    exact h.last
  | cons ch src ih =>
    have hassoc : ds ++ ch :: src = ds ++ [ch] ++ src := by simp
    by_cases hxdigit : isxdigit ch = true
    · by_cases hbig : 0xffff < numeral 16 hexDigit 0 (ds ++ [ch])
      · rw [hassoc, (h.overflow hxdigit hbig).1, (h.overflow hxdigit hbig).2]
        rfl
      · rw [pton6Loop, if_pos hxdigit]
        dsimp only
        rw [h.new_val hxdigit, if_neg hbig, ih (h.xdigit hxdigit (Nat.le_of_not_lt hbig)), hassoc]
    · by_cases hcolon : ch = 58
      · subst hcolon
        have hne := List.splitOn_ne_nil 58 src
        rw [List.splitOn_append_cons_self_of_not_mem (h.not_mem not_isxdigit_colon), fieldsFrom_cons _ _ _ hne,
          pton6Loop, if_neg hxdigit, if_pos rfl]
        by_cases hnil : ds = []
        · subst hnil
          rw [if_pos (by simp [h.sawXdigit]), if_pos rfl, h.colonp]
          cases gap with
          | some p => rfl
          | none =>
            rw [if_neg (by simp), if_neg (by simp)]
            exact ih h.colon
        · rw [if_neg (by simpa [h.sawXdigit] using hnil), if_neg hnil, h.group? hnil, Option.bind_some, h.tp]
          by_cases hfull : 16 < done.length + 2
          · rw [if_pos hfull, fieldsFrom_eq_none _ (by rw [List.length_append, length_bytes16]; exact hfull)]
            rfl
          · rw [if_neg hfull]
            exact ih (h.group (Nat.le_of_not_lt hfull))
      · by_cases hdot : ch = 46
        · subst hdot
          rw [h.dot, hassoc, h.fields_dot]
        · rw [hassoc, (h.other hxdigit hcolon hdot).1, (h.other hxdigit hcolon hdot).2]
          rfl

theorem inetPton6_eq (src : CString) :
    inetPton6 src =
      if firstByte src = 58 then
        if firstByte src.tail ≠ 58 then none else fieldsFrom [] none (src.tail.splitOn 58)
      else fieldsFrom [] none (src.splitOn 58) := by
  have hloop : ∀ src, (pton6Loop src ⟨fun _ => 0, 0, none, src, false, 0⟩).bind pton6End =
      fieldsFrom [] none (src.splitOn 58) := fun src =>
    have hstart : Pton6.At ⟨fun _ => 0, 0, none, src, false, 0⟩ [] none [] src :=
      ⟨(Memory.store_nil _ 0).symm, rfl, rfl, by simp, rfl, by simp, rfl, rfl, Nat.zero_le _, Nat.zero_le _⟩
    pton6Loop_eq src hstart
  rw [inetPton6, hloop, hloop]

/-! ### The texts -/

/-- The field behind the last colon: `empty` at the end of `::`, and also behind one colon after the last group. -/
inductive Last where
  | empty
  | group (g : Group)
  | quad (os : List Octet) (four : os.length = 4)

def Last.text : Last → CString
  | empty => []
  | group g => g.digits
  | quad os _ => [46].intercalate (os.map Octet.digits)

def Last.value : Last → List Byte
  | empty => []
  | group g => g.value
  | quad os _ => os.map Octet.value

/-- The groups in front of the gap, those behind it, and the last field. -/
structure Fields where
  left : List Group
  gap : Option (List Group)
  last : Last

namespace Fields

def list (x : Fields) : List CString :=
  x.left.map Group.digits ++
    match x.gap with
    | none => [x.last.text]
    | some right => [] :: (right.map Group.digits ++ [x.last.text])

def front (x : Fields) : List Byte := x.left.flatMap Group.value

def back (x : Fields) : List Byte := (x.gap.getD []).flatMap Group.value ++ x.last.value

end Fields

/-- The text of an IPv6 address: the fields make 16 bytes, or fewer when there is a gap. -/
structure Text6 extends Fields where
  le : toFields.front.length + toFields.back.length ≤ 16
  full : toFields.gap = none → toFields.front.length + toFields.back.length = 16

namespace Text6

def text (t : Text6) : CString :=
  (if t.left = [] ∧ t.gap.isSome then [58] else []) ++ [58].intercalate t.list

/-- A gap that stands for no bytes makes the groups behind it zero. -/
def addr (t : Text6) : List Byte :=
  if t.front.length + t.back.length < 16 then
    t.front ++ List.replicate (16 - (t.front.length + t.back.length)) 0 ++ t.back
  else if t.gap.isSome then t.front ++ List.replicate t.back.length 0
  else t.front ++ t.back

end Text6

theorem group?_eq_some_iff {f : CString} {bytes : List Byte} :
    group? f = some bytes ↔ ∃ g : Group, f = g.digits ∧ bytes = g.value := by
  rw [group?]
  constructor
  · intro h
    split_ifs at h with hgroup
    exact ⟨⟨f, hgroup.1, hgroup.2.1, hgroup.2.2⟩, rfl, (Option.some.inj h).symm⟩
  · rintro ⟨g, rfl, rfl⟩
    rw [if_pos ⟨g.ne_nil, g.all_xdigits, g.le⟩]
    rfl

theorem dot_mem_intercalate {os : List Octet} (h : os.length = 4) : 46 ∈ [46].intercalate (os.map Octet.digits) := by
  obtain ⟨a, b, c, d, rfl⟩ := List.length_eq_four.mp h
  simp

theorem lastField?_eq_some_iff {f : CString} {bytes : List Byte} :
    lastField? f = some bytes ↔ ∃ l : Last, f = l.text ∧ bytes = l.value := by
  rw [lastField?]
  constructor
  · intro h
    split_ifs at h with hnil
    · exact ⟨.empty, hnil, (Option.some.inj h).symm⟩
    · rcases Option.or_eq_some_iff.mp h with hgroup | ⟨-, hpton⟩
      · obtain ⟨g, rfl, rfl⟩ := group?_eq_some_iff.mp hgroup
        exact ⟨.group g, rfl, rfl⟩
      · obtain ⟨os, hlen, rfl, rfl⟩ := exists_octets_of_inetPton4 hpton
        exact ⟨.quad os hlen, rfl, rfl⟩
  · rintro ⟨l, rfl, rfl⟩
    cases l with
    | empty => rfl
    | group g =>
      have hgroup : group? (Last.group g).text = some (Last.group g).value := group?_eq_some_iff.mpr ⟨g, rfl, rfl⟩
      rw [if_neg (c := (Last.group g).text = []) g.ne_nil, hgroup]
      rfl
    | quad os hlen =>
      have hdot : 46 ∈ (Last.quad os hlen).text := dot_mem_intercalate hlen
      have hgroup : group? (Last.quad os hlen).text = none :=
        if_neg fun hgroup => not_isxdigit_dot (hgroup.2.1 46 hdot)
      rw [if_neg (List.ne_nil_of_mem hdot), hgroup, Option.none_or]
      exact inetPton4_octets hlen

theorem fieldsFrom_gap_eq_some_iff {p : ℕ} (fs : List CString) {done addr : List Byte} :
    fieldsFrom done (some p) fs = some addr ↔ ∃ (gs : List Group) (l : Last),
      fs = gs.map Group.digits ++ [l.text] ∧
        addrOf (done ++ (gs.flatMap Group.value ++ l.value)) (some p) = some addr := by
  induction fs generalizing done with
  | nil =>
    constructor
    · intro h
      cases h
    · rintro ⟨gs, l, hnil, -⟩
      simp at hnil
  | cons f fs ih =>
    cases fs with
    | nil =>
      rw [fieldsFrom, Option.bind_eq_some_iff]
      constructor
      · rintro ⟨bytes, hlast, haddr⟩
        obtain ⟨l, rfl, rfl⟩ := lastField?_eq_some_iff.mp hlast
        exact ⟨[], l, rfl, haddr⟩
      · rintro ⟨gs, l, hfs, haddr⟩
        cases gs with
        | nil =>
          obtain ⟨rfl, -⟩ := List.cons.inj hfs
          exact ⟨l.value, lastField?_eq_some_iff.mpr ⟨l, rfl, rfl⟩, haddr⟩
        | cons g gs => simp at hfs
    | cons f' fs =>
      rw [fieldsFrom_cons _ _ _ (by simp)]
      constructor
      · intro h
        split_ifs at h with hnil
        · exact absurd rfl ‹_›
        obtain ⟨bytes, hgroup, h⟩ := Option.bind_eq_some_iff.mp h
        obtain ⟨g, rfl, rfl⟩ := group?_eq_some_iff.mp hgroup
        obtain ⟨gs, l, hfs, haddr⟩ := ih.mp h
        refine ⟨g :: gs, l, by rw [hfs]; rfl, ?_⟩
        rw [List.flatMap_cons, List.append_assoc, ← List.append_assoc]
        exact haddr
      · rintro ⟨gs, l, hfs, haddr⟩
        cases gs with
        | nil => simp at hfs
        | cons g gs =>
          obtain ⟨rfl, htail⟩ := List.cons.inj hfs
          rw [if_neg g.ne_nil, group?_eq_some_iff.mpr ⟨g, rfl, rfl⟩, Option.bind_some]
          refine ih.mpr ⟨gs, l, htail, ?_⟩
          rw [List.flatMap_cons, List.append_assoc, ← List.append_assoc] at haddr
          exact haddr

theorem fieldsFrom_eq_some_iff (fs : List CString) {done addr : List Byte} :
    fieldsFrom done none fs = some addr ↔ ∃ x : Fields, fs = x.list ∧
      addrOf (done ++ (x.front ++ x.back)) (x.gap.map fun _ => done.length + x.front.length) = some addr := by
  induction fs generalizing done with
  | nil =>
    constructor
    · intro h
      cases h
    · rintro ⟨⟨left, gap, last⟩, hnil, -⟩
      cases gap <;> simp [Fields.list] at hnil
  | cons f fs ih =>
    cases fs with
    | nil =>
      rw [fieldsFrom, Option.bind_eq_some_iff]
      constructor
      · rintro ⟨bytes, hlast, haddr⟩
        obtain ⟨l, rfl, rfl⟩ := lastField?_eq_some_iff.mp hlast
        exact ⟨⟨[], none, l⟩, rfl, haddr⟩
      · rintro ⟨⟨left, gap, l⟩, hfs, haddr⟩
        cases left with
        | nil =>
          cases gap with
          | none =>
            obtain ⟨rfl, -⟩ := List.cons.inj hfs
            exact ⟨l.value, lastField?_eq_some_iff.mpr ⟨l, rfl, rfl⟩, haddr⟩
          | some right => simp [Fields.list] at hfs
        | cons g left => cases gap <;> simp [Fields.list] at hfs
    | cons f' fs =>
      rw [fieldsFrom_cons _ _ _ (by simp)]
      constructor
      · intro h
        split_ifs at h with hnil hgap
        · -- the gap
          obtain ⟨gs, l, hfs, haddr⟩ := (fieldsFrom_gap_eq_some_iff _).mp h
          exact ⟨⟨[], some gs, l⟩, by rw [hnil, hfs]; rfl, haddr⟩
        · obtain ⟨bytes, hgroup, h⟩ := Option.bind_eq_some_iff.mp h
          obtain ⟨g, rfl, rfl⟩ := group?_eq_some_iff.mp hgroup
          obtain ⟨x, hfs, haddr⟩ := ih.mp h
          refine ⟨⟨g :: x.left, x.gap, x.last⟩, by rw [hfs]; rfl, ?_⟩
          have hfront : Fields.front ⟨g :: x.left, x.gap, x.last⟩ = g.value ++ x.front := rfl
          rw [List.append_assoc, ← List.append_assoc g.value, ← hfront, List.length_append, Nat.add_assoc,
            ← List.length_append, ← hfront] at haddr
          exact haddr
      · rintro ⟨⟨left, gap, l⟩, hfs, haddr⟩
        cases left with
        | nil =>
          cases gap with
          | none => simp [Fields.list] at hfs
          | some right =>
            obtain ⟨rfl, htail⟩ := List.cons.inj hfs
            rw [if_pos rfl, if_neg (by simp)]
            exact (fieldsFrom_gap_eq_some_iff _).mpr ⟨right, l, htail, haddr⟩
        | cons g left =>
          obtain ⟨rfl, htail⟩ := List.cons.inj hfs
          rw [if_neg g.ne_nil, group?_eq_some_iff.mpr ⟨g, rfl, rfl⟩, Option.bind_some]
          refine ih.mpr ⟨⟨left, gap, l⟩, htail, ?_⟩
          have hfront : Fields.front ⟨g :: left, gap, l⟩ = g.value ++ Fields.front ⟨left, gap, l⟩ := rfl
          rw [List.append_assoc, ← List.append_assoc g.value, List.length_append, Nat.add_assoc,
            ← List.length_append, ← hfront]
          exact haddr

namespace Fields

variable {x : Fields}

theorem last_not_mem {c : Byte} (hxdigit : ¬ isxdigit c = true) (hdot : c ≠ 46) (l : Last) : c ∉ l.text := by
  intro hmem
  cases l with
  | empty => cases hmem
  | group g => exact hxdigit (g.all_xdigits c hmem)
  | quad os hlen =>
    rcases mem_intercalate hmem with hc | ⟨f, hf, hmem⟩
    · exact hdot hc
    · obtain ⟨o, -, rfl⟩ := List.mem_map.mp hf
      exact hxdigit (isxdigit_of_isdigit (o.all_digits c hmem)).1

theorem not_mem_list {c : Byte} (hxdigit : ¬ isxdigit c = true) (hdot : c ≠ 46) (x : Fields) : ∀ f ∈ x.list, c ∉ f := by
  have hgroups : ∀ (gs : List Group), ∀ f ∈ gs.map Group.digits, c ∉ f := by
    intro gs f hf hmem
    obtain ⟨g, -, rfl⟩ := List.mem_map.mp hf
    exact hxdigit (g.all_xdigits c hmem)
  obtain ⟨left, gap, last⟩ := x
  intro f hf
  rcases List.mem_append.mp hf with hf | hf
  · exact hgroups left f hf
  · cases gap with
    | none =>
      rw [List.mem_singleton.mp hf]
      exact last_not_mem hxdigit hdot last
    | some right =>
      rcases List.mem_cons.mp hf with rfl | hf
      · simp
      · rcases List.mem_append.mp hf with hf | hf
        · exact hgroups right f hf
        · rw [List.mem_singleton.mp hf]
          exact last_not_mem hxdigit hdot last

theorem not_mem_colon (x : Fields) : ∀ f ∈ x.list, 58 ∉ f := x.not_mem_list not_isxdigit_colon (by decide)

theorem list_ne_nil (x : Fields) : x.list ≠ [] := by
  obtain ⟨left, gap, last⟩ := x
  cases gap <;> simp [list]

theorem splitOn_intercalate_list (x : Fields) : ([58].intercalate x.list).splitOn 58 = x.list :=
  List.splitOn_intercalate 58 x.not_mem_colon x.list_ne_nil

theorem firstByte_of_not_mem {c : Byte} (hc : c ≠ 0) {s : CString} (h : c ∉ s) : firstByte s ≠ c := by
  cases s with
  | nil => exact Ne.symm hc
  | cons d s =>
    rintro rfl
    exact h List.mem_cons_self

theorem firstByte_list (x : Fields) :
    firstByte ([58].intercalate x.list) = 58 ↔ x.left = [] ∧ x.gap.isSome = true := by
  have hcolon := x.not_mem_colon
  obtain ⟨left, gap, last⟩ := x
  cases left with
  | nil =>
    cases gap with
    | none => simpa [list] using firstByte_of_not_mem (by decide) (last_not_mem not_isxdigit_colon (by decide) last)
    | some right =>
      refine iff_of_true ?_ ⟨rfl, rfl⟩
      rw [list, List.map_nil, List.nil_append, List.intercalate_cons_of_ne_nil (by simp)]
      rfl
  | cons g left =>
    refine iff_of_false ?_ fun h => List.cons_ne_nil g left h.1
    obtain ⟨c, ds, hdigits⟩ := List.exists_cons_of_ne_nil g.ne_nil
    rw [list, List.map_cons, List.cons_append, hdigits, List.intercalate_cons_cons_left]
    rintro rfl
    exact hcolon g.digits List.mem_cons_self (by rw [hdigits]; exact List.mem_cons_self)

end Fields

theorem Text6.addrOf_eq (t : Text6) :
    addrOf (t.front ++ t.back) (t.gap.map fun _ => t.front.length) = some t.addr := by
  have hle := t.le
  rw [addrOf_of_le (by rw [List.length_append]; exact hle), addr]
  cases hgap : t.gap with
  | none =>
    have hfull := t.full hgap
    dsimp only [Option.map_none]
    rw [if_pos (by rw [List.length_append]; exact hfull), if_neg (by omega), if_neg (by simp)]
  | some right =>
    dsimp only [Option.map_some]
    rw [fillGap, List.take_left', List.drop_left', List.length_append]
    by_cases hroom : t.front.length + t.back.length < 16
    · rw [if_neg (by omega), if_pos hroom]
    · have hzero : 16 - (t.front.length + t.back.length) = 0 := by omega
      have hback : 16 - t.front.length = t.back.length := by omega
      rw [if_pos (by omega), if_neg hroom, if_pos Option.isSome_some, hzero, hback, List.replicate_zero,
        List.append_nil]
    · rfl
    · rfl

theorem addrOf_eq_some_iff {x : Fields} {addr : List Byte} :
    addrOf (x.front ++ x.back) (x.gap.map fun _ => x.front.length) = some addr ↔
      ∃ t : Text6, t.toFields = x ∧ addr = t.addr := by
  constructor
  · intro h
    have hle : x.front.length + x.back.length ≤ 16 := by
      by_contra hgt
      rw [addrOf_eq_none (by rw [List.length_append]; omega)] at h
      cases h
    have hfull : x.gap = none → x.front.length + x.back.length = 16 := by
      intro hgap
      by_contra hne
      rw [addrOf_of_le (by rw [List.length_append]; exact hle), hgap, Option.map_none] at h
      dsimp only at h
      rw [if_neg (by rw [List.length_append]; exact hne)] at h
      cases h
    exact ⟨⟨x, hle, hfull⟩, rfl, Option.some.inj (h.symm.trans (Text6.addrOf_eq ⟨x, hle, hfull⟩))⟩
  · rintro ⟨t, rfl, rfl⟩
    exact t.addrOf_eq

theorem fieldsFrom_splitOn_eq_some_iff {s : CString} {addr : List Byte} :
    fieldsFrom [] none (s.splitOn 58) = some addr ↔ ∃ t : Text6, s = [58].intercalate t.list ∧ addr = t.addr := by
  rw [fieldsFrom_eq_some_iff]
  constructor
  · rintro ⟨x, hlist, haddr⟩
    rw [List.nil_append, List.length_nil, Nat.zero_add, addrOf_eq_some_iff] at haddr
    obtain ⟨t, rfl, rfl⟩ := haddr
    exact ⟨t, by rw [← hlist, List.intercalate_splitOn], rfl⟩
  · rintro ⟨t, rfl, rfl⟩
    refine ⟨t.toFields, t.splitOn_intercalate_list, ?_⟩
    rw [List.nil_append, List.length_nil, Nat.zero_add, addrOf_eq_some_iff]
    exact ⟨t, rfl, rfl⟩

theorem exists_text_of_inetPton6 {src : CString} {addr : List Byte} (h : inetPton6 src = some addr) :
    ∃ t : Text6, src = t.text ∧ addr = t.addr := by
  rw [inetPton6_eq] at h
  split_ifs at h with hfirst hsecond
  · obtain ⟨t, htail, rfl⟩ := fieldsFrom_splitOn_eq_some_iff.mp h
    have hgap := t.firstByte_list.mp (by rw [← htail]; exact not_not.mp hsecond)
    refine ⟨t, ?_, rfl⟩
    cases src with
    | nil => exact absurd hfirst (by decide)
    | cons c src =>
      obtain rfl : c = 58 := hfirst
      rw [Text6.text, if_pos hgap]
      exact congrArg (58 :: ·) htail
  · obtain ⟨t, rfl, rfl⟩ := fieldsFrom_splitOn_eq_some_iff.mp h
    refine ⟨t, ?_, rfl⟩
    rw [Text6.text, if_neg (mt t.firstByte_list.mpr hfirst)]
    rfl

theorem inetPton6_text (t : Text6) : inetPton6 t.text = some t.addr := by
  rw [inetPton6_eq]
  by_cases hgap : t.left = [] ∧ t.gap.isSome = true
  · rw [Text6.text, if_pos hgap, List.singleton_append, List.tail_cons,
      if_pos (show firstByte (58 :: _) = 58 from rfl), if_neg (not_not_intro (t.firstByte_list.mpr hgap))]
    exact fieldsFrom_splitOn_eq_some_iff.mpr ⟨t, rfl, rfl⟩
  · rw [Text6.text, if_neg hgap, List.nil_append, if_neg (mt t.firstByte_list.mp hgap)]
    exact fieldsFrom_splitOn_eq_some_iff.mpr ⟨t, rfl, rfl⟩

/-- `inet_pton6` reads these texts and no others. They are more than the texts of RFC 1884: a group can have any number
of leading zeros, a colon can follow the last group, and a gap can stand for no bytes, which makes the groups behind it
zero. -/
theorem inetPton6_eq_some_iff {src : CString} {addr : List Byte} :
    inetPton6 src = some addr ↔ ∃ t : Text6, src = t.text ∧ addr = t.addr := by
  constructor
  · exact exists_text_of_inetPton6
  · rintro ⟨t, rfl, rfl⟩
    exact inetPton6_text t

/-- `::1:` is read as `::1`. -/
example : inetPton6 [58, 58, 49, 58] = some (List.replicate 15 0 ++ [1]) := by decide

/-- `1:2:3:4::5:6:7:8` is read as `1:2:3:4:0:0:0:0`. -/
example : inetPton6 [49, 58, 50, 58, 51, 58, 52, 58, 58, 53, 58, 54, 58, 55, 58, 56] =
    some [0, 1, 0, 2, 0, 3, 0, 4, 0, 0, 0, 0, 0, 0, 0, 0] := by decide

end UnixNetProg.Libfree
