import UnixNetProg.Lib.Memory
import UnixNetProg.Libc

/-!
# Newline translation (`sock/crlf.c`)

With the `-c` option the `sock` program writes a return before each newline that it sends, and drops the
returns of what it receives. `crlf_add` predicts the length of its output as that of its input and adds one
for each newline, `crlf_strip` counts what it stores. Both compare the count with `>=` before the byte is
stored, so a translation that just fits is refused.
-/

namespace UnixNetProg.Sock

open Lib

/-- An `int` that is not negative. -/
structure Size where
  val : ℕ
  le_max : val ≤ INT_MAX

/-- How a call ends: with the length that it returns, with `err_quit`, or with a `lenout` that is no `int`. -/
inductive CrlfEnd where
  | returns (lenout : ℕ)
  | quit
  | overflow
  deriving DecidableEq, Repr

/-- The destination afterwards, and the indices that were stored to. -/
structure CrlfRun where
  ended : CrlfEnd
  dst : Memory Byte
  stores : List ℕ

/-- A store to `dst[d]`, and then the rest of the run. -/
def CrlfRun.after (run : CrlfRun) (d : ℕ) : CrlfRun := { run with stores := d :: run.stores }

/-- The loop of `crlf_add`, with `d` for the pointer `dst`. -/
def crlfAddLoop (dstsize : ℕ) : List Byte → ℕ → ℕ → Memory Byte → CrlfRun
  | [], lenout, _, dst => ⟨.returns lenout, dst, []⟩
  | c :: src, lenout, d, dst =>
    if c = 10 then
      if lenout = INT_MAX then ⟨.overflow, dst, []⟩
      else if dstsize ≤ lenout + 1 then ⟨.quit, dst, []⟩
      else
        ((crlfAddLoop dstsize src (lenout + 1) (d + 2) ((dst.store d [13]).store (d + 1) [c])).after (d + 1)).after d
    else (crlfAddLoop dstsize src lenout (d + 1) (dst.store d [c])).after d

def crlfAdd (dstsize : Size) (dst : Memory Byte) (src : List Byte) : CrlfRun :=
  if dstsize.val < src.length then ⟨.quit, dst, []⟩ else crlfAddLoop dstsize.val src src.length 0 dst

/-- The loop of `crlf_strip`; `lenout` is the index of the next store. -/
def crlfStripLoop (dstsize : ℕ) : List Byte → ℕ → Memory Byte → CrlfRun
  | [], lenout, dst => ⟨.returns lenout, dst, []⟩
  | c :: src, lenout, dst =>
    if c ≠ 13 then
      if lenout = INT_MAX then ⟨.overflow, dst, []⟩
      else if dstsize ≤ lenout + 1 then ⟨.quit, dst, []⟩
      else (crlfStripLoop dstsize src (lenout + 1) (dst.store lenout [c])).after lenout
    else crlfStripLoop dstsize src lenout dst

def crlfStrip (dstsize : Size) (dst : Memory Byte) (src : List Byte) : CrlfRun :=
  crlfStripLoop dstsize.val src 0 dst

/-! ### The translations -/

/-- A return before every newline. -/
def addReturns (s : List Byte) : List Byte := s.flatMap fun c => if c = 10 then [13, c] else [c]

/-- Every return removed. -/
def stripReturns (s : List Byte) : List Byte := s.filter (· != 13)

theorem addReturns_newline (s : List Byte) : addReturns (10 :: s) = 13 :: 10 :: addReturns s := rfl

theorem addReturns_cons {c : Byte} (hc : c ≠ 10) (s : List Byte) : addReturns (c :: s) = c :: addReturns s := by
  rw [addReturns, List.flatMap_cons, if_neg hc]
  rfl

theorem addReturns_append (s t : List Byte) : addReturns (s ++ t) = addReturns s ++ addReturns t :=
  List.flatMap_append

theorem stripReturns_append (s t : List Byte) : stripReturns (s ++ t) = stripReturns s ++ stripReturns t :=
  List.filter_append s t

theorem length_addReturns (s : List Byte) : (addReturns s).length = s.length + s.count 10 := by
  induction s with
  | nil => rfl
  | cons c s ih =>
    by_cases hc : c = 10
    · rw [hc, addReturns_newline, List.length_cons, List.length_cons, List.length_cons, ih, List.count_cons_self]
      omega
    · rw [addReturns_cons hc, List.length_cons, List.length_cons, ih, List.count_cons_of_ne hc]
      omega

/-- **The translations undo each other** on text without returns. -/
theorem stripReturns_addReturns {s : List Byte} (hs : 13 ∉ s) : stripReturns (addReturns s) = s := by
  induction s with
  | nil => rfl
  | cons c s ih =>
    have hc : c ≠ 13 := fun h => hs (h ▸ List.mem_cons_self)
    have hrest := ih fun h => hs (List.mem_cons_of_mem _ h)
    have hstrip : ∀ t, stripReturns (c :: t) = c :: stripReturns t := fun t =>
      List.filter_cons_of_pos (by simpa using hc)
    by_cases h10 : c = 10
    · subst h10
      rw [addReturns_newline]
      show stripReturns (10 :: addReturns s) = 10 :: s
      rw [hstrip, hrest]
    · rw [addReturns_cons h10, hstrip, hrest]

/-! ### The calls -/

section Add

variable {dstsize : ℕ}

theorem crlfAddLoop_returns (hmax : dstsize ≤ INT_MAX) (src : List Byte) (lenout d : ℕ) (dst : Memory Byte)
    (h : 10 ∉ src ∨ lenout + src.count 10 < dstsize) :
    crlfAddLoop dstsize src lenout d dst =
      ⟨.returns (lenout + src.count 10), dst.store d (addReturns src), List.range' d (addReturns src).length⟩ := by
  induction src generalizing lenout d dst with
  | nil =>
    show _ = (⟨_, dst.store d [], _⟩ : CrlfRun)
    rw [Memory.store_nil]
    rfl
  | cons c src ih =>
    by_cases hc : c = 10
    · subst hc
      rw [List.count_cons_self] at h ⊢
      have hlt : lenout + 1 + src.count 10 < dstsize := by
        have := h.resolve_left fun h => h List.mem_cons_self
        omega
      rw [crlfAddLoop, if_pos rfl, if_neg (by omega), if_neg (by omega), ih _ _ _ (.inr hlt), addReturns_newline]
      have hstore : ((dst.store d [13]).store (d + 1) [10]).store (d + 2) (addReturns src) =
          dst.store d (13 :: 10 :: addReturns src) :=
        (Memory.store_append _ (d + 1) [10] _).trans (Memory.store_append dst d [13] _)
      rw [hstore, Nat.add_assoc, Nat.add_comm 1]
      rfl
    · rw [List.count_cons_of_ne hc] at h ⊢
      have h' : 10 ∉ src ∨ lenout + src.count 10 < dstsize := h.imp_left fun h hmem => h (List.mem_cons_of_mem _ hmem)
      have hstore : (dst.store d [c]).store (d + 1) (addReturns src) = dst.store d (c :: addReturns src) :=
        Memory.store_append dst d [c] _
      rw [crlfAddLoop, if_neg hc, ih _ _ _ h', addReturns_cons hc, hstore]
      rfl

theorem crlfAddLoop_stops (hmax : dstsize ≤ INT_MAX) (src : List Byte) {lenout : ℕ} (hle : lenout ≤ dstsize) (d : ℕ)
    (dst : Memory Byte) (h10 : 10 ∈ src) (h : dstsize ≤ lenout + src.count 10) :
    (crlfAddLoop dstsize src lenout d dst).ended = if lenout = INT_MAX then .overflow else .quit := by
  induction src generalizing lenout d dst with
  | nil => exact absurd h10 List.not_mem_nil
  | cons c src ih =>
    by_cases hc : c = 10
    · subst hc
      rw [crlfAddLoop, if_pos rfl]
      by_cases hover : lenout = INT_MAX
      · rw [if_pos hover, if_pos hover]
      · rw [if_neg hover, if_neg hover]
        by_cases hquit : dstsize ≤ lenout + 1
        · rw [if_pos hquit]
        · rw [if_neg hquit]
          rw [List.count_cons_self] at h
          have hmem : 10 ∈ src := List.count_pos_iff.mp (by omega)
          have hne : ¬ lenout + 1 = INT_MAX := by omega
          have hle' : lenout + 1 ≤ dstsize := by omega
          have hend := ih hle' (d + 2) ((dst.store d [13]).store (d + 1) [10]) hmem (by omega)
          rw [if_neg hne] at hend
          exact hend
    · rw [List.count_cons_of_ne hc] at h
      rw [crlfAddLoop, if_neg hc]
      exact ih hle (d + 1) (dst.store d [c]) ((List.mem_cons.mp h10).resolve_left (Ne.symm hc)) h

theorem crlfAddLoop_stores (src : List Byte) {lenout d : ℕ} (hd : d + src.length = lenout) (hle : lenout ≤ dstsize)
    (dst : Memory Byte) : ∀ i ∈ (crlfAddLoop dstsize src lenout d dst).stores, i < dstsize := by
  induction src generalizing lenout d dst with
  | nil => exact fun i hi => absurd hi List.not_mem_nil
  | cons c src ih =>
    rw [List.length_cons] at hd
    intro i hi
    rw [crlfAddLoop] at hi
    split_ifs at hi with hc hover hquit
    · exact absurd hi List.not_mem_nil
    · exact absurd hi List.not_mem_nil
    · rcases List.mem_cons.mp hi with rfl | hi
      · omega
      rcases List.mem_cons.mp hi with rfl | hi
      · omega
      exact ih (by omega) (by omega) _ i hi
    · rcases List.mem_cons.mp hi with rfl | hi
      · omega
      exact ih (by omega) hle _ i hi

end Add

section Strip

variable {dstsize : ℕ}

theorem stripReturns_cons {c : Byte} (hc : c ≠ 13) (s : List Byte) : stripReturns (c :: s) = c :: stripReturns s :=
  List.filter_cons_of_pos (by simpa using hc)

theorem stripReturns_return (s : List Byte) : stripReturns (13 :: s) = stripReturns s := rfl

theorem crlfStripLoop_returns (hmax : dstsize ≤ INT_MAX) (src : List Byte) (lenout : ℕ) (dst : Memory Byte)
    (h : stripReturns src = [] ∨ lenout + (stripReturns src).length < dstsize) :
    crlfStripLoop dstsize src lenout dst =
      ⟨.returns (lenout + (stripReturns src).length), dst.store lenout (stripReturns src),
        List.range' lenout (stripReturns src).length⟩ := by
  induction src generalizing lenout dst with
  | nil =>
    show _ = (⟨_, dst.store lenout [], _⟩ : CrlfRun)
    rw [Memory.store_nil]
    rfl
  | cons c src ih =>
    by_cases hc : c = 13
    · subst hc
      rw [crlfStripLoop, if_neg (not_not_intro rfl), stripReturns_return, ih _ _ h]
    · rw [stripReturns_cons hc, List.length_cons] at h ⊢
      have hlt : lenout + 1 + (stripReturns src).length < dstsize := by
        have := h.resolve_left (List.cons_ne_nil _ _)
        omega
      have hstore : (dst.store lenout [c]).store (lenout + 1) (stripReturns src) =
          dst.store lenout (c :: stripReturns src) := Memory.store_append dst lenout [c] _
      rw [crlfStripLoop, if_pos hc, if_neg (by omega), if_neg (by omega), ih _ _ (.inr hlt), hstore, Nat.add_assoc,
        Nat.add_comm 1]
      rfl

theorem crlfStripLoop_stops (hmax : dstsize ≤ INT_MAX) (src : List Byte) {lenout : ℕ} (hlt : lenout < INT_MAX)
    (dst : Memory Byte) (hne : stripReturns src ≠ []) (h : dstsize ≤ lenout + (stripReturns src).length) :
    (crlfStripLoop dstsize src lenout dst).ended = .quit := by
  induction src generalizing lenout dst with
  | nil => exact absurd rfl hne
  | cons c src ih =>
    by_cases hc : c = 13
    · subst hc
      rw [crlfStripLoop, if_neg (not_not_intro rfl)]
      exact ih hlt dst hne h
    · rw [crlfStripLoop, if_pos hc, if_neg (Nat.ne_of_lt hlt)]
      by_cases hquit : dstsize ≤ lenout + 1
      · rw [if_pos hquit]
      · rw [if_neg hquit]
        rw [stripReturns_cons hc, List.length_cons] at h
        have hne' : stripReturns src ≠ [] := List.length_pos_iff.mp (by omega)
        have hlt' : lenout + 1 < INT_MAX := by omega
        exact ih hlt' (dst.store lenout [c]) hne' (by omega)

theorem crlfStripLoop_stores (src : List Byte) (lenout : ℕ) (dst : Memory Byte) :
    ∀ i ∈ (crlfStripLoop dstsize src lenout dst).stores, i < dstsize := by
  induction src generalizing lenout dst with
  | nil => exact fun i hi => absurd hi List.not_mem_nil
  | cons c src ih =>
    intro i hi
    rw [crlfStripLoop] at hi
    split_ifs at hi with hc hover hquit
    · exact absurd hi List.not_mem_nil
    · exact absurd hi List.not_mem_nil
    · rcases List.mem_cons.mp hi with rfl | hi
      · omega
      exact ih _ _ i hi
    · exact ih _ _ i hi

end Strip

/-! ### One call -/

/-- The call quits. -/
def CrlfRun.Quits (run : CrlfRun) : Prop := run.ended = .quit

/-- The bytes that the caller passes on: the first `lenout` of the destination. -/
def CrlfRun.output (run : CrlfRun) : List Byte :=
  match run.ended with
  | .returns lenout => run.dst.slice 0 lenout
  | .quit | .overflow => []

/-- What a call that returns has done. -/
structure Translates (translate : List Byte → List Byte) (dstsize : Size) (src : List Byte) (run : CrlfRun) : Prop where
  returned : ∀ lenout, run.ended = .returns lenout → lenout = run.stores.length ∧ run.output = translate src
  inside : ∀ i ∈ run.stores, i < dstsize.val

section Calls

variable (dstsize : Size) (dst : Memory Byte) (src : List Byte)

/-- The input does not fit, or the output has a return that was added and leaves no byte free. -/
def AddStops : Prop := dstsize.val < src.length ∨ 10 ∈ src ∧ dstsize.val ≤ (addReturns src).length

def StripStops : Prop := stripReturns src ≠ [] ∧ dstsize.val ≤ (stripReturns src).length

theorem translates_store (translate : List Byte → List Byte) (hfits : (translate src).length ≤ dstsize.val) :
    Translates translate dstsize src ⟨.returns (translate src).length, dst.store 0 (translate src),
      List.range' 0 (translate src).length⟩ := by
  constructor
  · intro lenout h
    obtain rfl := CrlfEnd.returns.inj h
    refine ⟨(List.length_range' ..).symm, ?_⟩
    exact dst.slice_store_zero (translate src)
  · intro i hi
    have := (List.mem_range'_1.mp hi).2
    omega

theorem crlfAdd_eq (h : ¬ AddStops dstsize src) :
    crlfAdd dstsize dst src = ⟨.returns (addReturns src).length, dst.store 0 (addReturns src),
      List.range' 0 (addReturns src).length⟩ := by
  obtain ⟨hlen, hroom⟩ := not_or.mp h
  rw [length_addReturns] at hroom
  rw [crlfAdd, if_neg hlen, crlfAddLoop_returns dstsize.le_max, ← length_addReturns]
  by_cases h10 : 10 ∈ src
  · exact .inr (Nat.not_le.mp fun hle => hroom ⟨h10, hle⟩)
  · exact .inl h10

theorem crlfAdd_ended (h : AddStops dstsize src) :
    (crlfAdd dstsize dst src).ended =
      if src.length = INT_MAX ∧ dstsize.val = INT_MAX then .overflow else .quit := by
  have hmax := dstsize.le_max
  rw [crlfAdd]
  by_cases hlen : dstsize.val < src.length
  · rw [if_pos hlen, if_neg (by omega)]
  · rw [if_neg hlen]
    obtain ⟨h10, hroom⟩ := h.resolve_left hlen
    rw [length_addReturns] at hroom
    rw [crlfAddLoop_stops hmax src (Nat.not_lt.mp hlen) 0 dst h10 hroom]
    by_cases hover : src.length = INT_MAX
    · rw [if_pos hover, if_pos ⟨hover, by omega⟩]
    · rw [if_neg hover, if_neg fun h => hover h.1]

theorem crlfAdd_translates : Translates addReturns dstsize src (crlfAdd dstsize dst src) := by
  by_cases h : AddStops dstsize src
  · constructor
    · intro lenout hret
      rw [crlfAdd_ended dstsize dst src h] at hret
      split_ifs at hret
    · rw [crlfAdd]
      split_ifs with hlen
      · exact fun i hi => absurd hi List.not_mem_nil
      · exact crlfAddLoop_stores src (Nat.zero_add _) (Nat.not_lt.mp hlen) dst
  · have hfits : (addReturns src).length ≤ dstsize.val := by
      obtain ⟨hlen, hroom⟩ := not_or.mp h
      rw [length_addReturns] at hroom ⊢
      by_cases h10 : 10 ∈ src
      · exact Nat.le_of_lt (Nat.not_le.mp fun hle => hroom ⟨h10, hle⟩)
      · rw [List.count_eq_zero_of_not_mem h10]
        omega
    rw [crlfAdd_eq dstsize dst src h]
    exact translates_store dstsize dst src addReturns hfits

theorem crlfStrip_eq (h : ¬ StripStops dstsize src) :
    crlfStrip dstsize dst src = ⟨.returns (stripReturns src).length, dst.store 0 (stripReturns src),
      List.range' 0 (stripReturns src).length⟩ := by
  rw [crlfStrip, crlfStripLoop_returns dstsize.le_max, Nat.zero_add]
  rw [Nat.zero_add]
  by_cases hne : stripReturns src = []
  · exact .inl hne
  · exact .inr (Nat.not_le.mp fun hle => h ⟨hne, hle⟩)

theorem crlfStrip_ended (h : StripStops dstsize src) : (crlfStrip dstsize dst src).ended = .quit :=
  crlfStripLoop_stops dstsize.le_max src (by decide) dst h.1 (by rw [Nat.zero_add]; exact h.2)

theorem crlfStrip_translates : Translates stripReturns dstsize src (crlfStrip dstsize dst src) := by
  by_cases h : StripStops dstsize src
  · constructor
    · intro lenout hret
      rw [crlfStrip_ended dstsize dst src h] at hret
      cases hret
    · exact crlfStripLoop_stores src 0 dst
  · have hfits : (stripReturns src).length ≤ dstsize.val := by
      by_cases hne : stripReturns src = []
      · rw [hne]
        exact Nat.zero_le _
      · exact Nat.le_of_lt (Nat.not_le.mp fun hle => h ⟨hne, hle⟩)
    rw [crlfStrip_eq dstsize dst src h]
    exact translates_store dstsize dst src stripReturns hfits

theorem length_stripReturns : (stripReturns src).length + src.count 13 = src.length := by
  induction src with
  | nil => rfl
  | cons c src ih =>
    by_cases hc : c = 13
    · rw [hc, stripReturns_return, List.count_cons_self, List.length_cons]
      omega
    · rw [stripReturns_cons hc, List.count_cons_of_ne hc, List.length_cons, List.length_cons]
      omega

/-- The call quits when, and only when, the translation is longer than the destination. -/
def QuitsWhenMust (translate : List Byte → List Byte) (run : CrlfRun) : Prop :=
  run.Quits ↔ dstsize.val < (translate src).length

/-- The test after a newline is one too early, and useless for a count that cannot grow any more. -/
theorem crlfAdd_quitsWhenMust : QuitsWhenMust dstsize src addReturns (crlfAdd dstsize dst src) ↔
    ¬ (10 ∈ src ∧ (src.length + src.count 10 = dstsize.val ∨ src.length = INT_MAX ∧ dstsize.val = INT_MAX)) := by
  have hmax := dstsize.le_max
  have hquits : (crlfAdd dstsize dst src).Quits ↔
      AddStops dstsize src ∧ ¬ (src.length = INT_MAX ∧ dstsize.val = INT_MAX) := by
    by_cases h : AddStops dstsize src
    · rw [CrlfRun.Quits, crlfAdd_ended dstsize dst src h]
      split_ifs with hover
      · exact ⟨nofun, fun hquit => absurd hover hquit.2⟩
      · exact ⟨fun _ => ⟨h, hover⟩, fun _ => rfl⟩
    · rw [CrlfRun.Quits, crlfAdd_eq dstsize dst src h]
      exact ⟨nofun, fun hquit => absurd hquit.1 h⟩
  rw [QuitsWhenMust, hquits, AddStops, length_addReturns, ← List.count_pos_iff]
  omega

theorem crlfStrip_quitsWhenMust : QuitsWhenMust dstsize src stripReturns (crlfStrip dstsize dst src) ↔
    ¬ (0 < dstsize.val ∧ src.length = dstsize.val + src.count 13) := by
  have hlen := length_stripReturns src
  have hquits : (crlfStrip dstsize dst src).Quits ↔ StripStops dstsize src := by
    by_cases h : StripStops dstsize src
    · exact ⟨fun _ => h, fun _ => crlfStrip_ended dstsize dst src h⟩
    · rw [CrlfRun.Quits, crlfStrip_eq dstsize dst src h]
      exact ⟨nofun, fun hstops => absurd hstops h⟩
  rw [QuitsWhenMust, hquits, StripStops, ← List.length_pos_iff]
  omega

end Calls

/-! ### A stream in chunks -/

/-- Calls for one chunk after the other, with the same destination. -/
def calls (call : Memory Byte → List Byte → CrlfRun) : Memory Byte → List (List Byte) → List CrlfRun
  | _, [] => []
  | dst, chunk :: chunks => call dst chunk :: calls call (call dst chunk).dst chunks

def AllReturn (runs : List CrlfRun) : Prop := ∀ run ∈ runs, ∃ lenout, run.ended = .returns lenout

/-- The concatenated outputs. -/
def outputs (runs : List CrlfRun) : List Byte := (runs.map CrlfRun.output).flatten

section Chunks

variable {call : Memory Byte → List Byte → CrlfRun} {translate : List Byte → List Byte} {dstsize : Size}
  (hcall : ∀ dst src, Translates translate dstsize src (call dst src))

include hcall

theorem translates_of_mem_calls {dst : Memory Byte} {chunks : List (List Byte)} {run : CrlfRun}
    (hrun : run ∈ calls call dst chunks) : ∃ src, Translates translate dstsize src run := by
  induction chunks generalizing dst with
  | nil => exact absurd hrun List.not_mem_nil
  | cons chunk chunks ih =>
    rcases List.mem_cons.mp hrun with rfl | hrun
    · exact ⟨chunk, hcall dst chunk⟩
    · exact ih hrun

/-- Translating chunk by chunk is translating the whole, for a translation that has no memory. -/
theorem outputs_calls (hnil : translate [] = []) (happend : ∀ s t, translate (s ++ t) = translate s ++ translate t)
    (dst : Memory Byte) (chunks : List (List Byte)) (hret : AllReturn (calls call dst chunks)) :
    outputs (calls call dst chunks) = translate chunks.flatten := by
  induction chunks generalizing dst with
  | nil => exact hnil.symm
  | cons chunk chunks ih =>
    obtain ⟨lenout, hlenout⟩ := hret _ List.mem_cons_self
    have hfirst := ((hcall dst chunk).returned lenout hlenout).2
    have hrest := ih (call dst chunk).dst fun run hrun => hret run (List.mem_cons_of_mem _ hrun)
    rw [List.flatten_cons, happend, ← hfirst, ← hrest]
    rfl

end Chunks

/-- **Newline translation.** However a string is cut into chunks, when all calls return their outputs make the
translation of the whole string; the length that a call returns is the number of bytes that it has stored, and
none is stored behind the destination. A string without returns comes back from any other cut of the output. -/
theorem crlf_translates (dstsize : Size) (dst : Memory Byte) (chunks : List (List Byte)) :
    ((AllReturn (calls (crlfAdd dstsize) dst chunks) →
        outputs (calls (crlfAdd dstsize) dst chunks) = addReturns chunks.flatten) ∧
      (AllReturn (calls (crlfStrip dstsize) dst chunks) →
        outputs (calls (crlfStrip dstsize) dst chunks) = stripReturns chunks.flatten)) ∧
    (∀ run ∈ calls (crlfAdd dstsize) dst chunks ++ calls (crlfStrip dstsize) dst chunks,
      (∀ lenout, run.ended = .returns lenout → lenout = run.stores.length) ∧ ∀ i ∈ run.stores, i < dstsize.val) ∧
    (13 ∉ chunks.flatten → AllReturn (calls (crlfAdd dstsize) dst chunks) →
      ∀ (dstsize' : Size) (dst' : Memory Byte) (chunks' : List (List Byte)),
        chunks'.flatten = outputs (calls (crlfAdd dstsize) dst chunks) →
        AllReturn (calls (crlfStrip dstsize') dst' chunks') →
        outputs (calls (crlfStrip dstsize') dst' chunks') = chunks.flatten) := by
  have hadd := outputs_calls (crlfAdd_translates dstsize) rfl addReturns_append dst chunks
  have hstrip : ∀ dstsize dst chunks, AllReturn (calls (crlfStrip dstsize) dst chunks) →
      outputs (calls (crlfStrip dstsize) dst chunks) = stripReturns chunks.flatten := fun dstsize =>
    outputs_calls (crlfStrip_translates dstsize) rfl stripReturns_append
  refine ⟨⟨hadd, hstrip dstsize dst chunks⟩, fun run hrun => ?_, fun hcr hret dstsize' dst' chunks' hcut hret' => ?_⟩
  · rcases List.mem_append.mp hrun with hrun | hrun
    · obtain ⟨src, h⟩ := translates_of_mem_calls (crlfAdd_translates dstsize) hrun
      exact ⟨fun lenout hend => (h.returned lenout hend).1, h.inside⟩
    · obtain ⟨src, h⟩ := translates_of_mem_calls (crlfStrip_translates dstsize) hrun
      exact ⟨fun lenout hend => (h.returned lenout hend).1, h.inside⟩
  · rw [hstrip dstsize' dst' chunks' hret', hcut, hadd hret, stripReturns_addReturns hcr]

/-- A newline in each of two chunks, and the receiver's cut between a return and its newline. -/
theorem crlf_translates_sample :
    outputs (calls (crlfAdd ⟨16, by decide⟩) (fun _ => 0) [[97, 10], [10, 98]]) = [97, 13, 10, 13, 10, 98] ∧
    outputs (calls (crlfStrip ⟨16, by decide⟩) (fun _ => 0) [[97, 13], [10, 13, 10, 98]]) = [97, 10, 10, 98] := by
  have hadd : AllReturn (calls (crlfAdd ⟨16, by decide⟩) (fun _ => 0) [[97, 10], [10, 98]]) :=
    List.forall_mem_cons.mpr ⟨⟨3, rfl⟩, List.forall_mem_cons.mpr ⟨⟨3, rfl⟩, List.forall_mem_nil _⟩⟩
  have hstrip : AllReturn (calls (crlfStrip ⟨16, by decide⟩) (fun _ => 0) [[97, 13], [10, 13, 10, 98]]) :=
    List.forall_mem_cons.mpr ⟨⟨1, rfl⟩, List.forall_mem_cons.mpr ⟨⟨3, rfl⟩, List.forall_mem_nil _⟩⟩
  have htranslates := crlf_translates ⟨16, by decide⟩ (fun _ => 0) [[97, 10], [10, 98]]
  have houtput := htranslates.1.1 hadd
  refine ⟨houtput.trans (by decide), ?_⟩
  exact htranslates.2.2 (by decide) hadd ⟨16, by decide⟩ (fun _ => 0) _ (by rw [houtput]; decide) hstrip

end UnixNetProg.Sock
