import Mathlib.Data.List.Basic
import Mathlib.Tactic.Common

/-!
# A stream behind a descriptor

A `Source` holds the items that have not been read yet, and what the next reads will meet: an
interruption, an error, or a bound on the number of items that are ready. Every way of cutting the
stream into pieces, with interruptions between them, is the plan of some source. A read after the
last item returns end of file, every time.
-/

namespace UnixNetProg.Lib

/-- What a read meets: it is interrupted, it fails, or at most `k + 1` items are ready. -/
inductive Grant where
  | intr
  | error
  | upTo (k : ℕ)
  deriving DecidableEq, Repr

inductive Received (α : Type) where
  | data (items : List α)
  | eof
  | error
  deriving DecidableEq, Repr

/-- What one call of `read` returns. -/
inductive ReadResult (α : Type) where
  | data (items : List α)
  | eof
  | intr
  | error
  deriving DecidableEq, Repr

def Received.result {α : Type} : Received α → ReadResult α
  | .data items => .data items
  | .eof => .eof
  | .error => .error

structure Source (α : Type) where
  rest : List α
  plan : List Grant
  deriving DecidableEq, Repr

namespace Source

variable {α : Type}

/-- Hand out at most `len` items. -/
def deliver (rest : List α) (plan : List Grant) (len : ℕ) : Received α × Source α :=
  if rest = [] then (.eof, ⟨rest, plan⟩) else (.data (rest.take len), ⟨rest.drop len, plan⟩)

/-- A read of at most `len` items, again after each interruption. -/
def retry (rest : List α) (len : ℕ) : List Grant → Received α × Source α
  | [] => deliver rest [] len
  | .intr :: plan => retry rest len plan
  | .error :: plan => (.error, ⟨rest, plan⟩)
  | .upTo k :: plan => deliver rest plan (min len (k + 1))

def readRetry (s : Source α) (len : ℕ) : Received α × Source α := retry s.rest len s.plan

/-- One read of at most `len` items. -/
def read (s : Source α) (len : ℕ) : ReadResult α × Source α :=
  match s.plan with
  | .intr :: plan => (.intr, ⟨s.rest, plan⟩)
  | .error :: plan => (.error, ⟨s.rest, plan⟩)
  | .upTo k :: plan => (deliver s.rest plan (min len (k + 1))).map Received.result id
  | [] => (deliver s.rest [] len).map Received.result id

/-- The results of reads of these lengths, one after the other. -/
def reads (s : Source α) : List ℕ → List (ReadResult α) × Source α
  | [] => ([], s)
  | len :: lens => (((s.read len).2.reads lens).1.cons (s.read len).1, ((s.read len).2.reads lens).2)

/-- The items that reads of at most `len` hand out before one of them fails. -/
def untilError (len : ℕ) : List α → List Grant → List α
  | rest, [] => rest
  | rest, .intr :: plan => untilError len rest plan
  | _, .error :: _ => []
  | rest, .upTo k :: plan =>
    rest.take (min len (k + 1)) ++ untilError len (rest.drop (min len (k + 1))) plan

/-- No read of the plan fails. -/
def NoError (s : Source α) : Prop := .error ∉ s.plan

instance (s : Source α) : Decidable s.NoError := inferInstanceAs (Decidable (¬ _))

theorem deliver_cases (rest : List α) (plan : List Grant) {len : ℕ} (hlen : 0 < len) :
    (rest = [] ∧ deliver rest plan len = (.eof, ⟨rest, plan⟩)) ∨
    ∃ item items rest', rest = item :: items ++ rest' ∧ items.length < len ∧
      deliver rest plan len = (.data (item :: items), ⟨rest', plan⟩) := by
  cases rest with
  | nil => exact .inl ⟨rfl, rfl⟩
  | cons item tail =>
    right
    obtain ⟨n, rfl⟩ : ∃ n, len = n + 1 := ⟨len - 1, by omega⟩
    refine ⟨item, tail.take n, tail.drop n, ?_, ?_, rfl⟩
    · rw [List.cons_append, List.take_append_drop]
    · rw [List.length_take]
      omega

/-- What a read can do: report the end of the stream, fail as planned, or hand out the next items. -/
theorem readRetry_cases (s : Source α) {len : ℕ} (hlen : 0 < len) :
    (s.rest = [] ∧ ∃ plan, plan ⊆ s.plan ∧ s.readRetry len = (.eof, ⟨s.rest, plan⟩)) ∨
    (.error ∈ s.plan ∧ ∃ plan, plan ⊆ s.plan ∧ s.readRetry len = (.error, ⟨s.rest, plan⟩)) ∨
    ∃ item items rest plan, s.rest = item :: items ++ rest ∧ items.length < len ∧ plan ⊆ s.plan ∧
      s.readRetry len = (.data (item :: items), ⟨rest, plan⟩) := by
  obtain ⟨rest, plan⟩ := s
  simp only [readRetry]
  induction plan with
  | nil =>
    rcases deliver_cases rest [] hlen with ⟨hnil, heq⟩ | ⟨item, items, rest', hrest, hle, heq⟩
    · exact .inl ⟨hnil, [], List.Subset.refl _, heq⟩
    · exact .inr (.inr ⟨item, items, rest', [], hrest, hle, List.Subset.refl _, heq⟩)
  | cons g plan ih =>
    have hsub : plan ⊆ g :: plan := List.subset_cons_self g plan
    cases g with
    | intr =>
      rw [retry]
      rcases ih with ⟨hnil, plan', hp, heq⟩ | ⟨herr, plan', hp, heq⟩ | ⟨item, items, rest', plan', hrest, hle, hp, heq⟩
      · exact .inl ⟨hnil, plan', List.Subset.trans hp hsub, heq⟩
      · exact .inr (.inl ⟨hsub herr, plan', List.Subset.trans hp hsub, heq⟩)
      · exact .inr (.inr ⟨item, items, rest', plan', hrest, hle, List.Subset.trans hp hsub, heq⟩)
    | error => exact .inr (.inl ⟨List.mem_cons_self, plan, hsub, rfl⟩)
    | upTo k =>
      have hpos : 0 < min len (k + 1) := by omega
      rw [retry]
      rcases deliver_cases rest plan hpos with ⟨hnil, heq⟩ | ⟨item, items, rest', hrest, hle, heq⟩
      · exact .inl ⟨hnil, plan, hsub, heq⟩
      · exact .inr (.inr ⟨item, items, rest', plan, hrest, by omega, hsub, heq⟩)

theorem read_cases (s : Source α) {len : ℕ} (hlen : 0 < len) :
    (∃ plan, s.plan = .intr :: plan ∧ s.read len = (.intr, ⟨s.rest, plan⟩)) ∨
    (∃ plan, s.plan = .error :: plan ∧ s.read len = (.error, ⟨s.rest, plan⟩)) ∨
    (s.rest = [] ∧ s.read len = (.eof, ⟨s.rest, s.plan.tail⟩)) ∨
    ∃ item items rest, s.rest = item :: items ++ rest ∧ items.length < len ∧
      s.read len = (.data (item :: items), ⟨rest, s.plan.tail⟩) := by
  have hdeliver : ∀ plan len', 0 < len' → len' ≤ len →
      (s.rest = [] ∧ (deliver s.rest plan len').map Received.result id = (.eof, ⟨s.rest, plan⟩)) ∨
      ∃ item items rest, s.rest = item :: items ++ rest ∧ items.length < len ∧
        (deliver s.rest plan len').map Received.result id = (.data (item :: items), ⟨rest, plan⟩) := by
    intro plan len' hpos hle
    rcases deliver_cases s.rest plan hpos with ⟨hnil, heq⟩ | ⟨item, items, rest, hrest, hlt, heq⟩
    · exact .inl ⟨hnil, by rw [heq]; rfl⟩
    · exact .inr ⟨item, items, rest, hrest, by omega, by rw [heq]; rfl⟩
  unfold read
  cases hplan : s.plan with
  | nil => exact .inr (.inr (hdeliver [] len hlen (Nat.le_refl len)))
  | cons g plan =>
    cases g with
    | intr => exact .inl ⟨plan, rfl, rfl⟩
    | error => exact .inr (.inl ⟨plan, rfl, rfl⟩)
    | upTo k => exact .inr (.inr (hdeliver plan _ (by omega) (by omega)))

theorem untilError_nil (len : ℕ) (plan : List Grant) : untilError len ([] : List α) plan = [] := by
  induction plan with
  | nil => rfl
  | cons g plan ih =>
    cases g with
    | intr => exact ih
    | error => rfl
    | upTo k =>
      rw [untilError, List.take_nil, List.drop_nil, ih]
      rfl

theorem readRetry_untilError (s : Source α) {len : ℕ} (hlen : 0 < len) :
    match s.readRetry len with
    | (.data items, s') => items ≠ [] ∧ untilError len s.rest s.plan = items ++ untilError len s'.rest s'.plan
    | (_, _) => untilError len s.rest s.plan = [] := by
  obtain ⟨rest, plan⟩ := s
  simp only [readRetry]
  induction plan with
  | nil =>
    rcases deliver_cases rest [] hlen with ⟨hnil, heq⟩ | ⟨item, items, rest', hrest, hle, heq⟩
    · rw [retry, heq]
      exact hnil
    · rw [retry, heq]
      exact ⟨nofun, hrest⟩
  | cons g plan ih =>
    cases g with
    | intr => exact ih
    | error => rfl
    | upTo k =>
      rw [retry, deliver]
      by_cases hnil : rest = []
      · rw [if_pos hnil, hnil]
        exact untilError_nil len _
      · rw [if_neg hnil]
        refine ⟨?_, rfl⟩
        rw [Ne, List.take_eq_nil_iff, not_or]
        exact ⟨by omega, hnil⟩

end Source

end UnixNetProg.Lib
