import Mathlib.Data.List.Forall2
import Mathlib.Tactic.Common

/-!
# Walks over records of different lengths

`walk` goes from a record to the next by the length that the record has in itself, up to `lim`; `turns` bounds the
number of turns, and `stuck` is what a walk does that has no end. Where the records stand one behind the other
(`Chain`), the walk is a fold over where they start (`walk_eq_foldlM`). A walk that is left at the first record with
a property is a search (`foldlM_throw`).
-/

namespace UnixNetProg.Lib

section Walk

variable {m : Type → Type} [Monad m] {σ : Type}

def walk (stuck : m σ) (step : ℕ → ℕ) (body : σ → ℕ → m σ) (lim : ℕ) : ℕ → ℕ → σ → m σ
  | 0, _, _ => stuck
  | turns + 1, next, s =>
    if next < lim then body s next >>= walk stuck step body lim turns (next + step next) else pure s

/-- Records from `next` to `lim`, and where they start. -/
inductive Chain (step : ℕ → ℕ) (lim : ℕ) : ℕ → List ℕ → Prop where
  | nil : Chain step lim lim []
  | cons {next : ℕ} {ps : List ℕ} (hpos : 0 < step next) (h : Chain step lim (next + step next) ps) :
      Chain step lim next (next :: ps)

variable {step : ℕ → ℕ} {lim next : ℕ} {ps : List ℕ}

theorem Chain.length_le (h : Chain step lim next ps) : next + ps.length ≤ lim := by
  induction h with
  | nil => exact Nat.le_refl _
  | cons hpos h ih =>
    rw [List.length_cons]
    omega

/-- **A walk over records** is a fold over where they start. -/
theorem walk_eq_foldlM (stuck : m σ) (body : σ → ℕ → m σ) {turns : ℕ} (h : Chain step lim next ps)
    (hturns : ps.length < turns) (s : σ) : walk stuck step body lim turns next s = ps.foldlM body s := by
  induction h generalizing turns s with
  | nil =>
    obtain ⟨turns, rfl⟩ := Nat.exists_eq_add_of_lt hturns
    rw [walk, if_neg (Nat.lt_irrefl lim)]
    rfl
  | cons hpos h ih =>
    obtain ⟨turns, rfl⟩ : ∃ k, turns = k + 1 := ⟨turns - 1, by omega⟩
    have hle := h.length_le
    rw [walk, if_pos (by omega), List.foldlM_cons]
    apply congrArg
    funext s'
    exact ih (Nat.lt_of_succ_lt_succ hturns) s'

end Walk

section Search

variable {α β ρ : Type} {R : α → β → Prop}

theorem foldlM_throw (P : α → Bool) (f : α → ρ) (as : List α) :
    (as.foldlM (fun _ a => if P a then throw (f a) else pure ()) () : ExceptT ρ Option Unit) =
      match as.find? P with
      | some a => throw (f a)
      | none => pure () := by
  induction as with
  | nil => rfl
  | cons a as ih =>
    rw [List.foldlM_cons, List.find?_cons]
    cases hP : P a with
    | true => rfl
    | false => exact ih

theorem find?_of_forall₂ {P : α → Bool} {as : List α} {bs : List β} (h : List.Forall₂ R as bs) {b : β} (hb : b ∈ bs)
    (hP : ∀ a, ∀ b' ∈ bs, R a b' → (P a = true ↔ b' = b)) : ∃ a, as.find? P = some a ∧ R a b := by
  induction h with
  | nil => cases hb
  | @cons a b' as bs hR h ih =>
    rw [List.find?_cons]
    cases heq : P a with
    | true =>
      refine ⟨a, rfl, ?_⟩
      rw [← (hP a b' List.mem_cons_self hR).mp heq]
      exact hR
    | false =>
      apply ih
      · refine (List.mem_cons.mp hb).resolve_left fun hsame => ?_
        rw [(hP a b' List.mem_cons_self hR).mpr hsame.symm] at heq
        cases heq
      · intro a' b'' hb'' hR'
        exact hP a' b'' (List.mem_cons_of_mem _ hb'') hR'

end Search

end UnixNetProg.Lib
