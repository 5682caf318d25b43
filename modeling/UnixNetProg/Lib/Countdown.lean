import Mathlib.Data.Finset.Card
import Mathlib.Data.Int.Notation
import Mathlib.Tactic.Common

/-!
# Counting down what is due

A loop that handles a set of items one by one and stops when its counter reaches 0. As long as it
handles only items that are due, and none twice, the counter tells how many are left.
-/

namespace UnixNetProg.Lib

/-- The items `due` of which `done` were handled, each once, and the counter `left`. -/
structure Countdown {α : Type} (due : Finset α) (done : List α) (left : ℤ) : Prop where
  nodup : done.Nodup
  sub : ∀ x ∈ done, x ∈ due
  left_eq : left = (due.card : ℤ) - done.length

namespace Countdown

variable {α : Type} {due : Finset α} {done : List α} {left : ℤ}

theorem start (due : Finset α) : Countdown due [] due.card :=
  ⟨List.nodup_nil, nofun, (Int.sub_zero _).symm⟩

theorem take (h : Countdown due done left) {x : α} (hdue : x ∈ due) (hnew : x ∉ done) :
    Countdown due (done ++ [x]) (left - 1) := by
  refine ⟨?_, fun y hy => ?_, ?_⟩
  · rw [← List.concat_eq_append]
    exact h.nodup.concat hnew
  · rcases List.mem_append.mp hy with hy | hy
    · exact h.sub y hy
    · rw [List.mem_singleton.mp hy]
      exact hdue
  · rw [List.length_append, List.length_singleton, h.left_eq]
    omega

theorem mem_done [DecidableEq α] (h : Countdown due done left) (hleft : left ≤ 0) {x : α} (hx : x ∈ due) :
    x ∈ done := by
  have hsub : done.toFinset ⊆ due := by
    intro y hy
    exact h.sub y (List.mem_toFinset.mp hy)
  have hcard : due.card ≤ done.toFinset.card := by
    rw [List.toFinset_card_of_nodup h.nodup]
    have hleft_eq := h.left_eq
    omega
  rw [← Finset.eq_of_subset_of_card_le hsub hcard] at hx
  exact List.mem_toFinset.mp hx

theorem exists_left [DecidableEq α] (h : Countdown due done left) (hleft : 0 < left) :
    ∃ x ∈ due, x ∉ done := by
  by_contra hnone
  push Not at hnone
  have hsub : due ⊆ done.toFinset := fun x hx => List.mem_toFinset.mpr (hnone x hx)
  have hcard := Finset.card_le_card hsub
  rw [List.toFinset_card_of_nodup h.nodup] at hcard
  have hleft_eq := h.left_eq
  omega

end Countdown

end UnixNetProg.Lib
