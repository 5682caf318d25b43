import Mathlib.Data.List.Basic
import Mathlib.Tactic.Common

/-!
# Histories

A history is a list that grows at its end. A split of a grown history around an entry `x` either
splits the old history around `x`, or `x` is the new entry.
-/

namespace UnixNetProg.Lib

variable {α : Type}

theorem snoc_eq_split {l pre post : List α} {c x : α} (h : l ++ [c] = pre ++ x :: post) :
    (∃ post', post = post' ++ [c] ∧ l = pre ++ x :: post') ∨ (post = [] ∧ c = x ∧ l = pre) := by
  rcases List.eq_nil_or_concat post with rfl | ⟨post', last, rfl⟩
  · right
    obtain ⟨hl, hc⟩ := List.append_inj' h rfl
    exact ⟨rfl, by simpa using hc, hl⟩
  · left
    rw [List.concat_eq_append] at h ⊢
    have h' : l ++ [c] = (pre ++ x :: post') ++ [last] := by simpa using h
    obtain ⟨hl, hc⟩ := List.append_inj' h' rfl
    obtain rfl : c = last := by simpa using hc
    exact ⟨post', rfl, hl⟩

end UnixNetProg.Lib
