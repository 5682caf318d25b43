import Mathlib.Data.Nat.Count

/-!
# Tables searched from the front

A table of `n` slots is a function on the numbers below `n`. `firstSlot` is the loop that runs over the
slots and breaks at the first that satisfies `p`; `Nat.count` counts those that do. `LowestFree` is how
the kernel numbers new descriptors.
-/

namespace UnixNetProg.Lib

/-- The first of the `k` slots from `i` on that satisfies `p`. -/
def firstSlotFrom (p : ℕ → Prop) [DecidablePred p] : ℕ → ℕ → Option ℕ
  | 0, _ => none
  | k + 1, i => if p i then some i else firstSlotFrom p k (i + 1)

/-- The first of the `n` slots that satisfies `p`. -/
def firstSlot (p : ℕ → Prop) [DecidablePred p] (n : ℕ) : Option ℕ := firstSlotFrom p n 0

section Slots

variable {p q : ℕ → Prop} [DecidablePred p] [DecidablePred q] {n i : ℕ}

theorem firstSlotFrom_eq_some {k j : ℕ} (h : firstSlotFrom p k i = some j) :
    i ≤ j ∧ j < i + k ∧ p j ∧ ∀ m, i ≤ m → m < j → ¬ p m := by
  induction k generalizing i with
  | zero => exact nomatch h
  | succ k ih =>
    rw [firstSlotFrom] at h
    by_cases hp : p i
    · rw [if_pos hp] at h
      obtain rfl : i = j := Option.some.inj h
      exact ⟨Nat.le_refl i, by omega, hp, fun m hm hlt => absurd hm (by omega)⟩
    · rw [if_neg hp] at h
      obtain ⟨hle, hlt, hpj, hbefore⟩ := ih h
      refine ⟨by omega, by omega, hpj, fun m hm hmj => ?_⟩
      by_cases hmi : m = i
      · rw [hmi]
        exact hp
      · exact hbefore m (by omega) hmj

theorem firstSlotFrom_eq_none {k : ℕ} (h : firstSlotFrom p k i = none) : ∀ m, i ≤ m → m < i + k → ¬ p m := by
  induction k generalizing i with
  | zero =>
    intro m hm hlt
    omega
  | succ k ih =>
    rw [firstSlotFrom] at h
    by_cases hp : p i
    · rw [if_pos hp] at h
      exact nomatch h
    · rw [if_neg hp] at h
      intro m hm hlt
      by_cases hmi : m = i
      · rw [hmi]
        exact hp
      · exact ih h m (by omega) (by omega)

theorem firstSlot_eq_some (h : firstSlot p n = some i) : i < n ∧ p i ∧ ∀ j < i, ¬ p j := by
  obtain ⟨-, hlt, hp, hbefore⟩ := firstSlotFrom_eq_some h
  exact ⟨by omega, hp, fun j hj => hbefore j (Nat.zero_le j) hj⟩

theorem exists_firstSlot (hi : i < n) (hp : p i) : ∃ j, firstSlot p n = some j := by
  cases h : firstSlot p n with
  | some j => exact ⟨j, rfl⟩
  | none => exact absurd hp (firstSlotFrom_eq_none h i (Nat.zero_le i) (by omega))

theorem count_congr (h : ∀ j < n, p j ↔ q j) : Nat.count p n = Nat.count q n := by
  apply Nat.le_antisymm
  · exact Nat.count_mono_left fun j hj => (h j hj).mp
  · exact Nat.count_mono_left fun j hj => (h j hj).mpr

theorem count_succ_of_ne (hi : i < n) (hp : ¬ p i) (hq : q i) (h : ∀ j ≠ i, p j ↔ q j) :
    Nat.count q n = Nat.count p n + 1 := by
  induction n with
  | zero => exact absurd hi (Nat.not_lt_zero i)
  | succ n ih =>
    rw [Nat.count_succ, Nat.count_succ]
    by_cases hn : i = n
    · -- below `i` the two agree
      have hlt : Nat.count p n = Nat.count q n := count_congr fun j hj => h j (by omega)
      rw [← hn, if_pos hq, if_neg hp, hn, hlt]
    · have hlt := ih (by omega)
      have hiff := h n fun heq => hn heq.symm
      by_cases hpn : p n
      · rw [if_pos hpn, if_pos (hiff.mp hpn), hlt]
      · rw [if_neg hpn, if_neg fun hqn => hpn (hiff.mpr hqn), hlt]

theorem count_change (hi : i < n) (h : ∀ j ≠ i, p j ↔ q j) :
    (Nat.count q n : ℤ) = Nat.count p n + ((if q i then 1 else 0) - if p i then 1 else 0) := by
  by_cases hsame : p i ↔ q i
  · have heq : Nat.count p n = Nat.count q n := by
      apply count_congr
      intro j _
      by_cases hj : j = i
      · rw [hj]
        exact hsame
      · exact h j hj
    simp [heq, hsame]
  · by_cases hp : p i
    · have hq : ¬ q i := fun hq => hsame (iff_of_true hp hq)
      rw [count_succ_of_ne hi hq hp fun j hj => (h j hj).symm, if_pos hp, if_neg hq]
      push_cast
      omega
    · have hq : q i := by
        by_contra hq
        exact hsame (iff_of_false hp hq)
      rw [count_succ_of_ne hi hp hq h, if_pos hq, if_neg hp]
      push_cast
      omega

theorem eq_of_count_le_one {j : ℕ} (hcount : Nat.count p n ≤ 1) (hi : i < n) (hj : j < n) (hpi : p i)
    (hpj : p j) : i = j := by
  rw [Nat.count_eq_card_filter_range, Finset.card_le_one] at hcount
  exact hcount i (by simp [hi, hpi]) j (by simp [hj, hpj])

end Slots

/-! ### The lowest free number -/

/-- `n` is the lowest number that is not used. -/
def LowestFree (used : Finset ℕ) (n : ℕ) : Prop := n ∉ used ∧ ∀ m < n, m ∈ used

instance (used : Finset ℕ) (n : ℕ) : Decidable (LowestFree used n) := inferInstanceAs (Decidable (_ ∧ _))

namespace LowestFree

variable {used : Finset ℕ} {n bound : ℕ}

theorem lt_of_card_lt (h : LowestFree used n) (hcard : used.card < bound) : n < bound := by
  by_contra hle
  have hsub : Finset.range bound ⊆ used := by
    intro m hm
    have hlt := Finset.mem_range.mp hm
    exact h.2 m (by omega)
  have hle' := Finset.card_le_card hsub
  rw [Finset.card_range] at hle'
  omega

theorem card_lt_of_lt (h : LowestFree used n) (hused : ∀ m ∈ used, m < bound) (hlt : n < bound) :
    used.card < bound := by
  have hsub : used ⊂ Finset.range bound := by
    refine ⟨fun m hm => Finset.mem_range.mpr (hused m hm), fun hsup => ?_⟩
    exact h.1 (hsup (Finset.mem_range.mpr hlt))
  have hcard := Finset.card_lt_card hsub
  rw [Finset.card_range] at hcard
  exact hcard

end LowestFree

end UnixNetProg.Lib
