import Mathlib.Data.Finset.Basic
import Mathlib.Data.Int.Notation
import Mathlib.Tactic.Common

/-!
# Tables of descriptors

A table of slots that hold descriptors, or -1 when they are free, as the servers keep for their clients.
`FdTable slot top fds` says that the slots hold just the descriptors `fds`, each once, and that no slot
above `top` is used. `FdSet n p fd set` says that a set for `select` holds just the descriptors of those of
`n` entries that satisfy `p`.
-/

namespace UnixNetProg.Lib

structure FdTable (slot : ℕ → ℤ) (top : ℤ) (fds : Finset ℕ) : Prop where
  entry : ∀ j, slot j = -1 ∨ 0 ≤ slot j
  distinct : ∀ j k, 0 ≤ slot j → slot j = slot k → j = k
  mem_fds : ∀ fd : ℕ, fd ∈ fds ↔ ∃ j, slot j = fd
  above : ∀ j : ℕ, top < j → slot j = -1

namespace FdTable

variable {slot slot' : ℕ → ℤ} {top : ℤ} {fds : Finset ℕ} {i fd : ℕ}

theorem empty (h : ∀ j, slot j = -1) (top : ℤ) : FdTable slot top ∅ := by
  refine ⟨fun j => .inl (h j), fun j k hj => ?_, fun fd => ⟨fun hfd => ?_, fun hfd => ?_⟩, fun j _ => h j⟩
  · rw [h j] at hj
    omega
  · exact absurd hfd (Finset.notMem_empty fd)
  · obtain ⟨j, hj⟩ := hfd
    rw [h j] at hj
    omega

theorem congr (h : FdTable slot top fds) (heq : ∀ j, slot' j = slot j) : FdTable slot' top fds := by
  rw [funext heq]
  exact h

theorem le_top (h : FdTable slot top fds) (hi : 0 ≤ slot i) : i ≤ top := by
  by_contra hlt
  have hfree := h.above i (by omega)
  omega

theorem mem_of_slot (h : FdTable slot top fds) (hi : slot i = fd) : fd ∈ fds := (h.mem_fds fd).mpr ⟨i, hi⟩

theorem add (h : FdTable slot top fds) (hfree : slot i < 0) (hnew : fd ∉ fds) (hself : slot' i = fd)
    (hne : ∀ j ≠ i, slot' j = slot j) : FdTable slot' (max top i) (insert fd fds) := by
  have hother : ∀ j, slot j ≠ fd := fun j hj => hnew (h.mem_of_slot hj)
  refine ⟨fun j => ?_, fun j k hj hjk => ?_, fun fd' => ?_, fun j hj => ?_⟩
  · by_cases hji : j = i
    · rw [hji, hself]
      omega
    · rw [hne j hji]
      exact h.entry j
  · by_cases hji : j = i
    · by_contra hne'
      have hki : k ≠ i := fun hki => hne' (hji.trans hki.symm)
      rw [hji, hself, hne k hki] at hjk
      exact hother k hjk.symm
    · rw [hne j hji] at hj hjk
      by_cases hki : k = i
      · rw [hki, hself] at hjk
        exact absurd hjk (hother j)
      · rw [hne k hki] at hjk
        exact h.distinct j k hj hjk
  · rw [Finset.mem_insert, h.mem_fds]
    constructor
    · rintro (rfl | ⟨j, hj⟩)
      · exact ⟨i, hself⟩
      · have hji : j ≠ i := by
          intro heq
          rw [heq] at hj
          omega
        exact ⟨j, (hne j hji).trans hj⟩
    · rintro ⟨j, hj⟩
      by_cases hji : j = i
      · rw [hji, hself] at hj
        left
        omega
      · rw [hne j hji] at hj
        exact .inr ⟨j, hj⟩
  · have hji : j ≠ i := by omega
    rw [hne j hji]
    exact h.above j (by omega)

theorem remove (h : FdTable slot top fds) (hi : slot i = fd) (hself : slot' i = -1)
    (hne : ∀ j ≠ i, slot' j = slot j) : FdTable slot' top (fds.erase fd) := by
  have hused : ∀ j, 0 ≤ slot' j → j ≠ i := by
    intro j hj heq
    rw [heq, hself] at hj
    omega
  refine ⟨fun j => ?_, fun j k hj hjk => ?_, fun fd' => ?_, fun j hj => ?_⟩
  · by_cases hji : j = i
    · rw [hji, hself]
      exact .inl rfl
    · rw [hne j hji]
      exact h.entry j
  · have hji := hused j hj
    have hki := hused k (hjk ▸ hj)
    rw [hne j hji] at hj hjk
    rw [hne k hki] at hjk
    exact h.distinct j k hj hjk
  · rw [Finset.mem_erase, h.mem_fds]
    constructor
    · rintro ⟨hfd, j, hj⟩
      have hji : j ≠ i := by
        intro heq
        rw [heq, hi] at hj
        omega
      exact ⟨j, (hne j hji).trans hj⟩
    · rintro ⟨j, hj⟩
      have hji := hused j (by omega)
      rw [hne j hji] at hj
      refine ⟨fun heq => hji ?_, j, hj⟩
      exact h.distinct j i (by omega) (by omega)
  · by_cases hji : j = i
    · rw [hji, hself]
    · rw [hne j hji]
      exact h.above j hj

end FdTable

/-! ### The descriptors of a table's entries -/

/-- `set` holds the descriptors of the entries below `n` that satisfy `p`. -/
def FdSet (n : ℕ) (p : ℕ → Prop) (fd : ℕ → ℕ) (set : Finset ℕ) : Prop := ∀ d, d ∈ set ↔ ∃ i < n, p i ∧ fd i = d

namespace FdSet

variable {n j : ℕ} {p q : ℕ → Prop} {fd fd' : ℕ → ℕ} {set : Finset ℕ}

theorem empty (h : ∀ i < n, ¬ p i) : FdSet n p fd ∅ := by
  intro d
  simp only [Finset.notMem_empty, false_iff, not_exists, not_and]
  intro i hi hp
  exact absurd hp (h i hi)

theorem congr (h : FdSet n p fd set) (hpq : ∀ i, p i ↔ q i) (hfd : ∀ i, p i → fd' i = fd i) :
    FdSet n q fd' set := by
  intro d
  rw [h d]
  refine exists_congr fun i => and_congr_right fun _ => ?_
  rw [← hpq i]
  refine and_congr_right fun hp => ?_
  rw [hfd i hp]

theorem insert (h : FdSet n p fd set) (hj : j < n) (hp : ¬ p j) (hq : q j) (hpq : ∀ i ≠ j, p i ↔ q i)
    (hfd : ∀ i ≠ j, fd' i = fd i) : FdSet n q fd' (insert (fd' j) set) := by
  intro d
  rw [Finset.mem_insert, h d]
  constructor
  · rintro (rfl | ⟨i, hi, hpi, rfl⟩)
    · exact ⟨j, hj, hq, rfl⟩
    · have hij : i ≠ j := fun hij => hp (hij ▸ hpi)
      exact ⟨i, hi, (hpq i hij).mp hpi, hfd i hij⟩
  · rintro ⟨i, hi, hqi, rfl⟩
    by_cases hij : i = j
    · rw [hij]
      exact .inl rfl
    · exact .inr ⟨i, hi, (hpq i hij).mpr hqi, (hfd i hij).symm⟩

theorem erase (h : FdSet n p fd set) (hq : ¬ q j) (hpq : ∀ i ≠ j, p i ↔ q i)
    (hone : ∀ i < n, p i → fd i = fd j → i = j) : FdSet n q fd (set.erase (fd j)) := by
  intro d
  rw [Finset.mem_erase, h d]
  constructor
  · rintro ⟨hd, i, hi, hpi, rfl⟩
    have hij : i ≠ j := fun hij => hd (congrArg fd hij)
    exact ⟨i, hi, (hpq i hij).mp hpi, rfl⟩
  · rintro ⟨i, hi, hqi, rfl⟩
    have hij : i ≠ j := fun hij => hq (hij ▸ hqi)
    have hpi := (hpq i hij).mpr hqi
    exact ⟨fun hfd => hij (hone i hi hpi hfd), i, hi, hpi, rfl⟩

end FdSet

end UnixNetProg.Lib
