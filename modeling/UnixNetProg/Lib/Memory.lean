import Mathlib.Data.List.Basic
import Mathlib.Data.List.GetD
import Mathlib.Tactic.Common

/-!
# A window of memory as a queue

`Memory α` is a flat memory of cells, `store` writes consecutive cells and `slice m i j` reads the
cells `i ≤ k < j`. A buffer with an input offset `i` and an output offset `o ≤ i` is the queue
`slice m o i`: storing at `i` appends to it (`slice_store`), moving `o` forward drops from its front
(`slice_add_left`).
-/

namespace UnixNetProg.Lib

abbrev Memory (α : Type) := ℕ → α

namespace Memory

variable {α : Type}

def store (m : Memory α) (i : ℕ) (xs : List α) : Memory α :=
  fun k => if h : i ≤ k ∧ k - i < xs.length then xs.get ⟨k - i, h.2⟩ else m k

def slice (m : Memory α) (i j : ℕ) : List α := (List.range' i (j - i)).map fun k => m k

@[simp] theorem length_slice (m : Memory α) (i j : ℕ) : (m.slice i j).length = j - i := by
  simp [slice]

@[simp] theorem slice_self (m : Memory α) (i : ℕ) : m.slice i i = [] := by
  simp [slice]

theorem getElem?_slice (m : Memory α) {i j k : ℕ} (hk : k < j - i) :
    (m.slice i j)[k]? = some (m (i + k)) := by
  simp [slice, hk]

theorem slice_store (m : Memory α) {o i : ℕ} (ho : o ≤ i) (xs : List α) :
    (m.store i xs).slice o (i + xs.length) = m.slice o i ++ xs := by
  apply List.ext_getElem?
  intro k
  by_cases hk : k < i + xs.length - o
  · rw [getElem?_slice _ hk, store]
    by_cases hlt : k < i - o
    · rw [dif_neg (by omega), List.getElem?_append_left (by simpa using hlt), getElem?_slice _ hlt]
    · rw [dif_pos (by omega), List.getElem?_append_right (by simp; omega),
        List.getElem?_eq_getElem (by simp; omega)]
      simp only [List.get_eq_getElem, length_slice]
      congr 2
      omega
  · rw [List.getElem?_eq_none (by simp; omega), List.getElem?_eq_none (by simp; omega)]

theorem slice_store_self (m : Memory α) (i : ℕ) (xs : List α) : (m.store i xs).slice i (i + xs.length) = xs := by
  rw [slice_store m (Nat.le_refl i), slice_self, List.nil_append]

theorem slice_store_zero (m : Memory α) (xs : List α) : (m.store 0 xs).slice 0 xs.length = xs := by
  have hself := m.slice_store_self 0 xs
  rw [Nat.zero_add] at hself
  exact hself

theorem slice_add_left (m : Memory α) (o i k : ℕ) : m.slice (o + k) i = (m.slice o i).drop k := by
  apply List.ext_getElem?
  intro n
  rw [List.getElem?_drop]
  by_cases hn : n < i - (o + k)
  · rw [getElem?_slice _ hn, getElem?_slice _ (by omega)]
    congr 2
    omega
  · rw [List.getElem?_eq_none (by simp; omega), List.getElem?_eq_none (by simp; omega)]

theorem slice_append (m : Memory α) {i j k : ℕ} (hij : i ≤ j) (hjk : j ≤ k) :
    m.slice i j ++ m.slice j k = m.slice i k := by
  have hj : j = i + (j - i) := by omega
  have hk : k - i = j - i + (k - j) := by omega
  rw [slice, slice, slice, ← List.map_append, hk, ← List.range'_append_1, ← hj]

theorem slice_store_of_le (m : Memory α) {i o k : ℕ} {xs : List α} (h : i + xs.length ≤ o) :
    (m.store i xs).slice o k = m.slice o k := by
  apply List.map_congr_left
  intro n hn
  have hle := (List.mem_range'_1.mp hn).1
  rw [store, dif_neg (by omega)]

theorem slice_store_left (m : Memory α) (i : ℕ) (xs ys : List α) :
    (m.store i (xs ++ ys)).slice i (i + xs.length) = xs := by
  have hself := slice_store_self m i (xs ++ ys)
  have hle : xs.length ≤ (xs ++ ys).length := by rw [List.length_append]; exact Nat.le_add_right _ _
  rw [← slice_append _ (Nat.le_add_right i xs.length) (Nat.add_le_add_left hle i)] at hself
  exact List.append_inj_left hself (by rw [length_slice, Nat.add_sub_cancel_left])

theorem store_nil (m : Memory α) (i : ℕ) : m.store i [] = m := by
  funext k
  rw [store, dif_neg (by simp)]

theorem store_zero_of_lt (m : Memory α) (d : α) {xs : List α} {k : ℕ} (hk : k < xs.length) :
    m.store 0 xs k = xs.getD k d := by
  rw [store, dif_pos (by omega), List.get_eq_getElem, List.getD_eq_getElem _ _ hk]
  rfl

theorem store_slice (m : Memory α) (i j : ℕ) : m.store i (m.slice i j) = m := by
  funext k
  by_cases hk : i ≤ k ∧ k - i < (m.slice i j).length
  · have hsome := getElem?_slice m  (by simpa using hk.2)
    rw [List.getElem?_eq_getElem hk.2, Nat.add_sub_cancel' hk.1] at hsome
    rw [store, dif_pos hk]
    exact Option.some.inj hsome
  · rw [store, dif_neg hk]

theorem store_append (m : Memory α) (i : ℕ) (xs ys : List α) :
    (m.store i xs).store (i + xs.length) ys = m.store i (xs ++ ys) := by
  funext k
  simp only [store, List.get_eq_getElem, List.length_append]
  by_cases hys : i + xs.length ≤ k ∧ k - (i + xs.length) < ys.length
  · rw [dif_pos hys, dif_pos (by omega), List.getElem_append_right (by omega)]
    congr 1
    omega
  · rw [dif_neg hys]
    by_cases hxs : i ≤ k ∧ k - i < xs.length
    · rw [dif_pos hxs, dif_pos (by omega), List.getElem_append_left hxs.2]
    · rw [dif_neg hxs, dif_neg (by omega)]

theorem store_store (m : Memory α) (i : ℕ) {xs ys : List α} (h : xs.length ≤ ys.length) :
    (m.store i xs).store i ys = m.store i ys := by
  funext k
  by_cases hk : i ≤ k ∧ k - i < ys.length
  · rw [store, dif_pos hk, store, dif_pos hk]
  · have hk' : ¬ (i ≤ k ∧ k - i < xs.length) := by omega
    rw [store, dif_neg hk, store, dif_neg hk', store, dif_neg hk]

theorem store_snoc_store (m : Memory α) (i : ℕ) (xs : List α) (z : α) {ys : List α} (h : ys ≠ []) :
    (m.store i (xs ++ [z])).store (i + xs.length) ys = m.store i (xs ++ ys) := by
  have hle : [z].length ≤ ys.length := List.length_pos_iff.mpr h
  rw [← store_append, store_store _ _ hle, store_append]

theorem store_set (m : Memory α) (i : ℕ) {xs : List α} {j : ℕ} (hj : j < xs.length) (x : α) :
    (m.store i xs).store (i + j) [x] = m.store i (xs.set j x) := by
  funext k
  simp only [store, List.get_eq_getElem, List.length_set, List.length_singleton]
  by_cases hk : k = i + j
  · subst hk
    have hsub : i + j - i = j := Nat.add_sub_cancel_left i j
    simp [hsub, hj]
  · rw [dif_neg (by omega)]
    by_cases hxs : i ≤ k ∧ k - i < xs.length
    · rw [dif_pos hxs, dif_pos hxs, List.getElem_set_ne (by omega)]
    · rw [dif_neg hxs, dif_neg hxs]

theorem store_store_within (m : Memory α) (i : ℕ) {pre mid ys post : List α} (h : mid.length = ys.length) :
    (m.store i (pre ++ mid ++ post)).store (i + pre.length) ys = m.store i (pre ++ ys ++ post) := by
  funext k
  simp only [store, List.get_eq_getElem, List.length_append]
  by_cases hys : i + pre.length ≤ k ∧ k - (i + pre.length) < ys.length
  · rw [dif_pos hys, dif_pos (by omega), List.getElem_append_left (by rw [List.length_append]; omega),
      List.getElem_append_right (by omega)]
    congr 1
    omega
  · rw [dif_neg hys]
    by_cases hk : i ≤ k ∧ k - i < pre.length + mid.length + post.length
    · rw [dif_pos hk, dif_pos (by omega)]
      by_cases hpre : k - i < pre.length
      · rw [List.getElem_append_left (by rw [List.length_append]; omega), List.getElem_append_left hpre,
          List.getElem_append_left (by rw [List.length_append]; omega), List.getElem_append_left hpre]
      · rw [List.getElem_append_right (by rw [List.length_append]; omega),
          List.getElem_append_right (by rw [List.length_append]; omega)]
        simp only [List.length_append, h]
    · rw [dif_neg hk, dif_neg (by omega)]

theorem slice_congr {m m' : Memory α} {i j : ℕ} (h : ∀ k, i ≤ k → k < j → m k = m' k) :
    m.slice i j = m'.slice i j := by
  apply List.map_congr_left
  intro k hk
  obtain ⟨hle, hlt⟩ := List.mem_range'_1.mp hk
  exact h k hle (by omega)

theorem slice_of_append {m : Memory α} {i : ℕ} {xs ys : List α}
    (h : m.slice i (i + (xs ++ ys).length) = xs ++ ys) :
    m.slice i (i + xs.length) = xs ∧ m.slice (i + xs.length) (i + xs.length + ys.length) = ys := by
  rw [List.length_append, ← Nat.add_assoc, ← m.slice_append (Nat.le_add_right _ _) (Nat.le_add_right _ _)] at h
  exact List.append_inj h (by rw [length_slice, Nat.add_sub_cancel_left])

theorem slice_shift (m : Memory α) (p i j : ℕ) : slice (fun k => m (p + k)) i j = m.slice (p + i) (p + j) := by
  rw [slice, slice, Nat.add_sub_add_left, List.range'_eq_map_range, List.range'_eq_map_range, List.map_map,
    List.map_map]
  apply List.map_congr_left
  intro k _
  exact congrArg m (Nat.add_assoc p i k).symm

theorem slice_eq_nil_iff (m : Memory α) (o i : ℕ) : m.slice o i = [] ↔ i ≤ o := by
  rw [← List.length_eq_zero_iff, length_slice]
  omega

end Memory

end UnixNetProg.Lib
