import Mathlib.Data.Nat.ModEq
import Mathlib.Logic.Function.Basic
import Mathlib.Tactic.Common

/-!
# Ring buffers

A ring of `n` slots that holds a queue from the slot `start` on, round the end. Items are put in behind
the last one and taken out at the front; while the queue is shorter than the ring, the slot behind the
last item is none of those that it holds.
-/

namespace UnixNetProg.Lib

/-- `if (++i >= n) i = 0;`. -/
def wrapSucc (n i : ℕ) : ℕ := if n ≤ i + 1 then 0 else i + 1

theorem wrapSucc_eq {n i : ℕ} (h : i < n) : wrapSucc n i = (i + 1) % n := by
  unfold wrapSucc
  by_cases hle : n ≤ i + 1
  · have heq : i + 1 = n := by omega
    rw [if_pos hle, heq, Nat.mod_self]
  · rw [if_neg hle, Nat.mod_eq_of_lt (by omega)]

/-- `if (++i == n) i = 0;`. -/
def stepRound (n i : ℕ) : ℕ := if i + 1 = n then 0 else i + 1

theorem stepRound_eq {n i : ℕ} (h : i < n) : stepRound n i = (i + 1) % n := by
  unfold stepRound
  by_cases heq : i + 1 = n
  · rw [if_pos heq, heq, Nat.mod_self]
  · rw [if_neg heq, Nat.mod_eq_of_lt (by omega)]

theorem add_mod_ne {n start k m : ℕ} (hkm : k < m) (hmn : m < k + n) : (start + k) % n ≠ (start + m) % n := by
  intro heq
  have hdvd : n ∣ start + m - (start + k) := (Nat.modEq_iff_dvd' (by omega)).mp heq
  have hle := Nat.le_of_dvd (by omega) hdvd
  omega

/-- The slots from `start` on hold `items`. -/
def RingHolds {α : Type} (n : ℕ) (slot : ℕ → α) (start : ℕ) (items : List α) : Prop :=
  ∀ k x, items[k]? = some x → slot ((start + k) % n) = x

namespace RingHolds

variable {α : Type} {n start start' : ℕ} {slot slot' : ℕ → α} {items : List α} {x : α}

theorem nil : RingHolds n slot start [] := nofun

theorem congr_start (h : RingHolds n slot start items) (hstart : start' % n = start % n) :
    RingHolds n slot start' items := by
  intro k x hk
  rw [Nat.add_mod, hstart, ← Nat.add_mod]
  exact h k x hk

theorem frame (h : RingHolds n slot start items)
    (hslot : ∀ k < items.length, slot' ((start + k) % n) = slot ((start + k) % n)) :
    RingHolds n slot' start items := by
  intro k x hk
  have hlt : k < items.length := (List.getElem?_eq_some_iff.mp hk).1
  rw [hslot k hlt]
  exact h k x hk

theorem update_free (h : RingHolds n slot start items) (hlen : items.length < n) (x : α) :
    RingHolds n (Function.update slot ((start + items.length) % n) x) start items := by
  apply h.frame
  intro k hk
  exact Function.update_of_ne (add_mod_ne hk (by omega)) _ _

theorem push (h : RingHolds n slot start items) (hlen : items.length < n) (x : α) :
    RingHolds n (Function.update slot ((start + items.length) % n) x) start (items ++ [x]) := by
  intro k y hk
  by_cases hlt : k < items.length
  · rw [List.getElem?_append_left hlt] at hk
    exact h.update_free hlen x k y hk
  · rw [List.getElem?_append_right (by omega)] at hk
    obtain ⟨hone, hy⟩ := List.getElem?_eq_some_iff.mp hk
    rw [List.length_singleton] at hone
    have hkeq : k = items.length := by omega
    rw [hkeq, Function.update_self, ← hy, List.getElem_singleton]

theorem pop (h : RingHolds n slot start (x :: items)) :
    slot (start % n) = x ∧ RingHolds n slot (start + 1) items := by
  refine ⟨h 0 x rfl, fun k y hk => ?_⟩
  rw [Nat.add_assoc, Nat.add_comm 1 k]
  exact h (k + 1) y hk

end RingHolds

/-- A queue with the slot that is taken out next and the slot that is filled next. -/
structure RingQueue {α : Type} (n : ℕ) (slot : ℕ → α) (get put : ℕ) (items : List α) : Prop where
  get_lt : get < n
  put_eq : put = (get + items.length) % n
  room : items.length ≤ n
  holds : RingHolds n slot get items

namespace RingQueue

variable {α : Type} {n get put : ℕ} {slot : ℕ → α} {items : List α} {x : α}

theorem nil (h : get < n) : RingQueue n slot get get [] where
  get_lt := h
  put_eq := by simp [Nat.mod_eq_of_lt h]
  room := by simp
  holds := .nil

theorem put_lt (h : RingQueue n slot get put items) : put < n := by
  have hpos := h.get_lt
  rw [h.put_eq]
  exact Nat.mod_lt _ (by omega)

/-- The two indices meet when the queue is empty and when it fills the ring. -/
theorem put_eq_get_iff (h : RingQueue n slot get put items) :
    put = get ↔ items.length = 0 ∨ items.length = n := by
  have hget : (get + 0) % n = get := Nat.mod_eq_of_lt h.get_lt
  rw [h.put_eq]
  constructor
  · intro hmeet
    by_contra hlen
    push Not at hlen
    have hroom := h.room
    have hne : (get + 0) % n ≠ (get + items.length) % n := add_mod_ne (by omega) (by omega)
    rw [hget, hmeet] at hne
    exact hne rfl
  · rintro (hlen | hlen)
    · rw [hlen, hget]
    · rw [hlen, Nat.add_mod_right, Nat.mod_eq_of_lt h.get_lt]

theorem put_ne (h : RingQueue n slot get put items) (hlen : items.length < n) {k : ℕ} (hk : k < items.length) :
    (get + k) % n ≠ put := by
  rw [h.put_eq]
  exact add_mod_ne hk (by omega)

theorem push (h : RingQueue n slot get put items) (hlen : items.length < n) (x : α) :
    RingQueue n (Function.update slot put x) get ((put + 1) % n) (items ++ [x]) where
  get_lt := h.get_lt
  put_eq := by rw [h.put_eq, Nat.mod_add_mod, List.length_append, List.length_singleton, Nat.add_assoc]
  room := by
    simp only [List.length_append, List.length_singleton]
    omega
  holds := by
    have hring := h.holds.push hlen x
    rw [← h.put_eq] at hring
    exact hring

theorem pop (h : RingQueue n slot get put (x :: items)) :
    slot get = x ∧ RingQueue n slot ((get + 1) % n) put items := by
  obtain ⟨hx, hring⟩ := h.holds.pop
  rw [Nat.mod_eq_of_lt h.get_lt] at hx
  have hput := h.put_eq
  have hroom := h.room
  simp only [List.length_cons] at hput hroom
  refine ⟨hx, Nat.mod_lt _ (by omega), ?_, by omega, hring.congr_start (Nat.mod_mod _ _)⟩
  rw [Nat.mod_add_mod, hput]
  congr 1
  omega

end RingQueue

end UnixNetProg.Lib
