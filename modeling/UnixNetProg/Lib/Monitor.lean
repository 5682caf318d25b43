import Mathlib.Data.Finset.Basic
import Mathlib.Logic.Function.Basic

/-!
# A mutex with condition variables

`owner` is the thread that has locked the mutex, and `asleep c` are the threads that wait for a signal on
the condition variable `c`. A thread that waits gives up the mutex. A signal wakes at least one of the
threads that are asleep, if there are any, and a thread may also wake up without a signal; a thread that
has been woken goes on when it has locked the mutex again.

`Excludes` says that the owner is the one thread that is inside a critical section.
-/

namespace UnixNetProg.Lib

structure Monitor (τ κ : Type) where
  owner : Option τ
  asleep : κ → Finset τ

namespace Monitor

variable {τ κ : Type}

def free : Monitor τ κ := ⟨none, fun _ => ∅⟩

def lock (m : Monitor τ κ) (t : τ) : Monitor τ κ := { m with owner := some t }

def unlock (m : Monitor τ κ) : Monitor τ κ := { m with owner := none }

@[simp] theorem owner_lock (m : Monitor τ κ) (t : τ) : (m.lock t).owner = some t := rfl

@[simp] theorem asleep_lock (m : Monitor τ κ) (t : τ) : (m.lock t).asleep = m.asleep := rfl

@[simp] theorem owner_unlock (m : Monitor τ κ) : m.unlock.owner = none := rfl

@[simp] theorem asleep_unlock (m : Monitor τ κ) : m.unlock.asleep = m.asleep := rfl

section Wait

variable [DecidableEq τ] [DecidableEq κ]

/-- `pthread_cond_wait`: the thread goes to sleep and gives up the mutex. -/
def wait (m : Monitor τ κ) (t : τ) (c : κ) : Monitor τ κ :=
  ⟨none, Function.update m.asleep c (insert t (m.asleep c))⟩

/-- The threads of `woken` no longer sleep. -/
def wake (m : Monitor τ κ) (c : κ) (woken : Finset τ) : Monitor τ κ :=
  { m with asleep := Function.update m.asleep c (m.asleep c \ woken) }

/-- The threads that a signal can wake. -/
def Signals (m : Monitor τ κ) (c : κ) (woken : Finset τ) : Prop :=
  woken ⊆ m.asleep c ∧ (woken = ∅ → m.asleep c = ∅)

instance (m : Monitor τ κ) (c : κ) (woken : Finset τ) : Decidable (m.Signals c woken) :=
  inferInstanceAs (Decidable (_ ∧ _))

@[simp] theorem owner_wait (m : Monitor τ κ) (t : τ) (c : κ) : (m.wait t c).owner = none := rfl

@[simp] theorem owner_wake (m : Monitor τ κ) (c : κ) (woken : Finset τ) : (m.wake c woken).owner = m.owner := rfl

theorem mem_asleep_wait {m : Monitor τ κ} {t u : τ} {c d : κ} :
    u ∈ (m.wait t c).asleep d ↔ u ∈ m.asleep d ∨ u = t ∧ d = c := by
  by_cases hd : d = c
  · subst hd
    simp [wait, or_comm]
  · simp [wait, hd]

theorem mem_asleep_wake {m : Monitor τ κ} {u : τ} {c d : κ} {woken : Finset τ} :
    u ∈ (m.wake c woken).asleep d ↔ u ∈ m.asleep d ∧ (d = c → u ∉ woken) := by
  by_cases hd : d = c
  · subst hd
    simp [wake]
  · simp [wake, hd]

end Wait

/-! ### Mutual exclusion -/

/-- The owner of the mutex is the one thread inside. -/
def Excludes (m : Monitor τ κ) (inside : τ → Prop) : Prop := ∀ t, inside t ↔ m.owner = some t

namespace Excludes

variable {m m' : Monitor τ κ} {inside inside' : τ → Prop} {t u : τ}

theorem eq_of_inside (h : m.Excludes inside) (ht : inside t) (hu : inside u) : t = u := by
  have hown := (h t).mp ht
  rw [(h u).mp hu] at hown
  exact (Option.some.inj hown).symm

theorem not_inside (h : m.Excludes inside) (hfree : m.owner = none) : ¬ inside t := by
  rw [h t, hfree]
  simp

theorem congr (h : m.Excludes inside) (howner : m'.owner = m.owner) (hsame : ∀ u, inside' u ↔ inside u) :
    m'.Excludes inside' := by
  intro u
  rw [hsame u, howner]
  exact h u

theorem stay (h : m.Excludes inside) (howner : m'.owner = m.owner) (ht : inside' t ↔ inside t)
    (hother : ∀ u ≠ t, inside' u ↔ inside u) : m'.Excludes inside' := by
  apply h.congr howner
  intro u
  by_cases hut : u = t
  · rw [hut]
    exact ht
  · exact hother u hut

theorem enter (h : m.Excludes inside) (hfree : m.owner = none) (howner : m'.owner = some t) (ht : inside' t)
    (hother : ∀ u ≠ t, inside' u ↔ inside u) : m'.Excludes inside' := by
  intro u
  by_cases hut : u = t
  · simp [hut, ht, howner]
  · have hout : ¬ inside u := h.not_inside hfree
    rw [hother u hut, howner]
    simp [hout, Ne.symm hut]

theorem leave (h : m.Excludes inside) (ht : inside t) (howner : m'.owner = none) (ht' : ¬ inside' t)
    (hother : ∀ u ≠ t, inside' u ↔ inside u) : m'.Excludes inside' := by
  intro u
  by_cases hut : u = t
  · simp [hut, ht', howner]
  · have hout : ¬ inside u := fun hu => hut (h.eq_of_inside hu ht)
    rw [hother u hut, howner]
    simp [hout]

end Excludes

end Monitor

end UnixNetProg.Lib
