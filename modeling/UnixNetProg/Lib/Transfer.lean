import Mathlib.Algebra.Ring.Nat
import Mathlib.Data.List.Basic
import Mathlib.Tactic.Common

/-!
# Transfers in several calls

A loop that moves `n` items with calls that may each move fewer. A `Transfer` is one call: the place it
was given, the number of items it was asked for, and its result. The calls of a loop are `InStep` when each
is made for just what the calls before it have left (`inStep_cons`), and `StopAt` says that the loop ends
at the first result of some kind.

What writes meet is a plan, as for the reads of a `Source`.
-/

namespace UnixNetProg.Lib

/-- What a write meets: it accepts at most `k + 1` items or none, is interrupted, or fails. -/
inductive WriteGrant where
  | upTo (k : ℕ)
  | zero
  | intr
  | error
  deriving DecidableEq, Repr

inductive WriteResult where
  | accepted (count : ℕ)
  | intr
  | error
  deriving DecidableEq, Repr

/-- The result of a write of `len` items. -/
def WriteGrant.result (len : ℕ) : WriteGrant → WriteResult
  | .upTo k => .accepted (min len (k + 1))
  | .zero => .accepted 0
  | .intr => .intr
  | .error => .error

/-- The results of writes of these lengths, one after the other. Past the plan everything is accepted. -/
def writes : List WriteGrant → List ℕ → List WriteResult
  | _, [] => []
  | [], len :: lens => .accepted len :: writes [] lens
  | g :: plan, len :: lens => g.result len :: writes plan lens

def WriteResult.count : WriteResult → ℕ
  | .accepted count => count
  | _ => 0

structure Transfer (ρ : Type) where
  ptr : ℕ
  len : ℕ
  res : ρ
  deriving DecidableEq, Repr

section Calls

variable {ρ : Type}

/-- The number of items that the calls moved. -/
def total (moved : ρ → ℕ) (calls : List (Transfer ρ)) : ℕ := (calls.map fun c => moved c.res).sum

@[simp] theorem total_nil (moved : ρ → ℕ) : total moved [] = 0 := rfl

@[simp] theorem total_cons (moved : ρ → ℕ) (c : Transfer ρ) (calls : List (Transfer ρ)) :
    total moved (c :: calls) = moved c.res + total moved calls := by
  simp [total]

/-- Each call is made behind the items moved before it, for all the others of the `n`. -/
def InStep (moved : ρ → ℕ) (ptr n : ℕ) (calls : List (Transfer ρ)) : Prop :=
  ∀ pre c post, calls = pre ++ c :: post →
    total moved pre < n ∧ c.ptr = ptr + total moved pre ∧ c.len = n - total moved pre

theorem inStep_nil (moved : ρ → ℕ) (ptr n : ℕ) : InStep moved ptr n [] := by
  intro pre c post h
  exact absurd h (by simp)

theorem inStep_cons {moved : ρ → ℕ} {ptr n : ℕ} {res : ρ} {calls : List (Transfer ρ)} (hn : 0 < n)
    (hcalls : InStep moved (ptr + moved res) (n - moved res) calls) :
    InStep moved ptr n (⟨ptr, n, res⟩ :: calls) := by
  intro pre c post h
  cases pre with
  | nil =>
    obtain ⟨rfl, -⟩ := List.cons.inj h
    exact ⟨hn, rfl, rfl⟩
  | cons c' pre =>
    obtain ⟨rfl, htail⟩ := List.cons.inj h
    obtain ⟨hlt, hptr, hlen⟩ := hcalls pre c post htail
    rw [total_cons]
    refine ⟨?_, ?_, ?_⟩
    · dsimp only
      omega
    · rw [hptr, Nat.add_assoc]
    · rw [hlen, Nat.sub_sub]

/-- No call follows one whose result is of the kind `stop`. -/
def StopAt (stop : ρ → Prop) (calls : List (Transfer ρ)) : Prop :=
  ∀ pre c post, calls = pre ++ c :: post → stop c.res → post = []

theorem stopAt_nil (stop : ρ → Prop) : StopAt stop [] := by
  intro pre c post h
  exact absurd h (by simp)

theorem stopAt_cons {stop : ρ → Prop} {c : Transfer ρ} {calls : List (Transfer ρ)}
    (hc : stop c.res → calls = []) (hcalls : StopAt stop calls) : StopAt stop (c :: calls) := by
  intro pre c' post h hstop
  cases pre with
  | nil =>
    obtain ⟨rfl, rfl⟩ := List.cons.inj h
    exact hc hstop
  | cons c'' pre =>
    obtain ⟨-, htail⟩ := List.cons.inj h
    exact hcalls pre c' post htail hstop

end Calls

end UnixNetProg.Lib
