import Mathlib.Tactic.Common

/-!
# Sequential programs with an error exit

`Prog ε χ σ α` is a program over a state `σ`: it returns a value, jumps to its caller's error label
with an error `ε`, or ends the whole process with `χ`. The state survives the first two, since an
error label cleans up after the program.

`wp m Q E X` is the weakest precondition of `m` for the postcondition `Q` on a return, `E` at the
error label and `X` when the process ends. Each construct has one rule, a `simp` lemma where the rule
is an equivalence. `Keeps I J m` is the common case of a program that keeps an invariant. `lift` runs a
program over a part of a larger state.
-/

namespace UnixNetProg.Lib

inductive Outcome (ε χ σ α : Type) where
  | ok (a : α) (s : σ)
  | error (e : ε) (s : σ)
  | exit (x : χ)

def Prog (ε χ σ α : Type) : Type := σ → Outcome ε χ σ α

namespace Prog

variable {ε χ σ α β : Type}

def bind (m : Prog ε χ σ α) (f : α → Prog ε χ σ β) : Prog ε χ σ β := fun s =>
  match m s with
  | .ok a s' => f a s'
  | .error e s' => .error e s'
  | .exit x => .exit x

instance : Monad (Prog ε χ σ) where
  pure a := fun s => .ok a s
  bind := bind

def throw (e : ε) : Prog ε χ σ α := fun s => .error e s

def exit (x : χ) : Prog ε χ σ α := fun _ => .exit x

def get : Prog ε χ σ σ := fun s => .ok s s

def modify (f : σ → σ) : Prog ε χ σ Unit := fun s => .ok () (f s)

/-- Run `m`; at its error label run `clean`, and go on with the error. -/
def onError (m : Prog ε χ σ α) (clean : Prog ε χ σ Unit) : Prog ε χ σ α := fun s =>
  match m s with
  | .ok a s' => .ok a s'
  | .error e s' => clean.bind (fun _ => throw e) s'
  | .exit x => .exit x

/-- Run a program over the part of the state that `view` shows and `put` replaces; `ends` renames its
ways to end the process. -/
def lift {τ χ' : Type} (view : σ → τ) (put : τ → σ → σ) (ends : χ' → χ) (m : Prog ε χ' τ α) :
    Prog ε χ σ α := fun s =>
  match m (view s) with
  | .ok a t => .ok a (put t s)
  | .error e t => .error e (put t s)
  | .exit x => .exit (ends x)

def wp (m : Prog ε χ σ α) (Q : α → σ → Prop) (E : ε → σ → Prop) (X : χ → Prop) (s : σ) : Prop :=
  match m s with
  | .ok a s' => Q a s'
  | .error e s' => E e s'
  | .exit x => X x

section Rules

variable {Q : α → σ → Prop} {E : ε → σ → Prop} {X : χ → Prop} {s : σ}

@[simp] theorem wp_pure (a : α) : wp (pure a : Prog ε χ σ α) Q E X s ↔ Q a s := Iff.rfl

@[simp] theorem wp_throw (e : ε) : wp (throw e : Prog ε χ σ α) Q E X s ↔ E e s := Iff.rfl

@[simp] theorem wp_exit (x : χ) : wp (exit x : Prog ε χ σ α) Q E X s ↔ X x := Iff.rfl

@[simp] theorem wp_get {Q : σ → σ → Prop} : wp (get : Prog ε χ σ σ) Q E X s ↔ Q s s := Iff.rfl

@[simp] theorem wp_modify {Q : Unit → σ → Prop} (f : σ → σ) :
    wp (modify f : Prog ε χ σ Unit) Q E X s ↔ Q () (f s) := Iff.rfl

@[simp] theorem wp_bind {Q : β → σ → Prop} (m : Prog ε χ σ α) (f : α → Prog ε χ σ β) :
    wp (m >>= f) Q E X s ↔ wp m (fun a s' => wp (f a) Q E X s') E X s := by
  show wp (bind m f) Q E X s ↔ _
  unfold wp bind
  cases m s <;> rfl

theorem wp_ite (c : Prop) [Decidable c] (m m' : Prog ε χ σ α) :
    wp (if c then m else m') Q E X s ↔ (c → wp m Q E X s) ∧ (¬ c → wp m' Q E X s) := by
  split_ifs with h <;> simp [h]

theorem wp_onError (m : Prog ε χ σ α) (clean : Prog ε χ σ Unit) :
    wp (onError m clean) Q E X s ↔
      wp m Q (fun e s' => wp clean (fun _ s'' => E e s'') E X s') X s := by
  unfold wp onError bind throw
  cases m s with
  | ok a s' => rfl
  | error e s' =>
    dsimp only
    cases clean s' <;> rfl
  | exit x => rfl

theorem wp_lift {τ χ' : Type} (view : σ → τ) (put : τ → σ → σ) (ends : χ' → χ) (m : Prog ε χ' τ α) :
    wp (lift view put ends m) Q E X s ↔
      wp m (fun a t => Q a (put t s)) (fun e t => E e (put t s)) (fun x => X (ends x)) (view s) := by
  unfold wp lift
  cases m (view s) <;> rfl

theorem wp_mono {Q' : α → σ → Prop} {E' : ε → σ → Prop} {X' : χ → Prop} {m : Prog ε χ σ α}
    (h : wp m Q E X s) (hQ : ∀ a s', Q a s' → Q' a s') (hE : ∀ e s', E e s' → E' e s')
    (hX : ∀ x, X x → X' x) : wp m Q' E' X' s := by
  unfold wp at h ⊢
  cases hm : m s with
  | ok a s' => rw [hm] at h; exact hQ a s' h
  | error e s' => rw [hm] at h; exact hE e s' h
  | exit x => rw [hm] at h; exact hX x h

/-- A property of the outcome, in its three cases. -/
theorem wp_outcome {P : Outcome ε χ σ α → Prop} {m : Prog ε χ σ α} :
    wp m (fun a s' => P (.ok a s')) (fun e s' => P (.error e s')) (fun x => P (.exit x)) s ↔ P (m s) := by
  unfold wp
  cases m s <;> rfl

theorem wp_and {Q' : α → σ → Prop} {E' : ε → σ → Prop} {X' : χ → Prop} {m : Prog ε χ σ α}
    (h : wp m Q E X s) (h' : wp m Q' E' X' s) :
    wp m (fun a s' => Q a s' ∧ Q' a s') (fun e s' => E e s' ∧ E' e s') (fun x => X x ∧ X' x) s := by
  unfold wp at h h' ⊢
  cases hm : m s with
  | ok a s' =>
    rw [hm] at h h'
    exact ⟨h, h'⟩
  | error e s' =>
    rw [hm] at h h'
    exact ⟨h, h'⟩
  | exit x =>
    rw [hm] at h h'
    exact ⟨h, h'⟩

/-- The end that a fact about a run is a fact about. -/
theorem wp_run {m : Prog ε χ σ α} (h : wp m Q E X s) :
    wp m (fun a s' => m s = .ok a s' ∧ Q a s') (fun e s' => m s = .error e s' ∧ E e s')
      (fun x => m s = .exit x ∧ X x) s := by
  unfold wp at h ⊢
  cases hm : m s with
  | ok a s' =>
    rw [hm] at h
    exact ⟨rfl, h⟩
  | error e s' =>
    rw [hm] at h
    exact ⟨rfl, h⟩
  | exit x =>
    rw [hm] at h
    exact ⟨rfl, h⟩

theorem exists_ok_of_wp {m : Prog ε χ σ α} (h : wp m Q (fun _ _ => False) (fun _ => False) s) :
    ∃ a s', m s = .ok a s' ∧ Q a s' := by
  unfold wp at h
  cases hm : m s with
  | ok a s' =>
    rw [hm] at h
    exact ⟨a, s', rfl, h⟩
  | error e s' =>
    rw [hm] at h
    exact h.elim
  | exit x =>
    rw [hm] at h
    exact h.elim

end Rules

/-! ### Invariants -/

/-- The program does not end the process; it returns where `I` holds again, and reaches its error
label where `J` holds. -/
def Keeps (I J : σ → Prop) (m : Prog ε χ σ α) : Prop :=
  ∀ s, I s → wp m (fun _ => I) (fun _ => J) (fun _ => False) s

section Keeps

variable {I J : σ → Prop}

theorem keeps_pure (a : α) : Keeps I J (pure a : Prog ε χ σ α) := fun _ hs => hs

theorem keeps_throw (hJ : ∀ s, I s → J s) (e : ε) : Keeps I J (throw e : Prog ε χ σ α) :=
  fun s hs => hJ s hs

theorem Keeps.bind {m : Prog ε χ σ α} {f : α → Prog ε χ σ β} (hm : Keeps I J m)
    (hf : ∀ a, Keeps I J (f a)) : Keeps I J (m >>= f) := by
  intro s hs
  rw [wp_bind]
  exact wp_mono (hm s hs) (fun a s' hs' => hf a s' hs') (fun _ _ h => h) (fun _ h => h)

theorem Keeps.ite {c : Prop} [Decidable c] {m m' : Prog ε χ σ α} (hm : c → Keeps I J m)
    (hm' : ¬ c → Keeps I J m') : Keeps I J (if c then m else m') := by
  split_ifs with hc
  · exact hm hc
  · exact hm' hc

end Keeps

end Prog

end UnixNetProg.Lib
