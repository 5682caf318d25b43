import Mathlib.Logic.Relation
import Mathlib.Tactic.Common

/-!
# Transition systems

A system is a set of initial states and a step relation. `Reachable` is the reflexive transitive
closure of the step relation from the initial states, and `invariant` is the rule every safety
result rests on: what holds initially and is kept by every step holds in every reachable state.
`Ends` says that every run which goes on for as long as it can comes to an end, and how. `Lockstep`
is a simulation between two operations, each on its own kind of state.
-/

namespace UnixNetProg.Lib

structure TransitionSystem (σ : Type) where
  init : σ → Prop
  step : σ → σ → Prop

namespace TransitionSystem

variable {σ : Type} (T : TransitionSystem σ)

/-- Some run of the system ends in `s`. -/
def Reachable (s : σ) : Prop := ∃ s₀, T.init s₀ ∧ Relation.ReflTransGen T.step s₀ s

/-- The system that takes only the steps of `T` that satisfy `guard`. -/
def restrict (guard : σ → σ → Prop) : TransitionSystem σ where
  init := T.init
  step s s' := T.step s s' ∧ guard s s'

variable {T}

theorem reachable_init {s : σ} (h : T.init s) : T.Reachable s := ⟨s, h, .refl⟩

theorem Reachable.trans {s s' : σ} (h : T.Reachable s) (hrun : Relation.ReflTransGen T.step s s') :
    T.Reachable s' := by
  obtain ⟨s₀, h₀, hrun₀⟩ := h
  exact ⟨s₀, h₀, hrun₀.trans hrun⟩

theorem Reachable.step {s s' : σ} (h : T.Reachable s) (hs : T.step s s') : T.Reachable s' :=
  h.trans (.single hs)

/-- Rule induction along a run, with the reachability of the intermediate states at hand. -/
theorem invariant {P : σ → Prop} (hinit : ∀ s, T.init s → P s)
    (hstep : ∀ s s', T.Reachable s → P s → T.step s s' → P s') {s : σ} (h : T.Reachable s) : P s := by
  obtain ⟨s₀, h₀, hrun⟩ := h
  induction hrun with
  | refl => exact hinit s₀ h₀
  | tail hrun hs ih => exact hstep _ _ ⟨s₀, h₀, hrun⟩ ih hs

theorem Reachable.cases_last {s : σ} (h : T.Reachable s) :
    T.init s ∨ ∃ s', T.Reachable s' ∧ T.step s' s := by
  obtain ⟨s₀, h₀, hrun⟩ := h
  rcases hrun.cases_tail with rfl | ⟨s', hrun, hs⟩
  · exact .inl h₀
  · exact .inr ⟨s', ⟨s₀, h₀, hrun⟩, hs⟩

theorem Reachable.of_restrict {guard : σ → σ → Prop} {s : σ} (h : (T.restrict guard).Reachable s) :
    T.Reachable s := by
  refine invariant ?_ ?_ h
  · intro s hs
    exact reachable_init hs
  · rintro s s' - ih ⟨hs, -⟩
    exact ih.step hs

/-! ### Runs that end -/

variable (T) in
/-- There is no infinite run, and `P` holds where a run cannot go on. -/
structure Ends (P : σ → Prop) : Prop where
  finite : ∀ run : ℕ → σ, T.init (run 0) → ∃ n, ¬ T.step (run n) (run (n + 1))
  last : ∀ s, T.Reachable s → (∀ s', ¬ T.step s s') → P s

theorem Ends.of_measure {P : σ → Prop} (μ : σ → ℕ)
    (hdec : ∀ s s', T.Reachable s → T.step s s' → μ s' < μ s)
    (hlast : ∀ s, T.Reachable s → (∀ s', ¬ T.step s s') → P s) : T.Ends P := by
  refine ⟨fun run hinit => ?_, hlast⟩
  by_contra hforever
  push Not at hforever
  have hreach : ∀ n, T.Reachable (run n) := by
    intro n
    induction n with
    | zero => exact reachable_init hinit
    | succ n ih => exact ih.step (hforever n)
  have hdown : ∀ n, μ (run n) + n ≤ μ (run 0) := by
    intro n
    induction n with
    | zero => simp
    | succ n ih =>
      have hlt := hdec _ _ (hreach n) (hforever n)
      omega
  have hlast := hdown (μ (run 0) + 1)
  omega

/-! ### Systems of labelled actions -/

variable {α : Type}

/-- The system that takes an enabled action in each step. -/
def ofActions (init : σ → Prop) (enabled : σ → α → Prop) (next : σ → α → σ) : TransitionSystem σ where
  init := init
  step s s' := ∃ a, enabled s a ∧ s' = next s a

variable {init : σ → Prop} {enabled enabled' : σ → α → Prop} {next : σ → α → σ}

theorem Reachable.action {s : σ} {a : α} (h : (ofActions init enabled next).Reachable s)
    (ha : enabled s a) : (ofActions init enabled next).Reachable (next s a) := h.step ⟨a, ha, rfl⟩

theorem Reachable.mono (hle : ∀ s a, enabled s a → enabled' s a) {s : σ}
    (h : (ofActions init enabled next).Reachable s) : (ofActions init enabled' next).Reachable s := by
  refine invariant ?_ ?_ h
  · intro s hs
    exact reachable_init hs
  · rintro s s' - ih ⟨a, ha, rfl⟩
    exact ih.action (hle s a ha)

/-- The actions can be taken one after the other. -/
def Enables (enabled : σ → α → Prop) (next : σ → α → σ) : σ → List α → Prop
  | _, [] => True
  | s, a :: acts => enabled s a ∧ Enables enabled next (next s a) acts

instance decidableEnables [∀ s a, Decidable (enabled s a)] :
    ∀ (s : σ) (acts : List α), Decidable (Enables enabled next s acts)
  | _, [] => inferInstanceAs (Decidable True)
  | s, a :: acts =>
    have := decidableEnables (next s a) acts
    inferInstanceAs (Decidable (_ ∧ Enables enabled next (next s a) acts))

theorem steps_of_enables {s : σ} (acts : List α) (ha : Enables enabled next s acts) :
    Relation.ReflTransGen (ofActions init enabled next).step s (acts.foldl next s) := by
  induction acts generalizing s with
  | nil => exact .refl
  | cons a acts ih => exact .head ⟨a, ha.1, rfl⟩ (ih ha.2)

theorem Reachable.actions {s : σ} {acts : List α} (h : (ofActions init enabled next).Reachable s)
    (ha : Enables enabled next s acts) : (ofActions init enabled next).Reachable (acts.foldl next s) := by
  induction acts generalizing s with
  | nil => exact h
  | cons a acts ih => exact ih (h.action ha.1) ha.2

/-- From any state of a run on, with the actions `own` only. -/
def onward (init : σ → Prop) (enabled : σ → α → Prop) (next : σ → α → σ) (own : α → Prop) : TransitionSystem σ :=
  ofActions (ofActions init enabled next).Reachable (fun s a => enabled s a ∧ own a) next

variable {own : α → Prop}

theorem Reachable.of_onward {s : σ} (h : (onward init enabled next own).Reachable s) :
    (ofActions init enabled next).Reachable s := by
  refine invariant (fun s hs => hs) ?_ h
  rintro s s' - hr ⟨a, ⟨ha, -⟩, rfl⟩
  exact hr.action ha

/-- All that can be done is limited, and there is something to do until `stop`. -/
theorem onward_ends {stop : σ → Prop} (μ : σ → ℕ)
    (hdec : ∀ s a, (ofActions init enabled next).Reachable s → enabled s a → own a → μ (next s a) < μ s)
    (hgoes : ∀ s, (ofActions init enabled next).Reachable s → ¬ stop s → ∃ a, enabled s a ∧ own a) :
    (onward init enabled next own).Ends stop := by
  refine Ends.of_measure μ ?_ ?_
  · rintro s s' hs ⟨a, ⟨ha, hown⟩, rfl⟩
    exact hdec s a hs.of_onward ha hown
  · intro s hs hlast
    by_contra hstop
    obtain ⟨a, ha⟩ := hgoes s hs.of_onward hstop
    exact hlast (next s a) ⟨a, ha, rfl⟩

end TransitionSystem

/-! ### Operations in lockstep -/

section Lockstep

variable {σ τ α : Type} {R : σ → τ → Prop} {f : σ → α × σ} {g : τ → α × τ}

/-- In related states the two return the same, and leave related states. -/
def Lockstep (R : σ → τ → Prop) (f : σ → α × σ) (g : τ → α × τ) : Prop :=
  ∀ s t, R s t → (f s).1 = (g t).1 ∧ R (f s).2 (g t).2

theorem Lockstep.calls (h : Lockstep R f g) {s : σ} {t : τ} (hR : R s t) :
    ∃ a s' t', f s = (a, s') ∧ g t = (a, t') ∧ R s' t' := by
  obtain ⟨hres, hR'⟩ := h s t hR
  exact ⟨(f s).1, (f s).2, (g t).2, rfl, Prod.ext hres.symm rfl, hR'⟩

end Lockstep

end UnixNetProg.Lib
