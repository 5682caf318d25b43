import UnixNetProg.Lib.Transition

/-!
# Lost wake-ups

A process that waits in a loop for an event which is to come once. `waiting` are the states in the loop and `due` those
in which the event is still to come. When the event is taken by an action that does not end the loop, the wake-up is
`Lost`. A `WaitLoop` says which actions lose it; then a run has lost it exactly when it has taken one of them
(`lost_iff`), and nothing brings it back (`Lost.forever`).
-/

namespace UnixNetProg.Lib

open TransitionSystem

variable {σ α : Type} {init : σ → Prop} {enabled : σ → α → Prop} {next : σ → α → σ} {waiting due : σ → Prop}
  {loses : σ → α → Prop}

/-- The process waits for an event that will not come. -/
def Lost (waiting due : σ → Prop) (s : σ) : Prop := waiting s ∧ ¬ due s

structure WaitLoop (init : σ → Prop) (enabled : σ → α → Prop) (next : σ → α → σ) (waiting due : σ → Prop)
    (loses : σ → α → Prop) : Prop where
  start : ∀ s, init s → ¬ waiting s
  keeps : ∀ s a, (ofActions init enabled next).Reachable s → enabled s a → ¬ loses s a → (waiting s → due s) →
    waiting (next s a) → due (next s a)
  loses : ∀ s a, (ofActions init enabled next).Reachable s → enabled s a → loses s a → Lost waiting due (next s a)
  forever : ∀ s a, (ofActions init enabled next).Reachable s → enabled s a → Lost waiting due s →
    Lost waiting due (next s a)

/-- The system without the actions that lose a wake-up. -/
def careful (init : σ → Prop) (enabled : σ → α → Prop) (next : σ → α → σ) (loses : σ → α → Prop) :
    TransitionSystem σ :=
  ofActions init (fun s a => enabled s a ∧ ¬ loses s a) next

theorem Lost.forever (w : WaitLoop init enabled next waiting due loses) {s s' : σ}
    (h : (ofActions init enabled next).Reachable s) (hlost : Lost waiting due s)
    (hrun : Relation.ReflTransGen (ofActions init enabled next).step s s') : Lost waiting due s' := by
  induction hrun with
  | refl => exact hlost
  | tail hrun hs ih =>
    obtain ⟨a, ha, rfl⟩ := hs
    exact w.forever _ a (h.trans hrun) ha ih

theorem WaitLoop.not_lost (w : WaitLoop init enabled next waiting due loses) {s : σ}
    (h : (careful init enabled next loses).Reachable s) : ¬ Lost waiting due s := by
  have hdue : waiting s → due s := by
    refine invariant (P := fun s => waiting s → due s) ?_ ?_ h
    · intro s hs hwait
      exact absurd hwait (w.start s hs)
    · rintro s s' hr hdue ⟨a, ⟨ha, hkeep⟩, rfl⟩
      exact w.keeps s a (hr.mono fun _ _ => And.left) ha hkeep hdue
  exact fun hlost => hlost.2 (hdue hlost.1)

/-- A run that has lost no wake-up has taken no action that loses one. -/
theorem WaitLoop.lost_iff (w : WaitLoop init enabled next waiting due loses) {s : σ}
    (h : (ofActions init enabled next).Reachable s) :
    Lost waiting due s ↔ ¬ (careful init enabled next loses).Reachable s := by
  refine ⟨fun hlost hr => w.not_lost hr hlost, fun hnot => ?_⟩
  have hor : (careful init enabled next loses).Reachable s ∨ Lost waiting due s := by
    refine invariant (P := fun s => (careful init enabled next loses).Reachable s ∨ Lost waiting due s) ?_ ?_ h
    · intro s hs
      exact .inl (reachable_init hs)
    · rintro s s' hr (hcareful | hlost) ⟨a, ha, rfl⟩
      · by_cases hloses : loses s a
        · exact .inr (w.loses s a hr ha hloses)
        · exact .inl (hcareful.action ⟨ha, hloses⟩)
      · exact .inr (w.forever s a hr ha hlost)
  exact hor.resolve_left hnot

/-- When a process that waits for an event to come can always go on, and all that it can do is limited, it comes to its
end. -/
theorem WaitLoop.ends (w : WaitLoop init enabled next waiting due loses) {own : α → Prop} {stop : σ → Prop} (μ : σ → ℕ)
    (hdec : ∀ s a, (ofActions init enabled next).Reachable s → enabled s a → own a → μ (next s a) < μ s)
    (hgoes : ∀ s, (ofActions init enabled next).Reachable s → (waiting s → due s) → ¬ stop s →
      ∃ a, (enabled s a ∧ ¬ loses s a) ∧ own a) :
    (onward init (fun s a => enabled s a ∧ ¬ loses s a) next own).Ends stop := by
  refine onward_ends μ ?_ ?_
  · rintro s a hr ⟨ha, -⟩ hown
    exact hdec s a (hr.mono fun _ _ => And.left) ha hown
  · intro s hr hstop
    refine hgoes s (hr.mono fun _ _ => And.left) (fun hwait => ?_) hstop
    by_contra hnot
    exact w.not_lost hr ⟨hwait, hnot⟩

end UnixNetProg.Lib
