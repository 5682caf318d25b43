import Mathlib.Data.List.Basic
import Mathlib.Tactic.Common

/-!
# Loops that may be left

`loop body` runs `body` over the items one by one. A turn has a list of outputs, and the state for the next turn
unless it leaves the loop. Where the body is a loop itself and leaves both, the two are one loop over all items
(`loop_loop`); `loop_forall` is the invariant rule.
-/

namespace UnixNetProg.Lib

variable {σ α β : Type}

def loop (body : σ → α → List β × Option σ) : σ → List α → List β × Option σ
  | s, [] => ([], some s)
  | s, a :: as =>
    match body s a with
    | (out, none) => (out, none)
    | (out, some s') => (out ++ (loop body s' as).1, (loop body s' as).2)

variable {body : σ → α → List β × Option σ} {s s' : σ} {a : α} {as bs : List α} {out : List β}

theorem loop_cons_of_none (h : body s a = (out, none)) : loop body s (a :: as) = (out, none) := by
  rw [loop, h]

theorem loop_cons_of_some (h : body s a = (out, some s')) :
    loop body s (a :: as) = (out ++ (loop body s' as).1, (loop body s' as).2) := by
  rw [loop, h]

theorem loop_append_of_none (h : (loop body s as).2 = none) :
    loop body s (as ++ bs) = loop body s as := by
  induction as generalizing s with
  | nil => cases h
  | cons a as ih =>
    rw [List.cons_append]
    rcases hbody : body s a with ⟨out, _ | s'⟩
    · rw [loop_cons_of_none hbody, loop_cons_of_none hbody]
    · rw [loop_cons_of_some hbody] at h
      rw [loop_cons_of_some hbody, loop_cons_of_some hbody, ih h]

theorem loop_append_of_some (h : (loop body s as).2 = some s') :
    loop body s (as ++ bs) = ((loop body s as).1 ++ (loop body s' bs).1, (loop body s' bs).2) := by
  induction as generalizing s with
  | nil =>
    obtain rfl := Option.some.inj h
    rfl
  | cons a as ih =>
    rw [List.cons_append]
    rcases hbody : body s a with ⟨out, _ | s''⟩
    · rw [loop_cons_of_none hbody] at h
      cases h
    · rw [loop_cons_of_some hbody] at h
      rw [loop_cons_of_some hbody, loop_cons_of_some hbody, ih h, List.append_assoc]

theorem loop_loop (body : σ → α → List β × Option σ) (s : σ) (ls : List (List α)) :
    loop (loop body) s ls = loop body s ls.flatten := by
  induction ls generalizing s with
  | nil => rfl
  | cons as ls ih =>
    rw [List.flatten_cons]
    rcases hloop : loop body s as with ⟨out, _ | s'⟩
    · rw [loop_cons_of_none hloop, loop_append_of_none (by rw [hloop]), hloop]
    · rw [loop_cons_of_some hloop, loop_append_of_some (by rw [hloop]), hloop, ih]

theorem loop_forall {I : σ → Prop} {P : β → Prop}
    (hbody : ∀ s, ∀ a ∈ as, I s → (∀ b ∈ (body s a).1, P b) ∧ ∀ s' ∈ (body s a).2, I s') (h : I s) :
    (∀ b ∈ (loop body s as).1, P b) ∧ ∀ s' ∈ (loop body s as).2, I s' := by
  induction as generalizing s with
  | nil =>
    refine ⟨nofun, fun s' hs' => ?_⟩
    rw [← Option.some.inj hs']
    exact h
  | cons a as ih =>
    obtain ⟨hout, hnext⟩ := hbody s a List.mem_cons_self h
    rcases heq : body s a with ⟨out, _ | s'⟩
    · rw [heq] at hout
      rw [loop_cons_of_none heq]
      exact ⟨hout, nofun⟩
    · rw [heq] at hout hnext
      obtain ⟨hrest, hend⟩ := ih (fun s a ha => hbody s a (List.mem_cons_of_mem _ ha)) (hnext s' rfl)
      rw [loop_cons_of_some heq]
      refine ⟨fun b hb => ?_, hend⟩
      rcases List.mem_append.mp hb with hb | hb
      · exact hout b hb
      · exact hrest b hb

theorem loop_outputs {P : β → Prop} (hbody : ∀ s, ∀ a ∈ as, ∀ b ∈ (body s a).1, P b) :
    ∀ b ∈ (loop body s as).1, P b :=
  (loop_forall (I := fun _ => True) (fun s a ha _ => ⟨hbody s a ha, fun _ _ => trivial⟩) trivial).1

theorem loop_goes_on (hbody : ∀ s, ∀ a ∈ as, (body s a).2 ≠ none) : ∃ s', (loop body s as).2 = some s' := by
  induction as generalizing s with
  | nil => exact ⟨s, rfl⟩
  | cons a as ih =>
    rcases heq : body s a with ⟨out, _ | s'⟩
    · exact absurd (congrArg Prod.snd heq) (hbody s a List.mem_cons_self)
    · rw [loop_cons_of_some heq]
      exact ih fun s a ha => hbody s a (List.mem_cons_of_mem _ ha)

theorem loop_left (ha : a ∈ as) (hbody : ∀ s, (body s a).2 = none) : (loop body s as).2 = none := by
  induction as generalizing s with
  | nil => cases ha
  | cons a' as ih =>
    rcases heq : body s a' with ⟨out, _ | s'⟩
    · rw [loop_cons_of_none heq]
    · rw [loop_cons_of_some heq]
      rcases List.mem_cons.mp ha with rfl | ha
      · exact absurd ((hbody s).symm.trans (congrArg Prod.snd heq)) nofun
      · exact ih ha

end UnixNetProg.Lib
