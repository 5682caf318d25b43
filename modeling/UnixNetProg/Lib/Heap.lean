import Mathlib.Data.List.Nodup
import Mathlib.Data.List.Perm.Subperm
import Mathlib.Order.Nat
import Mathlib.Tactic.Common

/-!
# A heap of blocks, and singly linked lists in it

A block is named by the number of its allocation and is never reused, so an allocation is fresh and a
freed block stays dead. `Seg K h p cs q` says that the links from `p` to `q` run through the cells
`cs`, where the cell kind `K` says which blocks make up a cell (`foot`) and what they hold. `Seg` only
depends on the blocks of its cells (`Seg.frame`).
-/

namespace UnixNetProg.Lib

structure Heap (β : Type) where
  blocks : List (Option β)

namespace Heap

variable {β : Type} (h : Heap β)

def fresh : ℕ := h.blocks.length

def get (p : ℕ) : Option β := h.blocks[p]?.join

def alloc (b : β) : Heap β := ⟨h.blocks ++ [some b]⟩

def set (p : ℕ) (b : β) : Heap β := ⟨h.blocks.set p (some b)⟩

def free (p : ℕ) : Heap β := ⟨h.blocks.set p none⟩

variable {h} {p q : ℕ} {b c : β}

theorem lt_fresh (hp : h.get p = some b) : p < h.fresh := by
  by_contra hle
  rw [get, List.getElem?_eq_none (by simpa [fresh] using hle)] at hp
  cases hp

theorem lt_fresh_of_live (hp : h.get p ≠ none) : p < h.fresh := by
  obtain ⟨b, hb⟩ := Option.ne_none_iff_exists'.mp hp
  exact lt_fresh hb

@[simp] theorem fresh_alloc : (h.alloc b).fresh = h.fresh + 1 := by
  simp [fresh, alloc]

@[simp] theorem fresh_set : (h.set p b).fresh = h.fresh := by
  simp [fresh, set]

@[simp] theorem fresh_free : (h.free p).fresh = h.fresh := by
  simp [fresh, free]

@[simp] theorem get_alloc_fresh : (h.alloc b).get h.fresh = some b := by
  simp [get, alloc, fresh]

theorem get_alloc_of_lt (hq : q < h.fresh) : (h.alloc b).get q = h.get q := by
  rw [get, alloc, List.getElem?_append_left hq, get]

theorem live_alloc (hq : (h.alloc b).get q ≠ none) : h.get q ≠ none ∨ q = h.fresh := by
  have hlt := lt_fresh_of_live hq
  rw [fresh_alloc] at hlt
  by_cases hold : q < h.fresh
  · rw [get_alloc_of_lt hold] at hq
    exact .inl hq
  · exact .inr (by omega)

theorem get_eq_none_of_le (hq : h.fresh ≤ q) : h.get q = none := by
  by_contra hlive
  exact absurd (lt_fresh_of_live hlive) (by omega)

theorem get_set_self (hp : p < h.fresh) : (h.set p b).get p = some b := by
  rw [get, set, List.getElem?_set_self hp]
  rfl

theorem get_set_ne (hne : q ≠ p) : (h.set p b).get q = h.get q := by
  rw [get, set, List.getElem?_set_ne hne.symm, get]

theorem get_free_ne (hne : q ≠ p) : (h.free p).get q = h.get q := by
  rw [get, free, List.getElem?_set_ne hne.symm, get]

theorem get_free_self : (h.free p).get p = none := by
  rw [get, free, List.getElem?_set_self']
  cases h.blocks[p]? <;> rfl

/-- No block that is live in `h` is freed on the way to `h'`. -/
def Grows (h h' : Heap β) : Prop := ∀ q, h.get q ≠ none → h'.get q ≠ none

theorem Grows.trans {h h₁ h₂ : Heap β} (h₁₂ : Grows h h₁) (h₂₃ : Grows h₁ h₂) : Grows h h₂ :=
  fun q hq => h₂₃ q (h₁₂ q hq)

theorem grows_alloc (b : β) : Grows h (h.alloc b) := by
  intro q hq
  rw [get_alloc_of_lt (lt_fresh_of_live hq)]
  exact hq

theorem grows_set (p : ℕ) (b : β) : Grows h (h.set p b) := by
  intro q hq
  by_cases hqp : q = p
  · rw [hqp, get_set_self (hqp ▸ lt_fresh_of_live hq)]
    simp
  · rw [get_set_ne hqp]
    exact hq

/-- `h'` comes from `h` by a program that owned the blocks `A` and now owns `A'`: it touched no other
block of `h`, what it owns beyond `A` it allocated, and of what it owned or allocated it has lost
nothing that is still live. -/
structure Rewrites (h h' : Heap β) (A A' : List ℕ) : Prop where
  mono : h.fresh ≤ h'.fresh
  frame : ∀ q < h.fresh, q ∉ A → h'.get q = h.get q
  new : ∀ q ∈ A', q ∈ A ∨ h.fresh ≤ q
  covered : ∀ q, h'.get q ≠ none → q ∈ A' ∨ q < h.fresh ∧ q ∉ A

namespace Rewrites

variable {h h₁ h₂ : Heap β} {A A' B B' C : List ℕ}

theorem refl (A : List ℕ) : Rewrites h h A A := by
  refine ⟨le_refl _, fun _ _ _ => rfl, fun _ hq => .inl hq, fun q hq => ?_⟩
  by_cases hA : q ∈ A
  · exact .inl hA
  · exact .inr ⟨lt_fresh_of_live hq, hA⟩

theorem trans (h₁₂ : Rewrites h h₁ A B) (h₂₃ : Rewrites h₁ h₂ B C) : Rewrites h h₂ A C := by
  refine ⟨le_trans h₁₂.mono h₂₃.mono, fun q hq hA => ?_, fun q hq => ?_, fun q hq => ?_⟩
  · have hB : q ∉ B := fun hB => (h₁₂.new q hB).elim hA (by omega)
    rw [h₂₃.frame q (lt_of_lt_of_le hq h₁₂.mono) hB, h₁₂.frame q hq hA]
  · rcases h₂₃.new q hq with hB | hle
    · exact h₁₂.new q hB
    · exact .inr (le_trans h₁₂.mono hle)
  · rcases h₂₃.covered q hq with hC | ⟨hlt, hB⟩
    · exact .inl hC
    · rw [h₂₃.frame q hlt hB] at hq
      exact .inr ((h₁₂.covered q hq).resolve_left hB)

theorem append (hA : Rewrites h h₁ A A') (hB : Rewrites h₁ h₂ B B') :
    Rewrites h h₂ (A ++ B) (A' ++ B') := by
  refine ⟨le_trans hA.mono hB.mono, fun q hq hnot => ?_, fun q hq => ?_, fun q hq => ?_⟩
  · rw [List.mem_append, not_or] at hnot
    rw [hB.frame q (lt_of_lt_of_le hq hA.mono) hnot.2, hA.frame q hq hnot.1]
  · rw [List.mem_append] at hq ⊢
    rcases hq with hq | hq
    · exact (hA.new q hq).imp_left .inl
    · rcases hB.new q hq with hq | hle
      · exact .inl (.inr hq)
      · exact .inr (le_trans hA.mono hle)
  · rw [List.mem_append, List.mem_append, not_or]
    rcases hB.covered q hq with hq' | ⟨hlt, hnot⟩
    · exact .inl (.inr hq')
    · rw [hB.frame q hlt hnot] at hq
      rcases hA.covered q hq with hq' | ⟨hlt', hnot'⟩
      · exact .inl (.inl hq')
      · exact .inr ⟨hlt', hnot', hnot⟩

theorem disjoint (hA : Rewrites h h' A A') (hlive : ∀ q ∈ B, q < h.fresh) (hd : B.Disjoint A) :
    B.Disjoint A' := by
  intro q hB hA'
  rcases hA.new q hA' with hq | hle
  · exact hd hB hq
  · exact absurd (hlive q hB) (by omega)

end Rewrites

end Heap

/-- A kind of list cell: where its node lies, which blocks it owns, and what they hold when the link
field has a given value. The blocks of a cell decide whether it is there. -/
structure CellKind (β γ : Type) where
  node : γ → ℕ
  foot : γ → List ℕ
  holds : Heap β → γ → Option ℕ → Prop
  node_mem : ∀ c, node c ∈ foot c
  frame : ∀ {h h' : Heap β} {c next}, (∀ p ∈ foot c, h'.get p = h.get p) → holds h c next →
    holds h' c next
  live : ∀ {h : Heap β} {c next p}, holds h c next → p ∈ foot c → p < h.fresh

section Seg

variable {β γ : Type} (K : CellKind β γ)

/-- The cells `cs` are linked from `p` to `q`. -/
def Seg (h : Heap β) : Option ℕ → List γ → Option ℕ → Prop
  | p, [], q => p = q
  | p, c :: cs, q => p = some (K.node c) ∧ ∃ next, K.holds h c next ∧ Seg h next cs q

/-- The blocks of a list of cells. -/
def footprint (cs : List γ) : List ℕ := cs.flatMap K.foot

variable {K} {h h' : Heap β} {p q r : Option ℕ} {cs cs' : List γ} {c : γ}

@[simp] theorem footprint_nil : footprint K [] = [] := rfl

@[simp] theorem footprint_cons : footprint K (c :: cs) = K.foot c ++ footprint K cs := by
  simp [footprint]

@[simp] theorem footprint_append : footprint K (cs ++ cs') = footprint K cs ++ footprint K cs' := by
  simp [footprint]

theorem Seg.append : Seg K h p (cs ++ cs') r ↔ ∃ q, Seg K h p cs q ∧ Seg K h q cs' r := by
  induction cs generalizing p with
  | nil => simp [Seg]
  | cons c cs ih =>
    simp only [List.cons_append, Seg, ih]
    constructor
    · rintro ⟨hp, next, hc, q, hcs, hcs'⟩
      exact ⟨q, ⟨hp, next, hc, hcs⟩, hcs'⟩
    · rintro ⟨q, ⟨hp, next, hc, hcs⟩, hcs'⟩
      exact ⟨hp, next, hc, q, hcs, hcs'⟩

theorem Seg.frame (hframe : ∀ b ∈ footprint K cs, h'.get b = h.get b) (hs : Seg K h p cs q) :
    Seg K h' p cs q := by
  induction cs generalizing p with
  | nil => exact hs
  | cons c cs ih =>
    obtain ⟨hp, next, hc, hcs⟩ := hs
    simp only [footprint_cons, List.mem_append] at hframe
    refine ⟨hp, next, K.frame (fun b hb => hframe b (.inl hb)) hc, ih ?_ hcs⟩
    intro b hb
    exact hframe b (.inr hb)

theorem Seg.unique (hK : ∀ {c c' next next'}, K.holds h c next → K.holds h c' next' → K.node c = K.node c' →
    c = c' ∧ next = next') (hs : Seg K h p cs none) (hs' : Seg K h p cs' none) : cs = cs' := by
  induction cs generalizing p cs' with
  | nil =>
    obtain rfl : p = none := hs
    cases cs' with
    | nil => rfl
    | cons c' cs' => cases hs'.1
  | cons c cs ih =>
    obtain ⟨rfl, next, hc, hcs⟩ := hs
    cases cs' with
    | nil => cases hs'
    | cons c' cs' =>
      obtain ⟨hnode, next', hc', hcs'⟩ := hs'
      obtain ⟨rfl, rfl⟩ := hK hc hc' (Option.some.inj hnode)
      rw [ih hcs hcs']

theorem Seg.holds_of_mem (hs : Seg K h p cs q) (hc : c ∈ cs) : ∃ next, K.holds h c next := by
  induction cs generalizing p with
  | nil => exact absurd hc (by simp)
  | cons d cs ih =>
    obtain ⟨-, next, hd, hcs⟩ := hs
    rcases List.mem_cons.mp hc with rfl | hc
    · exact ⟨next, hd⟩
    · exact ih hcs hc

theorem Seg.lt_fresh (hs : Seg K h p cs q) : ∀ b ∈ footprint K cs, b < h.fresh := by
  induction cs generalizing p with
  | nil => simp
  | cons c cs ih =>
    obtain ⟨-, next, hc, hcs⟩ := hs
    intro b hb
    rcases List.mem_append.mp (footprint_cons ▸ hb) with hb | hb
    · exact K.live hc hb
    · exact ih hcs b hb

theorem length_le_footprint (cs : List γ) : cs.length ≤ (footprint K cs).length := by
  induction cs with
  | nil => simp
  | cons c cs ih =>
    have hpos : 0 < (K.foot c).length := List.length_pos_of_mem (K.node_mem c)
    simp only [footprint_cons, List.length_cons, List.length_append]
    omega

theorem Seg.length_le_fresh (hs : Seg K h p cs q) (hnd : (footprint K cs).Nodup) :
    cs.length ≤ h.fresh := by
  have hsub : footprint K cs ⊆ List.range h.fresh := fun b hb => List.mem_range.mpr (hs.lt_fresh b hb)
  have hle := (List.Nodup.subperm hnd hsub).length_le
  rw [List.length_range] at hle
  exact le_trans (length_le_footprint cs) hle

/-- The tail of a list was rewritten by a program that owned just the tail. -/
theorem Seg.append_rewrites {ds : List γ} (hcs : Seg K h p cs q)
    (hd : (footprint K cs).Disjoint (footprint K cs'))
    (hrw : h.Rewrites h' (footprint K cs') (footprint K ds)) (hds : Seg K h' q ds r) :
    Seg K h' p (cs ++ ds) r := by
  refine Seg.append.mpr ⟨q, hcs.frame fun b hb => ?_, hds⟩
  exact hrw.frame b (hcs.lt_fresh b hb) (hd hb)

end Seg

end UnixNetProg.Lib
