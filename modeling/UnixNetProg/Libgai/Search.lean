import UnixNetProg.Libgai.Port

/-!
# The host search

Each turn of the loop over `search[]` keeps the list that `aihead` and `aipnext` delimit well formed,
puts only nodes of an admitted family into it, and keeps the saved canonical name apart from it
(`SearchInv`). Whatever error ends the search, the list can still be freed (`Freeable`).
-/

namespace UnixNetProg.Libgai

open Lib

/-- A node of the host search for `hints`, before the service pass. -/
def HostNode (hints : Hints) (n : Node) : Prop :=
  ∃ addr fam, (fam = AF_INET ∨ fam = AF_INET6) ∧ (hints.aiFamily = AF_UNSPEC ∨ hints.aiFamily = fam) ∧
    IsNew hints addr fam n

/-- The saved canonical name is a string of its own. -/
def CanonApart (st : St) (ns : List Node) : Prop :=
  ∀ q, st.canon = some q → (∃ s, st.heap.get q = some (.string s)) ∧ q ∉ footprint nodeKind ns

structure SearchInv (hints : Hints) (st : St) (ns : List Node) : Prop where
  built : Built st ns
  nodes : ∀ n ∈ ns, HostNode hints n
  canon : CanonApart st ns

/-- `aihead` is a list that `freeaddrinfo` can free. -/
def Freeable (st : St) : Prop := ∃ ns, NodeList st.heap st.aihead ns

/-- The state in the search for `hints`. -/
def Searching (hints : Hints) (st : St) : Prop := ∃ ns, SearchInv hints st ns

variable {env : Env} {st st' : St} {hints : Hints} {ns ns' : List Node}

theorem Searching.freeable (st : St) (hs : Searching hints st) : Freeable st := by
  obtain ⟨ns, hinv⟩ := hs
  exact ⟨ns, hinv.built.list⟩

theorem CanonApart.rewrites (hc : CanonApart st ns) (hcanon : st'.canon = st.canon)
    (hrw : st.heap.Rewrites st'.heap (footprint nodeKind ns) (footprint nodeKind ns')) :
    CanonApart st' ns' := by
  intro q hq
  rw [hcanon] at hq
  obtain ⟨⟨s, hget⟩, hnot⟩ := hc q hq
  have hlt := Heap.lt_fresh hget
  refine ⟨⟨s, (hrw.frame q hlt hnot).trans hget⟩, fun hmem => ?_⟩
  rcases hrw.new q hmem with hin | hle
  · exact hnot hin
  · omega

theorem SearchInv.snoc {fam : ℤ} {addr : List Byte} {n : Node} (hinv : SearchInv hints st ns)
    (hfam : fam = AF_INET ∨ fam = AF_INET6) (hadm : hints.aiFamily = AF_UNSPEC ∨ hints.aiFamily = fam)
    (hb : Built st' (ns ++ [n])) (hnew : IsNew hints addr fam n) (hkept : Kept st st')
    (hrw : st.heap.Rewrites st'.heap (footprint nodeKind ns) (footprint nodeKind (ns ++ [n]))) :
    SearchInv hints st' (ns ++ [n]) := by
  refine ⟨hb, fun m hm => ?_, hinv.canon.rewrites hkept.canon hrw⟩
  rcases List.mem_append.mp hm with hm | hm
  · exact hinv.nodes m hm
  · obtain rfl := List.mem_singleton.mp hm
    exact ⟨addr, fam, hfam, hadm, hnew⟩

theorem keeps_gaAistruct {fam : ℤ} (addr : List Byte) (hfam : fam = AF_INET ∨ fam = AF_INET6)
    (hadm : hints.aiFamily = AF_UNSPEC ∨ hints.aiFamily = fam) :
    Prog.Keeps (Searching hints) Freeable (gaAistruct env hints addr fam) := by
  rintro st ⟨ns, hinv⟩
  refine wp_gaAistruct hinv.built (hfam.imp_right .inl) ?_ ?_
  · intro st' n hb hnew hkept hrw
    exact ⟨ns ++ [n], hinv.snoc hfam hadm hb hnew hkept hrw⟩
  · intro e st' ns' _ hb _ _
    exact ⟨ns', hb.list⟩

theorem keeps_resolve (nsearch : ℕ) (sptr : Search) :
    Prog.Keeps (Searching hints) Freeable (resolve env nsearch sptr) := by
  rintro st ⟨ns, hinv⟩
  have hkept : ∀ (u : Bool) (k : ℕ), Searching hints { st with resInit := true, resUseInet6 := u, nquery := k } :=
    fun u k => ⟨ns, ⟨hinv.built.list, hinv.built.slot⟩, hinv.nodes, hinv.canon⟩
  rw [resolve, Prog.wp_bind, Prog.wp_modify, Prog.wp_bind, Prog.wp_get, Prog.wp_ite]
  exact ⟨fun _ => hkept _ _, fun _ => hkept _ _⟩

theorem keeps_saveCanon (hostname : Option CString) (hName : CString) :
    Prog.Keeps (Searching hints) Freeable (saveCanon env hostname hints hName) := by
  rintro st ⟨ns, hinv⟩
  rw [saveCanon, Prog.wp_bind, Prog.wp_get, Prog.wp_ite]
  refine ⟨fun _ => ?_, fun _ => ⟨ns, hinv⟩⟩
  rw [Prog.wp_bind]
  refine wp_alloc (fun _ => ⟨ns, hinv.built.list⟩) ?_
  have hb := hinv.built.alloc (.string hName) (st.nalloc + 1)
  refine ⟨ns, ⟨hb.list, hb.slot⟩, hinv.nodes, ?_⟩
  intro q hq
  obtain rfl : st.heap.fresh = q := Option.some.inj hq
  exact hinv.built.list.string_apart hName

/-! ### The loop

What each operation of the search keeps, the whole search keeps. -/

/-- The search makes its steps with the invariant `I`, and its errors leave `J`. -/
structure SearchKeeps (env : Env) (hostname : Option CString) (hints : Hints) (I J : St → Prop) : Prop where
  weaken : ∀ st, I st → J st
  aistruct : ∀ addr fam, fam = AF_INET ∨ fam = AF_INET6 →
    hints.aiFamily = AF_UNSPEC ∨ hints.aiFamily = fam → Prog.Keeps I J (gaAistruct env hints addr fam)
  resolve : ∀ nsearch sptr, Prog.Keeps I J (resolve env nsearch sptr)
  saveCanon : ∀ hName, Prog.Keeps I J (saveCanon env hostname hints hName)

theorem searchKeeps_searching (hostname : Option CString) :
    SearchKeeps env hostname hints (Searching hints) Freeable :=
  ⟨Searching.freeable, fun addr _ => keeps_gaAistruct addr, keeps_resolve, keeps_saveCanon hostname⟩

section SearchKeeps

variable {hostname : Option CString} {I J : St → Prop}

theorem keeps_addLiteral {fam : ℤ} (hk : SearchKeeps env hostname hints I J) (sptr : Search)
    (addr : List Byte) (hfam : fam = AF_INET ∨ fam = AF_INET6) :
    Prog.Keeps I J (addLiteral env hints sptr addr fam) := by
  refine .ite (fun _ => Prog.keeps_throw hk.weaken _) fun hadm => ?_
  refine .ite (fun _ => Prog.keeps_pure _) fun _ => ?_
  rw [not_and_or, not_not, not_not] at hadm
  exact hk.aistruct addr fam hfam hadm

theorem keeps_addAddrs {fam : ℤ} (hk : SearchKeeps env hostname hints I J)
    (hfam : fam = AF_INET ∨ fam = AF_INET6) (hadm : hints.aiFamily = AF_UNSPEC ∨ hints.aiFamily = fam)
    (addrs : List (List Byte)) : Prog.Keeps I J (addAddrs env hints fam addrs) := by
  induction addrs with
  | nil => exact Prog.keeps_pure ()
  | cons addr addrs ih => exact (hk.aistruct addr fam hfam hadm).bind fun _ => ih

theorem keeps_lookupHost (hk : SearchKeeps env hostname hints I J) (nsearch : ℕ) (sptr : Search) :
    Prog.Keeps I J (lookupHost env hostname hints nsearch sptr) := by
  refine (hk.resolve nsearch sptr).bind fun answer => ?_
  cases answer with
  | error herr => exact .ite (fun _ => Prog.keeps_pure ()) fun _ => Prog.keeps_throw hk.weaken _
  | ok hptr =>
    refine .ite (fun _ => Prog.keeps_throw hk.weaken _) fun hadm => ?_
    rw [not_and_or, not_not, not_not] at hadm
    refine (hk.saveCanon hptr.hName).bind fun _ => ?_
    exact keeps_addAddrs hk hptr.addrtype hadm hptr.hAddrList

theorem keeps_searchStep (hk : SearchKeeps env hostname hints I J) (nsearch : ℕ) (sptr : Search) :
    Prog.Keeps I J (searchStep env hostname hints nsearch sptr) := by
  unfold searchStep
  split
  · exact keeps_addLiteral hk sptr _ (.inl rfl)
  · split
    · exact keeps_addLiteral hk sptr _ (.inr rfl)
    · exact keeps_lookupHost hk nsearch sptr

/-- **The host search** keeps what its operations keep; for `Searching`, a well-formed list of nodes of
the admitted families. -/
theorem keeps_searchLoop (hk : SearchKeeps env hostname hints I J) (nsearch : ℕ) (search : List Search) :
    Prog.Keeps I J (searchLoop env hostname hints nsearch search) := by
  induction search with
  | nil => exact Prog.keeps_pure ()
  | cons sptr search ih => exact (keeps_searchStep hk nsearch sptr).bind fun _ => ih

end SearchKeeps

/-! ### The canonical name -/

/-- The node with its canonical name stored. -/
def named (name : Option ℕ) (n : Node) : Node := { n with ai := { n.ai with aiCanonname := name } }

variable {E : Eai → St → Prop} {X : Exit → Prop} {Q : Unit → St → Prop} {n : Node} {name : Option ℕ}

theorem named_none (hn : n.ai.aiCanonname = none) : named none n = n := by
  obtain ⟨ptr, ai, sa⟩ := n
  simp only [named] at hn ⊢
  rw [← hn]

theorem NodeList.named {h : Heap Block} {next : Option ℕ} (hl : NodeList h (some n.ptr) (n :: ns))
    (hnone : n.ai.aiCanonname = none) (hat : NodeAt h n next) (hns : Seg nodeKind h next ns none)
    (hname : ∀ q, name = some q → (∃ s, h.get q = some (.string s)) ∧ q ∉ footprint nodeKind (n :: ns)) :
    NodeList (h.set n.ptr (.addrinfo ⟨(named name n).ai, next⟩)) (some n.ptr) (named name n :: ns) := by
  have hfoot : n.foot = n.ptr :: n.ai.aiAddr.toList := by simp [Node.foot, hnone]
  have hnd := hl.nodup
  rw [footprint_cons, nodeKind_foot, hfoot, List.nodup_append', List.nodup_cons] at hnd
  obtain ⟨⟨hptr, haddr⟩, hnsNodup, hd⟩ := hnd
  simp only [footprint_cons, nodeKind_foot, hfoot, List.mem_append, List.mem_cons, not_or] at hname
  refine ⟨⟨rfl, next, ⟨?_, ?_, ?_⟩, hns.frame fun b hb => Heap.get_set_ne ?_⟩, ?_⟩
  · exact Heap.get_set_self (Heap.lt_fresh hat.node)
  · show n.ai.aiAddr.map _ = n.sa.map _
    rw [← hat.addr]
    cases ha : n.ai.aiAddr with
    | none => rfl
    | some a =>
      have hne : a ≠ n.ptr := by
        rintro rfl
        exact hptr (by simp [ha])
      simp [Heap.get_set_ne hne]
  · intro q hq
    obtain ⟨⟨s, hget⟩, ⟨hne, -⟩, -⟩ := hname q hq
    exact ⟨s, (Heap.get_set_ne hne).trans hget⟩
  · rintro rfl
    exact hd (List.mem_cons_self ..) hb
  · rw [footprint_cons, nodeKind_foot, List.nodup_append']
    show (n.ptr :: (n.ai.aiAddr.toList ++ name.toList)).Nodup ∧ _ ∧ _
    cases name with
    | none =>
      rw [Option.toList_none, List.append_nil]
      refine ⟨List.nodup_cons.mpr ⟨hptr, haddr⟩, hnsNodup, fun q hq hq' => hd ?_ hq'⟩
      simpa [Node.foot, Libgai.named] using hq
    | some q =>
      obtain ⟨-, ⟨hne, hnot⟩, hnotns⟩ := hname q rfl
      refine ⟨?_, hnsNodup, fun b hb hb' => ?_⟩
      · have hne' : n.ptr ≠ q := fun h => hne h.symm
        rw [List.nodup_cons, List.mem_append, not_or, List.nodup_append']
        refine ⟨⟨hptr, by simpa using hne'⟩, haddr, by simp, ?_⟩
        simpa using hnot
      · simp only [Node.foot, Libgai.named, Option.toList_some, List.mem_cons, List.mem_append,
          List.not_mem_nil, or_false] at hb
        rcases hb with rfl | hb | rfl
        · exact hd (List.mem_cons_self ..) hb'
        · exact hd (List.mem_cons_of_mem _ hb) hb'
        · exact hnotns hb'

theorem wp_storeCanon (hl : NodeList st.heap (some n.ptr) (n :: ns)) (hnone : n.ai.aiCanonname = none)
    (hname : ∀ q, name = some q →
      (∃ s, st.heap.get q = some (.string s)) ∧ q ∉ footprint nodeKind (n :: ns))
    (hok : ∀ h', name ≠ none → (∀ q, q ≠ n.ptr → h'.get q = st.heap.get q) →
      NodeList h' (some n.ptr) (named name n :: ns) → Q () { st with heap := h' })
    (herr : ∀ h', name = none → (∀ q, q ≠ n.ptr → h'.get q = st.heap.get q) →
      NodeList h' (some n.ptr) (named name n :: ns) → E .memory { st with heap := h' }) :
    (storeCanon n.ptr name).wp Q E X st := by
  obtain ⟨-, next, hat, hns⟩ := hl.seg
  have hnamed := hl.named hnone hat hns hname
  rw [storeCanon, Prog.wp_bind]
  refine wp_readAi hat.node ?_
  rw [Prog.wp_bind]
  refine wp_write ?_
  rw [Prog.wp_ite]
  refine ⟨fun hn => herr _ hn (fun q hq => Heap.get_set_ne hq) hnamed, fun hn => ?_⟩
  exact hok _ hn (fun q hq => Heap.get_set_ne hq) hnamed

/-- What is live in `h'` belongs to the list `ns`, or was live in `h` and is not the saved name
`canon`. -/
def NameTaken (h h' : Heap Block) (canon : Option ℕ) (ns : List Node) : Prop :=
  ∀ q, h'.get q ≠ none → q ∈ footprint nodeKind ns ∨ h.get q ≠ none ∧ canon ≠ some q

theorem nameTaken_self (h : Heap Block) (ns : List Node) : NameTaken h h none ns :=
  fun _ hq => .inr ⟨hq, nofun⟩

theorem nameTaken_named {h h₁ h' : Heap Block} {canon : Option ℕ}
    (hold : ∀ q, h₁.get q ≠ none → h.get q ≠ none ∧ canon ≠ some q ∨ name = some q)
    (hframe : ∀ q, q ≠ n.ptr → h'.get q = h₁.get q) : NameTaken h h' canon (named name n :: ns) := by
  intro q hq
  rw [footprint_cons, nodeKind_foot, List.mem_append]
  by_cases hptr : q = n.ptr
  · exact .inl (.inl (by simp [hptr, named, Node.foot]))
  · rw [hframe q hptr] at hq
    rcases hold q hq with hq | hq
    · exact .inr hq
    · exact .inl (.inl (by simp [hq, named, Node.foot]))

theorem wp_dupCanon {s : CString} (hl : NodeList st.heap (some n.ptr) (n :: ns))
    (hnone : n.ai.aiCanonname = none)
    (hok : ∀ h', env.allocFails st.nalloc = false → h'.get st.heap.fresh = some (.string s) →
      NameTaken st.heap h' none (named (some st.heap.fresh) n :: ns) →
      NodeList h' (some n.ptr) (named (some st.heap.fresh) n :: ns) →
      Q () { st with heap := h', nalloc := st.nalloc + 1 })
    (herr : ∀ h', env.allocFails st.nalloc = true → NameTaken st.heap h' none (named none n :: ns) →
      NodeList h' (some n.ptr) (named none n :: ns) →
      E .memory { st with heap := h', nalloc := st.nalloc + 1 }) :
    (alloc env (.string s)).wp (fun name => (storeCanon n.ptr name).wp Q E X) E X st := by
  refine wp_alloc_iff.mpr ⟨fun hf => ?_, fun hsucc => ?_⟩
  · refine wp_storeCanon hl hnone nofun (fun _ hne => absurd rfl hne) fun h' _ hframe hl' => ?_
    exact herr h' hf (nameTaken_named (fun b hb => .inl ⟨hb, nofun⟩) hframe) hl'
  · refine wp_storeCanon (hl.alloc _) hnone ?_ ?_ (fun _ h => nomatch h)
    · intro q hq
      obtain rfl := Option.some.inj hq
      exact hl.string_apart _
    · intro h' _ hframe hl'
      have hptr : n.ptr < st.heap.fresh := hl.seg.lt_fresh _ (by simp [Node.foot])
      refine hok h' hsucc ?_ (nameTaken_named (fun b hb => ?_) hframe) hl'
      · rw [hframe _ hptr.ne']
        exact Heap.get_alloc_fresh
      · exact (Heap.live_alloc hb).imp (fun hb => ⟨hb, nofun⟩) fun hb => by rw [hb]

theorem wp_setCanon {hostname : Option CString} {search : List Search}
    (hl : NodeList st.heap (some n.ptr) (n :: ns)) (hnone : n.ai.aiCanonname = none)
    (hc : CanonApart st (n :: ns))
    (hok : ∀ h' k name, (wantsCanon hostname hints = true ∨ st.canon = none →
        NameTaken st.heap h' st.canon (named name n :: ns)) →
      NodeList h' (some n.ptr) (named name n :: ns) → Q () { st with heap := h', nalloc := k })
    (herr : ∀ h' k, (∃ k, env.allocFails k = true) → st.canon = none →
      NameTaken st.heap h' none (named none n :: ns) →
      NodeList h' (some n.ptr) (named none n :: ns) → E .memory { st with heap := h', nalloc := k }) :
    (setCanon env hostname hints search n.ptr).wp Q E X st := by
  rw [setCanon, Prog.wp_ite]
  refine ⟨fun _ => ?_, fun hwants => ?_⟩
  · rw [Prog.wp_bind, canonName, Prog.wp_bind, Prog.wp_get]
    cases hcanon : st.canon with
    | some q =>
      refine wp_storeCanon hl hnone ?_ ?_ (fun _ h => nomatch h)
      · rintro _ ⟨⟩
        exact hc q hcanon
      · intro h' _ hframe
        refine hok h' st.nalloc (some q) fun _ => nameTaken_named (fun b hb => ?_) hframe
        rw [hcanon]
        by_cases hqb : some q = some b
        · exact .inr hqb
        · exact .inl ⟨hb, hqb⟩
    | none =>
      refine wp_dupCanon hl hnone (fun h' _ _ htaken => ?_) fun h' hf htaken => ?_
      · refine hok h' _ _ fun _ => ?_
        rw [hcanon]
        exact htaken
      · exact herr h' _ ⟨_, hf⟩ hcanon htaken
  · refine hok st.heap st.nalloc none (fun hor => ?_) ((named_none hnone).symm ▸ hl)
    rw [hor.resolve_left hwants]
    exact nameTaken_self st.heap _

end UnixNetProg.Libgai
