import UnixNetProg.Libgai.Rep

/-!
# `ga_clone` and `ga_port`

`PortPass port socktype ns ns' k` is one pass of `ga_port` over the list `ns` as a relation between
lists: entries of another socket type are skipped, unused entries are filled in, used entries of the
host search are followed by a clone that is filled in; `k` entries were filled in. `wp_gaPort` says
that the loop over the heap makes such a pass, ends, and leaves every block outside the list alone.
-/

namespace UnixNetProg.Libgai

open Lib

/-- The entry for one of the two Internet families, with its address. -/
def InetNode (n : Node) : Prop :=
  (n.ai.aiFamily = AF_INET ∨ n.ai.aiFamily = AF_INET6) ∧ n.ai.aiAddr ≠ none

/-- The node with the socket type and the port stored. -/
def filled (port socktype : ℤ) (n : Node) : Node :=
  ⟨n.ptr, { n.ai with aiSocktype := socktype },
    n.sa.map fun sa => { sa with saPort := BitVec.ofInt 16 port }⟩

/-- The clone of `n` with its blocks at `p` and `a`. -/
def cloneOf (n : Node) (p a : ℕ) : Node :=
  ⟨p, { n.ai with aiFlags := 0, aiCanonname := none, aiAddr := some a }, n.sa⟩

inductive PortPass (port socktype : ℤ) : List Node → List Node → ℕ → Prop where
  | nil : PortPass port socktype [] [] 0
  | skip {n : Node} {ns ns' : List Node} {k : ℕ} (hflag : n.ai.aiFlags &&& AI_CLONE = 0)
      (hne : n.ai.aiSocktype ≠ socktype) (hpass : PortPass port socktype ns ns' k) :
      PortPass port socktype (n :: ns) (n :: ns') k
  | fill {n : Node} {ns ns' : List Node} {k : ℕ}
      (h : if n.ai.aiFlags &&& AI_CLONE = 0 then n.ai.aiSocktype = socktype else n.ai.aiSocktype = 0)
      (hpass : PortPass port socktype ns ns' k) :
      PortPass port socktype (n :: ns) (filled port socktype n :: ns') (k + 1)
  | clone {n : Node} {ns ns' : List Node} {k : ℕ} (p a : ℕ) (hflag : n.ai.aiFlags &&& AI_CLONE ≠ 0)
      (hne : n.ai.aiSocktype ≠ 0) (hpass : PortPass port socktype ns ns' k) :
      PortPass port socktype (n :: ns) (n :: filled port socktype (cloneOf n p a) :: ns') (k + 1)

variable {env : Env} {st : St} {E : Eai → St → Prop} {X : Exit → Prop} {h h' : Heap Block}
  {n : Node} {next : Option ℕ} {ns : List Node} {port socktype : ℤ}

theorem PortPass.forall_mem {P : Node → Prop} {ns' : List Node} {k : ℕ} (hp : PortPass port socktype ns ns' k)
    (hfill : ∀ n, P n → P (filled port socktype n)) (hclone : ∀ n p a, P n → P (cloneOf n p a))
    (hns : ∀ n ∈ ns, P n) : ∀ n ∈ ns', P n := by
  induction hp with
  | nil => exact hns
  | skip _ _ _ ih =>
    rw [List.forall_mem_cons] at hns ⊢
    exact ⟨hns.1, ih hns.2⟩
  | fill _ _ ih =>
    rw [List.forall_mem_cons] at hns ⊢
    exact ⟨hfill _ hns.1, ih hns.2⟩
  | clone p a _ _ _ ih =>
    rw [List.forall_mem_cons] at hns
    rw [List.forall_mem_cons, List.forall_mem_cons]
    exact ⟨hns.1, hfill _ (hclone _ p a hns.1), ih hns.2⟩

@[simp] theorem filled_foot (n : Node) : (filled port socktype n).foot = n.foot := rfl

theorem InetNode.exists_addr (hn : InetNode n) (hat : NodeAt h n next) :
    ∃ a sa, n.ai.aiAddr = some a ∧ n.sa = some sa ∧ h.get a = some (.sockaddr sa) := by
  obtain ⟨a, ha⟩ := Option.ne_none_iff_exists'.mp hn.2
  obtain ⟨sa, hsa, hget⟩ := hat.of_addr ha
  exact ⟨a, sa, ha, hsa, hget⟩

theorem wp_fillPort {Q : ℕ → St → Prop} (hn : InetNode n) (hat : NodeAt st.heap n next)
    (hnd : n.foot.Nodup)
    (hQ : ∀ h', h'.fresh = st.heap.fresh → (∀ q ∉ n.foot, h'.get q = st.heap.get q) →
      NodeAt h' (filled port socktype n) next → Q 1 { st with heap := h' }) :
    (fillPort port socktype n.ptr).wp Q E X st := by
  obtain ⟨a, sa, ha, hsa, hget⟩ := hn.exists_addr hat
  have hptr : n.ptr ∈ n.foot := by simp [Node.foot]
  have hmem : a ∈ n.foot := by simp [Node.foot, ha]
  have hne : a ≠ n.ptr := by
    rintro rfl
    exact (List.nodup_cons.mp hnd).1 (by simp [ha])
  let n₁ : Node := { n with ai := { n.ai with aiSocktype := socktype } }
  have hat₁ : NodeAt (st.heap.set n.ptr (.addrinfo ⟨n₁.ai, next⟩)) n₁ next :=
    hat.write hnd rfl rfl rfl rfl
  have hat₂ := hat₁.writeSa hnd ha { sa with saPort := BitVec.ofInt 16 port }
  have hfilled : { n₁ with sa := some { sa with saPort := BitVec.ofInt 16 port } } =
      filled port socktype n := by simp [filled, hsa, n₁]
  rw [hfilled] at hat₂
  rw [fillPort, Prog.wp_bind]
  refine wp_readAi hat.node ?_
  rw [Prog.wp_bind]
  refine wp_write ?_
  rw [if_pos hn.1, Prog.wp_bind]
  refine wp_readSa ha ((Heap.get_set_ne hne).trans hget) ?_
  rw [Prog.wp_bind, show n.ai.aiAddr.getD 0 = a by simp [ha]]
  refine wp_write (hQ _ (by simp) ?_ hat₂)
  intro q hq
  rw [Heap.get_set_ne, Heap.get_set_ne]
  · rintro rfl
    exact hq hptr
  · rintro rfl
    exact hq hmem

/-! ### Cloning -/

/-- The cells `cs` have taken the place of the one node `n`, whose link was `next`. -/
structure Became (h h' : Heap Block) (n : Node) (cs : List Node) (next : Option ℕ) : Prop where
  seg : Seg nodeKind h' (some n.ptr) cs next
  nodup : (footprint nodeKind cs).Nodup
  rewrites : h.Rewrites h' n.foot (footprint nodeKind cs)

theorem became_self (hat : NodeAt h n next) (hnd : n.foot.Nodup) : Became h h n [n] next := by
  refine ⟨⟨rfl, next, hat, rfl⟩, ?_, ?_⟩
  · simpa using hnd
  · simpa using Heap.Rewrites.refl n.foot

theorem became_clone {c : Node} (hat : NodeAt h n next) (hnd : n.foot.Nodup)
    (hfresh : h.fresh ≤ h'.fresh) (hframe : ∀ q < h.fresh, q ≠ n.ptr → h'.get q = h.get q)
    (hlink : h'.get n.ptr = some (.addrinfo ⟨n.ai, some c.ptr⟩)) (hc : NodeAt h' c next)
    (hcnd : c.foot.Nodup) (hcnew : ∀ q, q ∈ c.foot ↔ h.fresh ≤ q ∧ q < h'.fresh) :
    Became h h' n [n, c] next := by
  have hptr : n.ptr ∈ n.foot := by simp [Node.foot]
  refine ⟨⟨rfl, some c.ptr, ⟨hlink, ?_, ?_⟩, rfl, next, hc, rfl⟩, ?_, hfresh, ?_, ?_, ?_⟩
  · rw [← hat.addr]
    cases ha : n.ai.aiAddr with
    | none => rfl
    | some a =>
      have hne : a ≠ n.ptr := by
        rintro rfl
        exact (List.nodup_cons.mp hnd).1 (by simp [ha])
      simp [hframe a (hat.lt_fresh a (by simp [Node.foot, ha])) hne]
  · intro q hq
    have hne : q ≠ n.ptr := by
      rintro rfl
      exact (List.nodup_cons.mp hnd).1 (by simp [hq])
    rw [hframe q (hat.lt_fresh q (by simp [Node.foot, hq])) hne]
    exact hat.canon q hq
  · simp only [footprint_cons, footprint_nil, List.append_nil, nodeKind_foot]
    refine List.nodup_append'.mpr ⟨hnd, hcnd, fun q hq hq' => ?_⟩
    have := hat.lt_fresh q hq
    have := ((hcnew q).mp hq').1
    omega
  · intro q hq hnot
    refine hframe q hq ?_
    rintro rfl
    exact hnot hptr
  · intro q hq
    simp only [footprint_cons, footprint_nil, List.append_nil, nodeKind_foot, List.mem_append] at hq
    exact hq.imp_right fun hq => ((hcnew q).mp hq).1
  · intro q hq
    have hlt := Heap.lt_fresh_of_live hq
    simp only [footprint_cons, footprint_nil, List.append_nil, nodeKind_foot, List.mem_append]
    by_cases hold : q < h.fresh
    · by_cases hmem : q ∈ n.foot
      · exact .inl (.inl hmem)
      · exact .inr ⟨hold, hmem⟩
    · exact .inl (.inr ((hcnew q).mpr ⟨by omega, hlt⟩))

theorem wp_gaClone {Q : Option ℕ → St → Prop} (hn : InetNode n) (hat : NodeAt st.heap n next)
    (hnd : n.foot.Nodup)
    (hfail : ∀ h' k cs, ¬ AllocsOk env st.nalloc 2 → Became st.heap h' n cs next →
      Q none { st with heap := h', nalloc := k })
    (hok : ∀ h' c, AllocsOk env st.nalloc 2 → c = cloneOf n c.ptr (c.ptr + 1) →
      Became st.heap h' n [n, c] next → Q (some c.ptr) { st with heap := h', nalloc := st.nalloc + 2 }) :
    (gaClone env n.ptr).wp Q E X st := by
  obtain ⟨a, sa, ha, hsa, hget⟩ := hn.exists_addr hat
  have hptr := hat.lt_fresh n.ptr (by simp [Node.foot])
  have halt := hat.lt_fresh a (by simp [Node.foot, ha])
  have hne : a ≠ n.ptr := by
    rintro rfl
    exact (List.nodup_cons.mp hnd).1 (by simp [ha])
  let c₀ : Node := ⟨st.heap.fresh, { n.ai with aiFlags := 0, aiCanonname := none, aiAddr := none }, none⟩
  let c : Node := cloneOf n st.heap.fresh (st.heap.fresh + 1)
  rw [gaClone, Prog.wp_bind]
  refine wp_readAi hat.node ?_
  rw [Prog.wp_bind]
  refine wp_alloc_iff.mpr ⟨fun hf => hfail _ _ [n] (fun hall => ?_) (became_self hat hnd), fun hf => ?_⟩
  · exact absurd (hf.symm.trans (allocsOk_two.mp hall).1) (by decide)
  dsimp only
  rw [Prog.wp_bind]
  refine wp_write ?_
  rw [Prog.wp_bind]
  refine wp_readSa ha ((Heap.get_set_ne hne).trans ((Heap.get_alloc_of_lt halt).trans hget)) ?_
  rw [Prog.wp_bind]
  refine wp_alloc_iff.mpr ⟨fun hf' => ?_, fun hf' => ?_⟩
  · -- the clone is in the list, without an address
    have hlost : ¬ AllocsOk env st.nalloc 2 := fun hall =>
      absurd (hf'.symm.trans (allocsOk_two.mp hall).2) (by decide)
    refine hfail _ _ [n, c₀] hlost (became_clone hat hnd (by simp) ?_ ?_ ⟨?_, rfl, nofun⟩ ?_ ?_)
    · intro q hq hq'
      rw [Heap.get_set_ne hq', Heap.get_alloc_of_lt hq]
    · rw [Heap.get_set_self (by simp; omega)]
    · rw [Heap.get_set_ne (show st.heap.fresh ≠ n.ptr by omega)]
      exact Heap.get_alloc_fresh
    · simp [c₀, Node.foot]
    · intro q
      simp only [c₀, Node.foot, Option.toList_none, List.append_nil, List.mem_singleton, Heap.fresh_set,
        Heap.fresh_alloc]
      omega
  · rw [Prog.wp_bind]
    refine wp_write ?_
    have hnew : st.heap.fresh ≠ n.ptr := by omega
    refine hok _ c (allocsOk_two.mpr ⟨hf, hf'⟩) rfl (became_clone hat hnd (by simp; omega) ?_ ?_ ⟨?_, ?_, nofun⟩ ?_ ?_)
    · intro q hq hq'
      rw [Heap.get_set_ne (by omega), Heap.get_alloc_of_lt (by simp; omega), Heap.get_set_ne hq',
        Heap.get_alloc_of_lt hq]
    · rw [Heap.get_set_ne hnew.symm, Heap.get_alloc_of_lt (by simp; omega),
        Heap.get_set_self (by simp; omega)]
      rfl
    · show Heap.get _ st.heap.fresh = _
      rw [Heap.get_set_self (by simp only [Heap.fresh_alloc, Heap.fresh_set]; omega)]
      simp [c, cloneOf]
    · show some (Heap.get _ (st.heap.fresh + 1)) = n.sa.map _
      have hlast : st.heap.fresh + 1 =
          ((st.heap.alloc (.addrinfo ⟨c₀.ai, next⟩)).set n.ptr (.addrinfo ⟨n.ai, some c.ptr⟩)).fresh := by
        simp
      rw [Heap.get_set_ne (by omega), hlast, hsa]
      exact congrArg some Heap.get_alloc_fresh
    · simp [c, cloneOf, Node.foot]
    · intro q
      simp only [c, cloneOf, Node.foot, Option.toList_some, Option.toList_none, List.append_nil,
        List.mem_cons, List.not_mem_nil, or_false, Heap.fresh_set, Heap.fresh_alloc]
      omega

theorem Became.fill {h₁ h₂ : Heap Block} {cs : List Node} {c : Node} (hb : Became h h₁ n (cs ++ [c]) next)
    (hfresh : h₂.fresh = h₁.fresh) (hframe : ∀ q ∉ c.foot, h₂.get q = h₁.get q)
    (hc : NodeAt h₂ (filled port socktype c) next) :
    Became h h₂ n (cs ++ [filled port socktype c]) next := by
  have hfoot : footprint nodeKind (cs ++ [filled port socktype c]) = footprint nodeKind (cs ++ [c]) := by
    simp
  have hnd := hb.nodup
  simp only [footprint_append, footprint_cons, footprint_nil, List.append_nil, nodeKind_foot,
    List.nodup_append'] at hnd
  obtain ⟨q, hcs, hq, -⟩ := Seg.append.mp hb.seg
  refine ⟨Seg.append.mpr ⟨q, hcs.frame fun b hb' => hframe b (hnd.2.2 hb'), hq, next, hc, rfl⟩, ?_, ?_⟩
  · rw [hfoot]
    exact hb.nodup
  · rw [hfoot]
    refine ⟨hfresh ▸ hb.rewrites.mono, fun b hlt hnot => ?_, hb.rewrites.new, fun b hlive => ?_⟩
    · have hmem : b ∉ c.foot := by
        intro hmem
        rcases hb.rewrites.new b (by simp [hmem]) with hin | hle
        · exact hnot hin
        · omega
      rw [hframe b hmem, hb.rewrites.frame b hlt hnot]
    · by_cases hmem : b ∈ c.foot
      · exact .inl (by simp [hmem])
      · rw [hframe b hmem] at hlive
        exact hb.rewrites.covered b hlive

theorem Became.last {ms : List Node} {c : Node} (hb : Became h h' n (ms ++ [c]) next) :
    NodeAt h' c next ∧ c.foot.Nodup := by
  obtain ⟨q, -, -, r, hc, hr⟩ := Seg.append.mp hb.seg
  obtain rfl : r = next := hr
  have hnd := hb.nodup
  simp only [footprint_append, footprint_cons, footprint_nil, List.append_nil, nodeKind_foot,
    List.nodup_append'] at hnd
  exact ⟨hc, hnd.2.1⟩

theorem Became.rest (hb : Became h h' n ms next) (hl : NodeList h (some n.ptr) (n :: ns))
    (hns : Seg nodeKind h next ns none) : NodeList h' next ns := by
  have hnd := hl.nodup
  rw [footprint_cons, List.nodup_append'] at hnd
  refine ⟨hns.frame fun b hb' => ?_, hnd.2.1⟩
  exact hb.rewrites.frame b (hns.lt_fresh b hb') fun hn => hnd.2.2 hn hb'

theorem Became.append {h₂ : Heap Block} {ns' : List Node} (hb : Became h h' n ms next)
    (hl : NodeList h (some n.ptr) (n :: ns)) (hns : Seg nodeKind h next ns none)
    (hrw : h'.Rewrites h₂ (footprint nodeKind ns) (footprint nodeKind ns'))
    (hl' : NodeList h₂ next ns') :
    NodeList h₂ (some n.ptr) (ms ++ ns') ∧
      h.Rewrites h₂ (footprint nodeKind (n :: ns)) (footprint nodeKind (ms ++ ns')) := by
  have hnd := hl.nodup
  rw [footprint_cons, List.nodup_append'] at hnd
  have hd : (footprint nodeKind ms).Disjoint (footprint nodeKind ns) := by
    have := hb.rewrites.disjoint hns.lt_fresh fun _ h₁ h₂ => hnd.2.2 h₂ h₁
    exact fun _ h₁ h₂ => this h₂ h₁
  refine ⟨⟨hb.seg.append_rewrites hd hrw hl'.seg, ?_⟩, ?_⟩
  · rw [footprint_append]
    exact List.nodup_append'.mpr ⟨hb.nodup, hl'.nodup, hrw.disjoint hb.seg.lt_fresh hd⟩
  · rw [footprint_cons, footprint_append]
    exact hb.rewrites.append hrw

/-! ### The loop -/

/-- A used entry of the host search: `ga_port` clones it. -/
def isUsed (n : Node) : Bool := n.ai.aiFlags &&& AI_CLONE != 0 && n.ai.aiSocktype != 0

theorem isUsed_iff : isUsed n = true ↔ n.ai.aiFlags &&& AI_CLONE ≠ 0 ∧ n.ai.aiSocktype ≠ 0 := by
  rw [isUsed, Bool.and_eq_true, bne_iff_ne, bne_iff_ne]

/-- The allocations of a pass: two for each clone. -/
def passAllocs (ns : List Node) : ℕ := 2 * ns.countP isUsed

theorem passAllocs_cons (n : Node) (ns : List Node) : passAllocs (n :: ns) = passAllocs [n] + passAllocs ns := by
  rw [passAllocs, passAllocs, passAllocs, List.countP_cons, List.countP_singleton]
  omega

theorem passAllocs_of_used (hn : isUsed n = true) : passAllocs [n] = 2 := by
  rw [passAllocs, List.countP_singleton, if_pos hn]

theorem passAllocs_of_not (hn : ¬ isUsed n = true) : passAllocs [n] = 0 := by
  rw [passAllocs, List.countP_singleton, if_neg hn]

section Turn

variable {Q : Option ℕ → St → Prop} {fuel nfound : ℕ}

theorem wp_fillTurn {h₁ : Heap Block} {k : ℕ} {ms : List Node} {c : Node} (hc : InetNode c)
    (hb : Became st.heap h₁ n (ms ++ [c]) next)
    (hok : ∀ h₂, Became st.heap h₂ n (ms ++ [filled port socktype c]) next →
      (gaPortLoop env port socktype fuel next (nfound + 1)).wp Q E X { st with heap := h₂, nalloc := k }) :
    (do let m ← fillPort port socktype c.ptr
        gaPortLoop env port socktype fuel (← readAi c.ptr).aiNext (nfound + m) : GaM _).wp Q E X
      { st with heap := h₁, nalloc := k } := by
  obtain ⟨hatc, hndc⟩ := hb.last
  rw [Prog.wp_bind]
  refine wp_fillPort hc hatc hndc fun h₂ hfresh hframe hat₂ => ?_
  rw [Prog.wp_bind]
  exact wp_readAi hat₂.node (hok h₂ (hb.fill hfresh hframe hat₂))

/-- One turn of the loop makes `ms` of the node, and adds `j` to the count, if its allocations succeed. -/
theorem wp_gaPortTurn (hn : InetNode n) (hat : NodeAt st.heap n next) (hnd : n.foot.Nodup)
    (hfail : ∀ h₁ k ms, ¬ AllocsOk env st.nalloc (passAllocs [n]) → Became st.heap h₁ n ms next →
      Q none { st with heap := h₁, nalloc := k })
    (hok : ∀ h₁ ms j, AllocsOk env st.nalloc (passAllocs [n]) → Became st.heap h₁ n ms next →
      (∀ ns ns' c, PortPass port socktype ns ns' c → PortPass port socktype (n :: ns) (ms ++ ns') (c + j)) →
      (gaPortLoop env port socktype fuel next (nfound + j)).wp Q E X
        { st with heap := h₁, nalloc := st.nalloc + passAllocs [n] }) :
    (gaPortLoop env port socktype (fuel + 1) (some n.ptr) nfound).wp Q E X st := by
  rw [gaPortLoop, Prog.wp_bind]
  refine wp_readAi hat.node ?_
  split_ifs with hskip hclone
  · have hunused : ¬ isUsed n = true := fun hused => (isUsed_iff.mp hused).1 hskip.1
    rw [passAllocs_of_not hunused] at hok
    exact hok st.heap [n] 0 nofun (became_self hat hnd) fun ns ns' c hp => .skip hskip.1 hskip.2 hp
  · rw [passAllocs_of_used (isUsed_iff.mpr hclone)] at hfail hok
    rw [Prog.wp_bind]
    refine wp_gaClone hn hat hnd hfail fun h₁ c hallocs hc hb => ?_
    have hcinet : InetNode c := by
      rw [hc]
      exact ⟨hn.1, nofun⟩
    have hpair : Became st.heap h₁ n ([n] ++ [c]) next := hb
    refine wp_fillTurn hcinet hpair fun h₂ hb₂ => hok h₂ _ 1 hallocs hb₂ fun ns ns' m hp => ?_
    rw [hc]
    exact .clone _ _ hclone.1 hclone.2 hp
  · have hunused : ¬ isUsed n = true := fun hused => hclone (isUsed_iff.mp hused)
    rw [passAllocs_of_not hunused] at hok
    have hself : Became st.heap st.heap n ([] ++ [n]) next := became_self hat hnd
    refine wp_fillTurn hn hself fun h₂ hb₂ => hok h₂ _ 1 nofun hb₂ fun ns ns' m hp => .fill ?_ hp
    split_ifs with hflag
    · by_contra hne
      exact hskip ⟨hflag, hne⟩
    · by_contra hne
      exact hclone ⟨hflag, hne⟩

end Turn

theorem wp_gaPortLoop {Q : Option ℕ → St → Prop} {p : Option ℕ} {fuel nfound : ℕ}
    (hin : ∀ n ∈ ns, InetNode n) (hl : NodeList st.heap p ns) (hfuel : ns.length ≤ fuel)
    (hfail : ∀ h' k ns', ¬ AllocsOk env st.nalloc (passAllocs ns) → NodeList h' p ns' →
      st.heap.Rewrites h' (footprint nodeKind ns) (footprint nodeKind ns') →
      Q none { st with heap := h', nalloc := k })
    (hok : ∀ h' ns' c, AllocsOk env st.nalloc (passAllocs ns) → PortPass port socktype ns ns' c →
      NodeList h' p ns' → st.heap.Rewrites h' (footprint nodeKind ns) (footprint nodeKind ns') →
      Q (some (nfound + c)) { st with heap := h', nalloc := st.nalloc + passAllocs ns }) :
    (gaPortLoop env port socktype fuel p nfound).wp Q E X st := by
  induction ns generalizing st p fuel nfound with
  | nil =>
    obtain rfl : p = none := hl.seg
    rw [gaPortLoop]
    exact hok _ [] 0 nofun .nil hl (.refl _)
  | cons n ns ih =>
    obtain ⟨rfl, next, hat, hns⟩ := hl.seg
    have hrest : ∀ m ∈ ns, InetNode m := fun m hm => hin m (by simp [hm])
    have hnd : n.foot.Nodup := by
      have := hl.nodup
      rw [footprint_cons, List.nodup_append'] at this
      exact this.1
    obtain ⟨fuel, rfl⟩ : ∃ f, fuel = f + 1 := ⟨fuel - 1, by simp at hfuel; omega⟩
    rw [passAllocs_cons] at hfail hok
    refine wp_gaPortTurn (hin n (by simp)) hat hnd ?_ ?_
    · intro h₁ k ms hf hb
      obtain ⟨hl₂, hrw₂⟩ := hb.append hl hns (.refl _) (hb.rest hl hns)
      exact hfail h₁ k _ (fun hall => hf (allocsOk_add.mp hall).1) hl₂ hrw₂
    · intro h₁ ms j hallocs hb hpass
      refine ih hrest (hb.rest hl hns) (by simpa using hfuel) ?_ ?_
      · intro h₂ k₂ ns' hf hl' hrw
        obtain ⟨hl₂, hrw₂⟩ := hb.append hl hns hrw hl'
        exact hfail h₂ k₂ _ (fun hall => hf (allocsOk_add.mp hall).2) hl₂ hrw₂
      · intro h₂ ns' c hall hp hl' hrw
        obtain ⟨hl₂, hrw₂⟩ := hb.append hl hns hrw hl'
        have hres := hok h₂ _ _ (allocsOk_add.mpr ⟨hallocs, hall⟩) (hpass ns ns' c hp) hl₂ hrw₂
        rw [← Nat.add_assoc st.nalloc, Nat.add_comm c, ← Nat.add_assoc nfound] at hres
        exact hres

/-- **`ga_port`** makes one pass over the list at `p`, whatever else the heap holds, if the allocations
for its clones succeed. -/
theorem wp_gaPort_counts {Q : Option ℕ → St → Prop} {p : Option ℕ} (hin : ∀ n ∈ ns, InetNode n)
    (hl : NodeList st.heap p ns)
    (hfail : ∀ h' k ns', ¬ AllocsOk env st.nalloc (passAllocs ns) → NodeList h' p ns' →
      st.heap.Rewrites h' (footprint nodeKind ns) (footprint nodeKind ns') →
      Q none { st with heap := h', nalloc := k })
    (hok : ∀ h' ns' c, AllocsOk env st.nalloc (passAllocs ns) → PortPass port socktype ns ns' c →
      NodeList h' p ns' → st.heap.Rewrites h' (footprint nodeKind ns) (footprint nodeKind ns') →
      Q (some c) { st with heap := h', nalloc := st.nalloc + passAllocs ns }) :
    (gaPort env p port socktype).wp Q E X st := by
  rw [gaPort, Prog.wp_bind, Prog.wp_get]
  refine wp_gaPortLoop hin hl hl.length_le_fresh hfail fun h' ns' c => ?_
  rw [Nat.zero_add]
  exact hok h' ns' c

theorem wp_gaPort {Q : Option ℕ → St → Prop} {p : Option ℕ} (hin : ∀ n ∈ ns, InetNode n)
    (hl : NodeList st.heap p ns)
    (hfail : ∀ h' k ns', (∃ k, env.allocFails k = true) → NodeList h' p ns' →
      st.heap.Rewrites h' (footprint nodeKind ns) (footprint nodeKind ns') →
      Q none { st with heap := h', nalloc := k })
    (hok : ∀ h' k ns' c, PortPass port socktype ns ns' c → NodeList h' p ns' →
      st.heap.Rewrites h' (footprint nodeKind ns) (footprint nodeKind ns') →
      Q (some c) { st with heap := h', nalloc := k }) :
    (gaPort env p port socktype).wp Q E X st := by
  refine wp_gaPort_counts hin hl ?_ ?_
  · intro h' k ns' hf
    exact hfail h' k ns' (exists_allocFails hf)
  · intro h' ns' c _
    exact hok h' _ ns' c

end UnixNetProg.Libgai
