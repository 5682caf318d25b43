import UnixNetProg.Libgai.Search

/-!
# The `AI_CLONE` algorithm

When the caller gives no socket type, `ga_aistruct` marks its nodes with `AI_CLONE` and `ga_port` is
called once for each socket type the service is found for. After the calls `done`, each original node
is followed by one clone for each call but the first, the latest clone first (`BlockInv`); a further
pass fills in or clones the originals and skips the clones of earlier passes (`BlockInv.pass`).
-/

namespace UnixNetProg.Libgai

open Lib

/-- The arguments of one call of `ga_port`. -/
structure PortCall where
  port : ℤ
  socktype : ℤ

variable (env : Env)

/-- Call `ga_aistruct` for each address. -/
def addrStructs (hintsp : Hints) : List (ℤ × List Byte) → GaM Unit
  | [] => pure ()
  | (family, addr) :: addrs => do
    gaAistruct env hintsp addr family
    addrStructs hintsp addrs

/-- The list for the addresses, with its canonical name if one is asked for. -/
def buildList (hostname : Option CString) (hints : Hints) (search : List Search)
    (addrs : List (ℤ × List Byte)) : GaM ℕ := do
  addrStructs env hints addrs
  match (← Prog.get).aihead with
  | none => Prog.exit .crash
  | some head => do
    setCanon env hostname hints search head
    return head

/-- The return values of a sequence of calls of `ga_port` on one list. -/
def portCalls (aihead : Option ℕ) : List PortCall → GaM (List (Option ℕ))
  | [] => pure []
  | c :: cs => do
    let rc ← gaPort env aihead c.port c.socktype
    let rcs ← portCalls aihead cs
    return rc :: rcs

/-! ### One pass over the blocks -/

/-- The original node after the calls `done`. -/
def firstOf (done : List PortCall) (orig : Node) : Node :=
  done.head?.elim orig fun c => filled c.port c.socktype orig

def IsClone (orig : Node) (c : PortCall) (n : Node) : Prop :=
  ∃ p a, n = filled c.port c.socktype (cloneOf orig p a)

/-- The nodes for the original node `orig` after the calls `done`. -/
def BlockInv (done : List PortCall) (orig : Node) (block : List Node) : Prop :=
  ∃ clones, block = firstOf done orig :: clones ∧
    List.Forall₂ (IsClone orig) done.tail.reverse clones

/-- An original node, for any socket type. -/
structure Cloneable (n : Node) : Prop where
  inet : InetNode n
  flags : n.ai.aiFlags = AI_CLONE
  socktype : n.ai.aiSocktype = 0

variable {env} {port socktype : ℤ} {ns ns' clones block : List Node} {orig : Node} {k : ℕ}
  {done : List PortCall}

theorem filled_cloneOf_filled (port' socktype' : ℤ) (p a : ℕ) :
    filled port socktype (cloneOf (filled port' socktype' orig) p a) =
      filled port socktype (cloneOf orig p a) := by
  cases hsa : orig.sa <;> simp [filled, cloneOf, hsa]

theorem PortPass.skip_append
    (hskip : ∀ c ∈ clones, c.ai.aiFlags &&& AI_CLONE = 0 ∧ c.ai.aiSocktype ≠ socktype)
    (hp : PortPass port socktype (clones ++ ns) ns' k) :
    ∃ ns'', ns' = clones ++ ns'' ∧ PortPass port socktype ns ns'' k := by
  induction clones generalizing ns' with
  | nil => exact ⟨ns', rfl, hp⟩
  | cons c cs ih =>
    have hcs : ∀ c ∈ cs, c.ai.aiFlags &&& AI_CLONE = 0 ∧ c.ai.aiSocktype ≠ socktype :=
      fun m hm => hskip m (List.mem_cons_of_mem c hm)
    obtain ⟨hflag, hne⟩ := hskip c (by simp)
    cases hp with
    | skip _ _ hp =>
      obtain ⟨ns'', rfl, hp'⟩ := ih hcs hp
      exact ⟨ns'', rfl, hp'⟩
    | fill h hp =>
      rw [if_pos hflag] at h
      exact absurd h hne
    | clone p a hflag' _ hp => exact absurd hflag hflag'

theorem exists_left_of_mem {α β : Type} {R : α → β → Prop} {xs : List α} {ys : List β}
    (h : List.Forall₂ R xs ys) {y : β} (hy : y ∈ ys) : ∃ x ∈ xs, R x y := by
  induction h with
  | nil => simp at hy
  | @cons x y' xs ys hxy _ ih =>
    rcases List.mem_cons.mp hy with rfl | hy
    · exact ⟨x, by simp, hxy⟩
    · obtain ⟨x', hx', hr⟩ := ih hy
      exact ⟨x', by simp [hx'], hr⟩

theorem clones_skipped {calls : List PortCall} (hne : ∀ c ∈ calls, c.socktype ≠ socktype)
    (hclones : List.Forall₂ (IsClone orig) calls clones) :
    ∀ c ∈ clones, c.ai.aiFlags &&& AI_CLONE = 0 ∧ c.ai.aiSocktype ≠ socktype := by
  intro n hn
  obtain ⟨c, hc, p, a, rfl⟩ := exists_left_of_mem hclones hn
  exact ⟨by simp [filled, cloneOf], hne c hc⟩

theorem BlockInv.pass (ho : Cloneable orig) (hne : ∀ c ∈ done, c.socktype ≠ 0 ∧ c.socktype ≠ socktype)
    (hb : BlockInv done orig block) (hp : PortPass port socktype (block ++ ns) ns' k) :
    ∃ block' ns'' k', ns' = block' ++ ns'' ∧ k = k' + 1 ∧ PortPass port socktype ns ns'' k' ∧
      BlockInv (done ++ [⟨port, socktype⟩]) orig block' := by
  have hflag : AI_CLONE &&& AI_CLONE ≠ 0 := by decide
  obtain ⟨clones, rfl, hclones⟩ := hb
  have htail : ∀ c ∈ done.tail.reverse, c.socktype ≠ socktype := fun c hc =>
    (hne c (List.mem_of_mem_tail (List.mem_reverse.mp hc))).2
  have hskip := clones_skipped htail hclones
  cases done with
  | nil =>
    obtain rfl : clones = [] := by simpa using hclones
    rw [List.cons_append, List.nil_append] at hp
    cases hp with
    | skip hflag' _ _ => exact absurd (ho.flags ▸ hflag') hflag
    | clone p a _ hne' _ => exact absurd ho.socktype hne'
    | fill h hp => exact ⟨[_], _, _, rfl, rfl, hp, [], rfl, .nil⟩
  | cons c done =>
    rw [List.cons_append] at hp
    cases hp with
    | skip hflag' _ _ => exact absurd (ho.flags ▸ hflag') hflag
    | fill h _ =>
      rw [if_neg (show (firstOf (c :: done) orig).ai.aiFlags &&& AI_CLONE ≠ 0 from ho.flags ▸ hflag)] at h
      exact absurd h (hne c (by simp)).1
    | clone p a _ _ hp =>
      obtain ⟨ns'', rfl, hp'⟩ := hp.skip_append hskip
      refine ⟨_ :: _ :: clones, ns'', _, rfl, rfl, hp', _, rfl, ?_⟩
      rw [List.cons_append, List.tail_cons, List.reverse_append]
      refine .cons ⟨p, a, ?_⟩ hclones
      exact filled_cloneOf_filled _ _ _ _

/-- One pass over the whole list fills in one entry for each original node. -/
theorem PortPass.blocks {origs : List Node} {blocks : List (List Node)}
    (ho : ∀ o ∈ origs, Cloneable o) (hne : ∀ c ∈ done, c.socktype ≠ 0 ∧ c.socktype ≠ socktype)
    (hb : List.Forall₂ (BlockInv done) origs blocks)
    (hp : PortPass port socktype blocks.flatten ns' k) :
    ∃ blocks', ns' = blocks'.flatten ∧ k = origs.length ∧
      List.Forall₂ (BlockInv (done ++ [⟨port, socktype⟩])) origs blocks' := by
  induction hb generalizing ns' k with
  | nil =>
    cases hp
    exact ⟨[], rfl, rfl, .nil⟩
  | @cons o block origs blocks hblock hblocks ih =>
    rw [List.flatten_cons] at hp
    obtain ⟨block', ns'', k', rfl, rfl, hp', hblock'⟩ := hblock.pass (ho o (by simp)) hne hp
    obtain ⟨blocks', rfl, rfl, hblocks'⟩ := ih (fun o' ho' => ho o' (by simp [ho'])) hp'
    exact ⟨block' :: blocks', rfl, rfl, .cons hblock' hblocks'⟩

theorem blocks_inet {origs : List Node} {blocks : List (List Node)} (ho : ∀ o ∈ origs, Cloneable o)
    (hb : List.Forall₂ (BlockInv done) origs blocks) : ∀ n ∈ blocks.flatten, InetNode n := by
  intro n hn
  obtain ⟨block, hblock, hn⟩ := List.mem_flatten.mp hn
  obtain ⟨o, hmem, clones, rfl, hclones⟩ := exists_left_of_mem hb hblock
  have hinet := (ho o hmem).inet
  rcases List.mem_cons.mp hn with rfl | hn
  · cases done with
    | nil => exact hinet
    | cons c done => exact hinet
  · obtain ⟨c, -, p, a, rfl⟩ := exists_left_of_mem hclones hn
    exact ⟨hinet.1, nofun⟩

/-! ### The sequence of calls -/

variable {st : St} {E : Eai → St → Prop} {X : Exit → Prop}

theorem wp_portCalls {origs : List Node} {blocks : List (List Node)} {p : Option ℕ}
    {calls : List PortCall} {Q : List (Option ℕ) → St → Prop} (hnofail : ∀ n, env.allocFails n = false)
    (ho : ∀ o ∈ origs, Cloneable o) (hb : List.Forall₂ (BlockInv done) origs blocks)
    (hl : NodeList st.heap p blocks.flatten) (hzero : ∀ c ∈ done ++ calls, c.socktype ≠ 0)
    (hdist : ((done ++ calls).map PortCall.socktype).Nodup)
    (hQ : ∀ st' blocks', List.Forall₂ (BlockInv (done ++ calls)) origs blocks' →
      NodeList st'.heap p blocks'.flatten →
      Q (List.replicate calls.length (some origs.length)) st') :
    (portCalls env p calls).wp Q E X st := by
  induction calls generalizing done blocks st Q with
  | nil =>
    rw [List.append_nil] at hQ
    exact hQ st blocks hb hl
  | cons c calls ih =>
    have hne : ∀ d ∈ done, d.socktype ≠ 0 ∧ d.socktype ≠ c.socktype := by
      intro d hd
      refine ⟨hzero d (by simp [hd]), fun heq => ?_⟩
      rw [List.map_append, List.nodup_append'] at hdist
      exact hdist.2.2 (List.mem_map.mpr ⟨d, hd, heq⟩) (by simp)
    have hassoc : done ++ c :: calls = done ++ [c] ++ calls := by simp
    rw [portCalls, Prog.wp_bind]
    refine wp_gaPort (blocks_inet ho hb) hl (fun _ _ _ hf => ?_) fun h' k ns' m hp hl' _ => ?_
    · obtain ⟨n, hn⟩ := hf
      simp [hnofail n] at hn
    · obtain ⟨blocks', rfl, rfl, hb'⟩ := hp.blocks ho hne hb
      rw [Prog.wp_bind]
      rw [hassoc] at hzero hdist hQ
      refine ih hb' hl' hzero hdist fun st' blocks'' hb'' hl'' => ?_
      exact hQ st' blocks'' hb'' hl''

theorem wp_addrStructs {hints : Hints} {addrs : List (ℤ × List Byte)} {Q : Unit → St → Prop}
    (hnofail : ∀ n, env.allocFails n = false) (hb : Built st ns) (hc : CanonApart st ns)
    (hfam : ∀ a ∈ addrs, a.1 = AF_INET ∨ a.1 = AF_INET6)
    (hQ : ∀ st' ms, Built st' (ns ++ ms) → CanonApart st' (ns ++ ms) →
      List.Forall₂ (fun a n => IsNew hints a.2 a.1 n) addrs ms → Q () st') :
    (addrStructs env hints addrs).wp Q E X st := by
  induction addrs generalizing st ns with
  | nil =>
    refine hQ st [] ?_ ?_ .nil
    · rwa [List.append_nil]
    · rwa [List.append_nil]
  | cons a addrs ih =>
    have hfam' : a.1 = AF_INET ∨ a.1 = AF_INET6 := hfam a (by simp)
    rw [addrStructs, Prog.wp_bind]
    refine wp_gaAistruct hb (hfam'.imp_right .inl) ?_ ?_
    · intro st' n hb' hnew hkept hrw
      refine ih hb' (hc.rewrites hkept.canon hrw) (fun b hb => hfam b (by simp [hb])) ?_
      intro st'' ms hb'' hc'' hms
      rw [List.append_assoc] at hb'' hc''
      exact hQ st'' (n :: ms) hb'' hc'' (.cons hnew hms)
    · rintro e st' ns' (⟨-, n, hn⟩ | ⟨-, hlocal, -⟩)
      · simp [hnofail n] at hn
      · rcases hfam' with h | h <;> simp [h, AF_INET, AF_INET6, AF_LOCAL] at hlocal

/-! ### The final list -/

/-- The node that `ga_aistruct` made for the address `a`, with or without a canonical name. -/
structure OrigNode (hints : Hints) (a : ℤ × List Byte) (n : Node) : Prop where
  flags : n.ai.aiFlags = AI_CLONE
  family : n.ai.aiFamily = a.1
  socktype : n.ai.aiSocktype = 0
  protocol : n.ai.aiProtocol = hints.aiProtocol
  hasAddr : n.ai.aiAddr ≠ none
  sa : n.sa = some (newSa a.2 a.1)

/-- The nodes for `orig` after the calls `call :: calls`: the original, for the first call, and then a
clone for each of the others. -/
structure CloneBlock (call : PortCall) (calls : List PortCall) (orig : Node) (block : List Node) :
    Prop where
  first : block.head? = some (filled call.port call.socktype orig)
  entries : block.map (fun n => (n.ai.aiSocktype, n.sa)) = (call :: calls.reverse).map fun c =>
    (c.socktype, orig.sa.map fun sa => { sa with saPort := BitVec.ofInt 16 c.port })
  same : ∀ n ∈ block, n.ai.aiFamily = orig.ai.aiFamily ∧ n.ai.aiProtocol = orig.ai.aiProtocol
  clones : ∀ n ∈ block.tail, n.ai.aiFlags = 0 ∧ n.ai.aiCanonname = none

theorem OrigNode.cloneable {hints : Hints} {a : ℤ × List Byte} {n : Node} (ho : OrigNode hints a n)
    (hfam : a.1 = AF_INET ∨ a.1 = AF_INET6) : Cloneable n := by
  refine ⟨⟨?_, ho.hasAddr⟩, ho.flags, ho.socktype⟩
  rw [ho.family]
  exact hfam

theorem IsNew.named_orig {hints : Hints} {a : ℤ × List Byte} {n : Node} (htype : hints.aiSocktype = 0)
    (hn : IsNew hints a.2 a.1 n) (name : Option ℕ) : OrigNode hints a (named name n) := by
  refine ⟨?_, hn.family, ?_, hn.protocol, hn.hasAddr, hn.sa⟩
  · show n.ai.aiFlags = _
    rw [hn.flags, if_pos htype]
  · show n.ai.aiSocktype = _
    rw [hn.socktype, htype]

theorem BlockInv.cloneBlock {call : PortCall} {calls : List PortCall}
    (hb : BlockInv (call :: calls) orig block) : CloneBlock call calls orig block := by
  obtain ⟨clones, rfl, hclones⟩ := hb
  rw [List.tail_cons] at hclones
  have hfirst : firstOf (call :: calls) orig = filled call.port call.socktype orig := rfl
  refine ⟨rfl, ?_, ?_, ?_⟩
  · rw [List.map_cons, List.map_cons, hfirst]
    refine congrArg _ ?_
    generalize calls.reverse = cs at hclones ⊢
    induction hclones with
    | nil => rfl
    | cons hc _ ih =>
      obtain ⟨p, a, rfl⟩ := hc
      rw [List.map_cons, List.map_cons, ih]
      rfl
  · intro n hn
    rcases List.mem_cons.mp hn with rfl | hn
    · exact ⟨rfl, rfl⟩
    · obtain ⟨c, -, p, a, rfl⟩ := exists_left_of_mem hclones hn
      exact ⟨rfl, rfl⟩
  · intro n hn
    obtain ⟨c, -, p, a, rfl⟩ := exists_left_of_mem hclones hn
    exact ⟨rfl, rfl⟩

/-- The list before the service pass: only the first node may have a canonical name. -/
structure Originals (hints : Hints) (addrs : List (ℤ × List Byte)) (st : St) (head : ℕ)
    (origs : List Node) : Prop where
  list : NodeList st.heap (some head) origs
  nodes : List.Forall₂ (OrigNode hints) addrs origs
  canon : ∀ o ∈ origs, o.ai.aiCanonname ≠ none → o.ptr = head

theorem wp_buildList {hints : Hints} {addrs : List (ℤ × List Byte)} {hostname : Option CString}
    {search : List Search} {Q : ℕ → St → Prop} (hnofail : ∀ n, env.allocFails n = false)
    (hhead : st.aihead = none) (hslot : st.aipnext = .head)
    (hcanon : ∀ q, st.canon = some q → ∃ s, st.heap.get q = some (.string s))
    (htype : hints.aiSocktype = 0) (hne : addrs ≠ []) (hfam : ∀ a ∈ addrs, a.1 = AF_INET ∨ a.1 = AF_INET6)
    (hQ : ∀ head st' origs, Originals hints addrs st' head origs → Q head st') :
    (buildList env hostname hints search addrs).wp Q E X st := by
  have hb : Built st [] := ⟨⟨hhead, by simp⟩, hslot⟩
  have hc : CanonApart st [] := fun q hq => ⟨hcanon q hq, by simp⟩
  rw [buildList, Prog.wp_bind]
  refine wp_addrStructs hnofail hb hc hfam fun st' ms hb' hc' hms => ?_
  rw [List.nil_append] at hb' hc'
  rw [Prog.wp_bind, Prog.wp_get]
  cases hms with
  | nil => exact absurd rfl hne
  | @cons a n addrs ns hn hns =>
    have hl := hb'.list
    obtain ⟨hptr, -⟩ := hl.seg
    have hptr : st'.aihead = some n.ptr := hptr
    rw [hptr] at hl ⊢
    dsimp only
    rw [Prog.wp_bind]
    refine wp_setCanon hl hn.canon hc' (fun h' k name _ hl' => hQ _ _ (named name n :: ns) ⟨hl', ?_, ?_⟩) ?_
    · refine .cons (hn.named_orig htype name) (hns.imp fun b m hm => ?_)
      rw [← named_none hm.canon]
      exact hm.named_orig htype none
    · intro o ho hname
      rcases List.mem_cons.mp ho with rfl | ho
      · rfl
      · obtain ⟨b, -, hm⟩ := exists_left_of_mem hns ho
        exact absurd hm.canon hname
    · rintro h' k ⟨n, hn⟩
      simp [hnofail n] at hn

/-- **The `AI_CLONE` algorithm.** For every list that `ga_aistruct` builds with socket type 0 and every
sequence of `ga_port` calls with distinct nonzero socket types, each call returns the number of
addresses, and the list becomes one block of nodes for each address, in order. -/
theorem gaPort_clones (hnofail : ∀ n, env.allocFails n = false) (st : St) (hhead : st.aihead = none)
    (hslot : st.aipnext = .head)
    (hcanon : ∀ q, st.canon = some q → ∃ s, st.heap.get q = some (.string s)) (hints : Hints)
    (htype : hints.aiSocktype = 0) (addrs : List (ℤ × List Byte)) (hne : addrs ≠ [])
    (hfam : ∀ a ∈ addrs, a.1 = AF_INET ∨ a.1 = AF_INET6) (hostname : Option CString)
    (search : List Search) (call : PortCall) (calls : List PortCall)
    (hzero : ∀ c ∈ call :: calls, c.socktype ≠ 0)
    (hdist : ((call :: calls).map PortCall.socktype).Nodup) :
    ∃ head st₁ origs st₂ blocks,
      buildList env hostname hints search addrs st = .ok head st₁ ∧
      NodeList st₁.heap (some head) origs ∧ List.Forall₂ (OrigNode hints) addrs origs ∧
      portCalls env (some head) (call :: calls) st₁ =
        .ok (List.replicate (calls.length + 1) (some addrs.length)) st₂ ∧
      NodeList st₂.heap (some head) blocks.flatten ∧
      List.Forall₂ (CloneBlock call calls) origs blocks ∧
      ∀ n ∈ blocks.flatten, n.ai.aiCanonname ≠ none → n.ptr = head := by
  obtain ⟨head, st₁, hbuild, origs, ho⟩ : ∃ head st₁,
      buildList env hostname hints search addrs st = .ok head st₁ ∧
      ∃ origs, Originals hints addrs st₁ head origs :=
    Prog.exists_ok_of_wp (wp_buildList hnofail hhead hslot hcanon htype hne hfam
      fun head st' origs ho => ⟨origs, ho⟩)
  have hcl : ∀ o ∈ origs, Cloneable o := by
    intro o hmem
    obtain ⟨a, ha, horig⟩ := exists_left_of_mem ho.nodes hmem
    exact horig.cloneable (hfam a ha)
  have hinit : List.Forall₂ (BlockInv []) origs (origs.map fun o => [o]) := by
    rw [List.forall₂_map_right_iff, List.forall₂_same]
    exact fun o _ => ⟨[], rfl, .nil⟩
  have hflat : (origs.map fun o => [o]).flatten = origs := by
    rw [← List.flatMap_def]
    simp
  obtain ⟨rcs, st₂, hcalls, rfl, blocks, hb, hl⟩ : ∃ rcs st₂,
      portCalls env (some head) (call :: calls) st₁ = .ok rcs st₂ ∧
      rcs = List.replicate (calls.length + 1) (some origs.length) ∧
      ∃ blocks, List.Forall₂ (BlockInv (call :: calls)) origs blocks ∧
        NodeList st₂.heap (some head) blocks.flatten :=
    Prog.exists_ok_of_wp (wp_portCalls hnofail hcl hinit (hflat.symm ▸ ho.list) hzero hdist
      fun st' blocks hb hl => ⟨rfl, blocks, hb, hl⟩)
  refine ⟨head, st₁, origs, st₂, blocks, hbuild, ho.list, ho.nodes, ?_, hl, ?_, ?_⟩
  · rw [hcalls, ho.nodes.length_eq]
  · exact hb.imp fun o block hblock => hblock.cloneBlock
  · intro n hn hname
    obtain ⟨block, hblock, hn⟩ := List.mem_flatten.mp hn
    obtain ⟨o, hmem, clones, rfl, hclones⟩ := exists_left_of_mem hb hblock
    rcases List.mem_cons.mp hn with rfl | hn
    · exact ho.canon o hmem hname
    · obtain ⟨c, -, p, a, rfl⟩ := exists_left_of_mem hclones hn
      exact absurd rfl hname

/-- Two addresses, three socket types, and a canonical name in the first node. -/
theorem gaPort_clones_two_three :
    ∃ head st₁ origs st₂ blocks,
      buildList sampleEnv (some (cstr "h")) ⟨AI_CANONNAME, 0, 0, 6⟩ [⟨cstr "h", AF_INET⟩]
        [(AF_INET, [1, 2, 3, 4]), (AF_INET6, List.replicate 16 0)] .start = .ok head st₁ ∧
      NodeList st₁.heap (some head) origs ∧
      List.Forall₂ (OrigNode ⟨AI_CANONNAME, 0, 0, 6⟩)
        [(AF_INET, [1, 2, 3, 4]), (AF_INET6, List.replicate 16 0)] origs ∧
      portCalls sampleEnv (some head) [⟨80, SOCK_STREAM⟩, ⟨69, SOCK_DGRAM⟩, ⟨1, SOCK_RAW⟩] st₁ =
        .ok [some 2, some 2, some 2] st₂ ∧
      NodeList st₂.heap (some head) blocks.flatten ∧
      List.Forall₂ (CloneBlock ⟨80, SOCK_STREAM⟩ [⟨69, SOCK_DGRAM⟩, ⟨1, SOCK_RAW⟩]) origs blocks ∧
      ∀ n ∈ blocks.flatten, n.ai.aiCanonname ≠ none → n.ptr = head :=
  gaPort_clones (fun _ => rfl) .start rfl rfl nofun ⟨AI_CANONNAME, 0, 0, 6⟩ rfl
    [(AF_INET, [1, 2, 3, 4]), (AF_INET6, List.replicate 16 0)] nofun (by decide) (some (cstr "h"))
    [⟨cstr "h", AF_INET⟩] ⟨80, SOCK_STREAM⟩ [⟨69, SOCK_DGRAM⟩, ⟨1, SOCK_RAW⟩] (by decide) (by decide)

end UnixNetProg.Libgai
