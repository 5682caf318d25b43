import UnixNetProg.Libgai.GetAddrInfo

/-!
# The list of nodes in the heap

A `Node` is an `addrinfo{}` of the list with its place in the heap and the socket address it owns;
`nodeKind` says which blocks hold it, and `Seg nodeKind` is the list. This file has one `wp` rule for
each operation of the heap, and says what `ga_aistruct` adds to the list that `aihead` and `aipnext`
delimit (`Built`).
-/

namespace UnixNetProg.Libgai

open Lib

structure Node where
  ptr : ℕ
  ai : AiFields
  sa : Option SockAddr

def Node.foot (n : Node) : List ℕ := n.ptr :: (n.ai.aiAddr.toList ++ n.ai.aiCanonname.toList)

/-- The blocks of a node: the `addrinfo{}`, its socket address and its canonical name. -/
structure NodeAt (h : Heap Block) (n : Node) (next : Option ℕ) : Prop where
  node : h.get n.ptr = some (.addrinfo ⟨n.ai, next⟩)
  addr : n.ai.aiAddr.map h.get = n.sa.map fun sa => some (.sockaddr sa)
  canon : ∀ q, n.ai.aiCanonname = some q → ∃ s, h.get q = some (.string s)

theorem NodeAt.of_addr {h : Heap Block} {n : Node} {next : Option ℕ} {a : ℕ}
    (hn : NodeAt h n next) (ha : n.ai.aiAddr = some a) :
    ∃ sa, n.sa = some sa ∧ h.get a = some (.sockaddr sa) := by
  have := hn.addr
  rw [ha] at this
  cases hsa : n.sa with
  | none => simp [hsa] at this
  | some sa => exact ⟨sa, rfl, by simpa [hsa] using this⟩

def nodeKind : CellKind Block Node where
  node := Node.ptr
  foot := Node.foot
  holds := NodeAt
  node_mem n := by simp [Node.foot]
  frame := by
    intro h h' n next hframe hn
    refine ⟨?_, ?_, ?_⟩
    · rw [hframe n.ptr (by simp [Node.foot])]
      exact hn.node
    · rw [← hn.addr]
      cases ha : n.ai.aiAddr with
      | none => rfl
      | some a => simp [hframe a (by simp [Node.foot, ha])]
    · intro q hq
      rw [hframe q (by simp [Node.foot, hq])]
      exact hn.canon q hq
  live := by
    intro h n next p hn hp
    simp only [Node.foot, List.mem_cons, List.mem_append, Option.mem_toList] at hp
    rcases hp with rfl | hp | hp
    · exact Heap.lt_fresh hn.node
    · obtain ⟨sa, -, hget⟩ := hn.of_addr hp
      exact Heap.lt_fresh hget
    · obtain ⟨s, hget⟩ := hn.canon p hp
      exact Heap.lt_fresh hget

/-- The list of nodes at `p`, with no block shared between two of its fields. -/
structure NodeList (h : Heap Block) (p : Option ℕ) (ns : List Node) : Prop where
  seg : Seg nodeKind h p ns none
  nodup : (footprint nodeKind ns).Nodup

theorem NodeList.length_le_fresh {h : Heap Block} {p : Option ℕ} {ns : List Node}
    (hl : NodeList h p ns) : ns.length ≤ h.fresh := hl.seg.length_le_fresh hl.nodup

/-! ### Rules for the heap operations -/

variable {env : Env} {st : St} {α : Type} {E : Eai → St → Prop} {X : Exit → Prop}

theorem wp_alloc_iff {b : Block} {Q : Option ℕ → St → Prop} :
    (alloc env b).wp Q E X st ↔
      (env.allocFails st.nalloc = true → Q none { st with nalloc := st.nalloc + 1 }) ∧
      (env.allocFails st.nalloc = false →
        Q (some st.heap.fresh) { st with nalloc := st.nalloc + 1, heap := st.heap.alloc b }) := by
  unfold alloc
  rw [Prog.wp_bind, Prog.wp_get, Prog.wp_ite, Bool.not_eq_true]
  simp

theorem wp_alloc {b : Block} {Q : Option ℕ → St → Prop}
    (hfail : env.allocFails st.nalloc = true → Q none { st with nalloc := st.nalloc + 1 })
    (hok : Q (some st.heap.fresh)
      { st with nalloc := st.nalloc + 1, heap := st.heap.alloc b }) :
    (alloc env b).wp Q E X st := wp_alloc_iff.mpr ⟨hfail, fun _ => hok⟩

theorem wp_readAi {p : ℕ} {ai : AddrInfo} {Q : AddrInfo → St → Prop}
    (hp : st.heap.get p = some (.addrinfo ai)) (hQ : Q ai st) : (readAi p).wp Q E X st := by
  simpa [readAi, hp] using hQ

theorem wp_readSa {p : Option ℕ} {a : ℕ} {sa : SockAddr} {Q : SockAddr → St → Prop} (hp : p = some a)
    (ha : st.heap.get a = some (.sockaddr sa)) (hQ : Q sa st) : (readSa p).wp Q E X st := by
  simpa [readSa, hp, ha] using hQ

theorem wp_write {p : ℕ} {b : Block} {Q : Unit → St → Prop}
    (hQ : Q () { st with heap := st.heap.set p b }) : (write p b).wp Q E X st := hQ

theorem wp_free {p : ℕ} {b : Block} {Q : Unit → St → Prop} (hp : st.heap.get p = some b)
    (hQ : Q () { st with heap := st.heap.free p }) : (free p).wp Q E X st := by
  simpa [free, hp] using hQ

/-! ### Which allocations succeed -/

variable (env) in
/-- The `k` allocations from the `n`-th on succeed. -/
def AllocsOk (n k : ℕ) : Prop := ∀ i < k, env.allocFails (n + i) = false

theorem allocsOk_add {n j k : ℕ} : AllocsOk env n (j + k) ↔ AllocsOk env n j ∧ AllocsOk env (n + j) k := by
  constructor
  · intro h
    refine ⟨fun i hi => h i (by omega), fun i hi => ?_⟩
    rw [Nat.add_assoc]
    exact h (j + i) (by omega)
  · rintro ⟨hj, hk⟩ i hi
    by_cases hlt : i < j
    · exact hj i hlt
    · have := hk (i - j) (by omega)
      rwa [show n + j + (i - j) = n + i by omega] at this

theorem allocsOk_two {n : ℕ} :
    AllocsOk env n 2 ↔ env.allocFails n = false ∧ env.allocFails (n + 1) = false := by
  constructor
  · intro h
    exact ⟨h 0 (by omega), h 1 (by omega)⟩
  · rintro ⟨h₀, h₁⟩ i hi
    obtain rfl | rfl : i = 0 ∨ i = 1 := by omega
    · exact h₀
    · exact h₁

theorem exists_allocFails {n k : ℕ} (h : ¬ AllocsOk env n k) : ∃ i, env.allocFails i = true := by
  by_contra hall
  push Not at hall
  exact h fun i _ => Bool.eq_false_of_not_eq_true (hall (n + i))

/-! ### Changing one node -/

variable {h h' : Heap Block} {p : Option ℕ} {n n' c : Node} {next next' : Option ℕ}
  {ns ms ms' : List Node}

@[simp] theorem nodeKind_foot (n : Node) : nodeKind.foot n = n.foot := rfl

theorem NodeAt.lt_fresh (hn : NodeAt h n next) : ∀ q ∈ n.foot, q < h.fresh :=
  fun _ hq => nodeKind.live hn hq

theorem NodeAt.frame (hn : NodeAt h n next) (hframe : ∀ q ∈ n.foot, h'.get q = h.get q) :
    NodeAt h' n next := nodeKind.frame hframe hn

theorem NodeAt.write (hn : NodeAt h n next) (hnd : n.foot.Nodup) (hptr : n'.ptr = n.ptr)
    (haddr : n'.ai.aiAddr = n.ai.aiAddr) (hcanon : n'.ai.aiCanonname = n.ai.aiCanonname)
    (hsa : n'.sa = n.sa) : NodeAt (h.set n.ptr (.addrinfo ⟨n'.ai, next'⟩)) n' next' := by
  have hne : ∀ q ∈ n.ai.aiAddr.toList ++ n.ai.aiCanonname.toList, q ≠ n.ptr := by
    rintro q hq rfl
    exact (List.nodup_cons.mp hnd).1 hq
  refine ⟨?_, ?_, ?_⟩
  · rw [hptr, Heap.get_set_self (hn.lt_fresh _ (by simp [Node.foot]))]
  · rw [haddr, hsa, ← hn.addr]
    cases ha : n.ai.aiAddr with
    | none => rfl
    | some a => simp [Heap.get_set_ne (hne a (by simp [ha]))]
  · intro q hq
    rw [hcanon] at hq
    rw [Heap.get_set_ne (hne q (by simp [hq]))]
    exact hn.canon q hq

theorem NodeAt.writeSa {a : ℕ} (hn : NodeAt h n next) (hnd : n.foot.Nodup) (ha : n.ai.aiAddr = some a)
    (sa : SockAddr) : NodeAt (h.set a (.sockaddr sa)) { n with sa := some sa } next := by
  simp only [Node.foot, ha, Option.toList_some, List.singleton_append, List.nodup_cons, List.mem_cons,
    not_or] at hnd
  obtain ⟨⟨hptr, -⟩, hcanon, -⟩ := hnd
  obtain ⟨sa', -, hget⟩ := hn.of_addr ha
  refine ⟨?_, ?_, ?_⟩
  · rw [Heap.get_set_ne hptr]
    exact hn.node
  · simp [ha, Heap.get_set_self (Heap.lt_fresh hget)]
  · intro q hq
    rw [Heap.get_set_ne]
    · exact hn.canon q hq
    · rintro rfl
      exact hcanon (by simpa using hq)

theorem NodeList.replace (hl : NodeList h p (ms ++ n :: ms')) (hptr : n'.ptr = n.ptr)
    (hframe : ∀ q ∈ footprint nodeKind (ms ++ ms'), h'.get q = h.get q)
    (hat : ∀ next, NodeAt h n next → NodeAt h' n' next)
    (hnd : (footprint nodeKind (ms ++ n' :: ms')).Nodup) : NodeList h' p (ms ++ n' :: ms') := by
  simp only [footprint_append, List.mem_append] at hframe
  obtain ⟨q, hms, hq, next, hn, hms'⟩ := Seg.append.mp hl.seg
  refine ⟨Seg.append.mpr ⟨q, hms.frame fun b hb => hframe b (.inl hb), ?_, next, hat next hn, ?_⟩, hnd⟩
  · rw [hq]
    exact congrArg some hptr.symm
  · exact hms'.frame fun b hb => hframe b (.inr hb)

/-! ### Appending at `aipnext` -/

/-- The link at the end of the list. -/
def endSlot (ns : List Node) : Slot := ns.getLast?.elim .head fun n => .next n.ptr

/-- `aihead` and `aipnext` delimit the list `ns`. -/
structure Built (st : St) (ns : List Node) : Prop where
  list : NodeList st.heap st.aihead ns
  slot : st.aipnext = endSlot ns

theorem nodup_footprint_snoc (hns : (footprint nodeKind ns).Nodup) (hn : n.foot.Nodup)
    (hd : n.foot.Disjoint (footprint nodeKind ns)) : (footprint nodeKind (ns ++ [n])).Nodup := by
  simp only [footprint_append, footprint_cons, footprint_nil, List.append_nil, nodeKind_foot]
  exact List.nodup_append'.mpr ⟨hns, hn, fun _ h₁ h₂ => hd h₂ h₁⟩

theorem wp_linkSlot {Q : Unit → St → Prop} (hb : Built st ns) (hn : NodeAt st.heap n none)
    (hnd : n.foot.Nodup) (hd : n.foot.Disjoint (footprint nodeKind ns))
    (hQ : ∀ h' head, h'.fresh = st.heap.fresh →
      (∀ q ∉ footprint nodeKind ns, h'.get q = st.heap.get q) →
      Built { st with heap := h', aihead := head, aipnext := .next n.ptr } (ns ++ [n]) →
      Q () { st with heap := h', aihead := head, aipnext := .next n.ptr }) :
    (linkSlot n.ptr).wp Q E X st := by
  have hnodup := nodup_footprint_snoc hb.list.nodup hnd hd
  have hslot' : Slot.next n.ptr = endSlot (ns ++ [n]) := by simp [endSlot]
  rw [linkSlot, storeSlot, Prog.wp_bind, Prog.wp_bind, Prog.wp_get]
  rcases List.eq_nil_or_concat ns with rfl | ⟨ms, m, rfl⟩
  · rw [show st.aipnext = .head from hb.slot]
    refine hQ st.heap (some n.ptr) rfl (fun _ _ => rfl) ⟨⟨⟨rfl, none, hn, rfl⟩, hnodup⟩, hslot'⟩
  · rw [List.concat_eq_append] at hb hd hnodup hslot' hQ
    rw [show st.aipnext = .next m.ptr by rw [hb.slot]; simp [endSlot]]
    obtain ⟨q, hms, hq, next, hm, hend⟩ := Seg.append.mp hb.list.seg
    obtain rfl : next = none := hend
    have hfoot := hb.list.nodup
    simp only [footprint_append, footprint_cons, footprint_nil, List.append_nil, nodeKind_foot,
      List.nodup_append', List.disjoint_append_right] at hfoot hd
    obtain ⟨hmsNodup, hmNodup, hdisj⟩ := hfoot
    have hmem : m.ptr ∈ m.foot := by simp [Node.foot]
    rw [Prog.wp_bind]
    refine wp_readAi hm.node (wp_write ?_)
    refine hQ _ _ Heap.fresh_set ?_ ⟨⟨?_, hnodup⟩, hslot'⟩
    · intro b hb'
      refine Heap.get_set_ne ?_
      rintro rfl
      exact hb' (by simp [Node.foot])
    · refine Seg.append.mpr ⟨some n.ptr, Seg.append.mpr ⟨q, hms.frame ?_, hq, _, ?_, rfl⟩, rfl, none, ?_, rfl⟩
      · intro b hb'
        refine Heap.get_set_ne ?_
        rintro rfl
        exact hdisj hb' hmem
      · exact hm.write hmNodup rfl rfl rfl rfl
      · refine hn.frame fun b hb' => Heap.get_set_ne ?_
        rintro rfl
        exact hd.2 hb' hmem

theorem NodeList.alloc (hl : NodeList h p ns) (b : Block) : NodeList (h.alloc b) p ns :=
  ⟨hl.seg.frame fun _ hq => Heap.get_alloc_of_lt (hl.seg.lt_fresh _ hq), hl.nodup⟩

theorem NodeList.string_apart (hl : NodeList h p ns) (name : CString) :
    (∃ s, (h.alloc (.string name)).get h.fresh = some (.string s)) ∧ h.fresh ∉ footprint nodeKind ns := by
  refine ⟨⟨name, Heap.get_alloc_fresh⟩, fun hmem => ?_⟩
  exact absurd (hl.seg.lt_fresh _ hmem) (lt_irrefl _)

theorem Built.alloc (hb : Built st ns) (b : Block) (k : ℕ) :
    Built { st with nalloc := k, heap := st.heap.alloc b } ns := ⟨hb.list.alloc b, hb.slot⟩

theorem wp_fillAddr {Q : Unit → St → Prop} {sa : SockAddr} {len : ℕ} (hb : Built st (ns ++ [n]))
    (haddr : n.ai.aiAddr = none) (hcanon : n.ai.aiCanonname = none)
    (hfail : env.allocFails st.nalloc = true → E .memory { st with nalloc := st.nalloc + 1 })
    (hQ : ∀ h', h'.fresh = st.heap.fresh + 1 →
      (∀ q < st.heap.fresh, q ≠ n.ptr → h'.get q = st.heap.get q) →
      Built { st with nalloc := st.nalloc + 1, heap := h' }
        (ns ++ [⟨n.ptr, { n.ai with aiAddr := some st.heap.fresh, aiAddrlen := len }, some sa⟩]) →
      Q () { st with nalloc := st.nalloc + 1, heap := h' }) :
    (fillAddr env n.ptr sa len).wp Q E X st := by
  have hfoot : n.foot = [n.ptr] := by simp [Node.foot, haddr, hcanon]
  have hnodup := hb.list.nodup
  have hlive := hb.list.seg.lt_fresh
  simp only [footprint_append, footprint_cons, footprint_nil, List.append_nil, nodeKind_foot, hfoot,
    List.nodup_append', List.mem_append, List.mem_singleton] at hnodup hlive
  obtain ⟨hnsNodup, -, hdisj⟩ := hnodup
  have hptr : n.ptr < st.heap.fresh := hlive _ (.inr rfl)
  obtain ⟨q, -, -, next, hn, hend⟩ := Seg.append.mp hb.list.seg
  obtain rfl : next = none := hend
  rw [fillAddr, Prog.wp_bind]
  refine wp_alloc hfail ?_
  rw [Prog.wp_bind]
  refine wp_readAi ((Heap.get_alloc_of_lt hptr).trans hn.node) (wp_write (hQ _ (by simp) ?_ ⟨?_, ?_⟩))
  · intro b hlt hne
    rw [Heap.get_set_ne hne, Heap.get_alloc_of_lt hlt]
  · refine NodeList.replace (hb.list.alloc (.sockaddr sa)) rfl ?_ ?_ ?_
    · intro b hmem
      rw [List.append_nil] at hmem
      refine Heap.get_set_ne ?_
      rintro rfl
      exact hdisj hmem (by simp)
    · intro next hnext
      obtain rfl : next = none := by
        have := hnext.node.symm.trans ((Heap.get_alloc_of_lt hptr).trans hn.node)
        simpa using this
      refine ⟨Heap.get_set_self (by rw [Heap.fresh_alloc]; exact Nat.lt_succ_of_lt hptr), ?_, ?_⟩
      · simp [Heap.get_set_ne hptr.ne']
      · intro b hmem
        simp [hcanon] at hmem
    · refine nodup_footprint_snoc hnsNodup ?_ ?_
      · simp [Node.foot, hcanon, hptr.ne]
      · intro b hmem hns
        simp only [Node.foot, hcanon, Option.toList_some, Option.toList_none, List.append_nil,
          List.mem_cons, List.not_mem_nil, or_false] at hmem
        rcases hmem with rfl | rfl
        · exact hdisj hns (by simp)
        · exact absurd (hlive _ (.inl hns)) (lt_irrefl _)
  · rw [hb.slot]
    simp [endSlot]

/-! ### `ga_aistruct` -/

/-- The socket address that `ga_aistruct` makes of the bytes at `addr`. -/
def newSa (addr : List Byte) (family : ℤ) : SockAddr :=
  ⟨family, 0, if family = AF_INET then addr.take 4 else if family = AF_INET6 then addr.take 16 else addr⟩

/-- The size of the socket address structure of a family. -/
def saLen (family : ℤ) : ℕ := if family = AF_INET then 16 else if family = AF_INET6 then 28 else 110

/-- A node as `ga_aistruct` leaves it. -/
structure IsNew (hintsp : Hints) (addr : List Byte) (fam : ℤ) (n : Node) : Prop where
  flags : n.ai.aiFlags = if hintsp.aiSocktype = 0 then AI_CLONE else 0
  family : n.ai.aiFamily = fam
  socktype : n.ai.aiSocktype = hintsp.aiSocktype
  protocol : n.ai.aiProtocol = hintsp.aiProtocol
  canon : n.ai.aiCanonname = none
  addrlen : n.ai.aiAddrlen = saLen fam
  hasAddr : n.ai.aiAddr ≠ none
  sa : n.sa = some (newSa addr fam)

/-- The saved name and the resolver stay as they are. -/
structure Kept (st st' : St) : Prop where
  canon : st'.canon = st.canon
  nquery : st'.nquery = st.nquery
  resInit : st'.resInit = st.resInit
  resUseInet6 : st'.resUseInet6 = st.resUseInet6

theorem Kept.refl (st : St) : Kept st st := ⟨rfl, rfl, rfl, rfl⟩

theorem Kept.trans {st st₁ st₂ : St} (h₁ : Kept st st₁) (h₂ : Kept st₁ st₂) : Kept st st₂ :=
  ⟨h₂.canon.trans h₁.canon, h₂.nquery.trans h₁.nquery, h₂.resInit.trans h₁.resInit,
    h₂.resUseInet6.trans h₁.resUseInet6⟩

/-- The error exits of `ga_aistruct`. -/
def AistructErr (env : Env) (addr : List Byte) (family : ℤ) (e : Eai) : Prop :=
  e = .memory ∧ (∃ k, env.allocFails k = true) ∨
    e = .service ∧ family = AF_LOCAL ∧ SUN_PATH_LEN ≤ addr.length

/-- The node before its socket address. -/
def bareNode (hintsp : Hints) (family : ℤ) (p : ℕ) : Node :=
  ⟨p, (newAi hintsp family).toAiFields, none⟩

theorem rewrites_snoc (hfresh : st.heap.fresh ≤ h'.fresh)
    (hframe : ∀ q < st.heap.fresh, q ∉ footprint nodeKind ns → h'.get q = st.heap.get q)
    (hnew : ∀ q, q ∈ n.foot ↔ st.heap.fresh ≤ q ∧ q < h'.fresh) :
    st.heap.Rewrites h' (footprint nodeKind ns) (footprint nodeKind (ns ++ [n])) := by
  have hmem : ∀ q, q ∈ footprint nodeKind (ns ++ [n]) ↔ q ∈ footprint nodeKind ns ∨ q ∈ n.foot := by
    simp
  refine ⟨hfresh, hframe, fun q hq => ?_, fun q hq => ?_⟩
  · exact ((hmem q).mp hq).imp_right fun hq => ((hnew q).mp hq).1
  · rw [hmem, hnew]
    have hlt := Heap.lt_fresh_of_live hq
    by_cases hns : q ∈ footprint nodeKind ns
    · exact .inl (.inl hns)
    · by_cases hold : q < st.heap.fresh
      · exact .inr ⟨hold, hns⟩
      · exact .inl (.inr ⟨by omega, hlt⟩)

/-- The state `st₁` after `ga_aistruct` has linked its node, before the socket address. -/
structure Linked (st st₁ : St) (ns : List Node) (hintsp : Hints) (family : ℤ) : Prop where
  built : Built st₁ (ns ++ [bareNode hintsp family st.heap.fresh])
  fresh : st₁.heap.fresh = st.heap.fresh + 1
  frame : ∀ q < st.heap.fresh, q ∉ footprint nodeKind ns → st₁.heap.get q = st.heap.get q
  kept : Kept st st₁

theorem Linked.rewrites {st₁ : St} {hintsp : Hints} {family : ℤ} (hl : Linked st st₁ ns hintsp family) :
    st.heap.Rewrites st₁.heap (footprint nodeKind ns)
      (footprint nodeKind (ns ++ [bareNode hintsp family st.heap.fresh])) := by
  refine rewrites_snoc (by rw [hl.fresh]; omega) hl.frame fun q => ?_
  have hfoot : q ∈ (bareNode hintsp family st.heap.fresh).foot ↔ q = st.heap.fresh := by
    simp [bareNode, newAi, Node.foot]
  rw [hfoot, hl.fresh]
  omega

theorem wp_fillNew {Q : Unit → St → Prop} {st₁ : St} {hintsp : Hints} {addr : List Byte} {family : ℤ}
    {len : ℕ} (hl : Linked st st₁ ns hintsp family) (hlen : len = saLen family)
    (hok : ∀ st' n, Built st' (ns ++ [n]) → IsNew hintsp addr family n → Kept st st' →
      st.heap.Rewrites st'.heap (footprint nodeKind ns) (footprint nodeKind (ns ++ [n])) → Q () st')
    (herr : ∀ st' ns', (∃ k, env.allocFails k = true) → Built st' ns' → Kept st st' →
      st.heap.Rewrites st'.heap (footprint nodeKind ns) (footprint nodeKind ns') → E .memory st') :
    (fillAddr env st.heap.fresh (newSa addr family) len).wp Q E X st₁ := by
  refine wp_fillAddr (n := bareNode hintsp family st.heap.fresh) hl.built rfl rfl (fun hf => ?_) ?_
  · exact herr _ _ ⟨_, hf⟩ ⟨hl.built.list, hl.built.slot⟩ (hl.kept.trans ⟨rfl, rfl, rfl, rfl⟩) hl.rewrites
  · intro h' hfresh hframe hb
    refine hok _ _ hb ⟨rfl, rfl, rfl, rfl, rfl, hlen, nofun, rfl⟩
      (hl.kept.trans ⟨rfl, rfl, rfl, rfl⟩) (rewrites_snoc ?_ ?_ ?_)
    · rw [hfresh, hl.fresh]
      omega
    · intro q hq hnot
      rw [hframe q (by rw [hl.fresh]; omega) (show q ≠ st.heap.fresh by omega), hl.frame q hq hnot]
    · intro q
      have hfoot : q ∈ (⟨st.heap.fresh, { (bareNode hintsp family st.heap.fresh).ai with
          aiAddr := some st₁.heap.fresh, aiAddrlen := len }, some (newSa addr family)⟩ : Node).foot ↔
          q = st.heap.fresh ∨ q = st₁.heap.fresh := by
        simp [bareNode, newAi, Node.foot]
      rw [show (bareNode hintsp family st.heap.fresh).ptr = st.heap.fresh from rfl, hfoot, hfresh, hl.fresh]
      omega

/-- **`ga_aistruct`** appends one node to the list and touches nothing else; when an allocation fails,
or a Unix domain path is too long, the list is still well formed. -/
theorem wp_gaAistruct {Q : Unit → St → Prop} {hintsp : Hints} {addr : List Byte} {family : ℤ}
    (hb : Built st ns) (hfam : family = AF_INET ∨ family = AF_INET6 ∨ family = AF_LOCAL)
    (hok : ∀ st' n, Built st' (ns ++ [n]) → IsNew hintsp addr family n → Kept st st' →
      st.heap.Rewrites st'.heap (footprint nodeKind ns) (footprint nodeKind (ns ++ [n])) → Q () st')
    (herr : ∀ e st' ns', AistructErr env addr family e → Built st' ns' → Kept st st' →
      st.heap.Rewrites st'.heap (footprint nodeKind ns) (footprint nodeKind ns') → E e st') :
    (gaAistruct env hintsp addr family).wp Q E X st := by
  have hmem : ∀ st' ns', (∃ k, env.allocFails k = true) → Built st' ns' → Kept st st' →
      st.heap.Rewrites st'.heap (footprint nodeKind ns) (footprint nodeKind ns') → E .memory st' :=
    fun st' ns' hf => herr _ st' ns' (.inl ⟨rfl, hf⟩)
  rw [gaAistruct, Prog.wp_bind]
  refine wp_alloc (fun hf => hmem _ ns ⟨_, hf⟩ ⟨hb.list, hb.slot⟩ ⟨rfl, rfl, rfl, rfl⟩ (.refl _)) ?_
  have hnode : NodeAt (st.heap.alloc (.addrinfo (newAi hintsp family)))
      (bareNode hintsp family st.heap.fresh) none := ⟨Heap.get_alloc_fresh, rfl, nofun⟩
  have hd : (bareNode hintsp family st.heap.fresh).foot.Disjoint (footprint nodeKind ns) := by
    intro q hq hns
    have hlt := hb.list.seg.lt_fresh q hns
    have : q = st.heap.fresh := by simpa [bareNode, newAi, Node.foot] using hq
    omega
  rw [Prog.wp_bind]
  refine wp_linkSlot (hb.alloc _ _) hnode (by simp [bareNode, newAi, Node.foot]) hd ?_
  intro h₁ head hfresh hframe hb₁
  have hl : Linked st { st with
      nalloc := st.nalloc + 1, heap := h₁, aihead := head, aipnext := .next st.heap.fresh }
      ns hintsp family := by
    refine ⟨hb₁, by simpa using hfresh, fun q hq hnot => ?_, rfl, rfl, rfl, rfl⟩
    rw [hframe q hnot, Heap.get_alloc_of_lt hq]
  rcases hfam with rfl | rfl | rfl
  · exact wp_fillNew hl rfl hok hmem
  · exact wp_fillNew hl rfl hok hmem
  · show Prog.wp (if SUN_PATH_LEN ≤ addr.length then _ else _) Q E X _
    split_ifs with hlen
    · exact herr _ _ _ (.inr ⟨rfl, rfl, hlen⟩) hb₁ hl.kept hl.rewrites
    · rw [Prog.wp_bind]
      refine wp_fillNew hl rfl (fun st' n hb' hnew hkept hrw => ?_) hmem
      rw [unlinkPassive, Prog.wp_ite]
      refine ⟨fun _ => ?_, fun _ => hok _ n hb' hnew hkept hrw⟩
      exact hok _ n ⟨hb'.list, hb'.slot⟩ hnew (hkept.trans ⟨rfl, rfl, rfl, rfl⟩) hrw

theorem wp_addAddrs {Q : Unit → St → Prop} {hintsp : Hints} {addrs : List (List Byte)} {family : ℤ}
    (hb : Built st ns) (hfam : family = AF_INET ∨ family = AF_INET6)
    (hok : ∀ st' ms, Built st' (ns ++ ms) →
      List.Forall₂ (fun addr n => IsNew hintsp addr family n) addrs ms → Kept st st' →
      st.heap.Rewrites st'.heap (footprint nodeKind ns) (footprint nodeKind (ns ++ ms)) → Q () st')
    (herr : ∀ e st' ns', (∃ k, env.allocFails k = true) → Built st' ns' → Kept st st' →
      st.heap.Rewrites st'.heap (footprint nodeKind ns) (footprint nodeKind ns') → E e st') :
    (addAddrs env hintsp family addrs).wp Q E X st := by
  induction addrs generalizing st ns with
  | nil =>
    refine hok st [] ?_ .nil (.refl st) ?_
    · rwa [List.append_nil]
    · rw [List.append_nil]
      exact .refl _
  | cons addr addrs ih =>
    rw [addAddrs, Prog.wp_bind]
    refine wp_gaAistruct hb (hfam.imp_right .inl) ?_ ?_
    · intro st₁ n hb₁ hnew hkept₁ hrw₁
      refine ih hb₁ ?_ ?_
      · intro st₂ ms hb₂ hms hkept₂ hrw₂
        rw [List.append_assoc] at hb₂ hrw₂
        exact hok st₂ (n :: ms) hb₂ (.cons hnew hms) (hkept₁.trans hkept₂) (hrw₁.trans hrw₂)
      · intro e st₂ ns' hf hb₂ hkept₂ hrw₂
        exact herr e st₂ ns' hf hb₂ (hkept₁.trans hkept₂) (hrw₁.trans hrw₂)
    · intro e st₁ ns' hcause hb₁ hkept₁ hrw₁
      have hlocal : family ≠ AF_LOCAL := by
        rcases hfam with rfl | rfl
        · decide
        · decide
      rcases hcause with ⟨-, hf⟩ | ⟨-, h, -⟩
      · exact herr e st₁ ns' hf hb₁ hkept₁ hrw₁
      · exact absurd h hlocal

end UnixNetProg.Libgai
