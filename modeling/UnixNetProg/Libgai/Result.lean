import UnixNetProg.Libgai.Clone

/-!
# What `getaddrinfo` returns

The service pass keeps the nodes in agreement with the hints (`keeps_gaServ`), the error label can
always free its list (`wp_freeaddrinfo`), and `wp_getaddrinfo` puts these together. Two defects show:
`ga_echeck` admits the family `AF_LOCAL` for every host, but `ga_nsearch` has no entry for it and ends
the process; and it checks the socket type against the family of the hints only, so nothing is checked
for `AF_UNSPEC`.
-/

namespace UnixNetProg.Libgai

open Lib

variable {env : Env} {st : St} {hints : Hints} {ns ns' : List Node} {n : Node} {p : Option ℕ}
  {E : Eai → St → Prop} {X : Exit → Prop}

/-! ### `freeaddrinfo` -/

theorem wp_freeOpt {q : Option ℕ} {Q : Unit → St → Prop}
    (hlive : ∀ a, q = some a → ∃ b, st.heap.get a = some b)
    (hQ : ∀ h', h'.fresh = st.heap.fresh → (∀ b ∉ q.toList, h'.get b = st.heap.get b) →
      (∀ b ∈ q.toList, h'.get b = none) → Q () { st with heap := h' }) :
    Prog.wp (q.elim (pure ()) free) Q E X st := by
  cases q with
  | none => exact hQ st.heap rfl (fun _ _ => rfl) (by simp)
  | some a =>
    obtain ⟨b, hb⟩ := hlive a rfl
    refine wp_free hb (hQ _ (by simp) (fun c hc => Heap.get_free_ne ?_) fun c hc => ?_)
    · simpa using hc
    · rw [Option.toList_some, List.mem_singleton] at hc
      rw [hc]
      exact Heap.get_free_self

theorem wp_freeNode {next : Option ℕ} {k : GaM Unit} {Q : Unit → St → Prop} (hat : NodeAt st.heap n next)
    (hnd : n.foot.Nodup)
    (hk : ∀ h', h'.fresh = st.heap.fresh → (∀ b ∉ n.foot, h'.get b = st.heap.get b) →
      (∀ b ∈ n.foot, h'.get b = none) → k.wp Q E X { st with heap := h' }) :
    Prog.wp (do
      n.ai.aiAddr.elim (pure ()) free
      n.ai.aiCanonname.elim (pure ()) free
      free n.ptr
      k : GaM Unit) Q E X st := by
  rw [Node.foot, List.nodup_cons, List.mem_append, not_or, List.nodup_append'] at hnd
  obtain ⟨⟨hptra, hptrc⟩, -, -, hd⟩ := hnd
  rw [Prog.wp_bind]
  refine wp_freeOpt (fun a ha => ?_) fun h₁ hf₁ hframe₁ hdead₁ => ?_
  · obtain ⟨sa, -, hget⟩ := hat.of_addr ha
    exact ⟨_, hget⟩
  rw [Prog.wp_bind]
  refine wp_freeOpt (fun q hq => ?_) fun h₂ hf₂ hframe₂ hdead₂ => ?_
  · obtain ⟨s, hget⟩ := hat.canon q hq
    refine ⟨_, (hframe₁ q fun hmem => hd hmem ?_).trans hget⟩
    rw [hq, Option.toList_some, List.mem_singleton]
  rw [Prog.wp_bind]
  refine wp_free ((hframe₂ _ hptrc).trans ((hframe₁ _ hptra).trans hat.node)) (hk _ ?_ ?_ ?_)
  · rw [Heap.fresh_free, hf₂, hf₁]
  · intro b hb
    rw [Node.foot, List.mem_cons, List.mem_append, not_or, not_or] at hb
    rw [Heap.get_free_ne hb.1, hframe₂ b hb.2.2, hframe₁ b hb.2.1]
  · intro b hb
    by_cases hbptr : b = n.ptr
    · rw [hbptr]
      exact Heap.get_free_self
    · rw [Heap.get_free_ne hbptr]
      by_cases hbc : b ∈ n.ai.aiCanonname.toList
      · exact hdead₂ b hbc
      · rw [hframe₂ b hbc]
        refine hdead₁ b ?_
        rw [Node.foot, List.mem_cons, List.mem_append] at hb
        tauto

theorem wp_freeLoop {fuel : ℕ} {Q : Unit → St → Prop} (hl : NodeList st.heap p ns)
    (hfuel : ns.length ≤ fuel)
    (hQ : ∀ h', (∀ b ∉ footprint nodeKind ns, h'.get b = st.heap.get b) →
      (∀ b ∈ footprint nodeKind ns, h'.get b = none) → Q () { st with heap := h' }) :
    (freeLoop fuel p).wp Q E X st := by
  induction ns generalizing st p fuel with
  | nil =>
    obtain rfl : p = none := hl.seg
    rw [freeLoop]
    exact hQ st.heap (fun _ _ => rfl) (by simp)
  | cons n ns ih =>
    obtain ⟨rfl, next, hat, hns⟩ := hl.seg
    obtain ⟨fuel, rfl⟩ : ∃ f, fuel = f + 1 := ⟨fuel - 1, by simp at hfuel; omega⟩
    have hnd := hl.nodup
    rw [footprint_cons, nodeKind_foot, List.nodup_append'] at hnd
    obtain ⟨hndn, hndns, hd⟩ := hnd
    rw [freeLoop, Prog.wp_bind]
    refine wp_readAi hat.node (wp_freeNode hat hndn fun h₁ hf₁ hframe₁ hdead₁ => ?_)
    have hns₁ : Seg nodeKind h₁ next ns none := hns.frame fun b hb => hframe₁ b fun hn => hd hn hb
    refine ih ⟨hns₁, hndns⟩ (by simpa using hfuel) fun h₂ hframe₂ hdead₂ => hQ h₂ ?_ ?_
    · intro b hb
      rw [footprint_cons, nodeKind_foot, List.mem_append, not_or] at hb
      rw [hframe₂ b hb.2]
      exact hframe₁ b hb.1
    · intro b hb
      rw [footprint_cons, nodeKind_foot, List.mem_append] at hb
      by_cases hbns : b ∈ footprint nodeKind ns
      · exact hdead₂ b hbns
      · rw [hframe₂ b hbns]
        exact hdead₁ b (hb.resolve_right hbns)

/-- **`freeaddrinfo`** ends, and frees exactly the blocks of its list. -/
theorem wp_freeaddrinfo {Q : Unit → St → Prop} (hl : NodeList st.heap p ns)
    (hQ : ∀ h', (∀ b ∉ footprint nodeKind ns, h'.get b = st.heap.get b) →
      (∀ b ∈ footprint nodeKind ns, h'.get b = none) → Q () { st with heap := h' }) :
    (freeaddrinfo p).wp Q E X st := by
  rw [freeaddrinfo, Prog.wp_bind, Prog.wp_get]
  exact wp_freeLoop hl hl.length_le_fresh hQ

/-! ### The service pass -/

/-- The node agrees with the hints; a node of the host search that no service was looked up for has
socket type 0 if the hints have. -/
structure ResultNode (hints : Hints) (n : Node) : Prop where
  family : hints.aiFamily = AF_UNSPEC ∨ n.ai.aiFamily = hints.aiFamily
  socktype : n.ai.aiSocktype = hints.aiSocktype ∨
    hints.aiSocktype = 0 ∧ (n.ai.aiSocktype = SOCK_STREAM ∨ n.ai.aiSocktype = SOCK_DGRAM)
  protocol : n.ai.aiProtocol = hints.aiProtocol

/-- A node of the list during the service pass: it is cloned only if the hints leave the socket type
open. -/
structure ServNode (hints : Hints) (n : Node) : Prop where
  inet : InetNode n
  result : ResultNode hints n
  flags : hints.aiSocktype = 0 ∨ n.ai.aiFlags &&& AI_CLONE = 0

/-- The socket types `ga_serv` passes to `ga_port`. -/
def ServType (hints : Hints) (socktype : ℤ) : Prop :=
  if hints.aiSocktype = 0 then socktype = SOCK_STREAM ∨ socktype = SOCK_DGRAM
  else socktype = hints.aiSocktype

theorem HostNode.servNode (hn : HostNode hints n) (name : Option ℕ) : ServNode hints (named name n) := by
  obtain ⟨addr, fam, hfam, hadm, hnew⟩ := hn
  have hfamily : (named name n).ai.aiFamily = fam := hnew.family
  refine ⟨⟨?_, hnew.hasAddr⟩, ⟨?_, .inl hnew.socktype, hnew.protocol⟩, ?_⟩
  · rw [hfamily]
    exact hfam
  · rw [hfamily]
    exact hadm.imp_right Eq.symm
  · by_cases hzero : hints.aiSocktype = 0
    · exact .inl hzero
    · refine .inr ?_
      show n.ai.aiFlags &&& AI_CLONE = 0
      rw [hnew.flags, if_neg hzero]
      decide

theorem servNodes_named (hns : ∀ m ∈ n :: ns, HostNode hints m) (name : Option ℕ) :
    ∀ m ∈ named name n :: ns, ServNode hints m := by
  rw [List.forall_mem_cons] at hns ⊢
  refine ⟨hns.1.servNode name, fun m hm => ?_⟩
  obtain ⟨_, _, _, _, hnew⟩ := hns.2 m hm
  rw [← named_none hnew.canon]
  exact (hns.2 m hm).servNode none

theorem ServNode.filled {port socktype : ℤ} (ht : ServType hints socktype) (hn : ServNode hints n) :
    ServNode hints (filled port socktype n) := by
  refine ⟨hn.inet, ⟨hn.result.family, ?_, hn.result.protocol⟩, hn.flags⟩
  rw [ServType] at ht
  split_ifs at ht with hzero
  · exact .inr ⟨hzero, ht⟩
  · exact .inl ht

theorem ServNode.cloneOf {q a : ℕ} (hn : ServNode hints n) : ServNode hints (cloneOf n q a) := by
  refine ⟨⟨hn.inet.1, nofun⟩, ⟨hn.result.family, hn.result.socktype, hn.result.protocol⟩, .inr ?_⟩
  simp [Libgai.cloneOf]

theorem PortPass.servNode {port socktype : ℤ} {k : ℕ} (ht : ServType hints socktype)
    (hp : PortPass port socktype ns ns' k) (hns : ∀ n ∈ ns, ServNode hints n) :
    ∀ n ∈ ns', ServNode hints n :=
  hp.forall_mem (fun _ hn => hn.filled ht) (fun _ _ _ hn => hn.cloneOf) hns

/-- The state in the service pass. -/
def Serving (hints : Hints) (head : ℕ) (st : St) : Prop :=
  st.aihead = some head ∧ ∃ ns, NodeList st.heap (some head) ns ∧ ∀ n ∈ ns, ServNode hints n

variable {head : ℕ}

theorem Serving.freeable (st : St) (hs : Serving hints head st) : Freeable st := by
  obtain ⟨hhead, ns, hl, -⟩ := hs
  exact ⟨ns, hhead.symm ▸ hl⟩

theorem keeps_gaPortOrMemory {socktype : ℤ} (port : ℤ) (ht : ServType hints socktype) :
    Prog.Keeps (Serving hints head) Freeable (gaPortOrMemory env (some head) port socktype) := by
  rintro st ⟨hhead, ns, hl, hns⟩
  rw [gaPortOrMemory, Prog.wp_bind]
  refine wp_gaPort (fun n hn => (hns n hn).inet) hl ?_ ?_
  · intro h' k ns' _ hl' _
    exact ⟨ns', hhead.symm ▸ hl'⟩
  · intro h' k ns' c hp hl' _
    exact ⟨hhead, ns', hl', hp.servNode ht hns⟩

/-- The service pass makes its calls of `ga_port` with the invariant `I`, and its errors leave `J`. -/
structure ServKeeps (env : Env) (hints : Hints) (aihead : Option ℕ) (I J : St → Prop) : Prop where
  weaken : ∀ st, I st → J st
  port : ∀ port socktype, ServType hints socktype →
    Prog.Keeps I J (gaPortOrMemory env aihead port socktype)

theorem servKeeps_serving : ServKeeps env hints (some head) (Serving hints head) Freeable :=
  ⟨Serving.freeable, fun port _ => keeps_gaPortOrMemory port⟩

section ServKeeps

variable {aihead : Option ℕ} {I J : St → Prop}

theorem keeps_gaServProto {socktype : ℤ} (hk : ServKeeps env hints aihead I J) (serv proto : CString)
    (htype : socktype = SOCK_STREAM ∨ socktype = SOCK_DGRAM) :
    Prog.Keeps I J (gaServProto env aihead hints serv proto socktype) := by
  refine .ite (fun hadm => ?_) fun _ => Prog.keeps_pure 0
  cases env.getservbyname serv proto with
  | none => exact Prog.keeps_pure 0
  | some sPort =>
    refine hk.port sPort socktype ?_
    rw [ServType]
    split_ifs with hzero
    · exact htype
    · exact (hadm.resolve_left hzero).symm

theorem keeps_gaServFound (hk : ServKeeps env hints aihead I J) (serv : CString) :
    Prog.Keeps I J (gaServFound env aihead hints serv) := by
  refine .ite (fun _ => .ite (fun hne => ?_) fun hzero => ?_) fun _ => ?_
  · refine hk.port _ _ ?_
    rw [ServType, if_neg hne]
  · rw [not_not] at hzero
    have hstream : ServType hints SOCK_STREAM := by
      rw [ServType, if_pos hzero]
      exact .inl rfl
    have hdgram : ServType hints SOCK_DGRAM := by
      rw [ServType, if_pos hzero]
      exact .inr rfl
    refine (hk.port _ _ hstream).bind fun _ => ?_
    exact (hk.port _ _ hdgram).bind fun _ => Prog.keeps_pure _
  · refine (keeps_gaServProto hk serv _ (.inl rfl)).bind fun _ => ?_
    exact (keeps_gaServProto hk serv _ (.inr rfl)).bind fun _ => Prog.keeps_pure _

/-- **`ga_serv`** keeps what `ga_port` keeps; for `Serving`, every node in agreement with the hints. -/
theorem keeps_gaServ (hk : ServKeeps env hints aihead I J) (serv : CString) :
    Prog.Keeps I J (gaServ env aihead hints serv) := by
  refine (keeps_gaServFound hk serv).bind fun _ => .ite (fun _ => .ite (fun _ => ?_) fun _ => ?_) fun _ => ?_
  · exact Prog.keeps_throw hk.weaken _
  · exact Prog.keeps_throw hk.weaken _
  · exact Prog.keeps_pure ()

theorem keeps_processServ (hk : ServKeeps env hints (some head) I J) (servname : Option CString) :
    Prog.Keeps I J (processServ env head hints servname) :=
  .ite (fun _ => Prog.keeps_pure ()) fun _ => keeps_gaServ hk _

end ServKeeps

/-! ### The Internet families -/

theorem searchEntries_length {host6 host4 : CString} {family : ℤ}
    (hfam : family = AF_INET ∨ family = AF_INET6 ∨ family = AF_UNSPEC) :
    (searchEntries family host6 host4).length = 1 ∨ (searchEntries family host6 host4).length = 2 := by
  rcases hfam with rfl | rfl | rfl
  · exact .inl rfl
  · exact .inl rfl
  · exact .inr rfl

/-- `ga_nsearch` fills in one or two entries for the families it knows, all of them for the host if
there is one. -/
theorem gaNsearch_eq_pure (hostname : Option CString)
    (hfam : hints.aiFamily = AF_INET ∨ hints.aiFamily = AF_INET6 ∨ hints.aiFamily = AF_UNSPEC) :
    ∃ search, gaNsearch hostname hints = pure search ∧ (search.length = 1 ∨ search.length = 2) ∧
      (isNullOrEmpty hostname = false →
        search = searchEntries hints.aiFamily (hostname.getD []) (hostname.getD [])) := by
  have hfill : ∀ search : List Search, search.length = 1 ∨ search.length = 2 →
      (if search.length < 1 ∨ 2 < search.length then Prog.exit (.errQuit search.length)
        else pure search : GaM (List Search)) = pure search :=
    fun search h => if_neg (by omega)
  unfold gaNsearch
  split_ifs with hnull
  · exact ⟨_, hfill _ (searchEntries_length hfam), searchEntries_length hfam, by simp [hnull]⟩
  · exact ⟨_, hfill _ (searchEntries_length hfam), searchEntries_length hfam, by simp [hnull]⟩
  · exact ⟨_, hfill _ (searchEntries_length hfam), searchEntries_length hfam, fun _ => rfl⟩

theorem gaNsearch_eq_exit (hostname : Option CString) (hfam : hints.aiFamily = AF_LOCAL) :
    gaNsearch hostname hints = Prog.exit (.errQuit 0) := by
  unfold gaNsearch
  rw [hfam]
  split_ifs <;> rfl

theorem wp_getaddrinfoInet {hostname servname : Option CString} (hs : Searching hints st)
    (hfam : hints.aiFamily = AF_INET ∨ hints.aiFamily = AF_INET6 ∨ hints.aiFamily = AF_UNSPEC) :
    (getaddrinfoInet env hostname servname hints).wp (fun head => Serving hints head)
      (fun _ => Freeable) (fun _ => False) st := by
  obtain ⟨search, hsearch, -⟩ := gaNsearch_eq_pure hostname hfam
  rw [getaddrinfoInet, hsearch, Prog.wp_bind, Prog.wp_pure, Prog.wp_bind]
  refine Prog.wp_mono (keeps_searchLoop (searchKeeps_searching hostname) search.length search st hs) ?_ (fun _ _ h => h)
    (fun _ h => h)
  intro _ st' hs'
  rw [Prog.wp_bind, Prog.wp_get]
  cases hhead : st'.aihead with
  | none => exact hs'.freeable
  | some head =>
    obtain ⟨ns, hinv⟩ := hs'
    have hl := hinv.built.list
    rw [hhead] at hl
    cases ns with
    | nil => exact nomatch hl.seg
    | cons n ns =>
      obtain ⟨hptr, -⟩ := hl.seg
      obtain rfl : head = n.ptr := Option.some.inj hptr
      obtain ⟨addr, fam, -, -, hnew⟩ := hinv.nodes n (by simp)
      dsimp only
      rw [Prog.wp_bind]
      refine wp_setCanon hl hnew.canon hinv.canon (fun h' k name _ hl' => ?_) fun h' k _ _ _ hl' => ?_
      · have hserv : Serving hints n.ptr { st' with heap := h', nalloc := k } :=
          ⟨hhead, _, hl', servNodes_named hinv.nodes name⟩
        rw [Prog.wp_bind]
        exact Prog.wp_mono (keeps_processServ servKeeps_serving servname _ hserv) (fun _ _ h => h) (fun _ _ h => h)
          (fun _ h => h)
      · exact ⟨_, hhead.symm ▸ hl'⟩

/-! ### The Unix domain -/

/-- A node of `ga_unix`. -/
structure UnixNode (hints : Hints) (n : Node) : Prop where
  local_ : n.ai.aiFamily = AF_LOCAL
  result : ResultNode hints n

theorem IsNew.unixNode {addr : List Byte} {socktype : ℤ}
    (hfam : hints.aiFamily = AF_UNSPEC ∨ hints.aiFamily = AF_LOCAL)
    (htype : socktype = hints.aiSocktype ∨
      hints.aiSocktype = 0 ∧ (socktype = SOCK_STREAM ∨ socktype = SOCK_DGRAM))
    (hn : IsNew { hints with aiSocktype := socktype } addr AF_LOCAL n) (name : Option ℕ) :
    UnixNode hints (named name n) := by
  have hsock : n.ai.aiSocktype = socktype := hn.socktype
  refine ⟨hn.family, ?_, ?_, hn.protocol⟩
  · refine hfam.imp_right fun h => ?_
    rw [h]
    exact hn.family
  · show n.ai.aiSocktype = _ ∨ _ ∧ (n.ai.aiSocktype = _ ∨ n.ai.aiSocktype = _)
    rw [hsock]
    exact htype

/-- The nodes of `ga_unix` before the canonical name: whatever name the first gets, they agree with
the hints. -/
def UnixNodes (hints : Hints) (ns : List Node) : Prop :=
  ns ≠ [] ∧ ∀ n ∈ ns, n.ai.aiCanonname = none ∧ ∀ name, UnixNode hints (named name n)

theorem wp_gaUnixNodes {path : CString} {Q : Unit → St → Prop} (hb : Built st [])
    (hfam : hints.aiFamily = AF_UNSPEC ∨ hints.aiFamily = AF_LOCAL)
    (hQ : ∀ st' ns, Built st' ns → UnixNodes hints ns →
      st.heap.Rewrites st'.heap [] (footprint nodeKind ns) → Q () st') (herr : ∀ e st', E e st') :
    (gaUnixNodes env path hints).wp Q E X st := by
  rw [gaUnixNodes, Prog.wp_ite]
  refine ⟨fun hzero => ?_, fun _ => ?_⟩
  · rw [Prog.wp_bind]
    refine wp_gaAistruct hb (.inr (.inr rfl)) (fun st₁ n hb₁ hn _ hrw₁ => ?_) fun _ _ _ _ _ _ _ => herr _ _
    refine wp_gaAistruct hb₁ (.inr (.inr rfl)) (fun st₂ m hb₂ hm _ hrw₂ => ?_) fun _ _ _ _ _ _ _ => herr _ _
    refine hQ st₂ _ hb₂ ⟨nofun, ?_⟩ (hrw₁.trans hrw₂)
    simp only [List.nil_append, List.cons_append, List.forall_mem_cons, List.not_mem_nil, false_implies,
      implies_true, and_true]
    exact ⟨⟨hn.canon, hn.unixNode hfam (.inr ⟨hzero, .inl rfl⟩)⟩,
      hm.canon, hm.unixNode hfam (.inr ⟨hzero, .inr rfl⟩)⟩
  · refine wp_gaAistruct hb (.inr (.inr rfl)) (fun st₁ n hb₁ hn _ hrw => ?_) fun _ _ _ _ _ _ _ => herr _ _
    refine hQ st₁ _ hb₁ ⟨nofun, ?_⟩ hrw
    simp only [List.nil_append, List.forall_mem_cons, List.not_mem_nil, false_implies, implies_true,
      and_true]
    exact ⟨hn.canon, hn.unixNode hfam (.inl rfl)⟩

/-- The list that `ga_unix` returns. -/
def UnixList (hints : Hints) (head : ℕ) (st : St) : Prop :=
  ∃ ns, NodeList st.heap (some head) ns ∧ ∀ n ∈ ns, UnixNode hints n

theorem wp_gaUnix {path : CString} (hb : Built st []) :
    (gaUnix env path hints).wp (fun head => UnixList hints head) (fun _ _ => True) (fun _ => False) st := by
  rw [gaUnix, Prog.wp_ite]
  refine ⟨fun _ => trivial, fun hfam => ?_⟩
  rw [not_and_or, not_not, not_not] at hfam
  rw [Prog.wp_bind]
  refine wp_gaUnixNodes hb hfam (fun st' ns hb' hns _ => ?_) fun _ _ => trivial
  rw [Prog.wp_bind, Prog.wp_get]
  obtain ⟨hne, hnodes⟩ := hns
  have hl := hb'.list
  cases ns with
  | nil => exact absurd rfl hne
  | cons n ns =>
    obtain ⟨hhead, -⟩ := hl.seg
    rw [List.forall_mem_cons] at hnodes
    obtain ⟨⟨hnone, hn⟩, hrest⟩ := hnodes
    have hlist : ∀ h' name, NodeList h' (some n.ptr) (named name n :: ns) →
        UnixList hints n.ptr { st' with heap := h' } := by
      intro h' name hl'
      refine ⟨_, hl', ?_⟩
      rw [List.forall_mem_cons]
      refine ⟨hn name, fun m hm => ?_⟩
      rw [← named_none (hrest m hm).1]
      exact (hrest m hm).2 none
    have hhead : st'.aihead = some n.ptr := hhead
    rw [hhead] at hl ⊢
    dsimp only
    rw [Prog.wp_bind, gaUnixCanon, Prog.wp_ite]
    refine ⟨fun _ => ?_, fun _ => hlist st'.heap none ((named_none hnone).symm ▸ hl)⟩
    cases env.uname with
    | none => trivial
    | some nodename =>
      rw [Prog.wp_bind]
      exact wp_dupCanon hl hnone (fun h' _ _ _ hl' => hlist h' _ hl') fun _ _ _ _ => trivial

/-! ### The whole call -/

/-- The pairs of family and socket type that `ga_echeck` lets pass. -/
def Accepted (family socktype : ℤ) : Prop :=
  family = AF_UNSPEC ∨
  (family = AF_INET ∨ family = AF_INET6) ∧
    (socktype = 0 ∨ socktype = SOCK_STREAM ∨ socktype = SOCK_DGRAM ∨ socktype = SOCK_RAW) ∨
  family = AF_LOCAL ∧ (socktype = 0 ∨ socktype = SOCK_STREAM ∨ socktype = SOCK_DGRAM)

variable {hostname servname : Option CString}

theorem gaEcheck_eq_none_iff {flags : BitVec 32} {family socktype protocol : ℤ} :
    gaEcheck hostname servname flags family socktype protocol = none ↔
      flags &&& ~~~(AI_PASSIVE ||| AI_CANONNAME) = 0 ∧
      ¬ (isNullOrEmpty hostname ∧ isNullOrEmpty servname) ∧ Accepted family socktype := by
  have hne : AF_INET ≠ AF_LOCAL ∧ AF_INET6 ≠ AF_LOCAL := by decide
  have hun : AF_INET ≠ AF_UNSPEC ∧ AF_INET6 ≠ AF_UNSPEC ∧ AF_LOCAL ≠ AF_UNSPEC := by decide
  unfold gaEcheck Accepted
  split_ifs with hflags hnames hunspec hinet htype hlocal htype
  all_goals simp_all
  all_goals grind

/-- `ga_echeck` lets the request pass. -/
def Checked (hostname servname : Option CString) (hints : Hints) : Prop :=
  gaEcheck hostname servname hints.aiFlags hints.aiFamily hints.aiSocktype hints.aiProtocol = none

/-- A request for the Unix domain that `ga_echeck` lets pass and that is not the special case. -/
def LocalOutsideUnix (hostname servname : Option CString) (hints : Hints) : Prop :=
  hints.aiFamily = AF_LOCAL ∧ isUnixCase hostname servname = false ∧ Checked hostname servname hints

/-- What `getaddrinfo` returns, by the case it took. -/
def Result (hostname servname : Option CString) (hints : Hints) (head : ℕ) (st : St) : Prop :=
  ∃ ns, NodeList st.heap (some head) ns ∧ ∀ n ∈ ns, ResultNode hints n ∧
    if isUnixCase hostname servname then n.ai.aiFamily = AF_LOCAL
    else n.ai.aiFamily = AF_INET ∨ n.ai.aiFamily = AF_INET6

theorem searched_family (hcheck : Checked hostname servname hints)
    (hunix : isUnixCase hostname servname = false) (hlocal : ¬ LocalOutsideUnix hostname servname hints) :
    hints.aiFamily = AF_INET ∨ hints.aiFamily = AF_INET6 ∨ hints.aiFamily = AF_UNSPEC := by
  obtain ⟨-, -, hacc⟩ := gaEcheck_eq_none_iff.mp hcheck
  rcases hacc with h | ⟨h, -⟩ | ⟨h, -⟩
  · exact .inr (.inr h)
  · exact h.imp_right .inl
  · exact absurd ⟨h, hunix, hcheck⟩ hlocal

theorem wp_getaddrinfo_quits {hintsp : Option Hints} (env : Env) (st : St)
    (hlocal : LocalOutsideUnix hostname servname (hintsOf hintsp)) :
    (getaddrinfo env hostname servname hintsp).wp (fun _ _ => False) (fun _ _ => False)
      (fun x => x = .errQuit 0) st := by
  obtain ⟨hfam, hunix, hcheck⟩ := hlocal
  rw [Checked] at hcheck
  rw [getaddrinfo, Prog.wp_bind, Prog.wp_modify]
  dsimp only
  rw [hcheck]
  dsimp only
  rw [hunix, if_neg Bool.false_ne_true, Prog.wp_onError, getaddrinfoInet, Prog.wp_bind,
    gaNsearch_eq_exit hostname hfam, Prog.wp_exit]

theorem wp_getaddrinfo {hintsp : Option Hints} (env : Env) (st : St)
    (hlocal : ¬ LocalOutsideUnix hostname servname (hintsOf hintsp)) :
    (getaddrinfo env hostname servname hintsp).wp
      (fun head st' => Checked hostname servname (hintsOf hintsp) ∧
        Result hostname servname (hintsOf hintsp) head st')
      (fun _ _ => True) (fun _ => False) st := by
  have hb : Built { st with aihead := none, aipnext := .head, canon := none } [] :=
    ⟨⟨rfl, by simp⟩, rfl⟩
  rw [getaddrinfo, Prog.wp_bind, Prog.wp_modify]
  dsimp only
  cases hcheck : gaEcheck hostname servname (hintsOf hintsp).aiFlags (hintsOf hintsp).aiFamily
    (hintsOf hintsp).aiSocktype (hintsOf hintsp).aiProtocol with
  | some e => trivial
  | none =>
    dsimp only
    rw [Prog.wp_ite]
    refine ⟨fun hunix => ?_, fun hunix => ?_⟩
    · refine Prog.wp_mono (wp_gaUnix hb) ?_ (fun _ _ h => h) (fun _ h => h)
      rintro head st' ⟨ns, hl, hns⟩
      refine ⟨hcheck, ns, hl, fun n hn => ⟨(hns n hn).result, ?_⟩⟩
      rw [if_pos hunix]
      exact (hns n hn).local_
    · rw [Bool.not_eq_true] at hunix
      have hfam := searched_family hcheck hunix hlocal
      have hs : Searching (hintsOf hintsp) { st with aihead := none, aipnext := .head, canon := none } :=
        ⟨[], hb, by simp, nofun⟩
      rw [Prog.wp_onError]
      refine Prog.wp_mono (wp_getaddrinfoInet hs hfam) ?_ ?_ (fun _ h => h)
      · rintro head st' ⟨-, ns, hl, hns⟩
        refine ⟨hcheck, ns, hl, fun n hn => ⟨(hns n hn).result, ?_⟩⟩
        rw [hunix, if_neg Bool.false_ne_true]
        exact (hns n hn).inet.1
      · rintro e st' ⟨ns, hl⟩
        rw [Prog.wp_bind, Prog.wp_get]
        exact wp_freeaddrinfo hl fun _ _ _ => trivial

/-- The call has returned 0 or an `EAI_xxx` code. -/
def Returns : Outcome Eai Exit St ℕ → Prop
  | .ok _ _ => True
  | .error _ _ => True
  | .exit _ => False

/-- **`getaddrinfo` returns to its caller**, and `ga_nsearch` fills in one or two entries when it is
reached, exactly when the hints do not ask for the Unix domain outside the special case for it. -/
theorem getaddrinfo_returns_iff (env : Env) (hostname servname : Option CString) (hintsp : Option Hints)
    (st : St) :
    (Returns (getaddrinfo env hostname servname hintsp st) ↔
      ¬ LocalOutsideUnix hostname servname (hintsOf hintsp)) ∧
    ((Checked hostname servname (hintsOf hintsp) → isUnixCase hostname servname = false →
        ∃ search, gaNsearch hostname (hintsOf hintsp) st = .ok search st ∧
          (search.length = 1 ∨ search.length = 2)) ↔
      ¬ LocalOutsideUnix hostname servname (hintsOf hintsp)) := by
  refine ⟨⟨?_, ?_⟩, ⟨?_, ?_⟩⟩
  · intro hret hlocal
    have hends : ¬ Returns (getaddrinfo env hostname servname hintsp st) := by
      refine (Prog.wp_outcome (P := fun o => ¬ Returns o)).mp ?_
      refine Prog.wp_mono (wp_getaddrinfo_quits env st hlocal) ?_ ?_ ?_
      · exact fun _ _ h => h.elim
      · exact fun _ _ h => h.elim
      · exact fun _ _ h => h
    exact hends hret
  · intro hlocal
    refine (Prog.wp_outcome (P := Returns)).mp ?_
    refine Prog.wp_mono (wp_getaddrinfo env st hlocal) ?_ ?_ ?_
    · exact fun _ _ _ => trivial
    · exact fun _ _ _ => trivial
    · exact fun _ h => h
  · rintro hsearch ⟨hfam, hunix, hcheck⟩
    obtain ⟨search, hrun, -⟩ := hsearch hcheck hunix
    rw [gaNsearch_eq_exit hostname hfam] at hrun
    exact nomatch hrun
  · intro hlocal hcheck hunix
    obtain ⟨search, hsearch, hlen, -⟩ := gaNsearch_eq_pure hostname (searched_family hcheck hunix hlocal)
    rw [hsearch]
    exact ⟨search, rfl, hlen⟩

/-- A host that is not `/local` or `/unix`, asked for in the Unix domain, ends the process. -/
theorem getaddrinfo_local_quits :
    Checked (some (cstr "1.2.3.4")) none ⟨0, AF_LOCAL, 0, 0⟩ ∧
      isUnixCase (some (cstr "1.2.3.4")) none = false ∧
      gaNsearch (some (cstr "1.2.3.4")) ⟨0, AF_LOCAL, 0, 0⟩ .start = .exit (.errQuit 0) ∧
      ¬ Returns (getaddrinfo sampleEnv (some (cstr "1.2.3.4")) none (some ⟨0, AF_LOCAL, 0, 0⟩) .start) :=
  ⟨rfl, rfl, rfl, id⟩

/-! ### Agreement with the request -/

/-- The node agrees with the request, and its family and socket type are a pair that `ga_echeck`
accepts. -/
structure Agrees (hostname servname : Option CString) (hints : Hints) (n : Node) : Prop where
  family : hints.aiFamily ≠ AF_UNSPEC → n.ai.aiFamily = hints.aiFamily
  socktype : hints.aiSocktype ≠ 0 → n.ai.aiSocktype = hints.aiSocktype
  protocol : n.ai.aiProtocol = hints.aiProtocol
  accepted : gaEcheck hostname servname hints.aiFlags n.ai.aiFamily n.ai.aiSocktype
    n.ai.aiProtocol = none

/-- The socket type of the hints is one that the families of the result have. -/
def SocktypeFits (hostname servname : Option CString) (hints : Hints) : Prop :=
  hints.aiSocktype = 0 ∨ hints.aiSocktype = SOCK_STREAM ∨ hints.aiSocktype = SOCK_DGRAM ∨
    hints.aiSocktype = SOCK_RAW ∧ isUnixCase hostname servname = false

/-- A node of the result is accepted exactly when the socket type fits: it has the socket type of the
hints unless that is 0. -/
theorem ResultNode.accepted_iff (hn : ResultNode hints n)
    (hfam : if isUnixCase hostname servname then n.ai.aiFamily = AF_LOCAL
      else n.ai.aiFamily = AF_INET ∨ n.ai.aiFamily = AF_INET6) :
    Accepted n.ai.aiFamily n.ai.aiSocktype ↔ SocktypeFits hostname servname hints := by
  have hun : AF_INET ≠ AF_UNSPEC ∧ AF_INET6 ≠ AF_UNSPEC ∧ AF_LOCAL ≠ AF_UNSPEC := by decide
  have hloc : AF_INET ≠ AF_LOCAL ∧ AF_INET6 ≠ AF_LOCAL := by decide
  have hraw : SOCK_RAW ≠ 0 ∧ SOCK_RAW ≠ SOCK_STREAM ∧ SOCK_RAW ≠ SOCK_DGRAM := by decide
  have htype := hn.socktype
  unfold Accepted SocktypeFits
  split_ifs at hfam with hunix
  · grind
  · grind

theorem ResultNode.agrees_iff (hcheck : Checked hostname servname hints) (hn : ResultNode hints n)
    (hfam : if isUnixCase hostname servname then n.ai.aiFamily = AF_LOCAL
      else n.ai.aiFamily = AF_INET ∨ n.ai.aiFamily = AF_INET6) :
    Agrees hostname servname hints n ↔ SocktypeFits hostname servname hints := by
  obtain ⟨hflags, hnames, -⟩ := gaEcheck_eq_none_iff.mp hcheck
  rw [← hn.accepted_iff hfam]
  constructor
  · intro hagree
    obtain ⟨-, -, hacc⟩ := gaEcheck_eq_none_iff.mp hagree.accepted
    exact hacc
  · intro hacc
    refine ⟨fun hne => hn.family.resolve_left hne, fun hne => ?_, hn.protocol, ?_⟩
    · exact hn.socktype.resolve_right fun h => hne h.1
    · exact gaEcheck_eq_none_iff.mpr ⟨hflags, hnames, hacc⟩

/-- **The result agrees with the request** exactly when the socket type of the hints fits. -/
theorem getaddrinfo_agrees_iff (env : Env) (hostname servname : Option CString) (hintsp : Option Hints)
    (st : St) {head : ℕ} {st' : St} (hret : getaddrinfo env hostname servname hintsp st = .ok head st') :
    ∃ ns, NodeList st'.heap (some head) ns ∧ ns ≠ [] ∧
      ((∀ n ∈ ns, Agrees hostname servname (hintsOf hintsp) n) ↔
        SocktypeFits hostname servname (hintsOf hintsp)) := by
  have hlocal : ¬ LocalOutsideUnix hostname servname (hintsOf hintsp) := by
    intro hlocal
    have hwp := wp_getaddrinfo_quits env st hlocal
    rw [Prog.wp, hret] at hwp
    exact hwp
  have hwp := wp_getaddrinfo env st hlocal
  rw [Prog.wp, hret] at hwp
  obtain ⟨hcheck, ns, hl, hns⟩ := hwp
  cases ns with
  | nil => exact nomatch hl.seg
  | cons n ns =>
    refine ⟨n :: ns, hl, nofun, fun hall => ?_, fun hfits m hm => ?_⟩
    · obtain ⟨hres, hfam⟩ := hns n (by simp)
      exact (hres.agrees_iff hcheck hfam).mp (hall n (by simp))
    · obtain ⟨hres, hfam⟩ := hns m hm
      exact (hres.agrees_iff hcheck hfam).mpr hfits

/-- An IPv4 literal for a stream socket. -/
theorem getaddrinfo_agrees_stream : ∃ head st',
    getaddrinfo sampleEnv (some (cstr "1.2.3.4")) none (some ⟨0, AF_UNSPEC, SOCK_STREAM, 0⟩) .start =
      .ok head st' ∧
    ∃ ns, NodeList st'.heap (some head) ns ∧ ns ≠ [] ∧
      ((∀ n ∈ ns, Agrees (some (cstr "1.2.3.4")) none ⟨0, AF_UNSPEC, SOCK_STREAM, 0⟩ n) ↔
        SocktypeFits (some (cstr "1.2.3.4")) none ⟨0, AF_UNSPEC, SOCK_STREAM, 0⟩) :=
  ⟨_, _, rfl, getaddrinfo_agrees_iff sampleEnv (some (cstr "1.2.3.4")) none
    (some ⟨0, AF_UNSPEC, SOCK_STREAM, 0⟩) .start rfl⟩

/-- With `SOCK_SEQPACKET` (5) in the hints and no family, the result is an IPv4 node of that type. -/
theorem getaddrinfo_seqpacket : ∃ head st' n,
    getaddrinfo sampleEnv (some (cstr "1.2.3.4")) none (some ⟨0, AF_UNSPEC, 5, 0⟩) .start =
      .ok head st' ∧
    NodeList st'.heap (some head) [n] ∧ n.ai.aiFamily = AF_INET ∧ n.ai.aiSocktype = 5 ∧
    gaEcheck (some (cstr "1.2.3.4")) none 0 n.ai.aiFamily n.ai.aiSocktype n.ai.aiProtocol =
      some .sockType ∧
    ¬ Agrees (some (cstr "1.2.3.4")) none ⟨0, AF_UNSPEC, 5, 0⟩ n := by
  refine ⟨_, _, ⟨0, ⟨0, AF_INET, 5, 0, 16, none, some 1⟩, some ⟨AF_INET, 0, [1, 2, 3, 4]⟩⟩, rfl,
    ⟨⟨rfl, none, ⟨rfl, rfl, nofun⟩, rfl⟩, by decide⟩, rfl, rfl, rfl, fun h => ?_⟩
  exact nomatch h.accepted

end UnixNetProg.Libgai
