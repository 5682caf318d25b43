import UnixNetProg.Libfree.GetAddrInfo

/-!
# The error exits of `libfree`'s `getaddrinfo`

Every `error(e)` jumps to `bad`, where `aihead` is freed. From the loop over the addresses on, `aihead` is
the list of all nodes that the call has built (`Growing`), whichever of the later steps fails. Before it,
`aihead` has no value: the checks of the hints, the choice of the host and the lookup free through an
unassigned pointer. In the Unix domain, a `calloc` that fails makes `addrinfo_local` return 0 without a
result. `getaddrinfo_exits_iff` says that these are the only cases.
-/

namespace UnixNetProg.Libfree

open Lib Libgai

/-! ### The property and its condition -/

/-- `p` is the head of a list of exactly the `addrinfo{}`s that were allocated from `base` on. -/
def ListOfNew (base : ℕ) (h : Heap Block) (p : Option ℕ) : Prop :=
  ∃ ns, NodeList h p ns ∧
    ∀ q, (∃ n ∈ ns, n.ptr = q) ↔ base ≤ q ∧ ∃ ai, h.get q = some (.addrinfo ai)

/-- At `bad`, `aihead` has been assigned to and is the list built so far; 0 is returned only with a
result. -/
def SoundExit (base : ℕ) : Outcome Eai Exit St (Option Eai) → Prop
  | .ok rc st' => rc = none → st'.result ≠ none
  | .error _ st' => st'.assigned = true ∧ ListOfNew base st'.ga.heap st'.ga.aihead
  | .exit _ => True

/-- What the host string stands for, by itself or by the resolver's answer. -/
def lookup (env : Env) (host : CString) (family : ℤ) (ga : Libgai.St) : Except Eai HostEnt :=
  match literalHost env host with
  | some hent => .ok hent
  | none =>
    match env.gethostbyname (ga.nquery + 1) (useInet6 env family ga) host with
    | .error herr => .error (hErrnoEai herr)
    | .ok hptr => .ok ⟨hptr.hName, hptr.hAddrtype, hptr.hAddrList⟩

/-- The host is found, in the family of the hints. -/
def HostFound (env : Env) (host : CString) (hints : Hints) (ga : Libgai.St) : Prop :=
  ∃ hptr, lookup env host hints.aiFamily ga = .ok hptr ∧
    (hints.aiFamily = AF_UNSPEC ∨ hints.aiFamily = hptr.hAddrtype)

/-- The request passes the checks; then the host is found, or the node of a Unix domain request with a
socket type can be allocated. -/
def ListReached (env : Env) (host serv : Option CString) (hints : Hints) (st : St) : Prop :=
  checkHints hints = none ∧ ∃ host' hints', chooseHost env host serv hints = .ok (host', hints') ∧
    if (localPath host' serv).isSome then
      hints'.aiSocktype = 0 ∨ env.allocFails st.ga.nalloc = false
    else HostFound env (host'.getD []) hints' st.ga

variable {env : Env} {st : St} {ga ga' : Libgai.St} {hints : Hints} {host serv : Option CString}
  {base : ℕ} {ns : List Node} {h h' : Heap Block}

theorem wp_lib {α : Type} {m : GaM α} {Q : α → St → Prop} {E : Eai → St → Prop} {X : Exit → Prop} :
    (lib m).wp Q E X st ↔ m.wp (fun a ga => Q a { st with ga := ga }) (fun e ga => E e { st with ga := ga })
      (fun x => X (.lib x)) st.ga := Prog.wp_lift _ _ _ _

/-! ### The list built so far -/

/-- The list at `aihead` has every live block from `base` on, and no other. -/
def OwnList (base : ℕ) (ga : Libgai.St) : Prop :=
  ∃ ns, NodeList ga.heap ga.aihead ns ∧ Covered base ga.heap ns ∧ ∀ q ∈ footprint nodeKind ns, base ≤ q

theorem OwnList.listOfNew (ho : OwnList base ga) : ListOfNew base ga.heap ga.aihead := by
  obtain ⟨ns, hl, hcov, hnew⟩ := ho
  refine ⟨ns, hl, fun q => ⟨?_, ?_⟩⟩
  · intro hq
    obtain ⟨n, hn, rfl⟩ := hq
    obtain ⟨next, hat⟩ := hl.seg.holds_of_mem hn
    refine ⟨hnew _ (List.mem_flatMap.mpr ⟨n, hn, by simp [Node.foot]⟩), _, hat.node⟩
  · intro hq
    obtain ⟨hle, ai, hget⟩ := hq
    obtain ⟨n, hn, hmem⟩ := List.mem_flatMap.mp (hcov q hle (by simp [hget]))
    obtain ⟨next, hat⟩ := hl.seg.holds_of_mem hn
    rw [nodeKind_foot, Node.foot, List.mem_cons, List.mem_append, Option.mem_toList,
      Option.mem_toList] at hmem
    rcases hmem with hq | hq | hq
    · exact ⟨n, hn, hq.symm⟩
    · obtain ⟨sa, -, hsa⟩ := hat.of_addr hq
      exact nomatch hget.symm.trans hsa
    · obtain ⟨s, hs⟩ := hat.canon q hq
      exact nomatch hget.symm.trans hs

/-- The list during the passes over it. -/
def Growing (hints : Hints) (base : ℕ) (ga : Libgai.St) : Prop :=
  ∃ ns, NodeList ga.heap ga.aihead ns ∧ (∀ n ∈ ns, ServNode hints n) ∧ Covered base ga.heap ns ∧
    (∀ q ∈ footprint nodeKind ns, base ≤ q) ∧ base ≤ ga.heap.fresh

theorem Growing.ownList (ga : Libgai.St) (hg : Growing hints base ga) : OwnList base ga := by
  obtain ⟨ns, hl, -, hcov, hnew, -⟩ := hg
  exact ⟨ns, hl, hcov, hnew⟩

theorem rewrites_new {A A' : List ℕ} (hrw : h.Rewrites h' A A') (hnew : ∀ q ∈ A, base ≤ q)
    (hbase : base ≤ h.fresh) : ∀ q ∈ A', base ≤ q := by
  intro q hq
  rcases hrw.new q hq with hq | hle
  · exact hnew q hq
  · exact le_trans hbase hle

theorem wp_setCanonname {hName : CString} (hl : NodeList ga.heap ga.aihead ns)
    (hns : ∀ n ∈ ns, HostNode hints n) (hcov : Covered base ga.heap ns)
    (hnew : ∀ q ∈ footprint nodeKind ns, base ≤ q) (hbase : base ≤ ga.heap.fresh) :
    (setCanonname env hints hName).wp (fun _ => Growing hints base) (fun _ => OwnList base)
      (fun _ => True) ga := by
  rw [setCanonname, Prog.wp_ite]
  refine ⟨fun _ => ?_, fun _ => ?_⟩
  · rw [Prog.wp_bind, Prog.wp_get]
    cases hhead : ga.aihead with
    | none => trivial
    | some head =>
      rw [hhead] at hl
      cases ns with
      | nil => cases hl.seg
      | cons n ns =>
        obtain ⟨hptr, -⟩ := hl.seg
        obtain rfl : head = n.ptr := Option.some.inj hptr
        obtain ⟨addr, fam, -, -, hisnew⟩ := hns n (by simp)
        have hnew' : ∀ name, (∀ q, name = some q → base ≤ q) →
            ∀ q ∈ footprint nodeKind (named name n :: ns), base ≤ q := by
          intro name hname q hq
          exact (mem_footprint_named hq).elim (hnew q) (hname q)
        dsimp only
        rw [Prog.wp_bind]
        refine wp_dupCanon hl hisnew.canon ?_ ?_
        · intro h' _ _ htaken hl'
          have hfresh : ∀ q, some ga.heap.fresh = some q → base ≤ q := fun q hq => Option.some.inj hq ▸ hbase
          refine ⟨_, hhead.symm ▸ hl', servNodes_named hns _, hcov.named hisnew.canon htaken, hnew' _ hfresh, ?_⟩
          have hlt := hl'.seg.lt_fresh ga.heap.fresh (by simp [named, Node.foot])
          exact le_trans hbase (le_of_lt hlt)
        · intro h' _ htaken hl'
          exact ⟨_, hhead.symm ▸ hl', hcov.named hisnew.canon htaken, hnew' none fun q hq => by cases hq⟩
  · refine ⟨ns, hl, fun n hn => ?_, hcov, hnew, hbase⟩
    obtain ⟨addr, fam, -, -, hisnew⟩ := hns n hn
    rw [← named_none hisnew.canon]
    exact (hns n hn).servNode none

theorem servKeeps_growing (aihead : Option ℕ) : ServKeeps env.toEnv hints aihead
    (fun ga => ga.aihead = aihead ∧ Growing hints base ga) (OwnList base) := by
  refine ⟨fun ga hg => hg.2.ownList, fun port socktype ht => ?_⟩
  intro ga hg
  obtain ⟨rfl, ns, hl, hns, hcov, hnew, hbase⟩ := hg
  rw [gaPortOrMemory, Prog.wp_bind]
  refine wp_gaPort (fun n hn => (hns n hn).inet) hl ?_ ?_
  · intro h' k ns' _ hl' hrw
    exact ⟨ns', hl', hcov.rewrites hrw, rewrites_new hrw hnew hbase⟩
  · intro h' k ns' c hp hl' hrw
    refine ⟨rfl, ns', hl', hp.servNode ht hns, hcov.rewrites hrw, rewrites_new hrw hnew hbase, ?_⟩
    exact le_trans hbase hrw.mono

theorem keeps_getaddrinfoServ {aihead : Option ℕ} {I J : Libgai.St → Prop}
    (hk : ServKeeps env.toEnv hints aihead I J) (serv : CString) :
    Prog.Keeps I J (getaddrinfoServ env aihead hints serv) := by
  refine .ite (fun hdigit => ?_) fun _ => ?_
  · have ht : ServType hints hints.aiSocktype := by
      rw [ServType, if_neg hdigit.2]
    refine (hk.port _ _ ht).bind fun rc => ?_
    exact .ite (fun _ => Prog.keeps_throw hk.weaken _) fun _ => Prog.keeps_pure ()
  · refine (keeps_gaServProto hk serv _ (.inl rfl)).bind fun rc => ?_
    refine (keeps_gaServProto hk serv _ (.inr rfl)).bind fun rc' => ?_
    refine .ite (fun _ => .ite (fun _ => ?_) fun _ => ?_) fun _ => Prog.keeps_pure ()
    · exact Prog.keeps_throw hk.weaken _
    · exact Prog.keeps_throw hk.weaken _

theorem wp_processServ (hg : Growing hints base ga) :
    (processServ env hints serv).wp (fun _ _ => True) (fun _ => OwnList base) (fun _ => True) ga := by
  rw [processServ, Prog.wp_ite]
  refine ⟨fun _ => trivial, fun _ => ?_⟩
  rw [Prog.wp_bind, Prog.wp_get]
  refine Prog.wp_mono (keeps_getaddrinfoServ (servKeeps_growing ga.aihead) (serv.getD []) ga ⟨rfl, hg⟩) ?_ ?_ ?_
  · exact fun _ _ _ => trivial
  · exact fun _ _ h => h
  · exact fun _ _ => trivial

/-- **Whatever fails once `aihead` is assigned to**, `aihead` is the list built so far. -/
theorem wp_buildList {hptr : HostEnt} (hhead : ga.aihead = none) (hslot : ga.aipnext = .head)
    (hfam : hptr.hAddrtype = AF_INET ∨ hptr.hAddrtype = AF_INET6)
    (hadm : hints.aiFamily = AF_UNSPEC ∨ hints.aiFamily = hptr.hAddrtype) :
    (buildList env hints serv hptr).wp (fun _ _ => True) (fun _ => OwnList ga.heap.fresh)
      (fun _ => True) ga := by
  have hb : Built ga [] := ⟨⟨hhead, by simp⟩, hslot⟩
  -- all that is live from here on was allocated for the list
  have howned : ∀ {h' : Heap Block} {ns : List Node},
      ga.heap.Rewrites h' (footprint nodeKind []) (footprint nodeKind ns) →
      Covered ga.heap.fresh h' ns ∧ ∀ q ∈ footprint nodeKind ns, ga.heap.fresh ≤ q := by
    intro h' ns hrw
    refine ⟨fun q hq hlive => ?_, fun q hq => ?_⟩
    · refine (hrw.covered q hlive).resolve_right fun h => ?_
      omega
    · exact (hrw.new q hq).resolve_left (by simp)
  rw [buildList, Prog.wp_bind]
  refine wp_addAddrs hb hfam ?_ ?_
  · intro ga₁ ns hb₁ hns _ hrw
    rw [List.nil_append] at hb₁ hrw
    have hhost : ∀ n ∈ ns, HostNode hints n := by
      intro n hn
      obtain ⟨addr, -, hisnew⟩ := exists_left_of_mem hns hn
      exact ⟨addr, hptr.hAddrtype, hfam, hadm, hisnew⟩
    rw [Prog.wp_bind]
    refine Prog.wp_mono (wp_setCanonname hb₁.list hhost (howned hrw).1 (howned hrw).2 hrw.mono) ?_
      (fun _ _ h => h) (fun _ h => h)
    exact fun _ ga₂ hg => wp_processServ hg
  · intro e ga₁ ns _ hb₁ _ hrw
    exact ⟨ns, hb₁.list, (howned hrw).1, (howned hrw).2⟩

/-! ### The lookup -/

/-- The state after the lookup: the resolver is asked unless the host string is an address. -/
def afterLookup (env : Env) (host : CString) (family : ℤ) (st : St) : St :=
  if (literalHost env host).isSome then st
  else { st with ga := { st.ga with
    resInit := true, resUseInet6 := useInet6 env family st.ga, nquery := st.ga.nquery + 1 } }

variable {host' : CString} {family : ℤ}

theorem wp_getaddrinfoHost {Q : HostEnt → St → Prop} {E : Eai → St → Prop} {X : Exit → Prop} :
    (getaddrinfoHost env host' family).wp Q E X st ↔
      match lookup env host' family st.ga with
      | .ok hptr => Q hptr (afterLookup env host' family st)
      | .error e => E e (afterLookup env host' family st) := by
  rw [getaddrinfoHost, lookup, afterLookup]
  cases literalHost env host' with
  | some hent => rfl
  | none =>
    dsimp only
    rw [Prog.wp_bind, resolveHost, Prog.wp_bind, Prog.wp_modify, Prog.wp_bind, Prog.wp_get]
    cases env.gethostbyname (st.ga.nquery + 1) (useInet6 env family st.ga) host' with
    | error herr => rfl
    | ok hptr => rfl

theorem afterLookup_kept (env : Env) (host' : CString) (family : ℤ) (st : St) :
    (afterLookup env host' family st).ga.heap = st.ga.heap ∧
      (afterLookup env host' family st).assigned = st.assigned := by
  unfold afterLookup
  split_ifs <;> exact ⟨rfl, rfl⟩

theorem lookup_addrtype {hptr : HostEnt} (hfound : lookup env host' family ga = .ok hptr) :
    hptr.hAddrtype = AF_INET ∨ hptr.hAddrtype = AF_INET6 := by
  unfold lookup literalHost at hfound
  split at hfound
  · next hent hlit =>
    obtain rfl := Except.ok.inj hfound
    split at hlit
    · obtain rfl := Option.some.inj hlit
      exact .inl rfl
    · obtain ⟨addr, -, rfl⟩ := Option.map_eq_some_iff.mp hlit
      exact .inr rfl
  · split at hfound
    · exact nomatch hfound
    · next answer _ =>
      obtain rfl := Except.ok.inj hfound
      exact answer.addrtype

theorem chooseHost_ne_none {hints' : Hints} (hcheck : checkHints hints = none)
    (hchoose : chooseHost env host serv hints = .ok (none, hints')) : localPath none serv ≠ none := by
  unfold chooseHost at hchoose
  split_ifs at hchoose with hnull hnone hpass h4 h6 hloc hslash hzero hzero
  · cases hchoose
  · cases hchoose
  · -- the family `AF_LOCAL` with a service that is a pathname
    cases serv with
    | none => exact absurd rfl hnone
    | some s =>
      rw [not_not] at hslash
      have hs : firstByte s = 47 := hslash
      simp [localPath, hs]
  · -- no other family passes the check
    rw [checkHints] at hcheck
    split_ifs at hcheck with hflags hun hinet
    · exact absurd hun (by simp [hzero, AF_UNSPEC])
    · exact absurd hinet (by simp [h4, h6])
  · cases hchoose
  · obtain ⟨rfl, -⟩ := Prod.mk.inj (Except.ok.inj hchoose)
    exact absurd rfl hnull
  · obtain ⟨rfl, -⟩ := Prod.mk.inj (Except.ok.inj hchoose)
    exact absurd rfl hnull

/-! ### The whole call -/

theorem wp_getaddrinfoInet_exits (hassigned : st.assigned = false) :
    (getaddrinfoInet env (some host') serv hints).wp
      (fun _ st' => HostFound env host' hints st.ga ∧ st'.result ≠ none)
      (fun _ st' => st'.assigned = true ∧ ListOfNew st.ga.heap.fresh st'.ga.heap st'.ga.aihead ↔
        HostFound env host' hints st.ga)
      (fun _ => HostFound env host' hints st.ga) st := by
  obtain ⟨hheap, hkept⟩ := afterLookup_kept env host' hints.aiFamily st
  have hearly : ¬ (afterLookup env host' hints.aiFamily st).assigned = true := by simp [hkept, hassigned]
  rw [getaddrinfoInet, Prog.wp_bind, wp_getaddrinfoHost, HostFound]
  cases hfound : lookup env host' hints.aiFamily st.ga with
  | error e =>
    exact ⟨fun h => absurd h.1 hearly, fun h => nomatch h⟩
  | ok hptr =>
    dsimp only
    rw [Prog.wp_ite]
    refine ⟨fun hmis => ⟨fun h => absurd h.1 hearly, fun h => ?_⟩, fun hadm => ?_⟩
    · obtain ⟨_, ⟨⟩, hadm⟩ := h
      exact absurd hadm (not_or.mpr hmis)
    · rw [not_and_or, not_not, not_not] at hadm
      have hcond : ∃ hptr', (Except.ok hptr : Except Eai HostEnt) = .ok hptr' ∧
          (hints.aiFamily = AF_UNSPEC ∨ hints.aiFamily = hptr'.hAddrtype) := ⟨hptr, rfl, hadm⟩
      rw [Prog.wp_bind, Prog.wp_modify, Prog.wp_bind, wp_lib]
      refine Prog.wp_mono (wp_buildList rfl rfl (lookup_addrtype hfound) hadm) ?_ ?_ ?_
      · intro _ ga' _
        exact ⟨hcond, nofun⟩
      · intro e ga' hown
        refine ⟨fun _ => hcond, fun _ => ⟨rfl, ?_⟩⟩
        rw [← hheap]
        exact hown.listOfNew
      · exact fun _ _ => hcond

theorem wp_addrinfoLocal_exits {path : CString} (hresult : st.result = none) :
    (addrinfoLocal env path hints).wp
      (fun rc st' => (rc = none → st'.result ≠ none) ↔
        hints.aiSocktype = 0 ∨ env.allocFails st.ga.nalloc = false)
      (fun _ _ => False) (fun _ => False) st := by
  rw [addrinfoLocal, Prog.wp_ite]
  refine ⟨fun hzero => ⟨fun _ => .inl hzero, fun _ h => (by cases h)⟩, fun hne => ?_⟩
  rw [Prog.wp_bind, wp_lib]
  refine wp_alloc_iff.mpr ⟨fun hf => ?_, fun hok => ?_⟩
  · refine ⟨fun h => absurd hresult (h rfl), fun h => ?_⟩
    exact absurd h (by simp [hne, hf])
  · dsimp only
    rw [Prog.wp_bind, wp_lib]
    refine wp_alloc (fun _ => ⟨fun _ => .inr hok, fun _ h => (by cases h)⟩) ?_
    dsimp only
    rw [Prog.wp_bind, wp_lib]
    refine wp_write ?_
    rw [Prog.wp_bind, Prog.wp_modify, Prog.wp_bind, wp_lib, unlinkPassive, Prog.wp_ite]
    exact ⟨fun _ => ⟨fun _ => .inr hok, fun _ _ => Option.some_ne_none _⟩,
      fun _ => ⟨fun _ => .inr hok, fun _ _ => Option.some_ne_none _⟩⟩

theorem wp_getaddrinfoBody_exits (env : Env) (host serv : Option CString) (hintsptr : Option Hints)
    (st : St) :
    (getaddrinfoBody env host serv hintsptr).wp
      (fun rc st' => (rc = none → st'.result ≠ none) ↔ ListReached env host serv (hintsOf hintsptr) st)
      (fun _ st' => st'.assigned = true ∧ ListOfNew st.ga.heap.fresh st'.ga.heap st'.ga.aihead ↔
        ListReached env host serv (hintsOf hintsptr) st)
      (fun _ => ListReached env host serv (hintsOf hintsptr) st) st := by
  rw [getaddrinfoBody, Prog.wp_bind, Prog.wp_modify, ListReached]
  cases hcheck : checkHints (hintsOf hintsptr) with
  | some e => exact ⟨fun h => (nomatch h.1), fun h => nomatch h.1⟩
  | none =>
    dsimp only
    cases hchoose : chooseHost env host serv (hintsOf hintsptr) with
    | error e =>
      refine ⟨fun h => (nomatch h.1), fun h => ?_⟩
      obtain ⟨-, _, _, h, -⟩ := h
      exact nomatch h
    | ok choice =>
      obtain ⟨host', hints'⟩ := choice
      have hcond : ∀ P : Option CString → Hints → Prop, ((none : Option Eai) = none ∧ ∃ host'' hints'',
          (Except.ok (host', hints') : Except Eai _) = .ok (host'', hints'') ∧ P host'' hints'') ↔
          P host' hints' := by
        intro P
        constructor
        · intro h
          obtain ⟨-, _, _, ⟨⟩, h⟩ := h
          exact h
        · exact fun h => ⟨rfl, host', hints', rfl, h⟩
      dsimp only
      rw [hcond]
      cases hpath : localPath host' serv with
      | some path =>
        rw [Option.isSome_some, if_pos rfl]
        exact Prog.wp_mono (wp_addrinfoLocal_exits rfl) (fun _ _ h => h) (fun _ _ h => h.elim)
          (fun _ h => h.elim)
      | none =>
        rw [Option.isSome_none, if_neg Bool.false_ne_true]
        cases host' with
        | none => exact absurd hpath (chooseHost_ne_none hcheck hchoose)
        | some host' =>
          refine Prog.wp_mono (wp_getaddrinfoInet_exits rfl) ?_ (fun _ _ h => h) (fun _ h => h)
          intro rc st' h
          exact ⟨fun _ => h.1, fun _ _ => h.2⟩

/-- **The error exits** meet a list head in a defined state, and 0 is returned only with a result, exactly
when the request reaches the loop over the addresses or, in the Unix domain, has its node. -/
theorem getaddrinfo_exits_iff (env : Env) (host serv : Option CString) (hintsptr : Option Hints) (st : St) :
    SoundExit st.ga.heap.fresh (getaddrinfoBody env host serv hintsptr st) ↔
      ListReached env host serv (hintsOf hintsptr) st := by
  refine (Prog.wp_outcome (P := fun o => SoundExit _ o ↔ ListReached env host serv (hintsOf hintsptr) st)).mp ?_
  refine Prog.wp_mono (wp_getaddrinfoBody_exits env host serv hintsptr st) ?_ ?_ ?_
  · exact fun _ _ h => h
  · exact fun _ _ h => h
  · intro x hreached
    exact ⟨fun _ => hreached, fun _ => trivial⟩

/-- The environment of `libgai`'s samples, without `RES_OPTIONS`. -/
def sampleEnv : Env := { Libgai.sampleEnv with resOptionsInet6 := false, staleNull := false }

/-- With neither host nor service, `EAI_NONAME` frees through the unassigned `aihead`. With a pathname and
no memory, the call returns 0 and leaves `*result` as it was. -/
theorem getaddrinfo_bad_exits :
    ¬ SoundExit 0 (getaddrinfoBody sampleEnv none none none .start) ∧
      getaddrinfo sampleEnv none none none .start = .exit .unassigned ∧
      ¬ SoundExit 0 (getaddrinfoBody { sampleEnv with allocFails := fun _ => true } (some (cstr "/tmp/s")) none
        (some ⟨0, AF_LOCAL, SOCK_STREAM, 0⟩) .start) := by
  refine ⟨fun h => ?_, rfl, fun h => ?_⟩
  · exact nomatch h.1
  · exact h rfl rfl

end UnixNetProg.Libfree
