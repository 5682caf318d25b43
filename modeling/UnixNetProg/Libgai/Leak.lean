import UnixNetProg.Libgai.Result

/-!
# What `getaddrinfo` leaves allocated

A call is clean if a nonzero return has freed every block the call allocated, and a zero return leaves
the live ones in the list at `*result`. Two parts of the code are not. `ga_unix` returns without freeing
its nodes, whatever goes wrong after the first allocation. And the name that the host search saves in
`canon` is no part of the list until the search is over, so it is lost when a node cannot be allocated
afterwards, or when no answer had an address. `getaddrinfo_clean_iff` says that there is nothing else.

The proof has two halves. `Ledger` accounts for the blocks: in the search every live new block is in the
list, or it is the saved name. `Counted` accounts for the allocations: which of them have been made
after a number of answers, and hence which of them stopped the search.
-/

namespace UnixNetProg.Libgai

open Lib

/-! ### The property -/

/-- Every live block from `base` on belongs to the list. -/
def Covered (base : ℕ) (h : Heap Block) (ns : List Node) : Prop :=
  ∀ q, base ≤ q → h.get q ≠ none → q ∈ footprint nodeKind ns

/-- The caller's `*result` after the call: `*result = aihead` stands only before `return(0)`. -/
def resultAfter (result : Option ℕ) : Outcome Eai Exit St ℕ → Option ℕ
  | .ok head _ => some head
  | .error _ _ => result
  | .exit _ => result

/-- A call from `st` has failed cleanly or returned all that it allocated; `err_quit` does not return. -/
def Clean (st : St) (result : Option ℕ) (o : Outcome Eai Exit St ℕ) : Prop :=
  match o with
  | .ok _ st' => ∃ ns, NodeList st'.heap (resultAfter result o) ns ∧ Covered st.heap.fresh st'.heap ns
  | .error _ st' => resultAfter result o = result ∧ ∀ q, st.heap.fresh ≤ q → st'.heap.get q = none
  | .exit _ => True

/-! ### The condition -/

section Condition

variable (env : Env)

/-- What `ga_unix` allocates: two blocks a node, and the canonical name. -/
def unixAllocs (hints : Hints) : ℕ :=
  (if hints.aiSocktype = 0 then 4 else 2) + if hints.aiFlags &&& AI_CANONNAME ≠ 0 then 1 else 0

/-- `ga_unix` fails before its first node, or not at all. -/
def UnixClean (path : CString) (hints : Hints) (n : ℕ) : Prop :=
  hints.aiFamily ≠ AF_UNSPEC ∧ hints.aiFamily ≠ AF_LOCAL ∨ env.allocFails n = true ∨
    path.length < SUN_PATH_LEN ∧ AllocsOk env n (unixAllocs hints) ∧
      (hints.aiFlags &&& AI_CANONNAME ≠ 0 → env.uname ≠ none)

/-- The answer of the resolver to the `n`-th query. -/
def query (nsearch n : ℕ) (sptr : Search) : Except HErrno Hostent :=
  if nsearch = 2 then env.gethostbyname2 n sptr.host sptr.family
  else env.gethostbyname n (decide (nsearch ≠ 2 ∧ sptr.family = AF_INET6)) sptr.host

/-- The host in the answer, if it has the family of the hints. -/
def answer (hints : Hints) (nsearch n : ℕ) (sptr : Search) : Option Hostent :=
  (query env nsearch n sptr).toOption.filter fun hptr =>
    hints.aiFamily = AF_UNSPEC ∨ hints.aiFamily = hptr.hAddrtype

/-- The hosts that the search for a name finds, if it asks all its queries; `nquery` have been asked
before. -/
def hostAnswers (host : CString) (hints : Hints) (nquery : ℕ) : List Hostent :=
  if hints.aiFamily = AF_UNSPEC then
    (answer env hints 2 (nquery + 1) ⟨host, AF_INET6⟩).toList ++
      (answer env hints 2 (nquery + 2) ⟨host, AF_INET⟩).toList
  else (answer env hints 1 (nquery + 1) ⟨host, hints.aiFamily⟩).toList

/-- The addresses in the answers. -/
def addrsOf (hs : List Hostent) : List (List Byte) := hs.flatMap Hostent.hAddrList

/-- The saved name is not allocated, or the search goes on to build a list for it. -/
def NameKept (hs : List Hostent) (n : ℕ) : Prop :=
  hs ≠ [] → env.allocFails n = true ∨
    addrsOf hs ≠ [] ∧ AllocsOk env (n + 1) (2 * (addrsOf hs).length)

/-- The host is an address, which is not looked up. -/
def isLiteral (host : CString) : Bool := (ipv4Literal env host).isSome || (ipv6Literal env host).isSome

/-- Nothing is lost in the host search: no name is saved, or it is kept. -/
def SearchClean (hostname : Option CString) (hints : Hints) (st : St) : Prop :=
  wantsCanon hostname hints = true → isLiteral env (hostname.getD []) = false →
    NameKept env (hostAnswers env (hostname.getD []) hints st.nquery) st.nalloc

/-- The condition for a clean call, on the request, the allocations and the resolver's answers. -/
def NothingLost (hostname servname : Option CString) (hints : Hints) (st : St) : Prop :=
  Checked hostname servname hints →
    if isUnixCase hostname servname then UnixClean env (servname.getD []) hints st.nalloc
    else SearchClean env hostname hints st

end Condition

variable {env : Env} {st st' : St} {hints : Hints} {ns : List Node} {hostname : Option CString}
  {E : Eai → St → Prop} {X : Exit → Prop}

/-! ### Counting the allocations

These rules say nothing about a crash, which the rules for the list exclude. -/

/-- While the list is empty, `aipnext` is the head. -/
def Slotted (st : St) : Prop := st.aihead = none → st.aipnext = .head

theorem wp_readAi_partial {p : ℕ} {Q : AddrInfo → St → Prop}
    (hQ : ∀ ai, st.heap.get p = some (.addrinfo ai) → Q ai st) :
    (readAi p).wp Q E (fun _ => True) st := by
  rw [readAi, Prog.wp_bind, Prog.wp_get]
  split
  · next ai hget => exact hQ ai hget
  · trivial

theorem wp_linkSlot_counts {p : ℕ} {Q : Unit → St → Prop} (hslot : Slotted st)
    (hQ : ∀ h' head, st.heap.Grows h' → head ≠ none →
      Q () { st with heap := h', aihead := head, aipnext := .next p }) :
    (linkSlot p).wp Q E (fun _ => True) st := by
  rw [linkSlot, storeSlot, Prog.wp_bind, Prog.wp_bind, Prog.wp_get]
  cases hnext : st.aipnext with
  | head => exact hQ st.heap (some p) (fun _ hq => hq) (Option.some_ne_none p)
  | next q =>
    dsimp only
    rw [Prog.wp_bind]
    refine wp_readAi_partial fun ai _ => ?_
    refine hQ _ st.aihead (Heap.grows_set _ _) fun hnone => ?_
    cases (hslot hnone).symm.trans hnext

theorem wp_fillAddr_counts {p : ℕ} {sa : SockAddr} {len : ℕ} {Q : Unit → St → Prop}
    (hfail : env.allocFails st.nalloc = true → E .memory { st with nalloc := st.nalloc + 1 })
    (hQ : ∀ h', env.allocFails st.nalloc = false → st.heap.Grows h' →
      Q () { st with nalloc := st.nalloc + 1, heap := h' }) :
    (fillAddr env p sa len).wp Q E (fun _ => True) st := by
  rw [fillAddr, Prog.wp_bind]
  refine wp_alloc_iff.mpr ⟨hfail, fun hok => ?_⟩
  rw [Prog.wp_bind]
  refine wp_readAi_partial fun ai _ => wp_write (hQ _ hok ?_)
  exact (Heap.grows_alloc _).trans (Heap.grows_set _ _)

/-- What `ga_aistruct` has done when it returns 0. -/
structure AistructOk (env : Env) (st st' : St) : Prop where
  kept : Kept st st'
  allocs : AllocsOk env st.nalloc 2
  nalloc : st'.nalloc = st.nalloc + 2
  head : st'.aihead ≠ none
  grows : st.heap.Grows st'.heap
  node : st'.heap.get st.heap.fresh ≠ none

/-- What it has done when it fails: nothing, or it has linked a node without an address. -/
structure AistructFails (env : Env) (addr : List Byte) (family : ℤ) (st st' : St) : Prop where
  kept : Kept st st'
  grows : st.heap.Grows st'.heap
  cause : env.allocFails st.nalloc = true ∧ st'.heap = st.heap ∨
    env.allocFails st.nalloc = false ∧ st'.heap.get st.heap.fresh ≠ none ∧
      (env.allocFails (st.nalloc + 1) = true ∨ family = AF_LOCAL ∧ SUN_PATH_LEN ≤ addr.length)

theorem wp_gaAistruct_counts {hintsp : Hints} {addr : List Byte} {family : ℤ}
    (hfam : family = AF_INET ∨ family = AF_INET6 ∨ family = AF_LOCAL) (hslot : Slotted st) :
    (gaAistruct env hintsp addr family).wp
      (fun _ st' => AistructOk env st st' ∧ (family = AF_LOCAL → addr.length < SUN_PATH_LEN))
      (fun _ st' => AistructFails env addr family st st') (fun _ => True) st := by
  rw [gaAistruct, Prog.wp_bind]
  refine wp_alloc_iff.mpr ⟨fun hf => ⟨⟨rfl, rfl, rfl, rfl⟩, fun _ hq => hq, .inl ⟨hf, rfl⟩⟩, fun hok => ?_⟩
  dsimp only
  rw [Prog.wp_bind]
  refine wp_linkSlot_counts hslot fun h₁ head hgrows hhead => ?_
  have hnode : h₁.get st.heap.fresh ≠ none := hgrows _ (by simp)
  have hgrows' := (Heap.grows_alloc _).trans hgrows
  have hfill : ∀ sa len, (fillAddr env st.heap.fresh sa len).wp
      (fun _ => AistructOk env st) (fun _ => AistructFails env addr family st) (fun _ => True)
      { st with nalloc := st.nalloc + 1, heap := h₁, aihead := head, aipnext := .next st.heap.fresh } := by
    intro sa len
    refine wp_fillAddr_counts (fun hf => ⟨⟨rfl, rfl, rfl, rfl⟩, hgrows', .inr ⟨hok, hnode, .inl hf⟩⟩) ?_
    intro h₂ hok₂ hgrows₂
    exact ⟨⟨rfl, rfl, rfl, rfl⟩, allocsOk_two.mpr ⟨hok, hok₂⟩, rfl, hhead, hgrows'.trans hgrows₂,
      hgrows₂ _ hnode⟩
  have hinet : AF_INET ≠ AF_LOCAL ∧ AF_INET6 ≠ AF_LOCAL := by decide
  rcases hfam with rfl | rfl | rfl
  · refine Prog.wp_mono (hfill _ _) (fun _ _ h => ⟨h, fun hl => absurd hl hinet.1⟩) (fun _ _ h => h) ?_
    exact fun _ h => h
  · refine Prog.wp_mono (hfill _ _) (fun _ _ h => ⟨h, fun hl => absurd hl hinet.2⟩) (fun _ _ h => h) ?_
    exact fun _ h => h
  · show Prog.wp (if SUN_PATH_LEN ≤ addr.length then _ else _) _ _ _ _
    split_ifs with hlen
    · exact ⟨⟨rfl, rfl, rfl, rfl⟩, hgrows', .inr ⟨hok, hnode, .inr ⟨rfl, hlen⟩⟩⟩
    · rw [Prog.wp_bind]
      refine Prog.wp_mono (hfill _ _) (fun _ st' h => ?_) (fun _ _ h => h) (fun _ h => h)
      rw [unlinkPassive, Prog.wp_ite]
      refine ⟨fun _ => ⟨⟨h.kept.trans ⟨rfl, rfl, rfl, rfl⟩, h.allocs, h.nalloc, h.head, h.grows, h.node⟩, ?_⟩,
        fun _ => ⟨h, ?_⟩⟩
      · exact fun _ => by omega
      · exact fun _ => by omega

theorem AistructFails.cause_of {addr : List Byte} {family : ℤ} (h : AistructFails env addr family st st') :
    env.allocFails st.nalloc = true ∧ st'.heap = st.heap ∨
      env.allocFails st.nalloc = false ∧ st'.heap.get st.heap.fresh ≠ none ∧
        (family = AF_LOCAL ∧ SUN_PATH_LEN ≤ addr.length ∨ ¬ AllocsOk env st.nalloc 2) := by
  refine h.cause.imp_right fun ⟨hok, hnode, hcause⟩ => ⟨hok, hnode, ?_⟩
  rcases hcause with hf | hlong
  · refine .inr fun hall => ?_
    exact absurd (hf.symm.trans (allocsOk_two.mp hall).2) (by decide)
  · exact .inl hlong

theorem AistructFails.not_allocsOk {addr : List Byte} {family : ℤ} (h : AistructFails env addr family st st')
    (hfits : family = AF_LOCAL → addr.length < SUN_PATH_LEN) : ¬ AllocsOk env st.nalloc 2 := by
  rcases h.cause_of with ⟨hf, -⟩ | ⟨-, -, ⟨hlocal, hlong⟩ | hall⟩
  · intro hall
    exact absurd (hf.symm.trans (allocsOk_two.mp hall).1) (by decide)
  · exact absurd (hfits hlocal) (by omega)
  · exact hall

theorem wp_addAddrs_counts {fam : ℤ} {addrs : List (List Byte)} (hfam : fam = AF_INET ∨ fam = AF_INET6)
    (hslot : Slotted st) :
    (addAddrs env hints fam addrs).wp
      (fun _ st' => Kept st st' ∧ AllocsOk env st.nalloc (2 * addrs.length) ∧
        st'.nalloc = st.nalloc + 2 * addrs.length ∧ Slotted st' ∧
        (st'.aihead = none ↔ st.aihead = none ∧ addrs = []))
      (fun _ st' => Kept st st' ∧ ¬ AllocsOk env st.nalloc (2 * addrs.length)) (fun _ => True) st := by
  induction addrs generalizing st with
  | nil => exact ⟨.refl st, nofun, rfl, hslot, by simp⟩
  | cons addr addrs ih =>
    have hlen : 2 * (addr :: addrs).length = 2 + 2 * addrs.length := by
      rw [List.length_cons]
      omega
    rw [addAddrs, Prog.wp_bind, hlen, allocsOk_add]
    refine Prog.wp_mono (wp_gaAistruct_counts (hfam.imp_right .inl) hslot) ?_ ?_ (fun _ h => h)
    · rintro _ st₁ ⟨hok, -⟩
      have hslot₁ : Slotted st₁ := fun h => absurd h hok.head
      rw [← hok.nalloc]
      refine Prog.wp_mono (ih hslot₁) ?_ ?_ (fun _ h => h)
      · rintro _ st₂ ⟨hkept, hallocs, hn, hslot₂, hhead⟩
        refine ⟨hok.kept.trans hkept, ⟨hok.allocs, hallocs⟩, ?_, hslot₂, ?_⟩
        · rw [hn, hok.nalloc]
          omega
        · rw [hhead]
          simp [hok.head]
      · rintro _ st₂ ⟨hkept, hallocs⟩
        exact ⟨hok.kept.trans hkept, fun h => hallocs h.2⟩
    · intro e st₁ hfails
      have hlocal : fam ≠ AF_LOCAL := by
        rcases hfam with rfl | rfl
        · decide
        · decide
      have hstop := hfails.not_allocsOk fun hfam => absurd hfam hlocal
      exact ⟨hfails.kept, fun hallocs => hstop hallocs.1⟩

/-! ### The search for a name -/

/-- The search has used the answers `hs`; the allocations began with the `n`-th. -/
structure Counted (env : Env) (n : ℕ) (hs : List Hostent) (st : St) : Prop where
  slotted : Slotted st
  empty : st.aihead = none ↔ addrsOf hs = []
  count : hs = [] ∧ st.canon = none ∧ st.nalloc = n ∨
    hs ≠ [] ∧ st.canon ≠ none ∧ env.allocFails n = false ∧
      st.nalloc = n + 1 + 2 * (addrsOf hs).length ∧ AllocsOk env (n + 1) (2 * (addrsOf hs).length)

/-- An allocation has stopped the search in the last of the answers `hs`. -/
def Stopped (env : Env) (n : ℕ) (hs : List Hostent) (st : St) : Prop :=
  st.canon = none ∧ env.allocFails n = true ∨
    st.canon ≠ none ∧ env.allocFails n = false ∧ ¬ AllocsOk env (n + 1) (2 * (addrsOf hs).length)

variable {n nsearch : ℕ} {hs hs' : List Hostent} {hptr : Hostent} {sptr : Search}

theorem addrsOf_append : addrsOf (hs ++ hs') = addrsOf hs ++ addrsOf hs' := by
  simp [addrsOf]

theorem Stopped.append (h : Stopped env n hs st) : Stopped env n (hs ++ hs') st := by
  refine h.imp_right fun ⟨hcanon, hok, hstop⟩ => ⟨hcanon, hok, fun hall => hstop ?_⟩
  rw [addrsOf_append, List.length_append, Nat.mul_add, allocsOk_add] at hall
  exact hall.1

theorem Stopped.nameKept_iff (h : Stopped env n hs st) : NameKept env hs n ↔ st.canon = none := by
  rcases h with ⟨hcanon, hf⟩ | ⟨hcanon, hok, hstop⟩
  · exact ⟨fun _ => hcanon, fun _ _ => .inl hf⟩
  · refine ⟨fun hkept => ?_, fun h => absurd h hcanon⟩
    have hne : hs ≠ [] := by
      rintro rfl
      exact hstop nofun
    rcases hkept hne with hf | ⟨-, hall⟩
    · exact absurd (hf.symm.trans hok) (by decide)
    · exact absurd hall hstop

theorem Counted.nameKept (h : Counted env n hs st) (hhead : st.aihead ≠ none) : NameKept env hs n := by
  intro hne
  rcases h.count with ⟨hnil, -⟩ | ⟨-, -, -, -, hall⟩
  · exact absurd hnil hne
  · exact .inr ⟨fun hnil => hhead (h.empty.mpr hnil), hall⟩

theorem Counted.nameKept_iff (h : Counted env n hs st) (hhead : st.aihead = none) :
    NameKept env hs n ↔ st.canon = none := by
  rcases h.count with ⟨hnil, hcanon, -⟩ | ⟨hne, hcanon, hok, -⟩
  · exact ⟨fun _ => hcanon, fun _ hne => absurd hnil hne⟩
  · refine ⟨fun hkept => ?_, fun h => absurd h hcanon⟩
    rcases hkept hne with hf | ⟨haddrs, -⟩
    · exact absurd (hf.symm.trans hok) (by decide)
    · exact absurd (h.empty.mp hhead) haddrs

theorem wp_useAnswer_counts (hwants : wantsCanon hostname hints = true) (hc : Counted env n hs st) :
    Prog.wp (do
      saveCanon env hostname hints hptr.hName
      addAddrs env hints hptr.hAddrtype hptr.hAddrList : GaM Unit)
      (fun _ st' => Counted env n (hs ++ [hptr]) st' ∧ st'.nquery = st.nquery)
      (fun _ st' => Stopped env n (hs ++ [hptr]) st') (fun _ => True) st := by
  have haddrs : addrsOf (hs ++ [hptr]) = addrsOf hs ++ hptr.hAddrList := by
    simp [addrsOf]
  -- the nodes, once the name is there and the allocations for `hs` are made
  have hnodes : ∀ st₁ : St, Slotted st₁ → (st₁.aihead = none ↔ addrsOf hs = []) → st₁.canon ≠ none →
      env.allocFails n = false → st₁.nquery = st.nquery →
      st₁.nalloc = n + 1 + 2 * (addrsOf hs).length → AllocsOk env (n + 1) (2 * (addrsOf hs).length) →
      (addAddrs env hints hptr.hAddrtype hptr.hAddrList).wp
        (fun _ st' => Counted env n (hs ++ [hptr]) st' ∧ st'.nquery = st.nquery)
        (fun _ st' => Stopped env n (hs ++ [hptr]) st') (fun _ => True) st₁ := by
    intro st₁ hslot hempty hcanon hok hquery hn hall
    have hsum : AllocsOk env (n + 1) (2 * (addrsOf (hs ++ [hptr])).length) ↔
        AllocsOk env st₁.nalloc (2 * hptr.hAddrList.length) := by
      rw [haddrs, List.length_append, Nat.mul_add, allocsOk_add, hn]
      exact and_iff_right hall
    refine Prog.wp_mono (wp_addAddrs_counts hptr.addrtype hslot) ?_ ?_ (fun _ h => h)
    · rintro _ st₂ ⟨hkept, hallocs, hn₂, hslot₂, hhead⟩
      refine ⟨⟨hslot₂, ?_, .inr ⟨by simp, ?_, hok, ?_, hsum.mpr hallocs⟩⟩, hkept.nquery.trans hquery⟩
      · rw [hhead, hempty, haddrs, List.append_eq_nil_iff]
      · rw [hkept.canon]
        exact hcanon
      · rw [hn₂, hn, haddrs, List.length_append]
        omega
    · rintro _ st₂ ⟨hkept, hallocs⟩
      refine .inr ⟨?_, hok, fun hall' => hallocs (hsum.mp hall')⟩
      rw [hkept.canon]
      exact hcanon
  rw [Prog.wp_bind, saveCanon, Prog.wp_bind, Prog.wp_get, Prog.wp_ite]
  rcases hc.count with ⟨rfl, hcanon, hn⟩ | ⟨hne, hcanon, hok, hn, hall⟩
  · refine ⟨fun _ => ?_, fun h => absurd ⟨hwants, hcanon⟩ h⟩
    rw [Prog.wp_bind]
    refine wp_alloc_iff.mpr ⟨fun hf => .inl ⟨hcanon, hn ▸ hf⟩, fun hok => ?_⟩
    refine hnodes _ hc.slotted hc.empty (Option.some_ne_none _) (hn ▸ hok) rfl ?_
      fun i hi => absurd hi (Nat.not_lt_zero i)
    simp [hn, addrsOf]
  · refine ⟨fun h => absurd h.2 hcanon, fun _ => ?_⟩
    exact hnodes st hc.slotted hc.empty hcanon hok rfl hn hall

theorem wp_resolve {Q : Except HErrno Hostent → St → Prop} :
    (resolve env nsearch sptr).wp Q E X st ↔
      Q (query env nsearch (st.nquery + 1) sptr) { st with
        resInit := true
        resUseInet6 := decide (nsearch ≠ 2 ∧ sptr.family = AF_INET6)
        nquery := st.nquery + 1 } := by
  rw [resolve, Prog.wp_bind, Prog.wp_modify, Prog.wp_bind, Prog.wp_get, query]
  split_ifs <;> rfl

theorem wp_lookupHost_counts (hwants : wantsCanon hostname hints = true) (hc : Counted env n hs st) :
    (lookupHost env hostname hints nsearch sptr).wp
      (fun _ st' => Counted env n (hs ++ (answer env hints nsearch (st.nquery + 1) sptr).toList) st' ∧
        st'.nquery = st.nquery + 1)
      (fun _ st' => Stopped env n (hs ++ (answer env hints nsearch (st.nquery + 1) sptr).toList) st' ∨
        ¬ (nsearch = 2 ∧ hints.aiFamily = AF_UNSPEC) ∧ st'.canon = st.canon ∧
          answer env hints nsearch (st.nquery + 1) sptr = none) (fun _ => True) st := by
  have hc' : Counted env n hs { st with
      resInit := true
      resUseInet6 := decide (nsearch ≠ 2 ∧ sptr.family = AF_INET6)
      nquery := st.nquery + 1 } := ⟨hc.slotted, hc.empty, hc.count⟩
  rw [lookupHost, Prog.wp_bind, wp_resolve]
  cases hquery : query env nsearch (st.nquery + 1) sptr with
  | error herr =>
    have hans : answer env hints nsearch (st.nquery + 1) sptr = none := by
      simp [answer, hquery, Except.toOption]
    rw [hans, Option.toList_none, List.append_nil]
    dsimp only
    rw [Prog.wp_ite]
    exact ⟨fun _ => ⟨hc', rfl⟩, fun hne => .inr ⟨fun h => hne h.1, rfl, rfl⟩⟩
  | ok hptr =>
    dsimp only
    rw [Prog.wp_ite]
    refine ⟨fun hmis => ?_, fun hadm => ?_⟩
    · have hans : answer env hints nsearch (st.nquery + 1) sptr = none := by
        simp [answer, hquery, Except.toOption, hmis.1, hmis.2]
      exact .inr ⟨fun h => hmis.1 h.2, rfl, hans⟩
    · have hans : answer env hints nsearch (st.nquery + 1) sptr = some hptr := by
        rw [not_and_or, not_not, not_not] at hadm
        simp [answer, hquery, Except.toOption, Option.filter, hadm]
      rw [hans, Option.toList_some]
      exact Prog.wp_mono (wp_useAnswer_counts hwants hc') (fun _ _ h => h) (fun _ _ h => .inl h)
        (fun _ h => h)

/-- At the end of the search: without a list, the condition `cond` holds exactly when no name is saved,
and with a list it holds. -/
structure NameFate (wants : Bool) (cond : Prop) (st : St) : Prop where
  wanted : wants = true ∨ st.canon = none
  lost_iff : st.aihead = none → (cond ↔ st.canon = none)
  kept : st.aihead ≠ none → cond

theorem wp_lookupHost_quiet (hwants : wantsCanon hostname hints = false) (hslot : Slotted st)
    (hcanon : st.canon = none) :
    (lookupHost env hostname hints nsearch sptr).wp (fun _ st' => Slotted st' ∧ st'.canon = none)
      (fun _ st' => st'.canon = none) (fun _ => True) st := by
  rw [lookupHost, Prog.wp_bind, wp_resolve]
  cases query env nsearch (st.nquery + 1) sptr with
  | error herr =>
    dsimp only
    rw [Prog.wp_ite]
    exact ⟨fun _ => ⟨hslot, hcanon⟩, fun _ => hcanon⟩
  | ok hptr =>
    dsimp only
    rw [Prog.wp_ite]
    refine ⟨fun _ => hcanon, fun _ => ?_⟩
    rw [Prog.wp_bind, saveCanon, Prog.wp_bind, Prog.wp_get, hwants, if_neg (by simp), Prog.wp_pure]
    refine Prog.wp_mono (wp_addAddrs_counts hptr.addrtype ?_) ?_ ?_ (fun _ h => h)
    · exact hslot
    · intro _ st₁ h₁
      exact ⟨h₁.2.2.2.1, h₁.1.canon.trans hcanon⟩
    · intro _ st₁ h₁
      exact h₁.1.canon.trans hcanon

theorem wp_addLiteral_quiet {addr : List Byte} {fam : ℤ} (hfam : fam = AF_INET ∨ fam = AF_INET6)
    (hslot : Slotted st) (hcanon : st.canon = none) :
    (addLiteral env hints sptr addr fam).wp (fun _ st' => Slotted st' ∧ st'.canon = none)
      (fun _ st' => st'.canon = none) (fun _ => True) st := by
  rw [addLiteral, Prog.wp_ite, Prog.wp_ite]
  refine ⟨fun _ => hcanon, fun _ => ⟨fun _ => ⟨hslot, hcanon⟩, fun _ => ?_⟩⟩
  refine Prog.wp_mono (wp_gaAistruct_counts (hfam.imp_right .inl) hslot) ?_ ?_ (fun _ h => h)
  · intro _ st₁ hok
    exact ⟨fun h => absurd h hok.1.head, hok.1.kept.canon.trans hcanon⟩
  · intro _ st₁ hfails
    exact hfails.kept.canon.trans hcanon

theorem wp_searchLoop_quiet {search : List Search}
    (hq : wantsCanon hostname hints = false ∨ ∀ sptr ∈ search, isLiteral env sptr.host = true)
    (hslot : Slotted st) (hcanon : st.canon = none) :
    (searchLoop env hostname hints nsearch search).wp (fun _ st' => st'.canon = none)
      (fun _ st' => st'.canon = none) (fun _ => True) st := by
  induction search generalizing st with
  | nil => exact hcanon
  | cons sptr search ih =>
    have hq' : wantsCanon hostname hints = false ∨ ∀ sptr ∈ search, isLiteral env sptr.host = true :=
      hq.imp_right fun h sptr' hmem => h sptr' (by simp [hmem])
    rw [searchLoop, Prog.wp_bind]
    refine Prog.wp_mono (?_ : Prog.wp _ (fun _ st' => Slotted st' ∧ st'.canon = none) _ _ st)
      (fun _ st₁ h₁ => ih hq' h₁.1 h₁.2) (fun _ _ h => h) (fun _ h => h)
    cases h4 : ipv4Literal env sptr.host with
    | some addr =>
      rw [searchStep, h4]
      exact wp_addLiteral_quiet (.inl rfl) hslot hcanon
    | none =>
      cases h6 : ipv6Literal env sptr.host with
      | some addr =>
        rw [searchStep, h4, h6]
        exact wp_addLiteral_quiet (.inr rfl) hslot hcanon
      | none =>
        have hwants : wantsCanon hostname hints = false := by
          refine hq.resolve_right fun h => ?_
          have := h sptr (by simp)
          simp [isLiteral, h4, h6] at this
        rw [searchStep, h4, h6]
        exact wp_lookupHost_quiet hwants hslot hcanon

/-- The state in which the search begins. -/
structure Initial (st : St) : Prop where
  head : st.aihead = none
  slot : st.aipnext = .head
  canon : st.canon = none

theorem host_of_mem_searchEntries {host : CString} {family : ℤ}
    (hmem : sptr ∈ searchEntries family host host) : sptr.host = host := by
  unfold searchEntries at hmem
  split_ifs at hmem with h4 h6 hun
  · rw [List.mem_singleton.mp hmem]
  · rw [List.mem_singleton.mp hmem]
  · rcases List.mem_cons.mp hmem with h | h
    · rw [h]
    · rw [List.mem_singleton.mp h]
  · exact absurd hmem (by simp)

theorem searchStep_of_name {host : CString} {family : ℤ} (hlit : isLiteral env host = false) :
    searchStep env hostname hints nsearch ⟨host, family⟩ =
      lookupHost env hostname hints nsearch ⟨host, family⟩ := by
  rw [isLiteral, Bool.or_eq_false_iff, Option.isSome_eq_false_iff, Option.isNone_iff_eq_none,
    Option.isSome_eq_false_iff, Option.isNone_iff_eq_none] at hlit
  rw [searchStep, hlit.1, hlit.2]

theorem wp_searchLoop_named {host : CString} (hinit : Initial st)
    (hfam : hints.aiFamily = AF_INET ∨ hints.aiFamily = AF_INET6 ∨ hints.aiFamily = AF_UNSPEC)
    (hwants : wantsCanon hostname hints = true) (hlit : isLiteral env host = false) :
    (searchLoop env hostname hints (searchEntries hints.aiFamily host host).length
      (searchEntries hints.aiFamily host host)).wp
      (fun _ => Counted env st.nalloc (hostAnswers env host hints st.nquery))
      (fun _ st' => NameKept env (hostAnswers env host hints st.nquery) st.nalloc ↔ st'.canon = none)
      (fun _ => True) st := by
  have hc : Counted env st.nalloc [] st :=
    ⟨fun _ => hinit.slot, by simp [hinit.head, addrsOf], .inl ⟨rfl, hinit.canon, rfl⟩⟩
  by_cases hun : hints.aiFamily = AF_UNSPEC
  · -- two queries, of which neither fails for want of an answer
    have hentries : searchEntries hints.aiFamily host host = [⟨host, AF_INET6⟩, ⟨host, AF_INET⟩] := by
      rw [hun]
      rfl
    rw [hentries, hostAnswers, if_pos hun]
    show (searchLoop env hostname hints 2 [_, _]).wp _ _ _ _
    rw [searchLoop, Prog.wp_bind, searchStep_of_name hlit]
    refine Prog.wp_mono (wp_lookupHost_counts hwants hc) ?_ ?_ (fun _ h => h)
    · rintro _ st₁ ⟨hc₁, hq₁⟩
      rw [List.nil_append] at hc₁
      rw [searchLoop, Prog.wp_bind, searchStep_of_name hlit]
      refine Prog.wp_mono (wp_lookupHost_counts hwants hc₁) ?_ ?_ (fun _ h => h)
      · rintro _ st₂ ⟨hc₂, -⟩
        rw [hq₁] at hc₂
        exact hc₂
      · rintro _ st₂ (hstop | ⟨hsingle, -⟩)
        · rw [hq₁] at hstop
          exact hstop.nameKept_iff
        · exact absurd ⟨rfl, hun⟩ hsingle
    · rintro _ st₁ (hstop | ⟨hsingle, -⟩)
      · exact hstop.append.nameKept_iff
      · exact absurd ⟨rfl, hun⟩ hsingle
  · have hentries : searchEntries hints.aiFamily host host = [⟨host, hints.aiFamily⟩] := by
      rcases hfam with h | h | h
      · rw [h]
        rfl
      · rw [h]
        rfl
      · exact absurd h hun
    rw [hentries, hostAnswers, if_neg hun]
    show (searchLoop env hostname hints 1 [_]).wp _ _ _ _
    rw [searchLoop, Prog.wp_bind, searchStep_of_name hlit]
    refine Prog.wp_mono (wp_lookupHost_counts hwants hc) ?_ ?_ (fun _ h => h)
    · rintro _ st₁ ⟨hc₁, -⟩
      exact hc₁
    · rintro _ st₁ (hstop | ⟨-, hcanon, hans⟩)
      · exact hstop.nameKept_iff
      · rw [hans, hcanon, hinit.canon]
        exact ⟨fun _ => rfl, fun _ hne => absurd rfl hne⟩

theorem wp_searchLoop_fate {search : List Search} (hinit : Initial st)
    (hfam : hints.aiFamily = AF_INET ∨ hints.aiFamily = AF_INET6 ∨ hints.aiFamily = AF_UNSPEC)
    (hsearch : isNullOrEmpty hostname = false →
      search = searchEntries hints.aiFamily (hostname.getD []) (hostname.getD [])) :
    (searchLoop env hostname hints search.length search).wp
      (fun _ => NameFate (wantsCanon hostname hints) (SearchClean env hostname hints st))
      (fun _ st' => SearchClean env hostname hints st ↔ st'.canon = none) (fun _ => True) st := by
  have hslot : Slotted st := fun _ => hinit.slot
  by_cases hnamed : wantsCanon hostname hints = true ∧ isLiteral env (hostname.getD []) = false
  · have hcond : SearchClean env hostname hints st ↔
        NameKept env (hostAnswers env (hostname.getD []) hints st.nquery) st.nalloc :=
      ⟨fun h => h hnamed.1 hnamed.2, fun h _ _ => h⟩
    have hhost : isNullOrEmpty hostname = false := by
      have := hnamed.1
      rw [wantsCanon, Bool.and_eq_true, Bool.not_eq_true'] at this
      exact this.1
    rw [hcond, hsearch hhost]
    refine Prog.wp_mono (wp_searchLoop_named hinit hfam hnamed.1 hnamed.2) ?_ (fun _ _ h => h)
      (fun _ h => h)
    intro _ st' hc
    exact ⟨.inl hnamed.1, hc.nameKept_iff, hc.nameKept⟩
  · have hcond : SearchClean env hostname hints st := fun h₁ h₂ => absurd ⟨h₁, h₂⟩ hnamed
    refine Prog.wp_mono (wp_searchLoop_quiet ?_ hslot hinit.canon) ?_ ?_ (fun _ h => h)
    · cases hwants : wantsCanon hostname hints with
      | false => exact .inl rfl
      | true =>
        have hlit : isLiteral env (hostname.getD []) = true := by
          simpa [hwants] using hnamed
        have hhost : isNullOrEmpty hostname = false := by
          rw [wantsCanon, Bool.and_eq_true, Bool.not_eq_true'] at hwants
          exact hwants.1
        refine .inr fun sptr hmem => ?_
        rw [hsearch hhost] at hmem
        rw [host_of_mem_searchEntries hmem]
        exact hlit
    · intro _ st' hcanon
      exact ⟨.inr hcanon, fun _ => ⟨fun _ => hcanon, fun _ => hcond⟩, fun _ => hcond⟩
    · intro _ st' hcanon
      exact ⟨fun _ => hcanon, fun _ => hcond⟩

/-! ### Accounting for the blocks -/

/-- From `base` on, only the blocks of the list and the saved name are live. -/
structure Ledger (base : ℕ) (st : St) (ns : List Node) : Prop where
  list : NodeList st.heap st.aihead ns
  canon : CanonApart st ns
  base_le : base ≤ st.heap.fresh
  name_new : ∀ q, st.canon = some q → base ≤ q
  covered : ∀ q, base ≤ q → st.heap.get q ≠ none → q ∈ footprint nodeKind ns ∨ st.canon = some q

variable {base head : ℕ} {ns' : List Node}

theorem Ledger.covered_iff (hl : Ledger base st ns) : Covered base st.heap ns ↔ st.canon = none := by
  constructor
  · intro hcov
    cases hcanon : st.canon with
    | none => rfl
    | some q =>
      obtain ⟨⟨s, hget⟩, hnot⟩ := hl.canon q hcanon
      exact absurd (hcov q (hl.name_new q hcanon) (by simp [hget])) hnot
  · intro hcanon q hq hlive
    rcases hl.covered q hq hlive with hmem | hname
    · exact hmem
    · exact nomatch hcanon.symm.trans hname

theorem Ledger.rewrites (hl : Ledger base st ns) (hlist : NodeList st'.heap st'.aihead ns')
    (hcanon : st'.canon = st.canon)
    (hrw : st.heap.Rewrites st'.heap (footprint nodeKind ns) (footprint nodeKind ns')) :
    Ledger base st' ns' := by
  refine ⟨hlist, hl.canon.rewrites hcanon hrw, le_trans hl.base_le hrw.mono, ?_, ?_⟩
  · intro q hq
    exact hl.name_new q (hcanon ▸ hq)
  · intro q hq hlive
    rcases hrw.covered q hlive with hmem | ⟨hlt, hnot⟩
    · exact .inl hmem
    · rw [hrw.frame q hlt hnot] at hlive
      rw [hcanon]
      exact .inr ((hl.covered q hq hlive).resolve_left hnot)

theorem Covered.rewrites {h h' : Heap Block} (hc : Covered base h ns)
    (hrw : h.Rewrites h' (footprint nodeKind ns) (footprint nodeKind ns')) : Covered base h' ns' := by
  intro q hq hlive
  rcases hrw.covered q hlive with hmem | ⟨hlt, hnot⟩
  · exact hmem
  · rw [hrw.frame q hlt hnot] at hlive
    exact absurd (hc q hq hlive) hnot

/-- The search with its ledger. -/
def SearchLedger (hints : Hints) (base : ℕ) (st : St) : Prop :=
  ∃ ns, SearchInv hints st ns ∧ Ledger base st ns

theorem keeps_gaAistruct_ledger {fam : ℤ} (addr : List Byte) (hfam : fam = AF_INET ∨ fam = AF_INET6)
    (hadm : hints.aiFamily = AF_UNSPEC ∨ hints.aiFamily = fam) :
    Prog.Keeps (SearchLedger hints base) (fun st => ∃ ns, Ledger base st ns)
      (gaAistruct env hints addr fam) := by
  rintro st ⟨ns, hinv, hl⟩
  refine wp_gaAistruct hinv.built (hfam.imp_right .inl) ?_ ?_
  · intro st' n hb hnew hkept hrw
    refine ⟨ns ++ [n], hinv.snoc hfam hadm hb hnew hkept hrw, ?_⟩
    exact hl.rewrites hb.list hkept.canon hrw
  · intro e st' ns' _ hb hkept hrw
    exact ⟨ns', hl.rewrites hb.list hkept.canon hrw⟩

theorem keeps_resolve_ledger (nsearch : ℕ) (sptr : Search) :
    Prog.Keeps (SearchLedger hints base) (fun st => ∃ ns, Ledger base st ns)
      (resolve env nsearch sptr) := by
  rintro st ⟨ns, hinv, hl⟩
  rw [wp_resolve]
  exact ⟨ns, ⟨⟨hinv.built.list, hinv.built.slot⟩, hinv.nodes, hinv.canon⟩,
    ⟨hl.list, hl.canon, hl.base_le, hl.name_new, hl.covered⟩⟩

theorem Ledger.saveName (hl : Ledger base st ns) (hcanon : st.canon = none) (hName : CString) (k : ℕ) :
    Ledger base
      { st with nalloc := k, heap := st.heap.alloc (.string hName), canon := some st.heap.fresh } ns := by
  refine ⟨hl.list.alloc _, ?_, ?_, ?_, ?_⟩
  · rintro _ ⟨⟩
    exact hl.list.string_apart hName
  · show base ≤ (st.heap.alloc _).fresh
    rw [Heap.fresh_alloc]
    exact Nat.le_succ_of_le hl.base_le
  · rintro _ ⟨⟩
    exact hl.base_le
  · intro q hq hlive
    rcases Heap.live_alloc hlive with hold | hnew
    · rcases hl.covered q hq hold with hmem | hname
      · exact .inl hmem
      · exact nomatch hcanon.symm.trans hname
    · exact .inr (congrArg some hnew.symm)

theorem keeps_saveCanon_ledger (hostname : Option CString) (hName : CString) :
    Prog.Keeps (SearchLedger hints base) (fun st => ∃ ns, Ledger base st ns)
      (saveCanon env hostname hints hName) := by
  rintro st ⟨ns, hinv, hl⟩
  rw [saveCanon, Prog.wp_bind, Prog.wp_get, Prog.wp_ite]
  refine ⟨fun hcond => ?_, fun _ => ⟨ns, hinv, hl⟩⟩
  rw [Prog.wp_bind]
  refine wp_alloc (fun _ => ⟨ns, hl.list, hl.canon, hl.base_le, hl.name_new, hl.covered⟩) ?_
  have hl' := hl.saveName hcond.2 hName (st.nalloc + 1)
  exact ⟨ns, ⟨⟨hl'.list, hinv.built.slot⟩, hinv.nodes, hl'.canon⟩, hl'⟩

theorem searchKeeps_ledger (hostname : Option CString) :
    SearchKeeps env hostname hints (SearchLedger hints base) (fun st => ∃ ns, Ledger base st ns) where
  weaken _ hs := hs.imp fun _ h => h.2
  aistruct addr _ hfam hadm := keeps_gaAistruct_ledger addr hfam hadm
  resolve := keeps_resolve_ledger
  saveCanon := keeps_saveCanon_ledger hostname

/-- The list that the error label frees, or that is returned, has every new block. -/
def ListCovered (base : ℕ) (st : St) (p : Option ℕ) : Prop :=
  ∃ ns, NodeList st.heap p ns ∧ Covered base st.heap ns

/-- The service pass over a list that has every new block. -/
def ServCovered (hints : Hints) (head base : ℕ) (st : St) : Prop :=
  st.aihead = some head ∧ ∃ ns, NodeList st.heap (some head) ns ∧ (∀ n ∈ ns, ServNode hints n) ∧
    Covered base st.heap ns

theorem ServCovered.listCovered (st : St) (hs : ServCovered hints head base st) :
    ListCovered base st st.aihead := by
  obtain ⟨hhead, ns, hl, -, hcov⟩ := hs
  exact ⟨ns, hhead.symm ▸ hl, hcov⟩

theorem servKeeps_covered : ServKeeps env hints (some head) (ServCovered hints head base)
    (fun st => ListCovered base st st.aihead) := by
  refine ⟨ServCovered.listCovered, fun port socktype ht => ?_⟩
  rintro st ⟨hhead, ns, hl, hns, hcov⟩
  rw [gaPortOrMemory, Prog.wp_bind]
  refine wp_gaPort (fun n hn => (hns n hn).inet) hl ?_ ?_
  · intro h' k ns' _ hl' hrw
    exact ⟨ns', hhead.symm ▸ hl', hcov.rewrites hrw⟩
  · intro h' k ns' c hp hl' hrw
    exact ⟨hhead, ns', hl', hp.servNode ht hns, hcov.rewrites hrw⟩

theorem Ledger.covered_named {h' : Heap Block} (hl : Ledger base st ns) {canon : Option ℕ}
    (hcanon : st.canon = canon) (ht : NameTaken st.heap h' canon ns')
    (hsub : footprint nodeKind ns ⊆ footprint nodeKind ns') : Covered base h' ns' := by
  intro q hq hlive
  rcases ht q hlive with hmem | ⟨hold, hne⟩
  · exact hmem
  · exact hsub ((hl.covered q hq hold).resolve_right (hcanon ▸ hne))

theorem footprint_named {n : Node} (hnone : n.ai.aiCanonname = none) (name : Option ℕ) :
    footprint nodeKind (n :: ns) ⊆ footprint nodeKind (named name n :: ns) := by
  intro q hq
  rw [footprint_cons, nodeKind_foot, List.mem_append] at hq ⊢
  refine hq.imp_left fun hq => ?_
  rw [Node.foot, hnone, Option.toList_none, List.append_nil] at hq
  rw [Node.foot, ← List.cons_append, List.mem_append]
  exact .inl hq

theorem Covered.named {h h' : Heap Block} {n : Node} {name : Option ℕ} (hc : Covered base h (n :: ns))
    (hnone : n.ai.aiCanonname = none) (ht : NameTaken h h' none (named name n :: ns)) :
    Covered base h' (named name n :: ns) := by
  intro q hq hlive
  rcases ht q hlive with hmem | ⟨hold, -⟩
  · exact hmem
  · exact footprint_named hnone name (hc q hq hold)

theorem mem_footprint_named {n : Node} {name : Option ℕ} {q : ℕ}
    (hq : q ∈ footprint nodeKind (named name n :: ns)) :
    q ∈ footprint nodeKind (n :: ns) ∨ name = some q := by
  rw [footprint_cons, nodeKind_foot, List.mem_append] at hq ⊢
  simp only [Node.foot, named, List.mem_cons, List.mem_append, Option.mem_toList] at hq ⊢
  tauto

/-- At the label `bad`, or at `return(0)`: the list has every new block exactly when nothing is lost. -/
theorem wp_getaddrinfoInet_clean {servname : Option CString} (hinit : Initial st)
    (hfam : hints.aiFamily = AF_INET ∨ hints.aiFamily = AF_INET6 ∨ hints.aiFamily = AF_UNSPEC) :
    (getaddrinfoInet env hostname servname hints).wp
      (fun head st' => SearchClean env hostname hints st ∧ ListCovered st.heap.fresh st' (some head))
      (fun _ st' => ∃ ns, NodeList st'.heap st'.aihead ns ∧
        (Covered st.heap.fresh st'.heap ns ↔ SearchClean env hostname hints st))
      (fun _ => False) st := by
  obtain ⟨search, hsearch, -, hentries⟩ := gaNsearch_eq_pure hostname hfam
  have hb : Built st [] := ⟨⟨hinit.head, by simp⟩, hinit.slot⟩
  have hcanon : CanonApart st [] := fun q hq => by cases hinit.canon.symm.trans hq
  have hstart : SearchLedger hints st.heap.fresh st := by
    refine ⟨[], ⟨hb, by simp, hcanon⟩, hb.list, hcanon, le_refl _, ?_, ?_⟩
    · exact fun q hq => by cases hinit.canon.symm.trans hq
    · exact fun q hq hlive => absurd (Heap.lt_fresh_of_live hlive) (by omega)
  rw [getaddrinfoInet, hsearch, Prog.wp_bind, Prog.wp_pure, Prog.wp_bind]
  refine Prog.wp_mono (Prog.wp_and
    (keeps_searchLoop (searchKeeps_ledger hostname) search.length search st hstart)
    (wp_searchLoop_fate hinit hfam hentries)) ?_ ?_ (fun _ h => h.1)
  · intro _ st' h
    obtain ⟨⟨ns, hinv, hl⟩, hfate⟩ := h
    rw [Prog.wp_bind, Prog.wp_get]
    cases hhead : st'.aihead with
    | none =>
      refine ⟨ns, hl.list, ?_⟩
      rw [hl.covered_iff, hfate.lost_iff hhead]
    | some head =>
      have hcond : SearchClean env hostname hints st := hfate.kept (by simp [hhead])
      have hlist := hl.list
      rw [hhead] at hlist
      cases ns with
      | nil => cases hlist.seg
      | cons n ns =>
        obtain ⟨hptr, -⟩ := hlist.seg
        obtain rfl : head = n.ptr := Option.some.inj hptr
        obtain ⟨addr, fam, -, -, hnew⟩ := hinv.nodes n (by simp)
        dsimp only
        rw [Prog.wp_bind]
        refine wp_setCanon hlist hnew.canon hinv.canon ?_ ?_
        · intro h' k name htaken hl'
          have hcov := hl.covered_named rfl (htaken hfate.wanted) (footprint_named hnew.canon name)
          have hserv : ServCovered hints n.ptr st.heap.fresh { st' with heap := h', nalloc := k } :=
            ⟨hhead, _, hl', servNodes_named hinv.nodes name, hcov⟩
          rw [Prog.wp_bind]
          refine Prog.wp_mono (keeps_processServ servKeeps_covered servname _ hserv) ?_ ?_ (fun _ h => h)
          · intro _ st₂ hserv₂
            exact ⟨hcond, hserv₂.1 ▸ hserv₂.listCovered⟩
          · intro _ st₂ h₂
            exact h₂.imp fun ns h => ⟨h.1, fun _ => hcond, fun _ => h.2⟩
        · intro h' k _ hnone htaken hl'
          refine ⟨_, hhead.symm ▸ hl', fun _ => hcond, fun _ => ?_⟩
          exact hl.covered_named hnone htaken (footprint_named hnew.canon none)
  · intro _ st' h
    obtain ⟨⟨ns, hl⟩, hfate⟩ := h
    refine ⟨ns, hl.list, ?_⟩
    rw [hl.covered_iff, hfate]

/-! ### The Unix domain -/

variable {path : CString}

/-- What the nodes of `ga_unix` allocate. -/
def unixNodeAllocs (hints : Hints) : ℕ := if hints.aiSocktype = 0 then 4 else 2

theorem unixAllocs_eq (hints : Hints) : unixAllocs hints =
    unixNodeAllocs hints + if hints.aiFlags &&& AI_CANONNAME ≠ 0 then 1 else 0 := rfl

theorem wp_gaUnixNodes_counts (hslot : Slotted st) :
    (gaUnixNodes env path hints).wp
      (fun _ st' => path.length < SUN_PATH_LEN ∧ AllocsOk env st.nalloc (unixNodeAllocs hints) ∧
        st'.nalloc = st.nalloc + unixNodeAllocs hints)
      (fun _ st' => env.allocFails st.nalloc = true ∧ st'.heap = st.heap ∨
        env.allocFails st.nalloc = false ∧ st'.heap.get st.heap.fresh ≠ none ∧
          (SUN_PATH_LEN ≤ path.length ∨ ¬ AllocsOk env st.nalloc (unixNodeAllocs hints)))
      (fun _ => True) st := by
  rw [gaUnixNodes, Prog.wp_ite]
  refine ⟨fun hzero => ?_, fun hne => ?_⟩
  · have hfour : unixNodeAllocs hints = 2 + 2 := if_pos hzero
    rw [Prog.wp_bind, hfour, allocsOk_add]
    refine Prog.wp_mono (wp_gaAistruct_counts (.inr (.inr rfl)) hslot) ?_ ?_ (fun _ h => h)
    · intro _ st₁ h₁
      obtain ⟨hok₁, hlen⟩ := h₁
      obtain ⟨hfirst, -⟩ := allocsOk_two.mp hok₁.allocs
      rw [← hok₁.nalloc]
      refine Prog.wp_mono (wp_gaAistruct_counts (.inr (.inr rfl)) fun h => absurd h hok₁.head) ?_ ?_
        (fun _ h => h)
      · intro _ st₂ h₂
        refine ⟨hlen rfl, ⟨hok₁.allocs, h₂.1.allocs⟩, ?_⟩
        rw [h₂.1.nalloc, hok₁.nalloc]
      · intro _ st₂ hfails
        have hstop := hfails.not_allocsOk hlen
        exact .inr ⟨hfirst, hfails.grows _ hok₁.node, .inr fun hall => hstop hall.2⟩
    · intro _ st₁ hfails
      refine hfails.cause_of.imp_right fun hcaused => hcaused.imp_right fun hnode => hnode.imp_right fun hcause => ?_
      exact hcause.imp And.right fun hstop hall => hstop hall.1
  · have htwo : unixNodeAllocs hints = 2 := if_neg hne
    rw [htwo]
    refine Prog.wp_mono (wp_gaAistruct_counts (.inr (.inr rfl)) hslot) ?_ ?_ (fun _ h => h)
    · intro _ st₁ h₁
      exact ⟨h₁.2 rfl, h₁.1.allocs, h₁.1.nalloc⟩
    · intro _ st₁ hfails
      refine hfails.cause_of.imp_right fun hcaused => hcaused.imp_right fun hnode => hnode.imp_right fun hcause => ?_
      exact hcause.imp_left And.right

theorem unixClean_iff (hfam : ¬ (hints.aiFamily ≠ AF_UNSPEC ∧ hints.aiFamily ≠ AF_LOCAL))
    (hok : env.allocFails n = false) : UnixClean env path hints n ↔
      path.length < SUN_PATH_LEN ∧ AllocsOk env n (unixAllocs hints) ∧
        (hints.aiFlags &&& AI_CANONNAME ≠ 0 → env.uname ≠ none) := by
  rw [UnixClean, or_iff_right hfam, or_iff_right (by simp [hok])]

theorem NodeList.not_freed {h : Heap Block} {m : Node} {p : ℕ} (hl : NodeList h (some p) (m :: ns))
    (hnew : base ≤ p) : ¬ ∀ q, base ≤ q → h.get q = none := by
  intro hfreed
  obtain ⟨hp, next, hat, -⟩ := hl.seg
  obtain rfl : p = m.ptr := Option.some.inj hp
  exact nomatch (hfreed m.ptr hnew).symm.trans hat.node

theorem wp_gaUnixCanon_clean {m : Node} (hl : NodeList st'.heap (some m.ptr) (m :: ns))
    (hnone : m.ai.aiCanonname = none) (hbase : base ≤ m.ptr) (hcov : Covered base st'.heap (m :: ns))
    (hlen : path.length < SUN_PATH_LEN) (hpos : env.allocFails n = false)
    (hfam : ¬ (hints.aiFamily ≠ AF_UNSPEC ∧ hints.aiFamily ≠ AF_LOCAL))
    (hall : AllocsOk env n (unixNodeAllocs hints)) (hn : st'.nalloc = n + unixNodeAllocs hints) :
    (gaUnixCanon env hints m.ptr).wp
      (fun _ st₂ => UnixClean env path hints n ∧ ListCovered base st₂ (some m.ptr))
      (fun _ st₂ => (∀ q, base ≤ q → st₂.heap.get q = none) ↔ UnixClean env path hints n)
      (fun _ => False) st' := by
  rw [unixClean_iff hfam hpos, unixAllocs_eq, gaUnixCanon, Prog.wp_ite]
  refine ⟨fun hflag => ?_, fun hflag => ?_⟩
  · rw [if_pos hflag, allocsOk_add, ← hn]
    cases huname : env.uname with
    | none =>
      refine ⟨fun hfreed => absurd hfreed (hl.not_freed hbase), fun h => ?_⟩
      exact absurd rfl (h.2.2 hflag)
    | some nodename =>
      dsimp only
      rw [Prog.wp_bind]
      refine wp_dupCanon hl hnone ?_ ?_
      · intro h' hok _ htaken hl'
        refine ⟨⟨hlen, ⟨hall, fun i hi => ?_⟩, fun _ => Option.some_ne_none _⟩, _, hl', hcov.named hnone htaken⟩
        obtain rfl : i = 0 := by omega
        exact hok
      · intro h' hf _ hl'
        refine ⟨fun hfreed => absurd hfreed (hl'.not_freed hbase), fun h => ?_⟩
        have hok := h.2.1.2 0 (by omega)
        exact absurd (hf.symm.trans hok) (by decide)
  · rw [if_neg hflag, Nat.add_zero]
    exact ⟨⟨hlen, hall, fun h => absurd h hflag⟩, _, hl, hcov⟩

theorem wp_gaUnix_clean (hinit : Initial st) :
    (gaUnix env path hints).wp
      (fun head st' => UnixClean env path hints st.nalloc ∧ ListCovered st.heap.fresh st' (some head))
      (fun _ st' => (∀ q, st.heap.fresh ≤ q → st'.heap.get q = none) ↔
        UnixClean env path hints st.nalloc) (fun _ => False) st := by
  have hb : Built st [] := ⟨⟨hinit.head, by simp⟩, hinit.slot⟩
  rw [gaUnix, Prog.wp_ite]
  refine ⟨fun hmis => ?_, fun hfam => ?_⟩
  · exact ⟨fun _ => .inl hmis, fun _ q hq => Heap.get_eq_none_of_le hq⟩
  · have hfam' : hints.aiFamily = AF_UNSPEC ∨ hints.aiFamily = AF_LOCAL := by
      rwa [not_and_or, not_not, not_not] at hfam
    have hnodes : (gaUnixNodes env path hints).wp (fun _ st' => ∃ ns, Built st' ns ∧ UnixNodes hints ns ∧
        st.heap.Rewrites st'.heap [] (footprint nodeKind ns)) (fun _ _ => True) (fun _ => False) st :=
      wp_gaUnixNodes hb hfam' (fun st' ns hb' hns hrw => ⟨ns, hb', hns, hrw⟩) fun _ _ => trivial
    rw [Prog.wp_bind]
    refine Prog.wp_mono (Prog.wp_and hnodes (wp_gaUnixNodes_counts fun _ => hinit.slot)) ?_ ?_
      (fun _ h => h.1)
    · intro _ st' h
      obtain ⟨⟨ns, hb', ⟨hne, hns⟩, hrw⟩, hlen, hall, hn⟩ := h
      cases ns with
      | nil => exact absurd rfl hne
      | cons m ns =>
        have hl := hb'.list
        obtain ⟨hhead, -⟩ := hl.seg
        have hhead : st'.aihead = some m.ptr := hhead
        have hpos : env.allocFails st.nalloc = false := by
          refine hall 0 ?_
          unfold unixNodeAllocs
          split_ifs <;> omega
        have hbase : st.heap.fresh ≤ m.ptr := by
          refine (hrw.new m.ptr ?_).resolve_left (by simp)
          simp [Node.foot]
        have hcov : Covered st.heap.fresh st'.heap (m :: ns) := by
          intro q hq hlive
          refine (hrw.covered q hlive).resolve_right fun h => ?_
          omega
        rw [hhead] at hl
        rw [Prog.wp_bind, Prog.wp_get, hhead]
        dsimp only
        rw [Prog.wp_bind]
        exact wp_gaUnixCanon_clean hl (hns m (by simp)).1 hbase hcov hlen hpos hfam hall hn
    · intro _ st' h
      obtain ⟨-, ⟨hf, hheap⟩ | ⟨hok, hnode, hcause⟩⟩ := h
      · rw [hheap]
        exact ⟨fun _ => .inr (.inl hf), fun _ q hq => Heap.get_eq_none_of_le hq⟩
      · rw [unixClean_iff hfam hok, unixAllocs_eq, allocsOk_add]
        refine ⟨fun hfreed => absurd (hfreed _ (le_refl _)) hnode, fun h => ?_⟩
        rcases hcause with hlong | hall
        · exact absurd h.1 (by omega)
        · exact absurd h.2.1.1 hall

/-! ### The whole call -/

variable {servname : Option CString}

theorem nothingLost_of_local (hlocal : LocalOutsideUnix hostname servname hints) :
    NothingLost env hostname servname hints st := by
  obtain ⟨hfam, hunix, -⟩ := hlocal
  intro _
  rw [hunix, if_neg Bool.false_ne_true]
  intro _ _ hne
  refine absurd ?_ hne
  have hans : ∀ k sptr, answer env hints 1 k sptr = none := by
    intro k sptr
    rw [answer, Option.filter_eq_none_iff]
    intro hptr _
    rcases hptr.addrtype with h | h
    · simp [hfam, h, AF_LOCAL, AF_INET, AF_UNSPEC]
    · simp [hfam, h, AF_LOCAL, AF_INET6, AF_UNSPEC]
  rw [hostAnswers, if_neg (by rw [hfam]; decide), hans]
  rfl

theorem wp_freeaddrinfo_covered {p : Option ℕ} (base : ℕ) (hl : NodeList st.heap p ns) :
    (freeaddrinfo p).wp
      (fun _ st' => (∀ q, base ≤ q → st'.heap.get q = none) ↔ Covered base st.heap ns) E X st := by
  refine wp_freeaddrinfo hl fun h' hframe hdead => ⟨fun hfreed q hq hlive => ?_, fun hcov q hq => ?_⟩
  · by_contra hnot
    rw [← hframe q hnot] at hlive
    exact hlive (hfreed q hq)
  · by_cases hmem : q ∈ footprint nodeKind ns
    · exact hdead q hmem
    · by_contra hlive
      refine hmem (hcov q hq ?_)
      rwa [← hframe q hmem]

theorem wp_getaddrinfo_clean (env : Env) (hostname servname : Option CString) (hintsp : Option Hints)
    (st : St) :
    (getaddrinfo env hostname servname hintsp).wp
      (fun head st' => NothingLost env hostname servname (hintsOf hintsp) st ∧
        ListCovered st.heap.fresh st' (some head))
      (fun _ st' => (∀ q, st.heap.fresh ≤ q → st'.heap.get q = none) ↔
        NothingLost env hostname servname (hintsOf hintsp) st)
      (fun _ => NothingLost env hostname servname (hintsOf hintsp) st) st := by
  by_cases hlocal : LocalOutsideUnix hostname servname (hintsOf hintsp)
  · refine Prog.wp_mono (wp_getaddrinfo_quits env st hlocal) ?_ ?_ ?_
    · exact fun _ _ h => h.elim
    · exact fun _ _ h => h.elim
    · exact fun _ _ => nothingLost_of_local hlocal
  · have hinit : Initial { st with aihead := none, aipnext := .head, canon := none } := ⟨rfl, rfl, rfl⟩
    rw [NothingLost, Checked, getaddrinfo, Prog.wp_bind, Prog.wp_modify]
    dsimp only
    cases hcheck : gaEcheck hostname servname (hintsOf hintsp).aiFlags (hintsOf hintsp).aiFamily
      (hintsOf hintsp).aiSocktype (hintsOf hintsp).aiProtocol with
    | some e => exact ⟨fun _ hnone => (by cases hnone), fun _ q hq => Heap.get_eq_none_of_le hq⟩
    | none =>
      rw [forall_prop_of_true rfl]
      dsimp only
      cases hunix : isUnixCase hostname servname with
      | true =>
        rw [if_pos rfl, if_pos rfl]
        exact Prog.wp_mono (wp_gaUnix_clean hinit) (fun _ _ h => h) (fun _ _ h => h) (fun _ h => h.elim)
      | false =>
        rw [if_neg Bool.false_ne_true, if_neg Bool.false_ne_true, Prog.wp_onError]
        refine Prog.wp_mono (wp_getaddrinfoInet_clean hinit (searched_family hcheck hunix hlocal))
          (fun _ _ h => h) ?_ (fun _ h => h.elim)
        intro e st' h
        obtain ⟨ns, hl, hcov⟩ := h
        rw [Prog.wp_bind, Prog.wp_get]
        refine Prog.wp_mono (wp_freeaddrinfo_covered st.heap.fresh hl) (fun _ st₂ h₂ => ?_) (fun _ _ h => h)
          (fun _ h => h)
        exact h₂.trans hcov

/-- **A call of `getaddrinfo` is clean** exactly when it does not lose the nodes of `ga_unix` or the saved
canonical name. -/
theorem getaddrinfo_clean_iff (env : Env) (hostname servname : Option CString) (hintsp : Option Hints)
    (st : St) (result : Option ℕ) :
    Clean st result (getaddrinfo env hostname servname hintsp st) ↔
      NothingLost env hostname servname (hintsOf hintsp) st := by
  refine (Prog.wp_outcome (P := fun o => Clean st result o ↔ NothingLost env hostname servname _ st)).mp ?_
  refine Prog.wp_mono (wp_getaddrinfo_clean env hostname servname hintsp st) ?_ ?_ ?_
  · intro head st' h
    exact ⟨fun _ => h.1, fun _ => h.2⟩
  · intro e st' h
    exact ⟨fun hclean => h.mp hclean.2, fun hcond => ⟨rfl, h.mpr hcond⟩⟩
  · intro x hcond
    exact ⟨fun _ => hcond, fun _ => trivial⟩

/-- A path of 111 bytes: `ga_aistruct` has linked its node before it looks at the length, and `ga_unix`
returns `EAI_SERVICE` with the node still allocated. -/
theorem getaddrinfo_leaks_node :
    ∃ st' : St, getaddrinfo sampleEnv (some (cstr "/local")) (some (47 :: List.replicate 110 97)) none
      .start = .error .service st' ∧ st'.heap.get 0 ≠ none ∧
    ¬ Clean .start none (getaddrinfo sampleEnv (some (cstr "/local"))
      (some (47 :: List.replicate 110 97)) none .start) := by
  refine ⟨_, rfl, nofun, fun hclean => ?_⟩
  exact nomatch hclean.2 0 (Nat.le_refl 0)

end UnixNetProg.Libgai
