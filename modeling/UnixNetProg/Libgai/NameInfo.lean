import UnixNetProg.Libgai.Result

/-!
# `getnameinfo` (`libgai/getnameinfo.c`, `gn_ipv46.c`), and `getaddrinfo` as its inverse

`inet_ntop`, `gethostbyaddr` and `getservbyport` answer through `NameEnv`. What the round trip needs of
`inet_ntop` and `inet_pton` is `Presentation`: the text of the address is read back as that address, for
its own family only, and has the form that is documented for the family.
-/

namespace UnixNetProg.Libgai

open Lib

def NI_MAXHOST : ℕ := 1025
def NI_MAXSERV : ℕ := 32

def NI_NOFQDN : BitVec 32 := 1
def NI_NUMERICHOST : BitVec 32 := 2
def NI_NAMEREQD : BitVec 32 := 4
def NI_NUMERICSERV : BitVec 32 := 8
def NI_DGRAM : BitVec 32 := 16

/-- `gethostbyaddr` answers with `h_name`, `getservbyport` with `s_name`. -/
structure NameEnv where
  inetNtop : ℤ → List Byte → ℕ → Option CString
  gethostbyaddr : List Byte → ℤ → Option CString
  getservbyport : BitVec 16 → Option CString → Option CString

variable (nenv : NameEnv)

/-- What `gn_ipv46` leaves in `host`; `none` is the return value 1. -/
def gnHost (hostlen : ℕ) (aptr : List Byte) (family : ℤ) (flags : BitVec 32) : Option CString :=
  if flags &&& NI_NUMERICHOST ≠ 0 then nenv.inetNtop family aptr hostlen
  else
    match nenv.gethostbyaddr aptr family with
    | some hName =>
      some (snprintf hostlen (if flags &&& NI_NOFQDN ≠ 0 then hName.takeWhile (· != 46) else hName))
    | none => if flags &&& NI_NAMEREQD ≠ 0 then none else nenv.inetNtop family aptr hostlen

/-- What `gn_ipv46` leaves in `serv`. -/
def gnServ (servlen : ℕ) (port : BitVec 16) (flags : BitVec 32) : CString :=
  if flags &&& NI_NUMERICSERV ≠ 0 then snprintf servlen (decimal (ntohs port).toNat)
  else
    match nenv.getservbyport port (if flags &&& NI_DGRAM ≠ 0 then some (cstr "udp") else none) with
    | some sName => snprintf servlen sName
    | none => snprintf servlen (decimal (ntohs port).toNat)

/-- Handle either an IPv4 or an IPv6 address and port: the contents of the two buffers, where `none` is
a buffer of length 0, which is not written. -/
def gnIpv46 (hostlen servlen : ℕ) (aptr : List Byte) (family : ℤ) (port : BitVec 16)
    (flags : BitVec 32) : Option (Option CString × Option CString) := do
  let host ← if 0 < hostlen then (gnHost nenv hostlen aptr family flags).map some else some none
  return (host, if 0 < servlen then some (gnServ nenv servlen port flags) else none)

def getnameinfo (sa : SockAddr) (hostlen servlen : ℕ) (flags : BitVec 32) :
    Option (Option CString × Option CString) :=
  if sa.saFamily = AF_INET then gnIpv46 nenv hostlen servlen sa.saAddr AF_INET sa.saPort flags
  else if sa.saFamily = AF_INET6 then gnIpv46 nenv hostlen servlen sa.saAddr AF_INET6 sa.saPort flags
  else if sa.saFamily = AF_LOCAL then
    some (if 0 < hostlen then some (snprintf hostlen (cstr "/local")) else none,
      if 0 < servlen then some (snprintf servlen sa.saAddr) else none)
  else none

/-- A well-formed address of one of the two Internet families. -/
def InetAddr (family : ℤ) (addr : List Byte) : Prop :=
  family = AF_INET ∧ addr.length = 4 ∨ family = AF_INET6 ∧ addr.length = 16

/-- The documented behaviour of `inet_ntop` and `inet_pton` on an address and its text `s`: the text fits
into `INET6_ADDRSTRLEN` (46) bytes and is read back as the address, for its own family only; it is dotted
decimal for IPv4 and hexadecimal with colons for IPv6. -/
structure Presentation (env : Env) (nenv : NameEnv) (family : ℤ) (addr : List Byte) (s : CString) :
    Prop where
  ntop : ∀ size, 46 ≤ size → nenv.inetNtop family addr size = some s
  pton : env.inetPton family s = some addr
  inet : family = AF_INET → isdigit (firstByte s) ∧ env.inetPton AF_INET6 s = none
  inet6 : family = AF_INET6 →
    (isxdigit (firstByte s) ∨ firstByte s = 58) ∧ 58 ∈ s ∧ env.inetPton AF_INET s = none

/-- The host string is read as the address `addr` of family `family` and nothing else. -/
structure Literal (env : Env) (host : CString) (family : ℤ) (addr : List Byte) : Prop where
  slash : firstByte host ≠ 47
  ne_nil : host ≠ []
  inet : family = AF_INET → addr.length = 4 ∧ ipv4Literal env host = some addr
  inet6 : family = AF_INET6 → addr.length = 16 ∧ ipv4Literal env host = none ∧
    ipv6Literal env host = some addr

variable {nenv} {env : Env} {st : St} {host serv : CString} {family : ℤ} {addr : List Byte} {hints : Hints}

theorem Presentation.literal (hp : Presentation env nenv family addr host) (ha : InetAddr family addr) :
    Literal env host family addr := by
  have hpton := hp.pton
  rcases ha with ⟨rfl, hlen⟩ | ⟨rfl, hlen⟩
  · obtain ⟨hdigit, -⟩ := hp.inet rfl
    refine ⟨?_, ?_, fun _ => ⟨hlen, ?_⟩, fun h => absurd h (by decide)⟩
    · intro h
      rw [h] at hdigit
      exact absurd hdigit (by decide)
    · rintro rfl
      exact absurd hdigit (by decide)
    · rw [ipv4Literal, if_pos hdigit, hpton]
  · obtain ⟨hfirst, hcolon, hnot⟩ := hp.inet6 rfl
    refine ⟨?_, ?_, fun h => absurd h (by decide), fun _ => ⟨hlen, ?_, ?_⟩⟩
    · intro h
      rw [h] at hfirst
      exact absurd hfirst (by decide)
    · rintro rfl
      exact absurd hcolon (by simp)
    · rw [ipv4Literal, hnot, ite_self]
    · rw [ipv6Literal, if_pos ⟨hfirst, hcolon⟩, hpton]

theorem Literal.newSa (hl : Literal env host family addr) (hf : family = AF_INET ∨ family = AF_INET6) :
    newSa addr family = ⟨family, 0, addr⟩ := by
  rcases hf with rfl | rfl
  · rw [Libgai.newSa, if_pos rfl, List.take_of_length_le (by rw [(hl.inet rfl).1])]
  · rw [Libgai.newSa, if_neg (by decide), if_pos rfl, List.take_of_length_le (by rw [(hl.inet6 rfl).1])]

/-! ### The host search for a literal -/

theorem Literal.searchStep (hl : Literal env host family addr)
    (hf : family = AF_INET ∨ family = AF_INET6)
    (hadm : hints.aiFamily = family ∨ hints.aiFamily = AF_UNSPEC) (hostname : Option CString)
    (nsearch : ℕ) (fam : ℤ) :
    searchStep env hostname hints nsearch ⟨host, fam⟩ =
      if fam = family then gaAistruct env hints addr family else pure () := by
  have hadd : addLiteral env hints ⟨host, fam⟩ addr family =
      if fam = family then gaAistruct env hints addr family else pure () := by
    have hok : ¬ (hints.aiFamily ≠ AF_UNSPEC ∧ hints.aiFamily ≠ family) := by tauto
    rw [addLiteral, if_neg hok]
    by_cases hfam : fam = family
    · rw [if_neg (by simp [hfam]), if_pos hfam]
    · rw [if_pos hfam, if_neg hfam]
  rw [← hadd]
  unfold Libgai.searchStep
  rcases hf with rfl | rfl
  · rw [(hl.inet rfl).2]
  · rw [(hl.inet6 rfl).2.1, (hl.inet6 rfl).2.2]

theorem wp_searchLiteral {Q : Unit → St → Prop} {E : Eai → St → Prop} {X : Exit → Prop}
    (hl : Literal env host family addr) (hf : family = AF_INET ∨ family = AF_INET6)
    (hadm : hints.aiFamily = family ∨ hints.aiFamily = AF_UNSPEC) (hostname : Option CString)
    (nsearch : ℕ) (h : (gaAistruct env hints addr family).wp Q E X st) :
    (searchLoop env hostname hints nsearch (searchEntries hints.aiFamily host host)).wp Q E X st := by
  have hstep := hl.searchStep hf hadm hostname nsearch
  rcases hadm with hfam | hfam
  · -- one search, for the family of the literal
    have hsearch : searchEntries family host host = [⟨host, family⟩] := by
      rcases hf with rfl | rfl <;> rfl
    rw [hfam, hsearch, searchLoop, hstep, if_pos rfl, Prog.wp_bind]
    exact h
  · -- two searches, IPv6 first; the one for the other family is skipped
    have hsearch : searchEntries AF_UNSPEC host host = [⟨host, AF_INET6⟩, ⟨host, AF_INET⟩] := rfl
    rw [hfam, hsearch, searchLoop, searchLoop, hstep, hstep, Prog.wp_bind]
    rcases hf with rfl | rfl
    · rw [if_neg (by decide), if_pos rfl, Prog.wp_pure, Prog.wp_bind]
      exact h
    · rw [if_pos rfl, if_neg (by decide)]
      exact h

/-! ### The service string -/

theorem port_decimal (port : BitVec 16) :
    BitVec.ofInt 16 ((htons (BitVec.ofInt 16 (atoi (decimal (ntohs port).toNat)))).toNat : ℤ) = port := by
  have hself : ∀ v : BitVec 16, BitVec.ofInt 16 (v.toNat : ℤ) = v := fun v => by
    rw [BitVec.ofInt_natCast, BitVec.ofNat_toNat, BitVec.setWidth_eq]
  have hlt := (ntohs port).isLt
  rw [atoi_decimal (by omega), hself, hself, htons_ntohs]

/-- The node that the host search made for the address and a socket type, with the port filled in. -/
structure Answer (hints : Hints) (fam : ℤ) (addr : List Byte) (port : BitVec 16) (n : Node) : Prop where
  family : n.ai.aiFamily = fam
  socktype : n.ai.aiSocktype = hints.aiSocktype
  protocol : n.ai.aiProtocol = hints.aiProtocol
  sa : n.sa = some ⟨fam, port, addr⟩

theorem wp_gaServ_numeral {Q : Unit → St → Prop} {E : Eai → St → Prop} {X : Exit → Prop} {n : Node}
    (port : BitVec 16) (hne : hints.aiSocktype ≠ 0) (hl : Literal env host family addr)
    (hf : family = AF_INET ∨ family = AF_INET6) (hn : IsNew hints addr family n)
    (hlist : NodeList st.heap (some n.ptr) [n])
    (hfail : ∀ h' k ns', (∃ k, env.allocFails k = true) → NodeList h' (some n.ptr) ns' →
      E .memory { st with heap := h', nalloc := k })
    (hok : ∀ h' k n', Answer hints family addr port n' → NodeList h' (some n.ptr) [n'] →
      Q () { st with heap := h', nalloc := k }) :
    (gaServ env (some n.ptr) hints (decimal (ntohs port).toNat)).wp Q E X st := by
  have hinet : ∀ m ∈ [n], InetNode m := by
    intro m hm
    obtain rfl := List.mem_singleton.mp hm
    exact ⟨hn.family.symm ▸ hf, hn.hasAddr⟩
  have hflag : n.ai.aiFlags &&& AI_CLONE = 0 := by
    rw [hn.flags, if_neg hne]
    decide
  rw [gaServ, Prog.wp_bind, gaServFound, if_pos (isdigit_firstByte_decimal _), if_pos hne, gaPortOrMemory,
    Prog.wp_bind]
  refine wp_gaPort hinet hlist (fun h' k ns' hf' hl' _ => hfail h' k ns' hf' hl') ?_
  intro h' k ns' c hp hl' _
  cases hp with
  | skip _ hsock _ => exact absurd hn.socktype hsock
  | clone _ _ hflag' _ _ => exact absurd hflag hflag'
  | fill _ hp =>
    cases hp
    refine hok h' k (filled _ hints.aiSocktype n) ⟨hn.family, rfl, hn.protocol, ?_⟩ hl'
    show n.sa.map _ = _
    rw [hn.sa, hl.newSa hf, Option.map_some, port_decimal]

/-! ### The round trip -/

theorem gaNsearch_host (hne : host ≠ [])
    (hfam : hints.aiFamily = AF_INET ∨ hints.aiFamily = AF_INET6 ∨ hints.aiFamily = AF_UNSPEC) :
    gaNsearch (some host) hints = pure (searchEntries hints.aiFamily host host) := by
  have hlen : (searchEntries hints.aiFamily host host).length = 1 ∨
      (searchEntries hints.aiFamily host host).length = 2 := searchEntries_length hfam
  have hempty : ¬ isNullOrEmpty (some host) = true := by simpa [isNullOrEmpty] using hne
  unfold gaNsearch
  rw [if_neg hempty, Option.getD_some]
  exact if_neg (by omega)

theorem isUnixCase_of_slash (hslash : firstByte host ≠ 47) (servname : Option CString) :
    isUnixCase (some host) servname = false := by
  have hlocal : host ≠ cstr "/local" := by
    rintro rfl
    exact hslash (by decide)
  have hunix : host ≠ cstr "/unix" := by
    rintro rfl
    exact hslash (by decide)
  simp [isUnixCase, hlocal, hunix]

theorem inet_or_unspec (hf : family = AF_INET ∨ family = AF_INET6)
    (hadm : hints.aiFamily = family ∨ hints.aiFamily = AF_UNSPEC) :
    hints.aiFamily = AF_INET ∨ hints.aiFamily = AF_INET6 ∨ hints.aiFamily = AF_UNSPEC := by
  rcases hadm with h | h
  · rw [h]
    exact hf.imp_right .inl
  · exact .inr (.inr h)

theorem wp_getaddrinfoInet_literal (port : BitVec 16) (hflags : hints.aiFlags = 0)
    (hne : hints.aiSocktype ≠ 0) (hl : Literal env host family addr)
    (hf : family = AF_INET ∨ family = AF_INET6)
    (hadm : hints.aiFamily = family ∨ hints.aiFamily = AF_UNSPEC) (hb : Built st []) :
    (getaddrinfoInet env (some host) (some (decimal (ntohs port).toNat)) hints).wp
      (fun head st' => ∃ n, NodeList st'.heap (some head) [n] ∧ Answer hints family addr port n ∧
        st'.nquery = st.nquery)
      (fun e st' => (e = .memory ∧ ∃ k, env.allocFails k = true) ∧ Freeable st') (fun _ => False) st := by
  have hserv : ¬ isNullOrEmpty (some (decimal (ntohs port).toNat)) = true := by
    simpa [isNullOrEmpty] using decimal_ne_nil _
  have hcanon : wantsCanon (some host) hints = false := by
    rw [wantsCanon, hflags, Bool.and_eq_false_iff]
    exact .inr (by decide)
  rw [getaddrinfoInet, gaNsearch_host hl.ne_nil (inet_or_unspec hf hadm), Prog.wp_bind, Prog.wp_pure,
    Prog.wp_bind]
  refine wp_searchLiteral hl hf hadm _ _ (wp_gaAistruct hb (hf.imp_right .inl) ?_ ?_)
  · intro st₁ n hb₁ hn hkept _
    have hlist := hb₁.list
    obtain ⟨hhead, -⟩ := hlist.seg
    have hhead : st₁.aihead = some n.ptr := hhead
    rw [hhead] at hlist
    rw [Prog.wp_bind, Prog.wp_get, hhead]
    dsimp only
    rw [Prog.wp_bind, setCanon, hcanon, if_neg Bool.false_ne_true, Prog.wp_pure, Prog.wp_bind, processServ,
      if_neg hserv, Option.getD_some]
    refine wp_gaServ_numeral port hne hl hf hn hlist ?_ ?_
    · intro h' k ns' hfail hl'
      exact ⟨⟨rfl, hfail⟩, ns', hhead.symm ▸ hl'⟩
    · intro h' k n' hans hl'
      exact ⟨n', hl', hans, hkept.nquery⟩
  · intro e st₁ ns' herr hb₁ _ _
    refine ⟨?_, ns', hb₁.list⟩
    rcases herr with ⟨he, hfail⟩ | ⟨-, hlocal, -⟩
    · exact ⟨he, hfail⟩
    · rcases hf with h | h <;> rw [h] at hlocal <;> exact absurd hlocal (by decide)

theorem wp_getaddrinfo_literal (port : BitVec 16) (hflags : hints.aiFlags = 0)
    (htype : hints.aiSocktype = SOCK_STREAM ∨ hints.aiSocktype = SOCK_DGRAM)
    (hl : Literal env host family addr) (hf : family = AF_INET ∨ family = AF_INET6)
    (hadm : hints.aiFamily = family ∨ hints.aiFamily = AF_UNSPEC) (st : St) :
    (getaddrinfo env (some host) (some (decimal (ntohs port).toNat)) (some hints)).wp
      (fun head st' => ∃ n, NodeList st'.heap (some head) [n] ∧ Answer hints family addr port n ∧
        st'.nquery = st.nquery)
      (fun e _ => e = .memory ∧ ∃ k, env.allocFails k = true) (fun _ => False) st := by
  have hne : hints.aiSocktype ≠ 0 := by
    rcases htype with h | h <;> rw [h] <;> decide
  have hcheck : gaEcheck (some host) (some (decimal (ntohs port).toNat)) hints.aiFlags hints.aiFamily
      hints.aiSocktype hints.aiProtocol = none := by
    have hnames : ¬ (isNullOrEmpty (some host) ∧ isNullOrEmpty (some (decimal (ntohs port).toNat))) := by
      rintro ⟨h, -⟩
      simp [isNullOrEmpty, hl.ne_nil] at h
    refine gaEcheck_eq_none_iff.mpr ⟨by rw [hflags]; decide, hnames, ?_⟩
    rcases inet_or_unspec hf hadm with h | h | h
    · exact .inr (.inl ⟨.inl h, by tauto⟩)
    · exact .inr (.inl ⟨.inr h, by tauto⟩)
    · exact .inl h
  have hb : Built { st with aihead := none, aipnext := .head, canon := none } [] :=
    ⟨⟨rfl, by simp⟩, rfl⟩
  rw [getaddrinfo, Prog.wp_bind, Prog.wp_modify]
  dsimp only [hintsOf, Option.getD_some]
  rw [hcheck]
  dsimp only
  rw [isUnixCase_of_slash hl.slash, if_neg Bool.false_ne_true, Prog.wp_onError]
  refine Prog.wp_mono (wp_getaddrinfoInet_literal port hflags hne hl hf hadm hb) (fun _ _ h => h) ?_
    (fun _ h => h)
  rintro e st' ⟨herr, ns, hlist⟩
  rw [Prog.wp_bind, Prog.wp_get]
  exact wp_freeaddrinfo hlist fun _ _ _ => herr

theorem getnameinfo_numeric (hp : Presentation env nenv family addr host) (ha : InetAddr family addr)
    (port : BitVec 16) :
    getnameinfo nenv ⟨family, port, addr⟩ NI_MAXHOST NI_MAXSERV (NI_NUMERICHOST ||| NI_NUMERICSERV) =
      some (some host, some (decimal (ntohs port).toNat)) := by
  have hserv : snprintf NI_MAXSERV (decimal (ntohs port).toNat) = decimal (ntohs port).toNat := by
    have hlen : (decimal (ntohs port).toNat).length ≤ 5 := by
      refine decimal_length (by decide) ?_
      have hlt := (ntohs port).isLt
      omega
    refine List.take_of_length_le (le_trans hlen ?_)
    decide
  have hipv46 : gnIpv46 nenv NI_MAXHOST NI_MAXSERV addr family port (NI_NUMERICHOST ||| NI_NUMERICSERV) =
      some (some host, some (decimal (ntohs port).toNat)) := by
    rw [gnIpv46, if_pos (by decide), if_pos (by decide), gnHost, if_pos (by decide),
      hp.ntop NI_MAXHOST (by decide), gnServ, if_pos (by decide), hserv]
    rfl
  unfold getnameinfo
  rcases ha with ⟨rfl, -⟩ | ⟨rfl, -⟩
  · rw [if_pos rfl]
    exact hipv46
  · rw [if_neg (show ¬ AF_INET6 = AF_INET by decide), if_pos rfl]
    exact hipv46

/-- **`getaddrinfo` undoes numeric `getnameinfo`.** For every Internet socket address the two strings are
written, and looking them up gives one node with the same family, address and port, without a query;
the only other outcome is `EAI_MEMORY`, when an allocation fails. -/
theorem getaddrinfo_getnameinfo {env : Env} {nenv : NameEnv} {family : ℤ} {addr : List Byte}
    {text : CString} (hp : Presentation env nenv family addr text) (ha : InetAddr family addr)
    (port : BitVec 16) (hints : Hints) (hflags : hints.aiFlags = 0)
    (hadm : hints.aiFamily = family ∨ hints.aiFamily = AF_UNSPEC)
    (htype : hints.aiSocktype = SOCK_STREAM ∨ hints.aiSocktype = SOCK_DGRAM) (st : St) :
    ∃ host serv,
      getnameinfo nenv ⟨family, port, addr⟩ NI_MAXHOST NI_MAXSERV (NI_NUMERICHOST ||| NI_NUMERICSERV) =
        some (some host, some serv) ∧
      ((∃ head st' n, getaddrinfo env (some host) (some serv) (some hints) st = .ok head st' ∧
          NodeList st'.heap (some head) [n] ∧ n.ai.aiFamily = family ∧
          n.sa = some ⟨family, port, addr⟩ ∧ st'.nquery = st.nquery) ∨
        (∃ k, env.allocFails k = true) ∧
          ∃ st', getaddrinfo env (some host) (some serv) (some hints) st = .error .memory st') := by
  have hl := hp.literal ha
  have hf : family = AF_INET ∨ family = AF_INET6 := ha.imp And.left And.left
  have hwp := wp_getaddrinfo_literal port hflags htype hl hf hadm st
  refine ⟨text, _, getnameinfo_numeric hp ha port, ?_⟩
  rw [Prog.wp] at hwp
  cases hrun : getaddrinfo env (some text) (some (decimal (ntohs port).toNat)) (some hints) st with
  | ok head st' =>
    rw [hrun] at hwp
    obtain ⟨n, hlist, hans, hquery⟩ := hwp
    exact .inl ⟨head, st', n, rfl, hlist, hans.family, hans.sa, hquery⟩
  | error e st' =>
    rw [hrun] at hwp
    obtain ⟨rfl, hfail⟩ := hwp
    exact .inr ⟨hfail, st', rfl⟩
  | exit x =>
    rw [hrun] at hwp
    exact hwp.elim

/-- The text of `1.2.3.4` and of `2001:db8::1`. -/
def sampleNames : NameEnv where
  inetNtop family addr size :=
    if family = AF_INET ∧ addr = [1, 2, 3, 4] ∧ 8 ≤ size then some (cstr "1.2.3.4")
    else if family = AF_INET6 ∧ addr = sampleAddr6 ∧ 12 ≤ size then some (cstr "2001:db8::1")
    else none
  gethostbyaddr _ _ := none
  getservbyport _ _ := none

/-- Port 80 of `1.2.3.4`, and of `2001:db8::1`, whose text starts with a digit. -/
theorem getaddrinfo_getnameinfo_samples :
    (∃ host serv,
      getnameinfo sampleNames ⟨AF_INET, htons 80, [1, 2, 3, 4]⟩ NI_MAXHOST NI_MAXSERV
        (NI_NUMERICHOST ||| NI_NUMERICSERV) = some (some host, some serv) ∧
      ((∃ head st' n, getaddrinfo sampleEnv (some host) (some serv) (some ⟨0, AF_INET, SOCK_STREAM, 0⟩)
            .start = .ok head st' ∧
          NodeList st'.heap (some head) [n] ∧ n.ai.aiFamily = AF_INET ∧
          n.sa = some ⟨AF_INET, htons 80, [1, 2, 3, 4]⟩ ∧ st'.nquery = St.start.nquery) ∨
        (∃ k, sampleEnv.allocFails k = true) ∧
          ∃ st', getaddrinfo sampleEnv (some host) (some serv) (some ⟨0, AF_INET, SOCK_STREAM, 0⟩)
            .start = .error .memory st')) ∧
    ∃ host serv,
      getnameinfo sampleNames ⟨AF_INET6, htons 80, sampleAddr6⟩ NI_MAXHOST NI_MAXSERV
        (NI_NUMERICHOST ||| NI_NUMERICSERV) = some (some host, some serv) ∧
      ((∃ head st' n, getaddrinfo sampleEnv (some host) (some serv) (some ⟨0, AF_UNSPEC, SOCK_DGRAM, 0⟩)
            .start = .ok head st' ∧
          NodeList st'.heap (some head) [n] ∧ n.ai.aiFamily = AF_INET6 ∧
          n.sa = some ⟨AF_INET6, htons 80, sampleAddr6⟩ ∧ st'.nquery = St.start.nquery) ∨
        (∃ k, sampleEnv.allocFails k = true) ∧
          ∃ st', getaddrinfo sampleEnv (some host) (some serv) (some ⟨0, AF_UNSPEC, SOCK_DGRAM, 0⟩)
            .start = .error .memory st') := by
  have h4 : Presentation sampleEnv sampleNames AF_INET [1, 2, 3, 4] (cstr "1.2.3.4") := by
    refine ⟨fun size hsize => ?_, by decide, by decide, by decide⟩
    exact if_pos ⟨rfl, rfl, by omega⟩
  have h6 : Presentation sampleEnv sampleNames AF_INET6 sampleAddr6 (cstr "2001:db8::1") := by
    refine ⟨fun size hsize => ?_, by decide, by decide, by decide⟩
    have hne : ¬ (AF_INET6 = AF_INET ∧ sampleAddr6 = [1, 2, 3, 4] ∧ 8 ≤ size) := fun h =>
      absurd h.1 (by decide)
    unfold sampleNames
    dsimp only
    rw [if_neg hne]
    exact if_pos ⟨rfl, rfl, by omega⟩
  exact ⟨getaddrinfo_getnameinfo h4 (.inl ⟨rfl, rfl⟩) (htons 80) ⟨0, AF_INET, SOCK_STREAM, 0⟩ rfl (.inl rfl)
      (.inl rfl) .start,
    getaddrinfo_getnameinfo h6 (.inr ⟨rfl, rfl⟩) (htons 80) ⟨0, AF_UNSPEC, SOCK_DGRAM, 0⟩ rfl (.inr rfl)
      (.inr rfl) .start⟩

end UnixNetProg.Libgai
