import UnixNetProg.Libgai.Port

/-!
# Numeric service strings

A service string that starts with a digit is a port number: `ga_serv` passes `htons(atoi(serv))` to
`ga_port`, once with the socket type of the hints, or for stream and for datagram sockets. Nothing looks at
what follows the digits, and `htons` takes the low 16 bits of the value.

The list is built by any calls of `ga_aistruct`, each with hints of its own. `ServFails` says when `ga_serv`
fails whatever the string: no node has a socket type that is asked for, or a clone cannot be allocated.
-/

namespace UnixNetProg.Libgai

open Lib

variable {env : Env} {st st₁ : St} {hintsp : Hints} {serv : CString} {n : Node} {ns ns' : List Node}
  {port socktype : ℤ} {k : ℕ} {E : Eai → St → Prop} {X : Exit → Prop}

/-- The arguments of one call of `ga_aistruct`. -/
structure AiCall where
  hints : Hints
  addr : List Byte
  family : ℤ
  inet : family = AF_INET ∨ family = AF_INET6

variable (env) in
/-- Build a list. -/
def aistructs : List AiCall → GaM Unit
  | [] => pure ()
  | c :: calls => do
    gaAistruct env c.hints c.addr c.family
    aistructs calls

/-! ### The property -/

/-- The string is a decimal numeral of `p`: digits, and nothing after them. -/
def IsNumeral (serv : CString) (p : ℕ) : Prop :=
  serv ≠ [] ∧ (∀ c ∈ serv, isdigit c = true) ∧ digitsValue serv = p

/-- The string is the numeral of a port. -/
def IsPort (serv : CString) : Prop := ∃ p ≤ 65535, IsNumeral serv p

/-- The socket types that `ga_port` is called with. -/
def servTypes (hintsp : Hints) : List ℤ :=
  if hintsp.aiSocktype = 0 then [SOCK_STREAM, SOCK_DGRAM] else [hintsp.aiSocktype]

/-- The node carries the port in its socket address. -/
def HasPort (port : BitVec 16) (n : Node) : Prop := n.sa.map SockAddr.saPort = some port

/-- `ga_serv` has returned an error code, or the string is a port and every node with a socket type that
was asked for carries it in network byte order. -/
def PortsOk (serv : CString) (aihead : Option ℕ) (hintsp : Hints) : Outcome Eai Exit St Unit → Prop
  | .ok _ st' => ∃ p ≤ 65535, IsNumeral serv p ∧ ∃ ns, NodeList st'.heap aihead ns ∧
      ∀ n ∈ ns, n.ai.aiSocktype ∈ servTypes hintsp → HasPort (htons (BitVec.ofNat 16 p)) n
  | .error _ _ => True
  | .exit _ => False

/-- A call made for any socket type, whose node takes the first that comes. -/
def AiCall.anyType (c : AiCall) : Bool := c.hints.aiSocktype == 0

/-- The node of the call has one of the socket types, or can take it. -/
def AiCall.Matches (types : List ℤ) (c : AiCall) : Prop :=
  c.anyType = true ∨ c.hints.aiSocktype ∈ types

variable (env) in
/-- `ga_serv` fails whatever the port; `nalloc` allocations have been made before it. -/
def ServFails (hintsp : Hints) (calls : List AiCall) (nalloc : ℕ) : Prop :=
  (∀ c ∈ calls, ¬ c.Matches (servTypes hintsp)) ∨
    hintsp.aiSocktype = 0 ∧ ¬ AllocsOk env nalloc (2 * calls.countP AiCall.anyType)

/-! ### The list -/

theorem wp_aistructs {calls : List AiCall} (hb : Built st ns) :
    (aistructs env calls).wp
      (fun _ st' => ∃ ms, Built st' (ns ++ ms) ∧
        List.Forall₂ (fun c n => IsNew c.hints c.addr c.family n) calls ms)
      (fun _ _ => True) (fun _ => False) st := by
  induction calls generalizing st ns with
  | nil =>
    refine ⟨[], ?_, .nil⟩
    rw [List.append_nil]
    exact hb
  | cons c calls ih =>
    rw [aistructs, Prog.wp_bind]
    refine wp_gaAistruct hb (c.inet.imp_right .inl) ?_ (fun _ _ _ _ _ _ _ => trivial)
    intro st' n hb' hnew _ _
    refine Prog.wp_mono (ih hb') ?_ (fun _ _ h => h) (fun _ h => h)
    rintro _ st'' ⟨ms, hb'', hms⟩
    rw [List.append_assoc] at hb''
    exact ⟨n :: ms, hb'', .cons hnew hms⟩

/-! ### The passes -/

/-- A node after passes for the socket types `done`, with the port `port`. -/
structure Passed (done : List ℤ) (port : BitVec 16) (n : Node) : Prop where
  inet : InetNode n
  hasSa : n.sa ≠ none
  used : isUsed n = true → n.ai.aiSocktype ∈ done
  ported : n.ai.aiSocktype ∈ done → HasPort port n

theorem hasPort_filled (hsa : n.sa ≠ none) : HasPort (BitVec.ofInt 16 port) (filled port socktype n) := by
  obtain ⟨sa, hsome⟩ := Option.ne_none_iff_exists'.mp hsa
  simp [HasPort, filled, hsome]

theorem filled_passed {done : List ℤ} (hin : InetNode n) (hsa : n.sa ≠ none) :
    Passed (socktype :: done) (BitVec.ofInt 16 port) (filled port socktype n) := by
  refine ⟨hin, ?_, fun _ => List.mem_cons_self, fun _ => hasPort_filled hsa⟩
  rw [filled]
  simp [hsa]

theorem PortPass.passed {done : List ℤ} (hp : PortPass port socktype ns ns' k)
    (hns : ∀ n ∈ ns, Passed done (BitVec.ofInt 16 port) n) :
    ∀ n ∈ ns', Passed (socktype :: done) (BitVec.ofInt 16 port) n := by
  induction hp with
  | nil => exact nofun
  | @skip n ns ns' k hflag hne hpass ih =>
    obtain ⟨hn, hrest⟩ := List.forall_mem_cons.mp hns
    refine List.forall_mem_cons.mpr ⟨⟨hn.inet, hn.hasSa, ?_, ?_⟩, ih hrest⟩
    · exact fun hused => List.mem_cons_of_mem _ (hn.used hused)
    · exact fun hmem => hn.ported ((List.mem_cons.mp hmem).resolve_left hne)
  | @fill n ns ns' k h hpass ih =>
    obtain ⟨hn, hrest⟩ := List.forall_mem_cons.mp hns
    exact List.forall_mem_cons.mpr ⟨filled_passed hn.inet hn.hasSa, ih hrest⟩
  | @clone n ns ns' k p a hflag hne hpass ih =>
    obtain ⟨hn, hrest⟩ := List.forall_mem_cons.mp hns
    have hdone := hn.used (isUsed_iff.mpr ⟨hflag, hne⟩)
    refine List.forall_mem_cons.mpr ⟨⟨hn.inet, hn.hasSa, ?_, ?_⟩, List.forall_mem_cons.mpr ⟨?_, ih hrest⟩⟩
    · exact fun _ => List.mem_cons_of_mem _ hdone
    · exact fun _ => hn.ported hdone
    · exact filled_passed ⟨hn.inet.1, nofun⟩ hn.hasSa

theorem PortPass.pos_iff (hp : PortPass port socktype ns ns' k) :
    0 < k ↔ ∃ n ∈ ns, n.ai.aiFlags &&& AI_CLONE ≠ 0 ∨ n.ai.aiSocktype = socktype := by
  induction hp with
  | nil => simp
  | @skip n ns ns' k hflag hne hpass ih =>
    rw [ih, List.exists_mem_cons_iff, or_iff_right]
    exact fun h => h.elim (fun hne' => hne' hflag) hne
  | @fill n ns ns' k h hpass ih =>
    refine ⟨fun _ => ⟨n, List.mem_cons_self, ?_⟩, fun _ => Nat.succ_pos k⟩
    by_cases hflag : n.ai.aiFlags &&& AI_CLONE = 0
    · rw [if_pos hflag] at h
      exact .inr h
    · exact .inl hflag
  | @clone n ns ns' k p a hflag hne hpass ih =>
    exact ⟨fun _ => ⟨n, List.mem_cons_self, .inl hflag⟩, fun _ => Nat.succ_pos k⟩

theorem PortPass.eq_of_zero (hp : PortPass port socktype ns ns' 0) : ns' = ns := by
  generalize hk : 0 = k at hp
  induction hp with
  | nil => rfl
  | @skip n ns ns' k hflag hne hpass ih => rw [ih hk]
  | @fill n ns ns' k h hpass ih => exact absurd hk (Nat.succ_ne_zero k).symm
  | @clone n ns ns' k p a hflag hne hpass ih => exact absurd hk (Nat.succ_ne_zero k).symm

theorem PortPass.count_used (htype : socktype ≠ 0) (hp : PortPass port socktype ns ns' k)
    (hns : ∀ n ∈ ns, isUsed n = false) :
    ns'.countP isUsed = ns.countP fun n => n.ai.aiFlags &&& AI_CLONE != 0 := by
  induction hp with
  | nil => rfl
  | @skip n ns ns' k hflag hne hpass ih =>
    obtain ⟨hn, hrest⟩ := List.forall_mem_cons.mp hns
    rw [List.countP_cons_of_neg (by simp [hn]), List.countP_cons_of_neg (by simp [hflag]), ih hrest]
  | @fill n ns ns' k h hpass ih =>
    obtain ⟨hn, hrest⟩ := List.forall_mem_cons.mp hns
    have hsame : isUsed (filled port socktype n) = (n.ai.aiFlags &&& AI_CLONE != 0) := by
      simp [isUsed, filled, htype]
    rw [List.countP_cons, List.countP_cons, hsame, ih hrest]
  | @clone n ns ns' k p a hflag hne hpass ih =>
    have hused : isUsed n = true := isUsed_iff.mpr ⟨hflag, hne⟩
    exact absurd (hused.symm.trans (hns n List.mem_cons_self)) (by decide)

/-! ### The nodes of `ga_aistruct` -/

/-- The node of each call, in order. -/
def NodesFor (calls : List AiCall) (ns : List Node) : Prop :=
  List.Forall₂ (fun c n => IsNew c.hints c.addr c.family n) calls ns

section Nodes

variable {calls : List AiCall}

theorem IsNew.clone_flag {c : AiCall} (h : IsNew c.hints c.addr c.family n) :
    (n.ai.aiFlags &&& AI_CLONE != 0) = c.anyType := by
  rw [h.flags, AiCall.anyType]
  by_cases htype : c.hints.aiSocktype = 0
  · rw [if_pos htype, htype]
    decide
  · rw [if_neg htype, beq_eq_false_iff_ne.mpr htype]
    decide

theorem IsNew.not_isUsed {c : AiCall} (h : IsNew c.hints c.addr c.family n) : isUsed n = false := by
  rw [isUsed, h.clone_flag, h.socktype, AiCall.anyType]
  by_cases htype : c.hints.aiSocktype = 0
  · simp [htype]
  · simp [htype]

theorem NodesFor.passed (h : NodesFor calls ns) (port : BitVec 16) : ∀ n ∈ ns, Passed [] port n := by
  induction h with
  | nil => exact nofun
  | @cons c n calls ns hnew hrest ih =>
    refine List.forall_mem_cons.mpr ⟨⟨⟨?_, hnew.hasAddr⟩, ?_, ?_, nofun⟩, ih⟩
    · rw [hnew.family]
      exact c.inet
    · rw [hnew.sa]
      exact nofun
    · intro hused
      exact absurd (hused.symm.trans hnew.not_isUsed) (by decide)

theorem NodesFor.not_isUsed (h : NodesFor calls ns) : ∀ n ∈ ns, isUsed n = false := by
  induction h with
  | nil => exact nofun
  | cons hnew hrest ih => exact List.forall_mem_cons.mpr ⟨hnew.not_isUsed, ih⟩

theorem NodesFor.passAllocs_eq (h : NodesFor calls ns) : passAllocs ns = 0 := by
  have hzero : ns.countP isUsed = 0 := by
    rw [List.countP_eq_zero]
    intro n hn
    rw [h.not_isUsed n hn]
    exact Bool.false_ne_true
  rw [passAllocs, hzero]

theorem NodesFor.count_clone (h : NodesFor calls ns) :
    (ns.countP fun n => n.ai.aiFlags &&& AI_CLONE != 0) = calls.countP AiCall.anyType := by
  induction h with
  | nil => rfl
  | @cons c n calls ns hnew hrest ih => rw [List.countP_cons, List.countP_cons, ih, hnew.clone_flag]

theorem NodesFor.exists_match (h : NodesFor calls ns) (socktype : ℤ) :
    (∃ n ∈ ns, n.ai.aiFlags &&& AI_CLONE ≠ 0 ∨ n.ai.aiSocktype = socktype) ↔
      ∃ c ∈ calls, c.anyType = true ∨ c.hints.aiSocktype = socktype := by
  induction h with
  | nil => simp
  | @cons c n calls ns hnew hrest ih =>
    rw [List.exists_mem_cons_iff, List.exists_mem_cons_iff, ih, ← hnew.clone_flag, bne_iff_ne, hnew.socktype]

end Nodes

/-! ### `ga_serv` -/

theorem wp_gaPortOrMemory_counts {Q : ℕ → St → Prop} {p : Option ℕ} (hin : ∀ n ∈ ns, InetNode n)
    (hl : NodeList st.heap p ns) (hfail : ∀ st', ¬ AllocsOk env st.nalloc (passAllocs ns) → E .memory st')
    (hok : ∀ h' ns' c, AllocsOk env st.nalloc (passAllocs ns) → PortPass port socktype ns ns' c →
      NodeList h' p ns' → Q c { st with heap := h', nalloc := st.nalloc + passAllocs ns }) :
    (gaPortOrMemory env p port socktype).wp Q E X st := by
  rw [gaPortOrMemory, Prog.wp_bind]
  refine wp_gaPort_counts hin hl ?_ ?_
  · intro h' k ns' hf _ _
    exact hfail _ hf
  · intro h' ns' c hall hp hl' _
    exact hok h' ns' c hall hp hl'

/-- What the calls of `ga_port` leave, and whether they found a node. -/
structure Found (hintsp : Hints) (calls : List AiCall) (port : BitVec 16) (p : Option ℕ) (nfound : ℕ) (st' : St) :
    Prop where
  list : ∃ ns, NodeList st'.heap p ns ∧ ∀ n ∈ ns, Passed (servTypes hintsp) port n
  none_iff : nfound = 0 ↔ ∀ c ∈ calls, ¬ c.Matches (servTypes hintsp)

theorem NodesFor.zero_iff {calls : List AiCall} (h : NodesFor calls ns)
    (hp : PortPass port socktype ns ns' k) : k = 0 ↔ ∀ c ∈ calls, ¬ c.Matches [socktype] := by
  have hpos := hp.pos_iff
  rw [h.exists_match] at hpos
  simp only [AiCall.Matches, List.mem_singleton]
  constructor
  · intro hk c hc hmatch
    have := hpos.mpr ⟨c, hc, hmatch⟩
    omega
  · intro hall
    by_contra hk
    obtain ⟨c, hc, hmatch⟩ := hpos.mp (Nat.pos_of_ne_zero hk)
    exact hall c hc hmatch

theorem wp_gaServ_one {calls : List AiCall} {p : Option ℕ} (htype : hintsp.aiSocktype ≠ 0)
    (hns : NodesFor calls ns) (hl : NodeList st.heap p ns) :
    (gaPortOrMemory env p port hintsp.aiSocktype).wp (Found hintsp calls (BitVec.ofInt 16 port) p)
      (fun _ _ => False) (fun _ => False) st := by
  have hpassed := hns.passed (BitVec.ofInt 16 port)
  have hnone : AllocsOk env st.nalloc (passAllocs ns) := by
    rw [hns.passAllocs_eq]
    exact nofun
  have htypes : servTypes hintsp = [hintsp.aiSocktype] := if_neg htype
  refine wp_gaPortOrMemory_counts (fun n hn => (hpassed n hn).inet) hl (fun _ hf => absurd hnone hf) ?_
  intro h' ns' c _ hp hl'
  refine ⟨⟨ns', hl', ?_⟩, ?_⟩
  · rw [htypes]
    exact hp.passed hpassed
  · rw [htypes]
    exact hns.zero_iff hp

theorem NodesFor.both_zero_iff {calls : List AiCall} (h : NodesFor calls ns) {ns₁ ns₂ : List Node} {k₁ k₂ : ℕ}
    (hp₁ : PortPass port SOCK_STREAM ns ns₁ k₁) (hp₂ : PortPass port SOCK_DGRAM ns₁ ns₂ k₂) :
    k₁ + k₂ = 0 ↔ ∀ c ∈ calls, ¬ c.Matches [SOCK_STREAM, SOCK_DGRAM] := by
  have hsplit : ∀ c : AiCall, c.Matches [SOCK_STREAM, SOCK_DGRAM] ↔
      c.Matches [SOCK_STREAM] ∨ c.Matches [SOCK_DGRAM] := by
    intro c
    simp only [AiCall.Matches, List.mem_cons, List.not_mem_nil, or_false]
    tauto
  have hfirst := h.zero_iff hp₁
  constructor
  · intro hk c hc hmatch
    obtain rfl : k₁ = 0 := by omega
    obtain rfl : k₂ = 0 := by omega
    obtain rfl := hp₁.eq_of_zero
    rcases (hsplit c).mp hmatch with hm | hm
    · exact hfirst.mp rfl c hc hm
    · exact (h.zero_iff hp₂).mp rfl c hc hm
  · intro hall
    obtain rfl : k₁ = 0 := hfirst.mpr fun c hc hm => hall c hc ((hsplit c).mpr (.inl hm))
    obtain rfl := hp₁.eq_of_zero
    obtain rfl : k₂ = 0 := (h.zero_iff hp₂).mpr fun c hc hm => hall c hc ((hsplit c).mpr (.inr hm))
    rfl

/-- The caller has given no socket type: a pass for stream sockets, and one for datagram sockets that clones
the nodes of the first. -/
theorem wp_gaServ_both {calls : List AiCall} {p : Option ℕ} (htype : hintsp.aiSocktype = 0)
    (hns : NodesFor calls ns) (hl : NodeList st.heap p ns) :
    (do
      let rc ← gaPortOrMemory env p port SOCK_STREAM
      let rc' ← gaPortOrMemory env p port SOCK_DGRAM
      return rc + rc' : GaM ℕ).wp
      (fun nfound st' => AllocsOk env st.nalloc (2 * calls.countP AiCall.anyType) ∧
        Found hintsp calls (BitVec.ofInt 16 port) p nfound st')
      (fun _ _ => ¬ AllocsOk env st.nalloc (2 * calls.countP AiCall.anyType)) (fun _ => False) st := by
  have hpassed := hns.passed (BitVec.ofInt 16 port)
  have hnone : AllocsOk env st.nalloc (passAllocs ns) := by
    rw [hns.passAllocs_eq]
    exact nofun
  have htypes : servTypes hintsp = [SOCK_STREAM, SOCK_DGRAM] := if_pos htype
  rw [Prog.wp_bind]
  refine wp_gaPortOrMemory_counts (fun n hn => (hpassed n hn).inet) hl (fun _ hf => absurd hnone hf) ?_
  intro h₁ ns₁ k₁ _ hp₁ hl₁
  have hpassed₁ := hp₁.passed hpassed
  have hallocs : passAllocs ns₁ = 2 * calls.countP AiCall.anyType := by
    rw [passAllocs, hp₁.count_used (by decide) hns.not_isUsed, hns.count_clone]
  rw [hns.passAllocs_eq, Nat.add_zero, Prog.wp_bind]
  refine wp_gaPortOrMemory_counts (fun n hn => (hpassed₁ n hn).inet) hl₁ ?_ ?_
  · intro st' hf
    rw [hallocs] at hf
    exact hf
  · intro h₂ ns₂ k₂ hall hp₂ hl₂
    rw [hallocs] at hall
    refine ⟨hall, ⟨ns₂, hl₂, fun n hn => ?_⟩, ?_⟩
    · have hn₂ := hp₂.passed hpassed₁ n hn
      have hmem : n.ai.aiSocktype ∈ servTypes hintsp ↔ n.ai.aiSocktype ∈ [SOCK_DGRAM, SOCK_STREAM] := by
        rw [htypes]
        simp [or_comm]
      exact ⟨hn₂.inet, hn₂.hasSa, fun hused => hmem.mpr (hn₂.used hused), fun hm => hn₂.ported (hmem.mp hm)⟩
    · rw [htypes]
      exact hns.both_zero_iff hp₁ hp₂

/-- **What `ga_serv` does with a string that starts with a digit**: it fails as `ServFails` says, or every node
with a socket type that is asked for carries the low 16 bits of the value. -/
theorem wp_gaServ_digits {calls : List AiCall} {p : Option ℕ} (hdigit : isdigit (firstByte serv) = true)
    (hns : NodesFor calls ns) (hl : NodeList st.heap p ns) :
    (gaServ env p hintsp serv).wp
      (fun _ st' => ¬ ServFails env hintsp calls st.nalloc ∧ ∃ ns', NodeList st'.heap p ns' ∧
        ∀ n ∈ ns', n.ai.aiSocktype ∈ servTypes hintsp → HasPort (htons (BitVec.ofInt 16 (atoi serv))) n)
      (fun _ _ => ServFails env hintsp calls st.nalloc) (fun _ => False) st := by
  have hport : BitVec.ofInt 16 ((htons (BitVec.ofInt 16 (atoi serv))).toNat : ℤ) =
      htons (BitVec.ofInt 16 (atoi serv)) := by
    rw [BitVec.ofInt_natCast, BitVec.ofNat_toNat, BitVec.setWidth_eq]
  -- the end of the function
  have hend : ∀ nfound st', Found hintsp calls (htons (BitVec.ofInt 16 (atoi serv))) p nfound st' →
      (hintsp.aiSocktype = 0 → AllocsOk env st.nalloc (2 * calls.countP AiCall.anyType)) →
      (if nfound = 0 then if hintsp.aiSocktype = 0 then Prog.throw .noName else Prog.throw .service
        else pure () : GaM Unit).wp
        (fun _ st' => ¬ ServFails env hintsp calls st.nalloc ∧ ∃ ns', NodeList st'.heap p ns' ∧
          ∀ n ∈ ns', n.ai.aiSocktype ∈ servTypes hintsp → HasPort (htons (BitVec.ofInt 16 (atoi serv))) n)
        (fun _ _ => ServFails env hintsp calls st.nalloc) (fun _ => False) st' := by
    intro nfound st' hfound hall
    by_cases hzero : nfound = 0
    · rw [if_pos hzero]
      have hfails : ServFails env hintsp calls st.nalloc := .inl (hfound.none_iff.mp hzero)
      by_cases htype : hintsp.aiSocktype = 0
      · rw [if_pos htype]
        exact hfails
      · rw [if_neg htype]
        exact hfails
    · rw [if_neg hzero]
      obtain ⟨ns', hl', hpassed⟩ := hfound.list
      refine ⟨fun hfails => ?_, ns', hl', fun n hn => (hpassed n hn).ported⟩
      rcases hfails with hno | ⟨htype, hf⟩
      · exact hzero (hfound.none_iff.mpr hno)
      · exact hf (hall htype)
  rw [gaServ, Prog.wp_bind, gaServFound, if_pos hdigit]
  dsimp only
  by_cases htype : hintsp.aiSocktype = 0
  · rw [if_neg (not_not_intro htype)]
    refine Prog.wp_mono (wp_gaServ_both htype hns hl) ?_ ?_ (fun _ h => h)
    · intro nfound st' h
      rw [hport] at h
      exact hend nfound st' h.2 fun _ => h.1
    · exact fun _ _ hf => .inr ⟨htype, hf⟩
  · rw [if_pos htype]
    refine Prog.wp_mono (wp_gaServ_one htype hns hl) ?_ (fun _ _ h => h.elim) (fun _ h => h)
    intro nfound st' h
    rw [hport] at h
    exact hend nfound st' h fun hzero => absurd hzero htype

/-- **Numeric service strings.** For every list built by `ga_aistruct` for Internet addresses, every hints and
every string that starts with a digit: `ga_serv` fails, or the string is the numeral of a port that all the
nodes asked for carry, exactly when the string is such a numeral, or `ga_serv` fails for another reason. -/
theorem gaServ_ports_iff {calls : List AiCall} (hhead : st.aihead = none) (hslot : st.aipnext = .head)
    (hbuild : aistructs env calls st = .ok () st₁) (hdigit : isdigit (firstByte serv) = true) (hintsp : Hints) :
    PortsOk serv st₁.aihead hintsp (gaServ env st₁.aihead hintsp serv st₁) ↔
      IsPort serv ∨ ServFails env hintsp calls st₁.nalloc := by
  have hb : Built st [] := ⟨⟨hhead, by simp⟩, hslot⟩
  have hlist : (aistructs env calls).wp _ _ _ st := wp_aistructs hb
  rw [Prog.wp, hbuild] at hlist
  obtain ⟨ns, hb₁, hns⟩ := hlist
  have hserv : (gaServ env st₁.aihead hintsp serv).wp _ _ _ st₁ := wp_gaServ_digits hdigit hns hb₁.list
  rw [Prog.wp] at hserv
  cases hout : gaServ env st₁.aihead hintsp serv st₁ with
  | ok a st₂ =>
    rw [hout] at hserv
    obtain ⟨hfits, ns', hl', hports⟩ := hserv
    rw [or_iff_left hfits]
    constructor
    · rintro ⟨p, hp, hnum, -⟩
      exact ⟨p, hp, hnum⟩
    · rintro ⟨p, hp, hnum⟩
      have hvalue : BitVec.ofInt 16 (atoi serv) = BitVec.ofNat 16 p := by
        have hdigits := hnum.2.2
        rw [atoi_of_isdigit hdigit (by omega), hdigits, BitVec.ofInt_natCast]
      rw [hvalue] at hports
      exact ⟨p, hp, hnum, ns', hl', hports⟩
  | error e st₂ =>
    rw [hout] at hserv
    exact ⟨fun _ => .inr hserv, fun _ => trivial⟩
  | exit x =>
    rw [hout] at hserv
    exact hserv.elim

theorem inet_self : AF_INET = AF_INET ∨ AF_INET = AF_INET6 := .inl rfl

/-- One IPv4 address, for stream sockets. -/
def oneStream : List AiCall := [⟨⟨0, AF_INET, SOCK_STREAM, 0⟩, [1, 2, 3, 4], AF_INET, inet_self⟩]

/-- The list for it. -/
def oneStreamList : St :=
  match aistructs sampleEnv oneStream .start with
  | .ok _ st => st
  | _ => .start

theorem gaServ_ports_sample :
    PortsOk (cstr "0080") oneStreamList.aihead ⟨0, AF_INET, SOCK_STREAM, 0⟩
      (gaServ sampleEnv oneStreamList.aihead ⟨0, AF_INET, SOCK_STREAM, 0⟩ (cstr "0080") oneStreamList) := by
  have hbuild : aistructs sampleEnv oneStream .start = .ok () oneStreamList := rfl
  refine (gaServ_ports_iff rfl rfl hbuild (by decide) _).mpr (.inl ⟨80, ?_⟩)
  exact ⟨by decide, by decide, List.all_eq_true.mp (by decide), by decide⟩

/-- What follows the digits, and what exceeds 16 bits, is dropped: `80abc` is port 80, and 65616 too. -/
theorem gaServ_ports_wrong :
    (∃ st, gaServ sampleEnv oneStreamList.aihead ⟨0, AF_INET, SOCK_STREAM, 0⟩ (cstr "80abc") oneStreamList = .ok () st ∧
      st.heap.get 1 = some (.sockaddr ⟨AF_INET, htons 80, [1, 2, 3, 4]⟩)) ∧
    (∃ st, gaServ sampleEnv oneStreamList.aihead ⟨0, AF_INET, SOCK_STREAM, 0⟩ (cstr "65616") oneStreamList = .ok () st ∧
      st.heap.get 1 = some (.sockaddr ⟨AF_INET, htons 80, [1, 2, 3, 4]⟩)) ∧
    ¬ ∀ (env : Env) (calls : List AiCall) (st st₁ : St) (serv : CString) (hintsp : Hints), st.aihead = none →
      st.aipnext = .head → aistructs env calls st = .ok () st₁ → isdigit (firstByte serv) = true →
      PortsOk serv st₁.aihead hintsp (gaServ env st₁.aihead hintsp serv st₁) := by
  refine ⟨⟨_, rfl, by decide⟩, ⟨_, rfl, by decide⟩, fun hall => ?_⟩
  obtain ⟨p, -, hnum, -⟩ := hall sampleEnv oneStream .start oneStreamList (cstr "80abc")
    ⟨0, AF_INET, SOCK_STREAM, 0⟩ rfl rfl rfl (by decide)
  exact absurd (hnum.2.1 97 (by decide)) (by decide)

end UnixNetProg.Libgai
