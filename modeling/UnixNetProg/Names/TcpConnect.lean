import UnixNetProg.Lib.Slots
import UnixNetProg.Libgai.Leak
import UnixNetProg.Libgai.Numeric

/-!
# A socket for a host and a service (`tcp_connect.c`, `tcp_listen.c`, `udp_client.c`, `udp_connect.c`, `udp_server.c`)

The five functions ask `getaddrinfo` for the addresses of a host and a service, and go through the list until they
have a socket that works with one of them. They differ in the hints and in what they do with the socket, which is
what a `Maker` says. The kernel is a parameter whose answer may depend on all of the calls before. The error exit of
the programs here is the call of `err_quit` with the code that `getaddrinfo` has returned.
-/

namespace UnixNetProg.Names

open Lib Libgai

/-- A socket in the table of descriptors. -/
structure Sock where
  family : ℤ
  socktype : ℤ
  protocol : ℤ
  reuseaddr : Bool
  peer : Option SockAddr
  name : Option SockAddr
  listening : Bool
  deriving DecidableEq

/-- A system call. The address is what the kernel finds at the pointer, if there is one. -/
inductive Request where
  | socket (family socktype protocol : ℤ)
  | setsockopt (fd : ℕ)
  | connect (fd : ℕ) (addr : Option SockAddr) (addrlen : ℕ)
  | bind (fd : ℕ) (addr : Option SockAddr) (addrlen : ℕ)
  | listen (fd : ℕ)
  | close (fd : ℕ)
  deriving DecidableEq

/-- What the kernel answers after the calls so far. -/
structure Kernel where
  openMax : ℕ
  accepts : List (Request × Bool) → Request → Bool

structure Net where
  gai : St
  fds : ℕ → Option Sock
  calls : List (Request × Bool)

/-- The ends of the process: inside of `libgai`, or by `err_sys` after these calls. -/
inductive Exit where
  | gai (x : Libgai.Exit)
  | errSys (calls : List (Request × Bool))

abbrev NetM := Prog Eai Exit Net

inductive Attach where
  | connect
  | bind
  deriving DecidableEq

/-- What a function asks for and does with each socket: `attach` is what has to succeed, and `copy` says that the
caller gets a copy of the address. -/
structure Maker where
  flags : BitVec 32
  socktype : ℤ
  reuseaddr : Bool
  attach : Option Attach
  listen : Bool
  copy : Bool

def Maker.hints (how : Maker) : Hints := ⟨how.flags, AF_UNSPEC, how.socktype, 0⟩

/-- The descriptor returned, and what is stored at the pointers of the caller. -/
structure Made where
  sockfd : ℕ
  addrlen : ℕ
  saptr : Option ℕ

section Code

variable (env : Env) (k : Kernel)

def gai {α : Type} (m : GaM α) : NetM α := Prog.lift Net.gai (fun ga s => { s with gai := ga }) Exit.gai m

def errSys {α : Type} : NetM α := do
  Prog.exit (.errSys (← Prog.get).calls)

def call (r : Request) : NetM Bool := do
  let s ← Prog.get
  let ok := k.accepts s.calls r
  Prog.modify fun s => { s with calls := s.calls ++ [(r, ok)] }
  return ok

/-- One of the functions of `lib/wrapsock.c` and `lib/wrapunix.c`. -/
def callOrErrSys (r : Request) : NetM Unit := do
  if ← call k r then pure () else errSys

/-- The socket at `fd` becomes `f` of itself. -/
def update (fd : ℕ) (f : Sock → Sock) : NetM Unit :=
  Prog.modify fun s => { s with fds := Function.update s.fds fd ((s.fds fd).map f) }

def socket (family socktype protocol : ℤ) : NetM (Option ℕ) := do
  let s ← Prog.get
  let fd := if k.accepts s.calls (.socket family socktype protocol) then
      firstSlot (fun fd => (s.fds fd).isNone = true) k.openMax
    else none
  Prog.modify fun s => { s with
    calls := s.calls ++ [(.socket family socktype protocol, fd.isSome)]
    fds := fd.elim s.fds fun fd =>
      Function.update s.fds fd (some ⟨family, socktype, protocol, false, none, none, false⟩) }
  return fd

def setsockopt (fd : ℕ) : NetM Unit := do
  callOrErrSys k (.setsockopt fd)
  update fd fun sock => { sock with reuseaddr := true }

def listen (fd : ℕ) : NetM Unit := do
  callOrErrSys k (.listen fd)
  update fd fun sock => { sock with listening := true }

def close (fd : ℕ) : NetM Unit := do
  callOrErrSys k (.close fd)
  Prog.modify fun s => { s with fds := Function.update s.fds fd none }

/-- The address at a pointer. -/
def addrAt (h : Heap Block) (p : Option ℕ) : Option SockAddr :=
  match p.bind h.get with
  | some (.sockaddr sa) => some sa
  | _ => none

def Attach.request (op : Attach) (fd : ℕ) (addr : Option SockAddr) (addrlen : ℕ) : Request :=
  match op with
  | .connect => .connect fd addr addrlen
  | .bind => .bind fd addr addrlen

def Attach.done (op : Attach) (addr : Option SockAddr) (sock : Sock) : Sock :=
  match op with
  | .connect => { sock with peer := addr }
  | .bind => { sock with name := addr }

/-- `connect` or `bind`. -/
def attach (op : Attach) (fd : ℕ) (ai : AddrInfo) : NetM Bool := do
  let addr := addrAt (← Prog.get).gai.heap ai.aiAddr
  if ← call k (op.request fd addr ai.aiAddrlen) then do
    update fd (op.done addr)
    return true
  else return false

/-- The body of the loop. -/
def tryAddr (how : Maker) (ai : AddrInfo) : NetM (Option ℕ) := do
  match ← socket k ai.aiFamily ai.aiSocktype ai.aiProtocol with
  | none => return none
  | some sockfd => do
    (if how.reuseaddr then setsockopt k sockfd else pure ())
    match how.attach with
    | none => return some sockfd
    | some op => do
      if ← attach k op sockfd ai then return some sockfd
      else do
        close k sockfd
        return none

/-- The socket, and what `res` points to when the loop is left by `break`. -/
def tryLoop (how : Maker) : ℕ → ℕ → NetM (Option (ℕ × AddrInfo))
  | 0, _ => Prog.exit (.gai .diverge)
  | fuel + 1, res => do
    let ai ← gai (readAi res)
    match ← tryAddr k how ai with
    | some sockfd => return some (sockfd, ai)
    | none =>
      match ai.aiNext with
      | none => return none
      | some next => tryLoop how fuel next

/-- `Malloc` and `memcpy`. -/
def copyAddr (addr : Option ℕ) : NetM (Option ℕ) := do
  let sa ← gai (readSa addr)
  match ← gai (alloc env (.sockaddr sa)) with
  | none => errSys
  | some saptr => return some saptr

def makeSocket (how : Maker) (host serv : Option CString) : NetM Made := do
  let ressave ← gai (getaddrinfo env host serv (some how.hints))
  match ← tryLoop k how (← Prog.get).gai.heap.fresh ressave with
  | none => errSys
  | some (sockfd, res) => do
    (if how.listen then listen k sockfd else pure ())
    let saptr ← (if how.copy then copyAddr env res.aiAddr else pure none)
    gai (freeaddrinfo (some ressave))
    return ⟨sockfd, res.aiAddrlen, saptr⟩

/-! ### The five functions -/

def tcpConnect := makeSocket env k ⟨0, SOCK_STREAM, false, some .connect, false, false⟩

def tcpListen := makeSocket env k ⟨AI_PASSIVE, SOCK_STREAM, true, some .bind, true, false⟩

def udpClient := makeSocket env k ⟨0, SOCK_DGRAM, false, none, false, true⟩

def udpConnect := makeSocket env k ⟨0, SOCK_DGRAM, false, some .connect, false, false⟩

def udpServer := makeSocket env k ⟨AI_PASSIVE, SOCK_DGRAM, false, some .bind, false, false⟩

end Code

/-! ### What the kernel sees -/

variable {env : Env} {k : Kernel} {how : Maker} {host serv : Option CString} {s : Net} {n : Node} {ns : List Node}
  {fd : ℕ} {E : Eai → Net → Prop} {X : Exit → Prop}

/-- The descriptor that the kernel gives to a new socket. -/
def Lowest (fds : ℕ → Option Sock) (fd : ℕ) : Prop := fds fd = none ∧ ∀ i < fd, fds i ≠ none

def socketOf (n : Node) : Request := .socket n.ai.aiFamily n.ai.aiSocktype n.ai.aiProtocol

def Maker.options (how : Maker) (fd : ℕ) : List (Request × Bool) :=
  if how.reuseaddr then [(.setsockopt fd, true)] else []

/-- The calls for an address that cannot be used. -/
inductive Refused (how : Maker) (fds : ℕ → Option Sock) (n : Node) : List (Request × Bool) → Prop
  | socket : Refused how fds n [(socketOf n, false)]
  | attach {op : Attach} {fd : ℕ} (hop : how.attach = some op) (hfd : Lowest fds fd) : Refused how fds n
      ((socketOf n, true) :: how.options fd ++ [(op.request fd n.sa n.ai.aiAddrlen, false), (.close fd, true)])

/-- The calls of the loop for the address that is used. -/
def Maker.accepted (how : Maker) (fd : ℕ) (n : Node) : List (Request × Bool) :=
  (socketOf n, true) :: how.options fd ++
    how.attach.toList.map fun op => (op.request fd n.sa n.ai.aiAddrlen, true)

/-- The socket after the loop. -/
def Maker.sock (how : Maker) (n : Node) : Sock :=
  how.attach.elim id (fun op => op.done n.sa)
    ⟨n.ai.aiFamily, n.ai.aiSocktype, n.ai.aiProtocol, how.reuseaddr, none, none, false⟩

/-- One of the calls with a wrapper has failed. -/
def LastFails (calls : List (Request × Bool)) : Prop :=
  ∃ before fd, calls = before ++ [(.setsockopt fd, false)] ∨ calls = before ++ [(.listen fd, false)] ∨
    calls = before ++ [(.close fd, false)]

theorem addrAt_eq {h : Heap Block} {next : Option ℕ} (hn : NodeAt h n next) : addrAt h n.ai.aiAddr = n.sa := by
  have haddr := hn.addr
  cases ha : n.ai.aiAddr with
  | none =>
    rw [ha] at haddr
    cases hsa : n.sa with
    | none => rfl
    | some sa =>
      rw [hsa] at haddr
      cases haddr
  | some a =>
    obtain ⟨sa, hsa, hget⟩ := hn.of_addr ha
    rw [hsa, addrAt, Option.bind_some, hget]

/-! ### Rules for the calls -/

theorem wp_gai {α : Type} {m : GaM α} {Q : α → Net → Prop} :
    (gai m).wp Q E X s ↔
      m.wp (fun a t => Q a { s with gai := t }) (fun e t => E e { s with gai := t }) (fun x => X (.gai x)) s.gai :=
  Prog.wp_lift _ _ _ m

theorem wp_call {r : Request} {Q : Bool → Net → Prop} :
    (call k r).wp Q E X s ↔
      Q (k.accepts s.calls r) { s with calls := s.calls ++ [(r, k.accepts s.calls r)] } := Iff.rfl

theorem wp_callOrErrSys {r : Request} {Q : Unit → Net → Prop}
    (hok : Q () { s with calls := s.calls ++ [(r, true)] }) (hfail : X (.errSys (s.calls ++ [(r, false)]))) :
    (callOrErrSys k r).wp Q E X s := by
  rw [callOrErrSys, Prog.wp_bind, wp_call, Prog.wp_ite]
  cases k.accepts s.calls r with
  | true => exact ⟨fun _ => hok, fun h => absurd rfl h⟩
  | false => exact ⟨fun h => absurd h Bool.false_ne_true, fun _ => hfail⟩

theorem wp_socket {n : Node} {Q : Option ℕ → Net → Prop}
    (hrefused : Q none { s with calls := s.calls ++ [(socketOf n, false)] })
    (hopen : ∀ fd, Lowest s.fds fd → Q (some fd) { s with
      calls := s.calls ++ [(socketOf n, true)]
      fds := Function.update s.fds fd
        (some ⟨n.ai.aiFamily, n.ai.aiSocktype, n.ai.aiProtocol, false, none, none, false⟩) }) :
    (socket k n.ai.aiFamily n.ai.aiSocktype n.ai.aiProtocol).wp Q E X s := by
  rw [socket, Prog.wp_bind, Prog.wp_get]
  dsimp only
  split_ifs with haccepts
  · cases hslot : firstSlot (fun fd => (s.fds fd).isNone = true) k.openMax with
    | none => exact hrefused
    | some fd =>
      obtain ⟨-, hfree, hused⟩ := firstSlot_eq_some hslot
      exact hopen fd ⟨Option.isNone_iff_eq_none.mp hfree, fun i hi hnone => hused i hi (by simp [hnone])⟩
  · exact hrefused

/-! ### The loop -/

theorem wp_options {Q : Unit → Net → Prop} {sock : Sock} (hsock : s.fds fd = some sock)
    (hreuse : sock.reuseaddr = false)
    (hok : Q () { s with
      calls := s.calls ++ how.options fd
      fds := Function.update s.fds fd (some { sock with reuseaddr := how.reuseaddr }) })
    (hfail : ∀ calls, LastFails calls → X (.errSys calls)) :
    (if how.reuseaddr then setsockopt k fd else pure ()).wp Q E X s := by
  rw [Prog.wp_ite]
  refine ⟨fun hset => ?_, fun hset => ?_⟩
  · rw [Maker.options, if_pos hset, hset] at hok
    rw [setsockopt, Prog.wp_bind]
    refine wp_callOrErrSys ?_ (hfail _ ⟨s.calls, fd, .inl rfl⟩)
    show Q () { s with calls := _, fds := Function.update s.fds fd ((s.fds fd).map _) }
    rw [hsock]
    exact hok
  · rw [Bool.not_eq_true] at hset
    have hself : Function.update s.fds fd (some { sock with reuseaddr := false }) = s.fds := by
      rw [← hreuse, ← hsock, Function.update_eq_self]
    rw [Maker.options, if_neg (by simp [hset]), hset, List.append_nil, hself] at hok
    exact hok

theorem wp_attach {op : Attach} {next : Option ℕ} {Q : Bool → Net → Prop} (hn : NodeAt s.gai.heap n next)
    (hok : Q true { s with
      calls := s.calls ++ [(op.request fd n.sa n.ai.aiAddrlen, true)]
      fds := Function.update s.fds fd ((s.fds fd).map (op.done n.sa)) })
    (hrefused : Q false { s with calls := s.calls ++ [(op.request fd n.sa n.ai.aiAddrlen, false)] }) :
    (attach k op fd ⟨n.ai, next⟩).wp Q E X s := by
  rw [attach, Prog.wp_bind, Prog.wp_get]
  dsimp only
  rw [addrAt_eq hn, Prog.wp_bind, wp_call, Prog.wp_ite]
  cases k.accepts s.calls (op.request fd n.sa n.ai.aiAddrlen) with
  | true => exact ⟨fun _ => hok, fun h => absurd rfl h⟩
  | false => exact ⟨fun h => absurd h Bool.false_ne_true, fun _ => hrefused⟩

/-- What the loop leaves for an address. -/
structure Tried (how : Maker) (s : Net) (n : Node) (r : Option ℕ) (s' : Net) : Prop where
  gai : s'.gai = s.gai
  opened : ∀ fd, r = some fd → Lowest s.fds fd ∧ s'.fds = Function.update s.fds fd (some (how.sock n)) ∧
    s'.calls = s.calls ++ how.accepted fd n
  refused : r = none → s'.fds = s.fds ∧ ∃ calls, Refused how s.fds n calls ∧ s'.calls = s.calls ++ calls

theorem wp_tryAddr {next : Option ℕ} (hn : NodeAt s.gai.heap n next)
    (hfail : ∀ calls, LastFails calls → X (.errSys calls)) :
    (tryAddr k how ⟨n.ai, next⟩).wp (Tried how s n) E X s := by
  rw [tryAddr, Prog.wp_bind]
  refine wp_socket ⟨rfl, nofun, fun _ => ⟨rfl, _, .socket, rfl⟩⟩ fun fd hfd => ?_
  dsimp only
  rw [Prog.wp_bind]
  refine wp_options (Function.update_self ..) rfl ?_ hfail
  dsimp only
  rw [Function.update_idem]
  cases hop : how.attach with
  | none =>
    refine ⟨rfl, ?_, nofun⟩
    rintro _ ⟨⟩
    refine ⟨hfd, ?_, ?_⟩
    · rw [Maker.sock, hop]
      rfl
    · rw [Maker.accepted, hop]
      simp
  | some op =>
    dsimp only
    rw [Prog.wp_bind]
    refine wp_attach hn ?_ ?_
    · rw [if_pos rfl, Prog.wp_pure]
      refine ⟨rfl, ?_, nofun⟩
      rintro _ ⟨⟩
      refine ⟨hfd, ?_, ?_⟩
      · rw [Maker.sock, hop]
        dsimp only
        rw [Function.update_self, Function.update_idem]
        rfl
      · rw [Maker.accepted, hop]
        simp
    · rw [if_neg Bool.false_ne_true, Prog.wp_bind, close, Prog.wp_bind]
      refine wp_callOrErrSys ⟨rfl, nofun, fun _ => ⟨?_, _, .attach hop hfd, ?_⟩⟩ ?_
      · dsimp only
        rw [Function.update_idem, ← hfd.1, Function.update_eq_self]
      · simp
      · exact hfail _ ⟨_, fd, .inr (.inr rfl)⟩

/-- What the loop leaves for the list `ns`. -/
structure Looped (how : Maker) (s : Net) (ns : List Node) (r : Option (ℕ × AddrInfo)) (s' : Net) : Prop where
  gai : s'.gai = s.gai
  opened : ∀ fd ai, r = some (fd, ai) → ∃ pre n post tried, ns = pre ++ n :: post ∧ ai.toAiFields = n.ai ∧
    Lowest s.fds fd ∧ s'.fds = Function.update s.fds fd (some (how.sock n)) ∧
    List.Forall₂ (Refused how s.fds) pre tried ∧ s'.calls = s.calls ++ tried.flatten ++ how.accepted fd n
  refused : r = none → s'.fds = s.fds ∧
    ∃ tried, List.Forall₂ (Refused how s.fds) ns tried ∧ s'.calls = s.calls ++ tried.flatten

theorem Looped.cons {calls : List (Request × Bool)} {r : Option (ℕ × AddrInfo)} {s₁ s' : Net} (hgai : s₁.gai = s.gai)
    (hfds : s₁.fds = s.fds) (hn : Refused how s.fds n calls) (hcalls : s₁.calls = s.calls ++ calls)
    (h : Looped how s₁ ns r s') : Looped how s (n :: ns) r s' := by
  obtain ⟨hgai', hopened, hrefused⟩ := h
  rw [hfds, hcalls] at hopened hrefused
  refine ⟨hgai'.trans hgai, fun fd ai hr => ?_, fun hr => ?_⟩
  · obtain ⟨pre, m, post, tried, rfl, hai, hfd, hfds', htried, hcalls'⟩ := hopened fd ai hr
    refine ⟨n :: pre, m, post, calls :: tried, rfl, hai, hfd, hfds', .cons hn htried, ?_⟩
    rw [hcalls', List.flatten_cons, List.append_assoc s.calls]
  · obtain ⟨hfds', tried, htried, hcalls'⟩ := hrefused hr
    refine ⟨hfds', calls :: tried, .cons hn htried, ?_⟩
    rw [hcalls', List.flatten_cons, List.append_assoc s.calls]

theorem wp_tryLoop {p : ℕ} {fuel : ℕ} (hl : Seg nodeKind s.gai.heap (some p) ns none) (hfuel : ns.length ≤ fuel)
    (hfail : ∀ calls, LastFails calls → X (.errSys calls)) :
    (tryLoop k how fuel p).wp (Looped how s ns) E X s := by
  induction ns generalizing s p fuel with
  | nil => cases hl
  | cons n ns ih =>
    obtain ⟨hp, next, hn, hns⟩ := hl
    obtain rfl : p = n.ptr := Option.some.inj hp
    obtain ⟨fuel, rfl⟩ : ∃ f, fuel = f + 1 := ⟨fuel - 1, by simp at hfuel; omega⟩
    rw [tryLoop, Prog.wp_bind, wp_gai]
    refine wp_readAi hn.node ?_
    rw [Prog.wp_bind]
    refine Prog.wp_mono (wp_tryAddr hn hfail) (fun r s₁ h₁ => ?_) (fun _ _ h => h) (fun _ h => h)
    cases r with
    | some fd =>
      obtain ⟨hfd, hfds, hcalls⟩ := h₁.opened fd rfl
      refine ⟨h₁.gai, ?_, nofun⟩
      rintro _ _ ⟨⟩
      exact ⟨[], n, ns, [], rfl, rfl, hfd, hfds, .nil, by simpa using hcalls⟩
    | none =>
      obtain ⟨hfds, calls, hrefused, hcalls⟩ := h₁.refused rfl
      dsimp only
      cases next with
      | none =>
        obtain rfl : ns = [] := by
          cases ns with
          | nil => rfl
          | cons m ns => cases hns.1
        exact ⟨h₁.gai, nofun, fun _ => ⟨hfds, [calls], .cons hrefused .nil, by simpa using hcalls⟩⟩
      | some q =>
        dsimp only
        refine Prog.wp_mono (ih (h₁.gai ▸ hns) (by simpa using hfuel)) (fun _ _ h => ?_) (fun _ _ h => h)
          (fun _ h => h)
        exact h.cons h₁.gai hfds hrefused hcalls

/-! ### The list of `getaddrinfo` -/

/-- A node whose address can be copied. -/
structure Usable (hints : Hints) (n : Node) : Prop where
  result : ResultNode hints n
  hasAddr : n.ai.aiAddr ≠ none

theorem NodeAt.unique {h : Heap Block} {n n' : Node} {next next' : Option ℕ} (hn : NodeAt h n next)
    (hn' : NodeAt h n' next') (hptr : n.ptr = n'.ptr) : n = n' ∧ next = next' := by
  have hsa := addrAt_eq hn
  have hsa' := addrAt_eq hn'
  have hnode := hn.node
  rw [hptr, hn'.node] at hnode
  obtain ⟨ptr, ai, sa⟩ := n
  obtain ⟨ptr', ai', sa'⟩ := n'
  cases hnode
  obtain rfl : ptr = ptr' := hptr
  exact ⟨congrArg _ (hsa.symm.trans hsa'), rfl⟩

theorem NodeList.unique {h : Heap Block} {p : Option ℕ} {ns ns' : List Node} (hl : NodeList h p ns)
    (hl' : NodeList h p ns') : ns = ns' :=
  Seg.unique (fun hn hn' hptr => NodeAt.unique hn hn' hptr) hl.seg hl'.seg

section GetAddrInfo

variable {st : St} {hints : Hints} {E : Eai → St → Prop} {X : Libgai.Exit → Prop}

theorem wp_gaUnixNodes_usable {path : CString} {Q : Unit → St → Prop} (hb : Built st [])
    (hfam : hints.aiFamily = AF_UNSPEC ∨ hints.aiFamily = AF_LOCAL)
    (hQ : ∀ st' n ns, Built st' (n :: ns) →
      (∀ m ∈ n :: ns, m.ai.aiCanonname = none ∧ ∀ name, Usable hints (named name m)) → Q () st')
    (herr : ∀ e st', E e st') : (gaUnixNodes env path hints).wp Q E X st := by
  rw [gaUnixNodes, Prog.wp_ite]
  refine ⟨fun hzero => ?_, fun _ => ?_⟩
  · rw [Prog.wp_bind]
    refine wp_gaAistruct hb (.inr (.inr rfl)) (fun st₁ n hb₁ hn _ _ => ?_) fun _ _ _ _ _ _ _ => herr _ _
    refine wp_gaAistruct hb₁ (.inr (.inr rfl)) (fun st₂ m hb₂ hm _ _ => ?_) fun _ _ _ _ _ _ _ => herr _ _
    refine hQ st₂ n [m] hb₂ ?_
    rw [List.forall_mem_cons, List.forall_mem_singleton]
    exact ⟨⟨hn.canon, fun name => ⟨(hn.unixNode hfam (.inr ⟨hzero, .inl rfl⟩) name).result, hn.hasAddr⟩⟩,
      hm.canon, fun name => ⟨(hm.unixNode hfam (.inr ⟨hzero, .inr rfl⟩) name).result, hm.hasAddr⟩⟩
  · refine wp_gaAistruct hb (.inr (.inr rfl)) (fun st₁ n hb₁ hn _ _ => ?_) fun _ _ _ _ _ _ _ => herr _ _
    refine hQ st₁ n [] hb₁ ?_
    rw [List.forall_mem_singleton]
    exact ⟨hn.canon, fun name => ⟨(hn.unixNode hfam (.inl rfl) name).result, hn.hasAddr⟩⟩

theorem wp_gaUnix_usable {path : CString} (hb : Built st []) :
    (gaUnix env path hints).wp
      (fun head st' => ∃ ns, NodeList st'.heap (some head) ns ∧ ∀ n ∈ ns, Usable hints n) (fun _ _ => True)
      (fun _ => False) st := by
  rw [gaUnix, Prog.wp_ite]
  refine ⟨fun _ => trivial, fun hfam => ?_⟩
  rw [not_and_or, not_not, not_not] at hfam
  rw [Prog.wp_bind]
  refine wp_gaUnixNodes_usable hb hfam (fun st' n ns hb' hnodes => ?_) fun _ _ => trivial
  have hl := hb'.list
  have hhead : st'.aihead = some n.ptr := hl.seg.1
  rw [List.forall_mem_cons] at hnodes
  obtain ⟨⟨hnone, hn⟩, hrest⟩ := hnodes
  have hall : ∀ name, ∀ m ∈ named name n :: ns, Usable hints m := by
    intro name
    rw [List.forall_mem_cons]
    refine ⟨hn name, fun m hm => ?_⟩
    rw [← named_none (hrest m hm).1]
    exact (hrest m hm).2 none
  rw [hhead] at hl
  rw [Prog.wp_bind, Prog.wp_get, hhead]
  dsimp only
  rw [Prog.wp_bind, gaUnixCanon, Prog.wp_ite]
  refine ⟨fun _ => ?_, fun _ => ⟨_, (named_none hnone).symm ▸ hl, hall none⟩⟩
  cases env.uname with
  | none => trivial
  | some nodename =>
    rw [Prog.wp_bind]
    exact wp_dupCanon hl hnone (fun _ _ _ _ hl' => ⟨_, hl', hall _⟩) fun _ _ _ _ => trivial

/-- Every node of the list agrees with the hints and has an address. -/
theorem wp_getaddrinfo_usable {hintsp : Option Hints} (env : Env) (st : St)
    (hlocal : ¬ LocalOutsideUnix host serv (hintsOf hintsp)) :
    (getaddrinfo env host serv hintsp).wp
      (fun head st' => ∃ ns, NodeList st'.heap (some head) ns ∧ ∀ n ∈ ns, Usable (hintsOf hintsp) n)
      (fun _ _ => True) (fun _ => False) st := by
  have hb : Built { st with aihead := none, aipnext := .head, canon := none } [] := ⟨⟨rfl, by simp⟩, rfl⟩
  rw [getaddrinfo, Prog.wp_bind, Prog.wp_modify]
  dsimp only
  cases hcheck : gaEcheck host serv (hintsOf hintsp).aiFlags (hintsOf hintsp).aiFamily (hintsOf hintsp).aiSocktype
    (hintsOf hintsp).aiProtocol with
  | some e => trivial
  | none =>
    dsimp only
    rw [Prog.wp_ite]
    refine ⟨fun _ => wp_gaUnix_usable hb, fun hunix => ?_⟩
    rw [Bool.not_eq_true] at hunix
    have hs : Searching (hintsOf hintsp) { st with aihead := none, aipnext := .head, canon := none } :=
      ⟨[], hb, by simp, fun q hq => by cases hq⟩
    rw [Prog.wp_onError]
    refine Prog.wp_mono (wp_getaddrinfoInet hs (searched_family hcheck hunix hlocal)) ?_ ?_ (fun _ h => h)
    · rintro head st' ⟨-, ns, hl, hns⟩
      exact ⟨ns, hl, fun n hn => ⟨(hns n hn).result, (hns n hn).inet.2⟩⟩
    · rintro e st' ⟨ns, hl⟩
      rw [Prog.wp_bind, Prog.wp_get]
      exact wp_freeaddrinfo hl fun _ _ _ => trivial

end GetAddrInfo

theorem wp_getaddrinfo_list (env : Env) (how : Maker) (host serv : Option CString) (st : St) :
    (getaddrinfo env host serv (some how.hints)).wp
      (fun head ga => ∃ ns, NodeList ga.heap (some head) ns ∧ (∀ n ∈ ns, Usable how.hints n) ∧
        Covered st.heap.fresh ga.heap ns)
      (fun _ _ => True) (fun _ => False) st := by
  have hlocal : ¬ LocalOutsideUnix host serv (hintsOf (some how.hints)) := fun h => by cases h.1
  have hboth := Prog.wp_and (wp_getaddrinfo_usable env st hlocal) (wp_getaddrinfo_clean env host serv _ st)
  refine Prog.wp_mono hboth ?_ (fun _ _ _ => trivial) (fun _ h => h.1)
  rintro head ga ⟨⟨ns, hl, husable⟩, -, ns', hl', hcov⟩
  obtain rfl := NodeList.unique hl hl'
  exact ⟨ns, hl, husable, hcov⟩

/-! ### The functions -/

theorem sock_listening (how : Maker) (n : Node) : (how.sock n).listening = false := by
  rw [Maker.sock]
  cases how.attach with
  | none => rfl
  | some op => cases op <;> rfl

theorem wp_listen {Q : Unit → Net → Prop} (hsock : s.fds fd = some (how.sock n))
    (hok : Q () { s with
      calls := s.calls ++ if how.listen then [(.listen fd, true)] else []
      fds := Function.update s.fds fd (some { how.sock n with listening := how.listen }) })
    (hfail : ∀ calls, LastFails calls → X (.errSys calls)) :
    (if how.listen then listen k fd else pure ()).wp Q E X s := by
  rw [Prog.wp_ite]
  refine ⟨fun hset => ?_, fun hset => ?_⟩
  · rw [if_pos hset, hset] at hok
    rw [listen, Prog.wp_bind]
    refine wp_callOrErrSys ?_ (hfail _ ⟨s.calls, fd, .inr (.inl rfl)⟩)
    show Q () { s with calls := _, fds := Function.update s.fds fd ((s.fds fd).map _) }
    rw [hsock]
    exact hok
  · rw [Bool.not_eq_true] at hset
    have hself : Function.update s.fds fd (some { how.sock n with listening := false }) = s.fds := by
      rw [← sock_listening how n, ← hsock, Function.update_eq_self]
    rw [if_neg (by simp [hset]), hset, List.append_nil, hself] at hok
    exact hok

/-- The copy of the address, if there is one, is a new block. -/
structure Copied (how : Maker) (n : Node) (st : St) (saptr : Option ℕ) (st' : St) : Prop where
  isSome : saptr.isSome = how.copy
  get : ∀ q, st'.heap.get q = if saptr = some q then n.sa.map .sockaddr else st.heap.get q
  list : ∀ {p ns}, NodeList st.heap p ns → NodeList st'.heap p ns ∧ ∀ q ∈ footprint nodeKind ns, saptr ≠ some q

theorem wp_copyAddr {next : Option ℕ} {Q : Option ℕ → Net → Prop} (hn : NodeAt s.gai.heap n next)
    (haddr : n.ai.aiAddr ≠ none) (hok : ∀ saptr ga, Copied how n s.gai saptr ga → Q saptr { s with gai := ga })
    (hfail : how.copy = true → (∃ i, env.allocFails i = true) → X (.errSys s.calls)) :
    (if how.copy then copyAddr env n.ai.aiAddr else pure none).wp Q E X s := by
  rw [Prog.wp_ite]
  refine ⟨fun hcopy => ?_, fun hcopy => ?_⟩
  · obtain ⟨a, ha⟩ := Option.ne_none_iff_exists'.mp haddr
    obtain ⟨sa, hsa, hget⟩ := hn.of_addr ha
    rw [copyAddr, Prog.wp_bind, wp_gai]
    refine wp_readSa ha hget ?_
    rw [Prog.wp_bind, wp_gai]
    refine wp_alloc (fun hfails => hfail hcopy ⟨_, hfails⟩) (hok (some s.gai.heap.fresh) _ ⟨?_, fun q => ?_, ?_⟩)
    · exact hcopy.symm
    · by_cases hq : q = s.gai.heap.fresh
      · subst hq
        rw [if_pos rfl, hsa]
        exact Heap.get_alloc_fresh
      · rw [if_neg (fun h => hq (Option.some.inj h).symm)]
        by_cases hlt : q < s.gai.heap.fresh
        · exact Heap.get_alloc_of_lt hlt
        · have hdead : s.gai.heap.get q = none := Heap.get_eq_none_of_le (Nat.le_of_not_lt hlt)
          rw [hdead]
          by_contra hlive
          exact (Heap.live_alloc hlive).elim (fun h => h hdead) hq
    · intro p ns hl
      refine ⟨hl.alloc _, fun q hq heq => ?_⟩
      have hlt := hl.seg.lt_fresh q hq
      rw [← Option.some.inj heq] at hlt
      exact absurd hlt (Nat.lt_irrefl _)
  · rw [Bool.not_eq_true] at hcopy
    exact hok none s.gai ⟨hcopy.symm, fun _ => rfl, fun hl => ⟨hl, fun _ _ h => nomatch h⟩⟩

/-- `getaddrinfo` returns these nodes. -/
def Answers (env : Env) (host serv : Option CString) (hints : Hints) (st : St) (ns : List Node) : Prop :=
  ∃ head ga, getaddrinfo env host serv (some hints) st = .ok head ga ∧ NodeList ga.heap (some head) ns

/-- The call has returned a socket for the node `n`, after the nodes `pre` could not be used. -/
structure Returned (env : Env) (how : Maker) (host serv : Option CString) (s : Net) (pre : List Node) (n : Node)
    (post : List Node) (made : Made) (s' : Net) : Prop where
  answers : Answers env host serv how.hints s.gai (pre ++ n :: post)
  result : ResultNode how.hints n
  calls : ∃ tried, List.Forall₂ (Refused how s.fds) pre tried ∧ s'.calls = s.calls ++ tried.flatten ++
    how.accepted made.sockfd n ++ if how.listen then [(.listen made.sockfd, true)] else []
  lowest : Lowest s.fds made.sockfd
  fds : s'.fds = Function.update s.fds made.sockfd (some { how.sock n with listening := how.listen })
  addrlen : made.addrlen = n.ai.aiAddrlen
  saptr : made.saptr.isSome = how.copy
  heap : ∀ q, s.gai.heap.fresh ≤ q → s'.gai.heap.get q = if made.saptr = some q then n.sa.map .sockaddr else none

/-- No address could be used, or a call with a wrapper has failed. -/
def Fails (env : Env) (how : Maker) (host serv : Option CString) (s : Net) (calls : List (Request × Bool)) : Prop :=
  (∃ ns tried, Answers env host serv how.hints s.gai ns ∧ List.Forall₂ (Refused how s.fds) ns tried ∧
    calls = s.calls ++ tried.flatten) ∨
  LastFails calls ∨ how.copy = true ∧ ∃ i, env.allocFails i = true

theorem wp_makeSocket_of {Q : Made → Net → Prop}
    (hok : ∀ pre n post made s', Returned env how host serv s pre n post made s' → Q made s')
    (herr : ∀ e ga, getaddrinfo env host serv (some how.hints) s.gai = .error e ga → E e { s with gai := ga })
    (hfail : ∀ calls, Fails env how host serv s calls → X (.errSys calls)) :
    (makeSocket env k how host serv).wp Q E X s := by
  rw [makeSocket, Prog.wp_bind, wp_gai]
  refine Prog.wp_mono (Prog.wp_run (wp_getaddrinfo_list env how host serv s.gai)) ?_ (fun e ga h => herr e ga h.1)
    fun x h => h.2.elim
  rintro head ga ⟨hrun, ns, hl, husable, hcov⟩
  have hlast : ∀ calls, LastFails calls → X (.errSys calls) := fun calls h => hfail calls (.inr (.inl h))
  rw [Prog.wp_bind, Prog.wp_get, Prog.wp_bind]
  refine Prog.wp_mono (wp_tryLoop hl.seg hl.length_le_fresh hlast) (fun r s₁ h₁ => ?_) (fun _ _ h => h) (fun _ h => h)
  cases r with
  | none =>
    obtain ⟨-, tried, htried, hcalls⟩ := h₁.refused rfl
    exact hfail _ (.inl ⟨ns, tried, ⟨head, ga, hrun, hl⟩, htried, hcalls⟩)
  | some r =>
    obtain ⟨fd, ai⟩ := r
    obtain ⟨pre, n, post, tried, rfl, hai, hfd, hfds, htried, hcalls⟩ := h₁.opened fd ai rfl
    obtain ⟨next, hn⟩ := hl.seg.holds_of_mem (List.mem_append_right pre List.mem_cons_self)
    obtain ⟨hresult, haddr⟩ := husable n (List.mem_append_right pre List.mem_cons_self)
    obtain ⟨ga', fds', calls'⟩ := s₁
    obtain rfl : ga' = ga := h₁.gai
    dsimp only at hfds hcalls ⊢
    rw [Prog.wp_bind]
    refine wp_listen (by dsimp only; rw [hfds, Function.update_self]) ?_ hlast
    rw [Prog.wp_bind, hai]
    refine wp_copyAddr hn haddr (fun saptr ga₂ hcopied => ?_) fun hcopy hmem => hfail _ (.inr (.inr ⟨hcopy, hmem⟩))
    obtain ⟨hl₂, hapart⟩ := hcopied.list hl
    rw [Prog.wp_bind, wp_gai]
    refine wp_freeaddrinfo hl₂ fun h' hframe hdead => ?_
    refine hok pre n post _ _ ⟨⟨head, ga', hrun, hl⟩, hresult, ⟨tried, htried, ?_⟩, hfd, ?_, ?_, hcopied.isSome,
      fun q hq => ?_⟩
    · rw [hcalls]
    · dsimp only
      rw [hfds, Function.update_idem]
    · rw [← hai]
    · dsimp only
      by_cases hmem : q ∈ footprint nodeKind (pre ++ n :: post)
      · rw [hdead q hmem, if_neg (hapart q hmem)]
      · rw [hframe q hmem, hcopied.get]
        by_cases hq' : saptr = some q
        · rw [if_pos hq', if_pos hq']
        · rw [if_neg hq', if_neg hq']
          by_contra hlive
          exact hmem (hcov q hq hlive)

/-- **The socket for a host and a service.** The functions take the addresses in the order of `getaddrinfo`, and
return the lowest free descriptor with a socket for the first that the kernel does not refuse. The table of
descriptors is as before but for that socket, and of the memory only the copy for the caller is left. They call
`err_quit` when `getaddrinfo` fails, and `err_sys` when all of the addresses are refused, or a call with a wrapper
fails. -/
theorem wp_makeSocket (env : Env) (k : Kernel) (how : Maker) (host serv : Option CString) (s : Net) :
    (makeSocket env k how host serv).wp
      (fun made s' => ∃ pre n post, Returned env how host serv s pre n post made s')
      (fun e s' => s'.fds = s.fds ∧ s'.calls = s.calls ∧
        ∃ ga, getaddrinfo env host serv (some how.hints) s.gai = .error e ga)
      (fun x => ∃ calls, x = .errSys calls ∧ Fails env how host serv s calls) s := by
  refine wp_makeSocket_of ?_ ?_ ?_
  · exact fun pre n post made s' h => ⟨pre, n, post, h⟩
  · exact fun e ga h => ⟨rfl, rfl, ga, h⟩
  · exact fun calls h => ⟨calls, rfl, h⟩

/-! ### The text of an address -/

variable {nenv : NameEnv} {family : ℤ} {addr : List Byte}

theorem Answers.of_literal {host : CString} (hl : Literal env host family addr) (ha : InetAddr family addr)
    (port : BitVec 16) {hints : Hints} (hflags : hints.aiFlags = 0) (hfam : hints.aiFamily = AF_UNSPEC)
    (htype : hints.aiSocktype = SOCK_STREAM ∨ hints.aiSocktype = SOCK_DGRAM) {st : St}
    (h : Answers env (some host) (some (decimal (ntohs port).toNat)) hints st ns) :
    ∃ n, ns = [n] ∧ Answer hints family addr port n := by
  obtain ⟨head, ga, hrun, hns⟩ := h
  have hwp := wp_getaddrinfo_literal port hflags htype hl (ha.imp And.left And.left) (.inr hfam) st
  rw [Prog.wp, hrun] at hwp
  obtain ⟨n, hn, hans, -⟩ := hwp
  exact ⟨n, NodeList.unique hns hn, hans⟩

/-- **`tcp_connect` to the text of an address.** With the strings that `getnameinfo` writes for a socket address,
`tcp_connect` makes one socket and connects it to that address. -/
theorem connect_of_getnameinfo (h : OverLibfree env nenv) (ha : InetAddr family addr) (port : BitVec 16) (k : Kernel)
    (s : Net) :
    ∃ host serv,
      getnameinfo nenv ⟨family, port, addr⟩ NI_MAXHOST NI_MAXSERV (NI_NUMERICHOST ||| NI_NUMERICSERV) =
        some (some host, some serv) ∧
      (tcpConnect env k (some host) (some serv)).wp
        (fun made s' => Lowest s.fds made.sockfd ∧
          s'.fds = Function.update s.fds made.sockfd
            (some ⟨family, SOCK_STREAM, 0, false, some ⟨family, port, addr⟩, none, false⟩) ∧
          ∃ len, s'.calls = s.calls ++ [(.socket family SOCK_STREAM 0, true),
            (.connect made.sockfd (some ⟨family, port, addr⟩) len, true)])
        (fun e _ => e = .memory ∧ ∃ i, env.allocFails i = true)
        (fun x => ∃ calls, x = .errSys calls ∧ (LastFails calls ∨
          calls = s.calls ++ [(.socket family SOCK_STREAM 0, false)] ∨
          ∃ fd len, Lowest s.fds fd ∧ calls = s.calls ++ [(.socket family SOCK_STREAM 0, true),
            (.connect fd (some ⟨family, port, addr⟩) len, false), (.close fd, true)])) s := by
  obtain ⟨host, hhost⟩ := h.exists_presentation ha
  have hl := hhost.literal ha
  refine ⟨host, _, getnameinfo_numeric hhost ha port, wp_makeSocket_of ?_ ?_ ?_⟩
  · intro pre n post made s' hret
    obtain ⟨n', hns, hans⟩ := hret.answers.of_literal hl ha port rfl rfl (.inl rfl)
    obtain ⟨rfl, hns⟩ : pre = [] ∧ n :: post = [n'] := by
      cases pre with
      | nil => exact ⟨rfl, hns⟩
      | cons m pre => simp at hns
    obtain rfl : n = n' := (List.cons.inj hns).1
    obtain ⟨tried, htried, hcalls⟩ := hret.calls
    cases htried
    refine ⟨hret.lowest, ?_, n.ai.aiAddrlen, ?_⟩
    · rw [hret.fds, Maker.sock, hans.family, hans.socktype, hans.protocol, hans.sa]
      rfl
    · rw [hcalls, Maker.accepted, socketOf, hans.family, hans.socktype, hans.protocol, hans.sa]
      simp [Maker.options, Maker.hints, Attach.request]
  · intro e ga hrun
    have hfam : (Maker.hints ⟨0, SOCK_STREAM, false, some .connect, false, false⟩).aiFamily = AF_UNSPEC := rfl
    have hwp := wp_getaddrinfo_literal port rfl (.inl rfl) hl (ha.imp And.left And.left) (.inr hfam) s.gai
    rw [Prog.wp, hrun] at hwp
    exact hwp
  · rintro calls (⟨ns, tried, hanswers, htried, rfl⟩ | hlast | ⟨hcopy, -⟩)
    · obtain ⟨n, rfl, hans⟩ := hanswers.of_literal hl ha port rfl rfl (.inl rfl)
      have hsocket : socketOf n = .socket family SOCK_STREAM 0 := by
        rw [socketOf, hans.family, hans.socktype, hans.protocol]
        rfl
      obtain _ | ⟨hrefused, htried⟩ := htried
      cases htried
      refine ⟨_, rfl, .inr ?_⟩
      cases hrefused with
      | socket =>
        left
        rw [hsocket]
        rfl
      | attach hop hfd =>
        cases hop
        refine .inr ⟨_, n.ai.aiAddrlen, hfd, ?_⟩
        rw [hsocket, hans.sa]
        rfl
    · exact ⟨calls, rfl, .inl hlast⟩
    · cases hcopy

theorem connect_of_getnameinfo_sample :
    ∃ host serv,
      getnameinfo numericNames ⟨AF_INET6, htons 80, sampleAddr6⟩ NI_MAXHOST NI_MAXSERV
        (NI_NUMERICHOST ||| NI_NUMERICSERV) = some (some host, some serv) ∧
      (tcpConnect numericEnv ⟨1024, fun _ _ => true⟩ (some host) (some serv)).wp
        (fun made s' => Lowest (fun _ => none) made.sockfd ∧
          s'.fds = Function.update (fun _ => none) made.sockfd
            (some ⟨AF_INET6, SOCK_STREAM, 0, false, some ⟨AF_INET6, htons 80, sampleAddr6⟩, none, false⟩) ∧
          ∃ len, s'.calls = [] ++ [(.socket AF_INET6 SOCK_STREAM 0, true),
            (.connect made.sockfd (some ⟨AF_INET6, htons 80, sampleAddr6⟩) len, true)])
        (fun e _ => e = .memory ∧ ∃ i, numericEnv.allocFails i = true)
        (fun x => ∃ calls, x = .errSys calls ∧ (LastFails calls ∨
          calls = [] ++ [(.socket AF_INET6 SOCK_STREAM 0, false)] ∨
          ∃ fd len, Lowest (fun _ => none) fd ∧ calls = [] ++ [(.socket AF_INET6 SOCK_STREAM 0, true),
            (.connect fd (some ⟨AF_INET6, htons 80, sampleAddr6⟩) len, false), (.close fd, true)]))
        ⟨.start, fun _ => none, []⟩ :=
  have h : OverLibfree numericEnv numericNames := ⟨fun _ _ => rfl, fun _ _ _ => rfl⟩
  connect_of_getnameinfo h (.inr ⟨rfl, rfl⟩) (htons 80) ⟨1024, fun _ _ => true⟩ ⟨.start, fun _ => none, []⟩

end UnixNetProg.Names
