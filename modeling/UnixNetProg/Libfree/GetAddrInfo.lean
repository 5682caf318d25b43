import UnixNetProg.Libgai.Leak

/-!
# `getaddrinfo` of `libfree` (`libfree/getaddrinfo.c`)

The older of the two `getaddrinfo` functions, configured with IPV4, IPV6 and LOCAL and without
REENTRANT. What its text has in common with `libgai` is taken from there: the nodes and the heap, the
body of the loop over the addresses (`ga_aistruct`), `getaddrinfo_port` and `getaddrinfo_clone`
(`ga_port`, `ga_clone`) and `freeaddrinfo`. The rest differs, and so does the use of the locals: the
pointer `aihead` has no value until the host is looked up, and the Unix domain path has returns of its
own. So a program here can return a code, or jump to `bad` with one.
-/

namespace UnixNetProg.Libfree

open Lib Libgai

/-- `res_init` sets `RES_USE_INET6` if the user asks for it (`RES_OPTIONS=inet6`). An `aihead` that nothing
has been assigned to may happen to be NULL. -/
structure Env extends Libgai.Env where
  resOptionsInet6 : Bool
  staleNull : Bool

/-- How the process can end inside the library: as in `libgai`, or by freeing through an `aihead` that
nothing has been assigned to and that is not NULL. -/
inductive Exit where
  | lib (x : Libgai.Exit)
  | unassigned
  deriving DecidableEq, Repr

/-- What `libgai` has too, whether `aihead` has been assigned to, and what the call has stored in
`*result`, if anything. -/
structure St where
  ga : Libgai.St
  assigned : Bool
  result : Option (Option ℕ)

def St.start : St := ⟨.start, false, none⟩

/-- An error is a jump to `bad`, a return is `return(rc)` with `none` for 0. -/
abbrev GfM := Prog Eai Exit St

/-- A program that `libgai` has too. -/
def lib {α : Type} (m : GaM α) : GfM α := Prog.lift St.ga (fun ga st => { st with ga := ga }) Exit.lib m

variable (env : Env)

/-! ### The checks -/

/-- `hints.ai_socktype` is neither 0 nor one of the given. -/
def badSocktype (hints : Hints) (socktypes : List ℤ) : Bool :=
  hints.aiSocktype != 0 && !socktypes.contains hints.aiSocktype

/-- Check the flags, the family, and the socket type for the family. -/
def checkHints (hints : Hints) : Option Eai :=
  if hints.aiFlags &&& ~~~(AI_PASSIVE ||| AI_CANONNAME) ≠ 0 then some .badFlags
  else if hints.aiFamily = 0 ∨ hints.aiFamily = AF_UNSPEC then none
  else if hints.aiFamily = AF_INET ∨ hints.aiFamily = AF_INET6 then
    if badSocktype hints [SOCK_STREAM, SOCK_DGRAM, SOCK_RAW] then some .sockType else none
  else if hints.aiFamily = AF_LOCAL then
    if badSocktype hints [SOCK_STREAM, SOCK_DGRAM] then some .sockType else none
  else some .family

/-- The family of a host string that is an address, when the caller has specified none; an IPv6 string
overrides an IPv4 one. -/
def literalFamily (host : CString) (family : ℤ) : ℤ :=
  if env.inetPton AF_INET6 host ≠ none then AF_INET6
  else if env.inetPton AF_INET host ≠ none then AF_INET
  else family

/-- The host to look up and the hints to look it up with. -/
def chooseHost (host serv : Option CString) (hints : Hints) : Except Eai (Option CString × Hints) :=
  if isNullOrEmpty host then
    if isNullOrEmpty serv then .error .noName
    else if hints.aiFlags &&& AI_PASSIVE ≠ 0 then
      if hints.aiFamily = AF_INET then .ok (some (cstr "0.0.0.0"), hints)
      else if hints.aiFamily = AF_INET6 then .ok (some (cstr "0::0"), hints)
      else if hints.aiFamily = AF_LOCAL then
        if firstByte (serv.getD []) ≠ 47 then .error .addrFamily else .ok (host, hints)
      else if hints.aiFamily = 0 then .error .addrFamily
      else .ok (host, hints)
    else .ok (some (cstr "localhost"), hints)
  else if hints.aiFamily = 0 then
    .ok (host, { hints with aiFamily := literalFamily env (host.getD []) hints.aiFamily })
  else .ok (host, hints)

/-- The pathname, if the host or the service is one. -/
def localPath (host serv : Option CString) : Option CString :=
  if host.any fun s => firstByte s == 47 then host
  else if serv.any fun s => firstByte s == 47 then serv
  else none

/-! ### The Unix domain -/

/-- The node of `addrinfo_local`, with its address at `addr`. -/
def localAi (hints : Hints) (addr : Option ℕ) : AddrInfo where
  aiFlags := 0
  aiFamily := AF_LOCAL
  aiSocktype := hints.aiSocktype
  aiProtocol := 0
  aiAddrlen := 110
  aiCanonname := none
  aiAddr := addr
  aiNext := none

/-- Do everything for a Unix domain socket. The first `calloc` that fails makes it `return(NULL)`, which
is 0. -/
def addrinfoLocal (path : CString) (hints : Hints) : GfM (Option Eai) :=
  if hints.aiSocktype = 0 then return some .sockType
  else do
    match ← lib (alloc env.toEnv (.addrinfo (localAi hints none))) with
    | none => return none
    | some p => do
      match ← lib (alloc env.toEnv (.sockaddr ⟨AF_LOCAL, 0, path.take SUN_PATH_LEN⟩)) with
      | none => return some .memory
      | some a => do
        lib (write p (.addrinfo (localAi hints (some a))))
        Prog.modify fun st => { st with result := some (some p) }
        lib (unlinkPassive hints path)
        return none

/-! ### The host -/

/-- What the code reads of a `hostent{}`. -/
structure HostEnt where
  hName : CString
  hAddrtype : ℤ
  hAddrList : List (List Byte)

def HENTBUFSIZ : ℕ := 8 * 1024

/-- The IPv6 address a host string denotes by itself. -/
def ipv6String (host : CString) : Option (List Byte) :=
  if isxdigit (firstByte host) ∨ firstByte host = 58 then env.inetPton AF_INET6 host else none

/-- The `hostent{}` for a host string that is an address, with the name as the buffer `hentbuf` holds
it. -/
def literalHost (host : CString) : Option HostEnt :=
  match ipv4Literal env.toEnv host with
  | some addr => some ⟨host.take (HENTBUFSIZ - 1), AF_INET, [addr]⟩
  | none => (ipv6String env host).map fun addr => ⟨host.take (HENTBUFSIZ - 1), AF_INET6, [addr]⟩

/-- `RES_USE_INET6` once the resolver is initialized: `res_init` is called if it is not. -/
def inet6Bit (ga : Libgai.St) : Bool := if ga.resInit then ga.resUseInet6 else env.resOptionsInet6

/-- `RES_USE_INET6` as the query finds it: the bit is set for `AF_INET6`, and nothing clears it. -/
def useInet6 (family : ℤ) (ga : Libgai.St) : Bool := inet6Bit env ga || decide (family = AF_INET6)

/-- Ask the resolver. -/
def resolveHost (host : CString) (family : ℤ) : GfM (Except HErrno Hostent) := do
  Prog.modify fun st => { st with ga :=
    { st.ga with resInit := true, resUseInet6 := useInet6 env family st.ga, nquery := st.ga.nquery + 1 } }
  let st ← Prog.get
  return env.gethostbyname st.ga.nquery st.ga.resUseInet6 host

/-- Handle the host string; the caller jumps to `bad` with any nonzero return. -/
def getaddrinfoHost (host : CString) (family : ℤ) : GfM HostEnt :=
  match literalHost env host with
  | some hent => return hent
  | none => do
    match ← resolveHost env host family with
    | .error herr => Prog.throw (hErrnoEai herr)
    | .ok hptr => return ⟨hptr.hName, hptr.hAddrtype, hptr.hAddrList⟩

/-! ### The list -/

/-- Handle the service string: a port number, if the caller has specified a socket type, or else a
service name that is tried for TCP and then for UDP. -/
def getaddrinfoServ (aihead : Option ℕ) (hints : Hints) (serv : CString) : GaM Unit :=
  if isdigit (firstByte serv) ∧ hints.aiSocktype ≠ 0 then do
    let port : ℤ := (htons (BitVec.ofInt 16 (atoi serv))).toNat
    let rc ← gaPortOrMemory env.toEnv aihead port hints.aiSocktype
    if rc = 0 then Prog.throw .noName else pure ()
  else do
    let rc ← gaServProto env.toEnv aihead hints serv (cstr "tcp") SOCK_STREAM
    let rc' ← gaServProto env.toEnv aihead hints serv (cstr "udp") SOCK_DGRAM
    if rc + rc' = 0 then
      if hints.aiSocktype = 0 then Prog.throw .noName else Prog.throw .service
    else pure ()

/-- The canonical name goes into the first node; without one, `aihead->ai_canonname` is no object. -/
def setCanonname (hints : Hints) (hName : CString) : GaM Unit :=
  if hints.aiFlags &&& AI_CANONNAME ≠ 0 then do
    match (← Prog.get).aihead with
    | none => Prog.exit .crash
    | some head => do
      let name ← alloc env.toEnv (.string hName)
      storeCanon head name
  else pure ()

def processServ (hints : Hints) (serv : Option CString) : GaM Unit :=
  if isNullOrEmpty serv then pure ()
  else do getaddrinfoServ env (← Prog.get).aihead hints (serv.getD [])

/-- From the loop over the addresses on: the nodes, the canonical name and the service. -/
def buildList (hints : Hints) (serv : Option CString) (hptr : HostEnt) : GaM Unit := do
  addAddrs env.toEnv hints hptr.hAddrtype hptr.hAddrList
  setCanonname env hints hptr.hName
  processServ env hints serv

/-- Look up the host and build the list. -/
def getaddrinfoInet (host serv : Option CString) (hints : Hints) : GfM (Option Eai) := do
  match host with
  | none => Prog.exit (.lib .crash)
  | some host => do
    let hptr ← getaddrinfoHost env host hints.aiFamily
    if hints.aiFamily ≠ AF_UNSPEC ∧ hints.aiFamily ≠ hptr.hAddrtype then Prog.throw .addrFamily
    else do
      Prog.modify fun st => { st with
        assigned := true, ga := { st.ga with aihead := none, aipnext := .head } }
      lib (buildList env hints serv hptr)
      Prog.modify fun st => { st with result := some st.ga.aihead }
      return none

/-! ### Entry point -/

/-- `getaddrinfo` up to the label `bad`. -/
def getaddrinfoBody (host serv : Option CString) (hintsptr : Option Hints) : GfM (Option Eai) := do
  Prog.modify fun st => { st with assigned := false, result := none }
  match checkHints (hintsOf hintsptr) with
  | some e => Prog.throw e
  | none =>
    match chooseHost env host serv (hintsOf hintsptr) with
    | .error e => Prog.throw e
    | .ok (host, hints) =>
      match localPath host serv with
      | some path => addrinfoLocal env path hints
      | none => getaddrinfoInet env host serv hints

/-- `bad: freeaddrinfo(aihead);`. -/
def bad : GfM Unit := do
  let st ← Prog.get
  if st.assigned then lib (freeaddrinfo st.ga.aihead)
  else if env.staleNull then pure ()
  else Prog.exit .unassigned

def getaddrinfo (host serv : Option CString) (hintsptr : Option Hints) : GfM (Option Eai) :=
  Prog.onError (getaddrinfoBody env host serv hintsptr) (bad env)

end UnixNetProg.Libfree
