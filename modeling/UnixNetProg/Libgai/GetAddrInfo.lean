import UnixNetProg.Libgai.AddrInfo

/-!
# `getaddrinfo` (`libgai/getaddrinfo.c` and the `ga_*.c` files)

The functions are programs over the heap, under their names in the source. An error return of
`ga_aistruct` and `ga_serv` always leads to `return` or `goto bad` with that code in the callers, so
it is an error exit here; `getaddrinfo` frees its list there (`bad:`), `ga_unix` does not. The loops
that follow `ai_next` make at most as many turns as the heap has blocks; one that needs more ends in
`Exit.diverge`.
-/

namespace UnixNetProg.Libgai

open Lib

/-- `s == NULL || s[0] == '\0'`. -/
def isNullOrEmpty (s : Option CString) : Bool := s.all (· == [])

/-- Basic error checking of flags, family, socket type, and protocol; `none` is the return value 0. -/
def gaEcheck (hostname servname : Option CString) (flags : BitVec 32) (family socktype _protocol : ℤ) :
    Option Eai :=
  if flags &&& ~~~(AI_PASSIVE ||| AI_CANONNAME) ≠ 0 then some .badFlags
  else if isNullOrEmpty hostname ∧ isNullOrEmpty servname then some .noName
  else if family = AF_UNSPEC then none
  else if family = AF_INET ∨ family = AF_INET6 then
    if socktype ≠ 0 ∧ socktype ≠ SOCK_STREAM ∧ socktype ≠ SOCK_DGRAM ∧ socktype ≠ SOCK_RAW then
      some .sockType
    else none
  else if family = AF_LOCAL then
    if socktype ≠ 0 ∧ socktype ≠ SOCK_STREAM ∧ socktype ≠ SOCK_DGRAM then some .sockType else none
  else some .family

/-- The entries of `search[]` for the hosts to use with the families IPv6 and IPv4, one of the three
`switch` statements of `ga_nsearch`. -/
def searchEntries (family : ℤ) (host6 host4 : CString) : List Search :=
  if family = AF_INET then [⟨host4, AF_INET⟩]
  else if family = AF_INET6 then [⟨host6, AF_INET6⟩]
  else if family = AF_UNSPEC then [⟨host6, AF_INET6⟩, ⟨host4, AF_INET⟩]
  else []

/-- Set up the `search[]` array; its first `nsearch` entries are returned. -/
def gaNsearch (hostname : Option CString) (hintsp : Hints) : GaM (List Search) :=
  let search :=
    if isNullOrEmpty hostname then
      if hintsp.aiFlags &&& AI_PASSIVE ≠ 0 then
        searchEntries hintsp.aiFamily (cstr "0::0") (cstr "0.0.0.0")
      else searchEntries hintsp.aiFamily (cstr "0::1") (cstr "localhost")
    else searchEntries hintsp.aiFamily (hostname.getD []) (hostname.getD [])
  if search.length < 1 ∨ 2 < search.length then Prog.exit (.errQuit search.length) else pure search

variable (env : Env)

/-! ### Building and cloning nodes -/

/-- `**paipnext = ai`. -/
def storeSlot (p : ℕ) : GaM Unit := do
  match (← Prog.get).aipnext with
  | .head => Prog.modify fun st => { st with aihead := some p }
  | .next q => do
    let ai ← readAi q
    write q (.addrinfo { ai with aiNext := some p })

/-- `**paipnext = ai; *paipnext = &ai->ai_next`. -/
def linkSlot (p : ℕ) : GaM Unit := do
  storeSlot p
  Prog.modify fun st => { st with aipnext := .next p }

/-- Allocate the socket address structure of the node at `p` and fill it in. -/
def fillAddr (p : ℕ) (sa : SockAddr) (len : ℕ) : GaM Unit := do
  match ← alloc env (.sockaddr sa) with
  | none => Prog.throw .memory
  | some a => do
    let ai ← readAi p
    write p (.addrinfo { ai with aiAddr := some a, aiAddrlen := len })

/-- `sizeof(unp->sun_path)`. -/
def SUN_PATH_LEN : ℕ := 108

/-- The node that `ga_aistruct` links before it turns to the socket address. -/
def newAi (hintsp : Hints) (family : ℤ) : AddrInfo where
  aiFlags := if hintsp.aiSocktype = 0 then AI_CLONE else 0
  aiFamily := family
  aiSocktype := hintsp.aiSocktype
  aiProtocol := hintsp.aiProtocol
  aiAddrlen := 0
  aiCanonname := none
  aiAddr := none
  aiNext := none

/-- `if (hintsp->ai_flags & AI_PASSIVE) unlink(unp->sun_path);`. -/
def unlinkPassive (hintsp : Hints) (path : CString) : GaM Unit :=
  if hintsp.aiFlags &&& AI_PASSIVE ≠ 0 then
    Prog.modify fun st => { st with unlinked := st.unlinked ++ [path] }
  else pure ()

/-- Create and fill in an `addrinfo{}`. -/
def gaAistruct (hintsp : Hints) (addr : List Byte) (family : ℤ) : GaM Unit := do
  match ← alloc env (.addrinfo (newAi hintsp family)) with
  | none => Prog.throw .memory
  | some p => do
    linkSlot p
    if family = AF_INET then fillAddr env p ⟨AF_INET, 0, addr.take 4⟩ 16
    else if family = AF_INET6 then fillAddr env p ⟨AF_INET6, 0, addr.take 16⟩ 28
    else if family = AF_LOCAL then
      if SUN_PATH_LEN ≤ addr.length then Prog.throw .service
      else do
        fillAddr env p ⟨AF_LOCAL, 0, addr⟩ 110
        unlinkPassive hintsp addr
    else pure ()

/-- Clone a new `addrinfo{}` from the one at `p` and link it after it; `none` is NULL. -/
def gaClone (p : ℕ) : GaM (Option ℕ) := do
  let ai ← readAi p
  match ← alloc env (.addrinfo { ai with aiFlags := 0, aiCanonname := none, aiAddr := none }) with
  | none => return none
  | some new => do
    write p (.addrinfo { ai with aiNext := some new })
    let sa ← readSa ai.aiAddr
    match ← alloc env (.sockaddr sa) with
    | none => return none
    | some a => do
      write new (.addrinfo { ai with aiFlags := 0, aiCanonname := none, aiAddr := some a })
      return some new

/-! ### The service -/

/-- The end of the loop body of `ga_port`: set the socket type and the port of the node at `p`, and
return what is added to `nfound`. -/
def fillPort (port socktype : ℤ) (p : ℕ) : GaM ℕ := do
  let ai ← readAi p
  write p (.addrinfo { ai with aiSocktype := socktype })
  if ai.aiFamily = AF_INET ∨ ai.aiFamily = AF_INET6 then do
    let sa ← readSa ai.aiAddr
    write (ai.aiAddr.getD 0) (.sockaddr { sa with saPort := BitVec.ofInt 16 port })
    return 1
  else return 0

def gaPortLoop (port socktype : ℤ) : ℕ → Option ℕ → ℕ → GaM (Option ℕ)
  | _, none, nfound => return some nfound
  | 0, some _, _ => Prog.exit .diverge
  | fuel + 1, some p, nfound => do
    let ai ← readAi p
    if ai.aiFlags &&& AI_CLONE = 0 ∧ ai.aiSocktype ≠ socktype then
      gaPortLoop port socktype fuel ai.aiNext nfound
    else if ai.aiFlags &&& AI_CLONE ≠ 0 ∧ ai.aiSocktype ≠ 0 then do
      -- a used entry of the host search: its clone takes the new socket type
      match ← gaClone env p with
      | none => return none
      | some new => do
        let n ← fillPort port socktype new
        gaPortLoop port socktype fuel (← readAi new).aiNext (nfound + n)
    else do
      let n ← fillPort port socktype p
      gaPortLoop port socktype fuel (← readAi p).aiNext (nfound + n)

/-- Go through all the `addrinfo{}`s; the number of ports filled in, or `none` for -1. -/
def gaPort (aihead : Option ℕ) (port socktype : ℤ) : GaM (Option ℕ) := do
  let st ← Prog.get
  gaPortLoop env port socktype st.heap.fresh aihead 0

/-- `if ( (rc = ga_port(aihead, port, socktype)) < 0) return(EAI_MEMORY);`. -/
def gaPortOrMemory (aihead : Option ℕ) (port socktype : ℤ) : GaM ℕ := do
  match ← gaPort env aihead port socktype with
  | none => Prog.throw .memory
  | some rc => return rc

/-- The lookup of a service for one protocol. -/
def gaServProto (aihead : Option ℕ) (hintsp : Hints) (serv proto : CString) (socktype : ℤ) : GaM ℕ :=
  if hintsp.aiSocktype = 0 ∨ hintsp.aiSocktype = socktype then
    match env.getservbyname serv proto with
    | some sPort => gaPortOrMemory env aihead sPort socktype
    | none => pure 0
  else pure 0

/-- The value of `nfound` after both arms of `ga_serv`: a port number, or a service name that is tried
for TCP and then for UDP. -/
def gaServFound (aihead : Option ℕ) (hintsp : Hints) (serv : CString) : GaM ℕ :=
  if isdigit (firstByte serv) then
    let port : ℤ := (htons (BitVec.ofInt 16 (atoi serv))).toNat
    if hintsp.aiSocktype ≠ 0 then gaPortOrMemory env aihead port hintsp.aiSocktype
    else do
      let rc ← gaPortOrMemory env aihead port SOCK_STREAM
      let rc' ← gaPortOrMemory env aihead port SOCK_DGRAM
      return rc + rc'
  else do
    let rc ← gaServProto env aihead hintsp serv (cstr "tcp") SOCK_STREAM
    let rc' ← gaServProto env aihead hintsp serv (cstr "udp") SOCK_DGRAM
    return rc + rc'

/-- Handle the service string. -/
def gaServ (aihead : Option ℕ) (hintsp : Hints) (serv : CString) : GaM Unit := do
  let nfound ← gaServFound env aihead hintsp serv
  if nfound = 0 then
    if hintsp.aiSocktype = 0 then Prog.throw .noName else Prog.throw .service
  else pure ()

/-! ### The host search -/

/-- The IPv4 address a host string denotes by itself. -/
def ipv4Literal (host : CString) : Option (List Byte) :=
  if isdigit (firstByte host) then env.inetPton AF_INET host else none

/-- The IPv6 address a host string denotes by itself. -/
def ipv6Literal (host : CString) : Option (List Byte) :=
  if (isxdigit (firstByte host) ∨ firstByte host = 58) ∧ 58 ∈ host then env.inetPton AF_INET6 host
  else none

/-- What the loop does with a literal of family `family`. -/
def addLiteral (hints : Hints) (sptr : Search) (addr : List Byte) (family : ℤ) : GaM Unit :=
  if hints.aiFamily ≠ AF_UNSPEC ∧ hints.aiFamily ≠ family then Prog.throw .addrFamily
  else if sptr.family ≠ family then pure ()
  else gaAistruct env hints addr family

/-- `gethostbyname2` when there are two searches, else `gethostbyname` with `RES_USE_INET6` set for
IPv6. -/
def resolve (nsearch : ℕ) (sptr : Search) : GaM (Except HErrno Hostent) := do
  let useInet6 := decide (nsearch ≠ 2 ∧ sptr.family = AF_INET6)
  Prog.modify fun st => { st with resInit := true, resUseInet6 := useInet6, nquery := st.nquery + 1 }
  let n := (← Prog.get).nquery
  if nsearch = 2 then return env.gethostbyname2 n sptr.host sptr.family
  else return env.gethostbyname n useInet6 sptr.host

def hErrnoEai : HErrno → Eai
  | .hostNotFound => .noName
  | .tryAgain => .again
  | .noRecovery => .fail
  | .noData => .noData
  | .other => .noName

def wantsCanon (hostname : Option CString) (hints : Hints) : Bool :=
  !isNullOrEmpty hostname && hints.aiFlags &&& AI_CANONNAME != 0

/-- Save the canonical name the first time. -/
def saveCanon (hostname : Option CString) (hints : Hints) (hName : CString) : GaM Unit := do
  let st ← Prog.get
  if wantsCanon hostname hints ∧ st.canon = none then do
    match ← alloc env (.string hName) with
    | none => Prog.throw .memory
    | some p => Prog.modify fun st => { st with canon := some p }
  else pure ()

/-- Create one `addrinfo{}` for each returned address. -/
def addAddrs (hints : Hints) (family : ℤ) : List (List Byte) → GaM Unit
  | [] => pure ()
  | addr :: addrs => do
    gaAistruct env hints addr family
    addAddrs hints family addrs

/-- The part of the loop that looks up the host name. -/
def lookupHost (hostname : Option CString) (hints : Hints) (nsearch : ℕ) (sptr : Search) : GaM Unit := do
  match ← resolve env nsearch sptr with
  | .error herr => if nsearch = 2 then pure () else Prog.throw (hErrnoEai herr)
  | .ok hptr =>
    if hints.aiFamily ≠ AF_UNSPEC ∧ hints.aiFamily ≠ hptr.hAddrtype then Prog.throw .addrFamily
    else do
      saveCanon env hostname hints hptr.hName
      addAddrs env hints hptr.hAddrtype hptr.hAddrList

/-- One turn of the loop over `search[]`. -/
def searchStep (hostname : Option CString) (hints : Hints) (nsearch : ℕ) (sptr : Search) : GaM Unit :=
  match ipv4Literal env sptr.host with
  | some inaddr => addLiteral env hints sptr inaddr AF_INET
  | none =>
    match ipv6Literal env sptr.host with
    | some in6addr => addLiteral env hints sptr in6addr AF_INET6
    | none => lookupHost env hostname hints nsearch sptr

def searchLoop (hostname : Option CString) (hints : Hints) (nsearch : ℕ) : List Search → GaM Unit
  | [] => pure ()
  | sptr :: rest => do
    searchStep env hostname hints nsearch sptr
    searchLoop hostname hints nsearch rest

/-- The name saved by the search, else `strdup(search[0].host)`. -/
def canonName (search : List Search) : GaM (Option ℕ) := do
  match (← Prog.get).canon with
  | some p => return some p
  | none => alloc env (.string (search.head?.elim [] Search.host))

/-- `if ( (aihead->ai_canonname = name) == NULL) error(EAI_MEMORY);`. -/
def storeCanon (head : ℕ) (name : Option ℕ) : GaM Unit := do
  let ai ← readAi head
  write head (.addrinfo { ai with aiCanonname := name })
  if name = none then Prog.throw .memory else pure ()

/-- Return the canonical name in the first node. -/
def setCanon (hostname : Option CString) (hints : Hints) (search : List Search) (head : ℕ) :
    GaM Unit :=
  if wantsCanon hostname hints then do
    let name ← canonName env search
    storeCanon head name
  else pure ()

/-- Process the service name, if there is one. -/
def processServ (head : ℕ) (hints : Hints) (servname : Option CString) : GaM Unit :=
  if isNullOrEmpty servname then pure () else gaServ env (some head) hints (servname.getD [])

/-- `getaddrinfo` from `ga3` on, up to the label `bad`. -/
def getaddrinfoInet (hostname servname : Option CString) (hints : Hints) : GaM ℕ := do
  let search ← gaNsearch hostname hints
  searchLoop env hostname hints search.length search
  match (← Prog.get).aihead with
  | none => Prog.throw .noName
  | some head => do
    setCanon env hostname hints search head
    processServ env head hints servname
    return head

/-! ### Entry points -/

/-- The nodes of `ga_unix`: stream then datagram if the caller has not specified a socket type. -/
def gaUnixNodes (path : CString) (hintsp : Hints) : GaM Unit :=
  if hintsp.aiSocktype = 0 then do
    gaAistruct env { hintsp with aiSocktype := SOCK_STREAM } path AF_LOCAL
    gaAistruct env { hintsp with aiSocktype := SOCK_DGRAM } path AF_LOCAL
  else gaAistruct env hintsp path AF_LOCAL

/-- The canonical name of a Unix domain node is the name of this host. -/
def gaUnixCanon (hintsp : Hints) (head : ℕ) : GaM Unit :=
  if hintsp.aiFlags &&& AI_CANONNAME ≠ 0 then
    match env.uname with
    | none => Prog.throw .system
    | some nodename => do
      let name ← alloc env (.string nodename)
      storeCanon head name
  else pure ()

/-- The Unix domain case: no host search, one or two nodes for the path. -/
def gaUnix (path : CString) (hintsp : Hints) : GaM ℕ :=
  if hintsp.aiFamily ≠ AF_UNSPEC ∧ hintsp.aiFamily ≠ AF_LOCAL then Prog.throw .addrFamily
  else do
    gaUnixNodes env path hintsp
    match (← Prog.get).aihead with
    | none => Prog.exit .crash
    | some head => do
      gaUnixCanon env hintsp head
      return head

/-- Free a list of `addrinfo{}`s. -/
def freeLoop : ℕ → Option ℕ → GaM Unit
  | _, none => pure ()
  | 0, some _ => Prog.exit .diverge
  | fuel + 1, some p => do
    let ai ← readAi p
    ai.aiAddr.elim (pure ()) free
    ai.aiCanonname.elim (pure ()) free
    free p
    freeLoop fuel ai.aiNext

def freeaddrinfo (aihead : Option ℕ) : GaM Unit := do
  let st ← Prog.get
  freeLoop st.heap.fresh aihead

/-- Is this the Unix domain special case? -/
def isUnixCase (hostname servname : Option CString) : Bool :=
  (hostname == some (cstr "/local") || hostname == some (cstr "/unix")) &&
    servname.any fun s => firstByte s == 47

/-- `hints`, zero but for the family if the caller gives none. -/
def hintsOf (hintsp : Option Hints) : Hints := hintsp.getD ⟨0, AF_UNSPEC, 0, 0⟩

/-- A return is the return value 0 with the pointer stored in `*result`, an error exit any other
return value. -/
def getaddrinfo (hostname servname : Option CString) (hintsp : Option Hints) : GaM ℕ := do
  Prog.modify fun st => { st with aihead := none, aipnext := .head, canon := none }
  let hints := hintsOf hintsp
  match gaEcheck hostname servname hints.aiFlags hints.aiFamily hints.aiSocktype hints.aiProtocol with
  | some e => Prog.throw e
  | none =>
    if isUnixCase hostname servname then gaUnix env (servname.getD []) hints
    else Prog.onError (getaddrinfoInet env hostname servname hints) do
      freeaddrinfo (← Prog.get).aihead

end UnixNetProg.Libgai
