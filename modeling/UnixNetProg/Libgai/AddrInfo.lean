import UnixNetProg.Lib.Heap
import UnixNetProg.Lib.Prog
import UnixNetProg.Libc

/-!
# Data of `libgai` (`addrinfo.h`, `gai_hdr.h`)

`libgai` is configured with IPv4, IPv6 and UNIXdomain. An `addrinfo{}`, a socket address structure
and a string are each one block of the heap, and a pointer is the number of its block (`none` for
NULL). Every `calloc`, `malloc` and `strdup` may fail, and everything outside the library (the
resolver, the service database, `inet_pton`, `uname`) answers through `Env`.
-/

namespace UnixNetProg.Libgai

open Lib

def SOCK_STREAM : ℤ := 1
def SOCK_DGRAM : ℤ := 2
def SOCK_RAW : ℤ := 3

def AI_PASSIVE : BitVec 32 := 1
def AI_CANONNAME : BitVec 32 := 2

/-- Clone this entry for other socket types (internal flag). -/
def AI_CLONE : BitVec 32 := 4

/-- The error returns of `addrinfo.h`. -/
inductive Eai where
  | addrFamily
  | again
  | badFlags
  | fail
  | family
  | memory
  | noData
  | noName
  | service
  | sockType
  | system
  deriving DecidableEq, Repr

/-- A socket address: `sin_port` or `sin6_port` in network byte order, and the bytes of `sin_addr`,
`sin6_addr` or `sun_path`. -/
structure SockAddr where
  saFamily : ℤ
  saPort : BitVec 16
  saAddr : List Byte
  deriving DecidableEq, Repr

/-- All of an `addrinfo{}` but its link. -/
structure AiFields where
  aiFlags : BitVec 32
  aiFamily : ℤ
  aiSocktype : ℤ
  aiProtocol : ℤ
  aiAddrlen : ℕ
  aiCanonname : Option ℕ
  aiAddr : Option ℕ
  deriving DecidableEq, Repr

structure AddrInfo extends AiFields where
  aiNext : Option ℕ
  deriving DecidableEq, Repr

inductive Block where
  | addrinfo (ai : AddrInfo)
  | sockaddr (sa : SockAddr)
  | string (s : CString)
  deriving DecidableEq, Repr

/-- The members of the caller's `hints` that `getaddrinfo` reads. -/
structure Hints where
  aiFlags : BitVec 32
  aiFamily : ℤ
  aiSocktype : ℤ
  aiProtocol : ℤ
  deriving DecidableEq, Repr

structure Search where
  host : CString
  family : ℤ
  deriving DecidableEq, Repr

inductive HErrno where
  | hostNotFound
  | tryAgain
  | noRecovery
  | noData
  | other
  deriving DecidableEq, Repr

/-- An answer of the resolver: addresses of one of the two Internet families, each of that family's
length. -/
structure Hostent where
  hName : CString
  hAddrtype : ℤ
  hAddrList : List (List Byte)
  addrtype : hAddrtype = AF_INET ∨ hAddrtype = AF_INET6
  addrlen : ∀ a ∈ hAddrList, a.length = if hAddrtype = AF_INET then 4 else 16

/-- What lies outside the library. The `n`-th allocation fails if `allocFails n`, and the `n`-th query
of the resolver may be answered differently from the same query made earlier. -/
structure Env where
  allocFails : ℕ → Bool
  inetPton : ℤ → CString → Option (List Byte)
  gethostbyname : (n : ℕ) → (useInet6 : Bool) → CString → Except HErrno Hostent
  gethostbyname2 : (n : ℕ) → CString → ℤ → Except HErrno Hostent
  getservbyname : CString → CString → Option ℤ
  uname : Option CString

/-- How the process can end inside the library: `err_quit`, an access through a pointer that names no
block of its type, or a loop that does not end. -/
inductive Exit where
  | errQuit (nsearch : ℕ)
  | crash
  | diverge
  deriving DecidableEq, Repr

/-- Where `aipnext` points: to the local `aihead`, or to the `ai_next` member of a node. -/
inductive Slot where
  | head
  | next (p : ℕ)
  deriving DecidableEq, Repr

/-- The heap, the use made of the environment so far, and the locals `aihead`, `aipnext` and `canon`
that the functions share through pointers. -/
structure St where
  heap : Heap Block
  nalloc : ℕ
  nquery : ℕ
  resInit : Bool
  resUseInet6 : Bool
  unlinked : List CString
  aihead : Option ℕ
  aipnext : Slot
  canon : Option ℕ

/-- The state in which a process starts. -/
def St.start : St := ⟨⟨[]⟩, 0, 0, false, false, [], none, .head, none⟩

/-- The address `2001:db8::1`. -/
def sampleAddr6 : List Byte := [32, 1, 13, 184, 0, 0, 0, 0, 0, 0, 0, 0, 0, 0, 0, 1]

/-- Allocations succeed, and of hosts and services only the literals `1.2.3.4` and `2001:db8::1` are
known. -/
def sampleEnv : Env where
  allocFails _ := false
  inetPton family s :=
    if family = AF_INET ∧ s = cstr "1.2.3.4" then some [1, 2, 3, 4]
    else if family = AF_INET6 ∧ s = cstr "2001:db8::1" then some sampleAddr6
    else none
  gethostbyname _ _ _ := .error .hostNotFound
  gethostbyname2 _ _ _ := .error .hostNotFound
  getservbyname _ _ := none
  uname := none

abbrev GaM := Prog Eai Exit St

/-! ### Memory -/

variable (env : Env)

/-- `calloc`, `malloc` or `strdup`, with the contents that the code goes on to store. -/
def alloc (b : Block) : GaM (Option ℕ) := do
  let st ← Prog.get
  if env.allocFails st.nalloc then
    Prog.modify fun st => { st with nalloc := st.nalloc + 1 }
    return none
  else
    Prog.modify fun st => { st with nalloc := st.nalloc + 1, heap := st.heap.alloc b }
    return some st.heap.fresh

def readAi (p : ℕ) : GaM AddrInfo := do
  match (← Prog.get).heap.get p with
  | some (.addrinfo ai) => return ai
  | _ => Prog.exit .crash

def readSa (p : Option ℕ) : GaM SockAddr := do
  match p.bind (← Prog.get).heap.get with
  | some (.sockaddr sa) => return sa
  | _ => Prog.exit .crash

def write (p : ℕ) (b : Block) : GaM Unit :=
  Prog.modify fun st => { st with heap := st.heap.set p b }

def free (p : ℕ) : GaM Unit := do
  match (← Prog.get).heap.get p with
  | some _ => Prog.modify fun st => { st with heap := st.heap.free p }
  | none => Prog.exit .crash

end UnixNetProg.Libgai
