import UnixNetProg.Lib.Endian
import UnixNetProg.Libc
import UnixNetProg.Libroute.GetRtaddrs

/-!
# The interface list from `sysctl` (`route/get_ifi_info.c`)

The kernel's list has an `RTM_IFINFO` message for each interface, followed by an `RTM_NEWADDR` message for each
address of it. `get_ifi_info` goes over the messages with `ifi`, the entry that it made last. An entry keeps
where its addresses came from, and which interface it was made for; neither is in the source.

A `struct sockaddr_dl` has its index, the lengths of the name and of the hardware address and then the name
itself, without a 0 behind it.
-/

namespace UnixNetProg.Route

open Lib Libroute

def AF_LINK : Byte := 18
def IFI_NAME : ℕ := 16

/-! ### The `sockaddr_dl` of an interface -/

def sdlIndex (body : Memory Byte) (sa : ℕ) : ℕ := word16 .little (body (sa + 2)) (body (sa + 3))
def sdlNlen (body : Memory Byte) (sa : ℕ) : ℕ := (body (sa + 5)).toNat
def sdlAlen (body : Memory Byte) (sa : ℕ) : ℕ := (body (sa + 6)).toNat

/-- `%*s` with the width `nlen`: the string goes on to the first 0, which a width does not change, and is padded
when it is shorter. A width is at most 255, so no more than that has to be looked at for the padding. -/
def starString (body : Memory Byte) (p nlen : ℕ) : CString :=
  let s := stringOf (body.slice p (p + 255))
  List.replicate (nlen - s.length) 32 ++ s

/-- What is stored in `ifi_name`. -/
def ifiName (body : Memory Byte) (sa : ℕ) : CString :=
  if 0 < sdlNlen body sa then snprintf IFI_NAME (starString body (sa + 8) (sdlNlen body sa))
  else snprintf IFI_NAME (cstr "index " ++ decimal (sdlIndex body sa))

/-! ### The list -/

/-- An address, with the interface and the message that it came from. -/
structure Origin where
  iface : ℕ
  msg : ℕ
  bytes : List Byte
  deriving DecidableEq, Repr

/-- `struct ifi_info`, with the interface that it was made for. The other fields stay 0. -/
structure Entry where
  owner : ℕ
  name : CString
  index : ℤ
  haddr : List Byte
  hlen : ℕ
  flags : BitVec 16
  addr : Option Origin
  brdaddr : Option Origin
  dstaddr : Option Origin
  deriving DecidableEq

/-- `ifi` is the last entry of the list, or not initialised. -/
structure State where
  before : List Entry
  ifi : Option Entry
  flags : BitVec 32

def State.list (s : State) : List Entry := s.before ++ s.ifi.toList

section Messages

variable (w : ℕ)

/-- The entry for an `RTM_IFINFO` message with its `RTAX_IFP` address at `sa`. -/
def linkEntry (i : ℕ) (flags : BitVec 32) (body : Memory Byte) (sa : ℕ) : Entry :=
  if body (sa + 1) = AF_LINK then
    { owner := i, name := ifiName body sa, index := (BitVec.ofNat 16 (sdlIndex body sa)).toInt,
      haddr := body.slice (sa + 8 + sdlNlen body sa) (sa + 8 + sdlNlen body sa + min IFI_HADDR (sdlAlen body sa)),
      hlen := sdlAlen body sa, flags := flags.setWidth 16, addr := none, brdaddr := none, dstaddr := none }
  else
    { owner := i, name := [], index := 0, haddr := [], hlen := 0, flags := flags.setWidth 16, addr := none,
      brdaddr := none, dstaddr := none }

/-- An `RTM_IFINFO` message, of interface `i`. -/
def ifinfo (i : ℕ) (flags : BitVec 32) (x : RtMsg w) (s : State) : State :=
  let s := { s with flags := flags }
  if flags &&& IFF_UP = 0 then s
  else
    match rtiInfo w x.addrs x.body RTAX_IFP with
    | none => s
    | some sa => { s with before := s.list, ifi := some (linkEntry i flags x.body sa) }

/-- The copy of an entry for a further address. -/
def Entry.another (ifi : Entry) : Entry := { ifi with addr := none, brdaddr := none, dstaddr := none }

/-- The addresses of a message are stored in an entry. -/
def attach (i j : ℕ) (flags : BitVec 32) (x : RtMsg w) (ifi : Entry) : Entry :=
  let origin := fun k => (rtiInfo w x.addrs x.body k).map fun sa => (⟨i, j, saBytes x.body sa⟩ : Origin)
  let ifi := { ifi with addr := (origin RTAX_IFA).or ifi.addr }
  let ifi := if flags &&& IFF_BROADCAST ≠ 0 then { ifi with brdaddr := (origin RTAX_BRD).or ifi.brdaddr } else ifi
  if flags &&& IFF_POINTOPOINT ≠ 0 then { ifi with dstaddr := (origin RTAX_BRD).or ifi.dstaddr } else ifi

/-- An `RTM_NEWADDR` message, the one of number `j` for interface `i`; `none` is a use of `ifi` before it is
set. -/
def newaddr (doaliases : Bool) (i j : ℕ) (x : RtMsg w) (s : State) : Option State :=
  match s.ifi with
  | none => none
  | some ifi =>
    if ifi.addr.isSome then
      if doaliases then
        some { s with before := s.before ++ [ifi], ifi := some (attach w i j s.flags x ifi.another) }
      else some s
    else some { s with ifi := some (attach w i j s.flags x ifi) }

/-- An interface of the kernel's list: its messages, the first with the address of the link. -/
structure Iface where
  flags : BitVec 32
  info : RtMsg w
  link : PaddedSa w
  addrs : List (RtMsg w)
  info_ifp : info.sas RTAX_IFP = some link
  family : info.body (info.offset RTAX_IFP + 1) = AF_LINK

/-- The `RTM_NEWADDR` messages of an interface. -/
def newaddrs (doaliases : Bool) (i : ℕ) : ℕ → List (RtMsg w) → State → Option State
  | _, [], s => some s
  | j, x :: msgs, s =>
    match newaddr w doaliases i j x s with
    | none => none
    | some s' => newaddrs doaliases i (j + 1) msgs s'

/-- The messages of an interface. -/
def iface (doaliases : Bool) (i : ℕ) (x : Iface w) (s : State) : Option State :=
  newaddrs w doaliases i 0 x.addrs (ifinfo w i x.flags x.info s)

/-- The loop over the list, from interface `i` on. -/
def ifaces (doaliases : Bool) : ℕ → List (Iface w) → State → Option State
  | _, [], s => some s
  | i, x :: xs, s =>
    match iface w doaliases i x s with
    | none => none
    | some s' => ifaces doaliases (i + 1) xs s'

/-- The whole call; the `flags` of the start are never used. -/
def getIfiInfo (doaliases : Bool) (xs : List (Iface w)) : Option (List Entry) :=
  (ifaces w doaliases 0 xs ⟨[], none, 0⟩).map State.list

end Messages

end UnixNetProg.Route
