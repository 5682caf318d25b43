import UnixNetProg.Lib.Memory
import UnixNetProg.Lib.Slots
import UnixNetProg.Lib.Transition
import UnixNetProg.Libgai.AddrInfo

/-!
# The ICMP message daemon (`icmpd`)

Clients connect over a Unix domain socket and pass their UDP socket; the daemon remembers its family and
local port, and sends a client each ICMP error that quotes a datagram with these. The events are handled
by `readable_listen`, `readable_conn`, `readable_v4` and `readable_v6`, in any order. An ICMP message is
`n` bytes at the start of `buf`; what stands behind them is arbitrary.

Connections are numbered as they are accepted. No step looks at `owner`, the connection in each slot, at
`registered`, the sockets that were answered with "1", or at `written`, the errors written to clients.
-/

namespace UnixNetProg.Icmpd

open Lib

/-- `icmpd_errno`. -/
inductive Errno where
  | EHOSTUNREACH
  | EMSGSIZE
  | ECONNREFUSED
  deriving DecidableEq, Repr

/-- `icmpd_dest`: the first `icmpd_len` bytes of a socket address structure. -/
structure Dest where
  family : ℤ
  addr : List Byte
  port : ℤ
  deriving DecidableEq, Repr

structure IcmpdErr where
  errno : Errno
  type : Byte
  code : Byte
  len : ℕ
  dest : Dest
  deriving DecidableEq, Repr

/-- The datagram that an ICMP error quotes, and what its owner is told. -/
structure Quoted where
  family : ℤ
  sport : ℤ
  err : IcmpdErr
  deriving DecidableEq, Repr

/-- What becomes of a message: `err_quit`, nothing, or the errors are written. -/
inductive Parsed where
  | quit
  | ignored
  | quoted (q : Quoted)
  deriving DecidableEq, Repr

/-! ### The messages -/

def ICMP_UNREACH : Byte := 3
def ICMP_SOURCEQUENCH : Byte := 4
def ICMP_TIMXCEED : Byte := 11
def ICMP_UNREACH_PORT : Byte := 3
def ICMP_UNREACH_NEEDFRAG : Byte := 4
def ICMP6_DST_UNREACH : Byte := 1
def ICMP6_PACKET_TOO_BIG : Byte := 2
def ICMP6_TIME_EXCEEDED : Byte := 3
def ICMP6_DST_UNREACH_NOPORT : Byte := 4

/-- `ip_hl << 2`, from the first byte of an IPv4 header. -/
def ipHlen (b : Byte) : ℕ := b.toNat % 16 * 4

/-- A port in network byte order. -/
def portAt (buf : Memory Byte) (k : ℕ) : ℤ := 256 * (buf k).toNat + (buf (k + 1)).toNat

def errnoV4 (type code : Byte) : Errno :=
  if type = ICMP_UNREACH then
    if code = ICMP_UNREACH_PORT then .ECONNREFUSED
    else if code = ICMP_UNREACH_NEEDFRAG then .EMSGSIZE
    else .EHOSTUNREACH
  else .EHOSTUNREACH

def errnoV6 (type code : Byte) : Errno :=
  let errno := if type = ICMP6_DST_UNREACH ∧ code = ICMP6_DST_UNREACH_NOPORT then .ECONNREFUSED else .EHOSTUNREACH
  if type = ICMP6_PACKET_TOO_BIG then .EMSGSIZE else errno

/-- `readable_v4` up to its loop over the clients. -/
def parseV4 (buf : Memory Byte) (n : ℕ) : Parsed :=
  let hlen1 := ipHlen (buf 0)
  let icmplen : ℤ := n - hlen1
  let type := buf hlen1
  let code := buf (hlen1 + 1)
  if icmplen < 8 then .quit
  else if type = ICMP_UNREACH ∨ type = ICMP_TIMXCEED ∨ type = ICMP_SOURCEQUENCH then
    if icmplen < 8 + 20 + 8 then .quit
    else
      let hip := hlen1 + 8
      let udp := hip + ipHlen (buf hip)
      if buf (hip + 9) = IPPROTO_UDP then
        .quoted ⟨AF_INET, portAt buf udp,
          ⟨errnoV4 type code, type, code, 16, ⟨AF_INET, buf.slice (hip + 16) (hip + 20), portAt buf (udp + 2)⟩⟩⟩
      else .ignored
  else .ignored

/-- `readable_v6` up to its loop over the clients. -/
def parseV6 (buf : Memory Byte) (n : ℕ) : Parsed :=
  let type := buf 0
  let code := buf 1
  if n < 8 then .quit
  else if type = ICMP6_DST_UNREACH ∨ type = ICMP6_PACKET_TOO_BIG ∨ type = ICMP6_TIME_EXCEEDED then
    if n < 8 + 8 then .quit
    else
      let hip6 := 8
      let udp := hip6 + 40
      if buf (hip6 + 6) = IPPROTO_UDP then
        .quoted ⟨AF_INET6, portAt buf udp,
          ⟨errnoV6 type code, type, code, 28, ⟨AF_INET6, buf.slice (hip6 + 24) (hip6 + 40), portAt buf (udp + 2)⟩⟩⟩
      else .ignored
  else .ignored

/-! ### The clients -/

/-- `struct client`. -/
structure Client where
  connfd : ℤ
  family : ℤ
  lport : ℤ
  deriving DecidableEq, Repr

/-- A socket that was answered with "1". -/
structure Registration where
  conn : ℕ
  family : ℤ
  lport : ℤ
  udp : Bool
  deriving DecidableEq, Repr

/-- An `icmpd_err` that was written to a connection. -/
structure Delivery where
  conn : ℕ
  quoted : Quoted
  deriving DecidableEq, Repr

structure Daemon where
  client : ℕ → Client
  maxi : ℤ
  owner : ℕ → ℕ
  accepted : ℕ
  registered : List Registration
  written : List Delivery
  quit : Bool

/-- A descriptor that a client has passed: whether it is a UDP socket, the family and the port that
`getsockname` gives, and the port that it gets when it is bound to an ephemeral one. -/
structure PassedSock where
  udp : Bool
  name : Option (ℤ × ℤ)
  bound : Option ℤ
  deriving DecidableEq, Repr

/-- The results of `Read_fd`: end of file, data without a descriptor, a descriptor, or an error. -/
inductive ConnMsg where
  | eof
  | noFd
  | passed (sock : PassedSock)
  | error
  deriving DecidableEq, Repr

inductive IcmpdAction where
  | listen (connfd : ℕ)
  | conn (i : ℕ) (msg : ConnMsg)
  | v4 (buf : Memory Byte) (n : ℕ)
  | v6 (buf : Memory Byte) (n : ℕ)

/-- `readable_listen`; without a free slot the connection is closed at once. -/
def readableListen (fdSetsize : ℕ) (s : Daemon) (connfd : ℕ) : Daemon :=
  match firstSlot (fun i => (s.client i).connfd < 0) fdSetsize with
  | none => { s with accepted := s.accepted + 1 }
  | some i =>
    { s with
      client := Function.update s.client i { s.client i with connfd := connfd }
      maxi := max s.maxi i
      owner := Function.update s.owner i s.accepted
      accepted := s.accepted + 1 }

/-- The label `clientdone`. -/
def clientDone (s : Daemon) (i : ℕ) : Daemon :=
  { s with client := Function.update s.client i { s.client i with connfd := -1 } }

/-- `lib/sock_get_port.c`. -/
def sockGetPort (family port : ℤ) : ℤ := if family = AF_INET ∨ family = AF_INET6 then port else -1

/-- `lib/sock_bind_wild.c`; `bound` is the port, when `bind` and `getsockname` succeed. -/
def sockBindWild (family : ℤ) (bound : Option ℤ) : ℤ :=
  if family = AF_INET ∨ family = AF_INET6 then bound.getD (-1) else -1

/-- `client[i].lport` for a socket that `getsockname` could name. -/
def localPort (family port : ℤ) (bound : Option ℤ) : ℤ :=
  if sockGetPort family port = 0 then sockBindWild family bound else sockGetPort family port

def readableConn (s : Daemon) (i : ℕ) (msg : ConnMsg) : Daemon :=
  match msg with
  | .eof | .noFd => clientDone s i
  | .error => { s with quit := true }
  | .passed sock =>
    match sock.name with
    | none => clientDone s i
    | some (family, port) =>
      let lport := localPort family port sock.bound
      let s' := { s with client := Function.update s.client i { s.client i with family := family, lport := lport } }
      if sockGetPort family port = 0 ∧ lport ≤ 0 then clientDone s' i
      else { s' with registered := s.registered ++ [⟨s.owner i, family, lport, sock.udp⟩] }

/-- The slot is written to. -/
def Client.Matches (c : Client) (q : Quoted) : Prop := 0 ≤ c.connfd ∧ c.family = q.family ∧ c.lport = q.sport

instance (c : Client) (q : Quoted) : Decidable (c.Matches q) := inferInstanceAs (Decidable (_ ∧ _))

/-- The slots up to `maxi` that are written to. -/
def Daemon.targets (s : Daemon) (q : Quoted) : List ℕ :=
  (List.range (s.maxi + 1).toNat).filter fun i => (s.client i).Matches q

theorem mem_targets_iff {s : Daemon} {q : Quoted} {i : ℕ} : i ∈ s.targets q ↔ i ≤ s.maxi ∧ (s.client i).Matches q := by
  rw [Daemon.targets, List.mem_filter, List.mem_range, decide_eq_true_eq]
  have hlt : i < (s.maxi + 1).toNat ↔ (i : ℤ) ≤ s.maxi := by omega
  rw [hlt]

/-- What the loop over the clients writes. -/
def Daemon.deliveries (s : Daemon) (q : Quoted) : List Delivery := (s.targets q).map fun i => ⟨s.owner i, q⟩

def report (s : Daemon) : Parsed → Daemon
  | .quit => { s with quit := true }
  | .ignored => s
  | .quoted q => { s with written := s.written ++ s.deliveries q }

def IcmpdEnabled (s : Daemon) : IcmpdAction → Prop
  | .listen _ => s.quit = false
  | .conn i _ => s.quit = false ∧ i ≤ s.maxi ∧ 0 ≤ (s.client i).connfd
  | .v4 _ n => s.quit = false ∧ n ≤ MAXLINE
  | .v6 _ n => s.quit = false ∧ n ≤ MAXLINE

instance (s : Daemon) : ∀ a, Decidable (IcmpdEnabled s a)
  | .listen _ => inferInstanceAs (Decidable (_ = _))
  | .conn _ _ | .v4 _ _ | .v6 _ _ => inferInstanceAs (Decidable (_ ∧ _))

def icmpdNext (fdSetsize : ℕ) (s : Daemon) : IcmpdAction → Daemon
  | .listen connfd => readableListen fdSetsize s connfd
  | .conn i msg => readableConn s i msg
  | .v4 buf n => report s (parseV4 buf n)
  | .v6 buf n => report s (parseV6 buf n)

/-- Static storage is zero, and all slots are made available. -/
def icmpdStart : Daemon where
  client _ := ⟨-1, 0, 0⟩
  maxi := -1
  owner _ := 0
  accepted := 0
  registered := []
  written := []
  quit := false

def icmpd (fdSetsize : ℕ) : TransitionSystem Daemon :=
  .ofActions (· = icmpdStart) IcmpdEnabled (icmpdNext fdSetsize)

end UnixNetProg.Icmpd
