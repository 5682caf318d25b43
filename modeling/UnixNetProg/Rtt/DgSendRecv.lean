import UnixNetProg.Lib.Memory
import UnixNetProg.Lib.Transition
import UnixNetProg.Rtt.Rtt

/-!
# The reliable datagram client (`rtt/dg_send_recv.c`) and its echo server (`rtt/dg_echo.c`)

The state holds the `static` variables of `dg_send_recv.c`, the locals of the active call, the timer,
and the datagrams in both directions. The network keeps every datagram: it may be delivered at any
later time, any number of times, or never. The actions are the system calls of the client, the arrival
of `SIGALRM`, and one turn of the server's loop; what the clock shows is an argument of the action
that reads it.

A datagram carries, beside its bytes, the number of the call that transmitted it and the clock at that
moment; no action looks at these. `jmpbuf` is the number of the call whose `sigsetjmp` filled it.
-/

namespace UnixNetProg.Rtt

open Lib

/-! ### Headers -/

/-- The bytes of a `uint32_t` in memory, on a little-endian host. -/
def le32 (v : BitVec 32) : List Byte :=
  [UInt8.ofNat v.toNat, UInt8.ofNat (v.toNat / 256), UInt8.ofNat (v.toNat / 65536),
    UInt8.ofNat (v.toNat / 16777216)]

def ofLe32 (bytes : List Byte) : BitVec 32 :=
  BitVec.ofNat 32 ((bytes.getD 0 0).toNat + (bytes.getD 1 0).toNat * 256 +
    (bytes.getD 2 0).toNat * 65536 + (bytes.getD 3 0).toNat * 16777216)

/-- `struct hdr`: the sequence number and the timestamp when sent. -/
structure Hdr where
  seq : BitVec 32
  ts : BitVec 32
  deriving DecidableEq

/-- `sizeof(struct hdr)`. -/
def HDR_SIZE : ℕ := 8

def Hdr.bytes (hdr : Hdr) : List Byte := le32 hdr.seq ++ le32 hdr.ts

def Hdr.ofBytes (bytes : List Byte) : Hdr := ⟨ofLe32 (bytes.take 4), ofLe32 (bytes.drop 4)⟩

/-- The header after `Recvmsg` has stored the front of a datagram over it; a short datagram leaves the
other bytes as they were. -/
def Hdr.overwrite (hdr : Hdr) (bytes : List Byte) : Hdr :=
  .ofBytes (bytes.take HDR_SIZE ++ hdr.bytes.drop (bytes.take HDR_SIZE).length)

/-! ### States -/

structure Dgram where
  bytes : List Byte
  call : ℕ
  sentAt : TimeOfDay
  deriving DecidableEq

/-- Where the client is: between two calls, at `sendagain`, before `alarm`, between `alarm` and
`sigsetjmp`, in the loop around `Recvmsg`, before `alarm(0)`, before `rtt_stop`, or somewhere after a
`siglongjmp` through a buffer that the active call has not filled. -/
inductive Pc where
  | idle
  | sendagain
  | sent
  | armed
  | receiving
  | accepted
  | stopping
  | wild
  deriving DecidableEq, Repr

/-- A return with `n >= 0`: the bytes stored in `inbuff`, the datagram that was accepted, the value
handed to `rtt_stop`, and the clock when it was computed. -/
structure Reply where
  n : ℕ
  data : List Byte
  echo : Option Dgram
  ms : BitVec 32
  stoppedAt : TimeOfDay

/-- A call that has returned, with its arguments; `none` is -1 with `ETIMEDOUT`. -/
structure Result where
  call : ℕ
  outbuff : List Byte
  inbytes : ℕ
  reply : Option Reply

structure State where
  pc : Pc
  rttinfo : RttInfo
  rttinit : Bool
  sendhdr : Hdr
  recvhdr : Hdr
  jmpbuf : Option ℕ
  outbuff : List Byte
  inbuff : Memory Byte
  inbytes : ℕ
  n : ℕ
  alarm : ℤ
  toServer : List Dgram
  toClient : List Dgram
  ncalls : ℕ
  echo : Option Dgram
  results : List Result

/-! ### Actions -/

inductive Action where
  | call (outbuff : List Byte) (inbuff : Memory Byte) (inbytes : ℕ) (now : TimeOfDay)
  | sendmsg (now : TimeOfDay)
  | alarm
  | sigsetjmp
  | recvmsg (dgram : Dgram)
  | alarmOff
  | stop (now : TimeOfDay)
  | sigalrm
  | echo (dgram : Dgram)

def Action.isCall : Action → Bool
  | .call _ _ _ _ => true
  | _ => false

/-- The function up to the label `sendagain`; `inbuff` is what the caller's buffer holds. -/
def startCall (s : State) (outbuff : List Byte) (inbuff : Memory Byte) (inbytes : ℕ) (now : TimeOfDay) :
    State :=
  { s with
    pc := .sendagain
    rttinfo := rttNewpack (if s.rttinit then s.rttinfo else rttInit s.rttinfo now)
    rttinit := true
    sendhdr := { s.sendhdr with seq := s.sendhdr.seq + 1 }
    outbuff := outbuff
    inbuff := inbuff
    inbytes := inbytes
    ncalls := s.ncalls + 1 }

/-- `sendhdr.ts = rtt_ts(&rttinfo); Sendmsg(fd, &msgsend, 0);`. -/
def sendmsg (s : State) (now : TimeOfDay) : State :=
  let sendhdr := { s.sendhdr with ts := rttTs s.rttinfo now }
  { s with
    pc := .sent
    sendhdr := sendhdr
    toServer := s.toServer ++ [⟨sendhdr.bytes ++ s.outbuff, s.ncalls, now⟩] }

/-- One turn of the loop around `Recvmsg`: the datagram is cut to the two buffers, and accepted if it
has a header with the sequence number of this call. -/
def recvmsg (s : State) (dgram : Dgram) : State :=
  let n := min dgram.bytes.length (HDR_SIZE + s.inbytes)
  let recvhdr := s.recvhdr.overwrite dgram.bytes
  { s with
    pc := if n < HDR_SIZE ∨ recvhdr.seq ≠ s.sendhdr.seq then .receiving else .accepted
    recvhdr := recvhdr
    inbuff := s.inbuff.store 0 ((dgram.bytes.drop HDR_SIZE).take s.inbytes)
    n := n
    echo := some dgram }

/-- `rtt_stop(&rttinfo, rtt_ts(&rttinfo) - recvhdr.ts)` and the return. -/
def stop (s : State) (now : TimeOfDay) : State :=
  let ms := rttTs s.rttinfo now - s.recvhdr.ts
  { s with
    pc := .idle
    rttinfo := rttStop s.rttinfo ms
    results := s.results ++ [⟨s.ncalls, s.outbuff, s.inbytes,
      some ⟨s.n - HDR_SIZE, s.inbuff.slice 0 (s.n - HDR_SIZE), s.echo, ms, now⟩⟩] }

/-- `sigsetjmp` returns nonzero: retransmit or give up. -/
def timeout (s : State) : State :=
  let rc := rttTimeout s.rttinfo
  if rc.2 then
    { s with
      pc := .idle
      rttinfo := rc.1
      rttinit := false
      results := s.results ++ [⟨s.ncalls, s.outbuff, s.inbytes, none⟩] }
  else { s with pc := .sendagain, rttinfo := rc.1 }

/-- `jmpbuf` was filled by a `sigsetjmp` of the call that is active. -/
def JumpSafe (s : State) : Prop := s.pc ≠ .idle ∧ s.jmpbuf = some s.ncalls

instance (s : State) : Decidable (JumpSafe s) := inferInstanceAs (Decidable (_ ∧ _))

/-- `sig_alrm` jumps; the timer has run out. -/
def sigalrm (s : State) : State :=
  if JumpSafe s then timeout { s with alarm := 0 } else { s with pc := .wild, alarm := 0 }

/-- The server's loop: at most `MAXLINE` bytes are received and sent back. -/
def dgEcho (dgram : Dgram) : Dgram := { dgram with bytes := dgram.bytes.take MAXLINE }

/-- The action can happen. A datagram too short for a header may arrive from anywhere; any other comes
from the server. -/
def Enabled (s : State) : Action → Prop
  | .call _ _ _ _ => s.pc = .idle
  | .sendmsg _ => s.pc = .sendagain
  | .alarm => s.pc = .sent
  | .sigsetjmp => s.pc = .armed
  | .recvmsg dgram => s.pc = .receiving ∧ (dgram ∈ s.toClient ∨ dgram.bytes.length < HDR_SIZE)
  | .alarmOff => s.pc = .accepted
  | .stop _ => s.pc = .stopping
  | .sigalrm => s.alarm ≠ 0
  | .echo dgram => dgram ∈ s.toServer

instance (s : State) : (a : Action) → Decidable (Enabled s a)
  | .call _ _ _ _ => inferInstanceAs (Decidable (s.pc = .idle))
  | .sendmsg _ => inferInstanceAs (Decidable (s.pc = .sendagain))
  | .alarm => inferInstanceAs (Decidable (s.pc = .sent))
  | .sigsetjmp => inferInstanceAs (Decidable (s.pc = .armed))
  | .recvmsg _ => inferInstanceAs (Decidable (_ ∧ (_ ∨ _)))
  | .alarmOff => inferInstanceAs (Decidable (s.pc = .accepted))
  | .stop _ => inferInstanceAs (Decidable (s.pc = .stopping))
  | .sigalrm => inferInstanceAs (Decidable (s.alarm ≠ 0))
  | .echo dgram => inferInstanceAs (Decidable (dgram ∈ s.toServer))

def next (s : State) : Action → State
  | .call outbuff inbuff inbytes now => startCall s outbuff inbuff inbytes now
  | .sendmsg now => sendmsg s now
  | .alarm => { s with pc := .armed, alarm := rttStart s.rttinfo }
  | .sigsetjmp => { s with pc := .receiving, jmpbuf := some s.ncalls }
  | .recvmsg dgram => recvmsg s dgram
  | .alarmOff => { s with pc := .stopping, alarm := 0 }
  | .stop now => stop s now
  | .sigalrm => sigalrm s
  | .echo dgram => { s with toClient := s.toClient ++ [dgEcho dgram] }

/-- The state before the first call: the statics are zero. -/
def start : State where
  pc := .idle
  rttinfo := ⟨0, 0, 0, 0, 0, 0⟩
  rttinit := false
  sendhdr := ⟨0, 0⟩
  recvhdr := ⟨0, 0⟩
  jmpbuf := none
  outbuff := []
  inbuff _ := 0
  inbytes := 0
  n := 0
  alarm := 0
  toServer := []
  toClient := []
  ncalls := 0
  echo := none
  results := []

/-- Any sequence of calls, any network, and `SIGALRM` whenever the timer runs. -/
def dgSendRecv : TransitionSystem State := .ofActions (· = start) Enabled next

theorem reachable_next {s : State} (h : dgSendRecv.Reachable s) (a : Action) (ha : Enabled s a) :
    dgSendRecv.Reachable (next s a) := h.action ha

theorem recvmsg_pc (s : State) (dgram : Dgram) :
    (recvmsg s dgram).pc = .receiving ∨ (recvmsg s dgram).pc = .accepted := by
  by_cases h : min dgram.bytes.length (HDR_SIZE + s.inbytes) < HDR_SIZE ∨
      (s.recvhdr.overwrite dgram.bytes).seq ≠ s.sendhdr.seq
  · exact .inl (if_pos h)
  · exact .inr (if_neg h)

theorem sigalrm_keeps (s : State) :
    (sigalrm s).outbuff = s.outbuff ∧ (sigalrm s).inbytes = s.inbytes ∧ (sigalrm s).ncalls = s.ncalls ∧
      (sigalrm s).toServer = s.toServer := by
  unfold sigalrm timeout
  dsimp only
  split_ifs <;> exact ⟨rfl, rfl, rfl, rfl⟩

end UnixNetProg.Rtt
