import UnixNetProg.Lib.Ring
import UnixNetProg.Lib.Transition
import UnixNetProg.Unp

/-!
# The echo server with signal-driven I/O (`sigio/dgecho01.c`)

The handler `sig_io` puts datagrams into a ring of buffers and the main loop sends them back. The main
loop stands at one of the points of `MainPc`; where `SIGIO` is not blocked, the handler may start, and it
runs to its end before the main loop goes on. Datagrams arrive at the socket at any time.

No step looks at `arrived`, `received` and `sent`: the datagrams that came to the socket, those that the
handler has read, and what was sent and to whom.
-/

namespace UnixNetProg.Sigio

open Lib

def QSIZE : ℕ := 8
def MAXDG : ℕ := 4096

structure Datagram where
  data : List Byte
  sender : List Byte
  deriving DecidableEq, Repr

/-- `DG`: the first `dg_len` bytes at `dg_data`, what is at `dg_sa`, and `dg_salen`. -/
structure DG where
  data : List Byte
  sa : List Byte
  salen : ℕ
  deriving DecidableEq, Repr

/-- The points of `dg_echo`: before the first `Sigprocmask`; at the test of `nqueue`; in `sigsuspend`;
before and after `Sendto`; after `++iget`, before and after the test for its wrap; and before `nqueue--`. -/
inductive MainPc where
  | setup
  | test
  | suspend
  | send
  | sent
  | bumped
  | wrapped
  | blocked
  deriving DecidableEq, Repr

/-- `SIGIO` is not blocked. -/
def MainPc.unblocked : MainPc → Bool
  | .setup | .suspend | .send | .sent | .bumped | .wrapped => true
  | .test | .blocked => false

/-- The points of the loop in `sig_io`: the test for overflow, and the call of `recvfrom`. -/
inductive HandlerPc where
  | check (nread : ℕ)
  | recv (nread : ℕ)
  deriving DecidableEq, Repr

/-- `err_quit("receive overflow")`, or an error of a system call. -/
inductive Quit where
  | overflow
  | error
  deriving DecidableEq, Repr

structure DgEcho where
  pc : MainPc
  handler : Option HandlerPc
  iget : ℕ
  iput : ℕ
  nqueue : ℤ
  dg : ℕ → DG
  cntread : ℕ → ℕ
  socket : List Datagram
  quit : Option Quit
  arrived : List Datagram
  received : List Datagram
  sent : List (List Byte × List Byte)

inductive EchoAction where
  | main
  | sendError
  | wake
  | signal
  | handler
  | recvError
  | arrive (d : Datagram)

/-- What `Sendto` sends, and where to. -/
def DG.reply (dg : DG) : List Byte × List Byte := (dg.data, dg.sa.take dg.salen)

/-- What `recvfrom` stores. -/
def Datagram.store (clilen : ℕ) (d : Datagram) : DG :=
  ⟨d.data.take MAXDG, d.sender.take clilen, d.sender.length⟩

/-- The datagram sent back: what fits into the buffer, to the sender. -/
def Datagram.echo (d : Datagram) : List Byte × List Byte := (d.data.take MAXDG, d.sender)

def mainNext (s : DgEcho) : DgEcho :=
  match s.pc with
  | .setup => { s with pc := .test }
  | .test => if s.nqueue = 0 then { s with pc := .suspend } else { s with pc := .send }
  | .suspend => s
  | .send => { s with sent := s.sent ++ [(s.dg s.iget).reply], pc := .sent }
  | .sent => { s with iget := s.iget + 1, pc := .bumped }
  | .bumped => { s with iget := if QSIZE ≤ s.iget then 0 else s.iget, pc := .wrapped }
  | .wrapped => { s with pc := .blocked }
  | .blocked => { s with nqueue := s.nqueue - 1, pc := .test }

/-- `sigsuspend` returns when a handler has run. -/
def MainPc.resume : MainPc → MainPc
  | .suspend => .test
  | pc => pc

/-- `recvfrom` and what follows it; an empty socket would block. -/
def receive (clilen : ℕ) (s : DgEcho) (nread : ℕ) : DgEcho :=
  match s.socket with
  | [] =>
    { s with
      cntread := Function.update s.cntread nread (s.cntread nread + 1)
      handler := none
      pc := s.pc.resume }
  | d :: socket =>
    { s with
      socket := socket
      dg := Function.update s.dg s.iput (d.store clilen)
      nqueue := s.nqueue + 1
      iput := wrapSucc QSIZE s.iput
      handler := some (.check (nread + 1))
      received := s.received ++ [d] }

def sigIo (clilen : ℕ) (s : DgEcho) : DgEcho :=
  match s.handler with
  | some (.check nread) =>
    if QSIZE ≤ s.nqueue then { s with quit := some .overflow }
    else
      { s with
        dg := Function.update s.dg s.iput { s.dg s.iput with salen := clilen }
        handler := some (.recv nread) }
  | some (.recv nread) => receive clilen s nread
  | none => s

def HandlerPc.isRecv : HandlerPc → Bool
  | .recv _ => true
  | .check _ => false

/-- The addresses of the senders fit into `clilen` bytes. -/
def EchoEnabled (clilen : ℕ) (s : DgEcho) : EchoAction → Prop
  | .main => s.quit = none ∧ s.handler = none ∧ s.pc ≠ .suspend
  | .sendError => s.quit = none ∧ s.handler = none ∧ s.pc = .send
  | .wake => s.quit = none ∧ s.handler = none ∧ s.pc = .suspend
  | .signal => s.quit = none ∧ s.handler = none ∧ s.pc.unblocked
  | .handler => s.quit = none ∧ s.handler ≠ none
  | .recvError => s.quit = none ∧ s.handler.any HandlerPc.isRecv
  | .arrive d => d.sender.length ≤ clilen

instance (clilen : ℕ) (s : DgEcho) : ∀ a, Decidable (EchoEnabled clilen s a)
  | .main | .sendError | .wake | .signal | .handler | .recvError => inferInstanceAs (Decidable (_ ∧ _))
  | .arrive _ => inferInstanceAs (Decidable (_ ≤ _))

def echoNext (clilen : ℕ) (s : DgEcho) : EchoAction → DgEcho
  | .main => mainNext s
  | .sendError => { s with quit := some .error }
  | .wake => { s with pc := s.pc.resume }
  | .signal => { s with handler := some (.check 0) }
  | .handler => sigIo clilen s
  | .recvError => { s with quit := some .error }
  | .arrive d => { s with socket := s.socket ++ [d], arrived := s.arrived ++ [d] }

/-- The queue of buffers is set up, and the signal handler is installed. -/
def echoStart (clilen : ℕ) : DgEcho where
  pc := .setup
  handler := none
  iget := 0
  iput := 0
  nqueue := 0
  dg _ := ⟨[], [], clilen⟩
  cntread _ := 0
  socket := []
  quit := none
  arrived := []
  received := []
  sent := []

def dgEcho (clilen : ℕ) : TransitionSystem DgEcho :=
  .ofActions (· = echoStart clilen) (EchoEnabled clilen) (echoNext clilen)

/-! ### The invariant -/

/-- A datagram that was sent is still counted in `nqueue`. -/
def MainPc.lag : MainPc → ℕ
  | .sent | .bumped | .wrapped | .blocked => 1
  | .setup | .test | .suspend | .send => 0

/-- A datagram was sent and `iget` still points to it. -/
def MainPc.behind : MainPc → ℕ
  | .sent => 1
  | .setup | .test | .suspend | .send | .bumped | .wrapped | .blocked => 0

/-- `iget` was incremented and `nqueue` not yet decremented. -/
def MainPc.moved : MainPc → ℕ
  | .bumped | .wrapped | .blocked => 1
  | .setup | .test | .suspend | .send | .sent => 0

/-- The slot of the first datagram that was not sent, before its wrap. -/
def DgEcho.first (s : DgEcho) : ℕ := s.iget + s.pc.behind

/-- The datagrams that were read and not sent. -/
def DgEcho.unsent (s : DgEcho) : List Datagram := s.received.drop s.sent.length

/-- The datagrams `done` were sent and `unsent` are in the ring. -/
structure EchoInv (clilen : ℕ) (s : DgEcho) (done unsent : List Datagram) : Prop where
  received : s.received = done ++ unsent
  sent : s.sent = done.map Datagram.echo
  arrived : s.arrived = s.received ++ s.socket
  senders : ∀ d ∈ s.arrived, d.sender.length ≤ clilen
  nqueue : s.nqueue = unsent.length + s.pc.lag
  room : s.nqueue ≤ QSIZE
  iget_lt : s.pc ≠ .bumped → s.iget < QSIZE
  iget_le : s.iget ≤ QSIZE
  iput : s.iput = (s.first + unsent.length) % QSIZE
  slots : RingHolds QSIZE s.dg s.first (unsent.map (Datagram.store clilen))
  sending : s.pc = .send → unsent ≠ []
  reading : s.handler.any HandlerPc.isRecv → s.nqueue < QSIZE

section Steps

variable {clilen : ℕ} {s : DgEcho} {done unsent : List Datagram}

theorem qsize_pos : 0 < QSIZE := by decide

theorem echoInv_start (clilen : ℕ) : EchoInv clilen (echoStart clilen) [] [] :=
  ⟨rfl, rfl, rfl, nofun, rfl, Int.natCast_nonneg QSIZE, fun _ => qsize_pos, Nat.zero_le QSIZE, rfl, RingHolds.nil,
    nofun, nofun⟩

theorem reply_store {d : Datagram} (h : d.sender.length ≤ clilen) : (d.store clilen).reply = d.echo := by
  rw [DG.reply, Datagram.store, Datagram.echo, List.take_of_length_le h, List.take_length]

theorem first_of_pc {pc : MainPc} (hpc : s.pc = pc) : s.first = s.iget + pc.behind := by
  rw [DgEcho.first, hpc]

theorem EchoInv.nqueue_of_pc (h : EchoInv clilen s done unsent) {pc : MainPc} (hpc : s.pc = pc) :
    s.nqueue = unsent.length + pc.lag := by
  rw [← hpc]
  exact h.nqueue

theorem EchoInv.iget_lt_of_pc (h : EchoInv clilen s done unsent) {pc : MainPc} (hpc : s.pc = pc)
    (hne : pc ≠ .bumped) : s.iget < QSIZE := by
  apply h.iget_lt
  rw [hpc]
  exact hne

theorem EchoInv.goto (h : EchoInv clilen s done unsent) {pc pc' : MainPc} (hpc : s.pc = pc)
    (hlag : pc'.lag = pc.lag) (hbehind : pc'.behind = pc.behind) (hbumped : pc = .bumped → pc' = .bumped)
    (hsend : pc' = .send → unsent ≠ []) : EchoInv clilen { s with pc := pc' } done unsent := by
  have hfirst : DgEcho.first { s with pc := pc' } = s.first := by
    rw [first_of_pc hpc, DgEcho.first, hbehind]
  refine ⟨h.received, h.sent, h.arrived, h.senders, ?_, h.room, fun hne => ?_, h.iget_le, ?_, ?_, hsend, h.reading⟩
  · show s.nqueue = unsent.length + pc'.lag
    rw [hlag]
    exact h.nqueue_of_pc hpc
  · exact h.iget_lt_of_pc hpc fun heq => hne (hbumped heq)
  · rw [hfirst]
    exact h.iput
  · rw [hfirst]
    exact h.slots

theorem EchoInv.setHandler (h : EchoInv clilen s done unsent) (handler : Option HandlerPc) (quit : Option Quit)
    (cntread : ℕ → ℕ) (hreading : handler.any HandlerPc.isRecv → s.nqueue < QSIZE) :
    EchoInv clilen { s with handler := handler, quit := quit, cntread := cntread } done unsent :=
  ⟨h.received, h.sent, h.arrived, h.senders, h.nqueue, h.room, h.iget_lt, h.iget_le, h.iput, h.slots, h.sending,
    hreading⟩

theorem echoInv_send {d : Datagram} (h : EchoInv clilen s done (d :: unsent)) (hpc : s.pc = .send) :
    EchoInv clilen { s with sent := s.sent ++ [(s.dg s.iget).reply], pc := .sent } (done ++ [d]) unsent := by
  have hlt : s.iget < QSIZE := h.iget_lt_of_pc hpc MainPc.noConfusion
  have hfirst : s.first = s.iget := first_of_pc hpc
  have hslots := h.slots
  rw [List.map_cons] at hslots
  obtain ⟨hslot, hrest⟩ := hslots.pop
  rw [hfirst, Nat.mod_eq_of_lt hlt] at hslot
  have hsender : d.sender.length ≤ clilen := by
    apply h.senders
    rw [h.arrived, h.received]
    simp
  have hnqueue := h.nqueue_of_pc hpc
  have hiput := h.iput
  rw [List.length_cons] at hnqueue
  rw [hfirst, List.length_cons] at hiput
  refine ⟨?_, ?_, h.arrived, h.senders, ?_, h.room, fun _ => hlt, h.iget_le, ?_, ?_, nofun, ?_⟩
  · rw [List.append_assoc]
    exact h.received
  · show s.sent ++ [(s.dg s.iget).reply] = (done ++ [d]).map Datagram.echo
    rw [hslot, reply_store hsender, h.sent, List.map_append]
    rfl
  · show s.nqueue = unsent.length + (1 : ℕ)
    change s.nqueue = ((unsent.length + 1 : ℕ) : ℤ) + (0 : ℕ) at hnqueue
    omega
  · show s.iput = (s.iget + 1 + unsent.length) % QSIZE
    have hsum : s.iget + 1 + unsent.length = s.iget + (unsent.length + 1) := by omega
    rw [hsum]
    exact hiput
  · show RingHolds QSIZE s.dg (s.iget + 1) _
    rw [← hfirst]
    exact hrest
  · exact h.reading

theorem echoInv_bump (h : EchoInv clilen s done unsent) (hpc : s.pc = .sent) :
    EchoInv clilen { s with iget := s.iget + 1, pc := .bumped } done unsent := by
  have hlt : s.iget < QSIZE := h.iget_lt_of_pc hpc MainPc.noConfusion
  have hfirst : s.first = s.iget + 1 := first_of_pc hpc
  have hnqueue := h.nqueue_of_pc hpc
  have hiput := h.iput
  have hslots := h.slots
  rw [hfirst] at hiput hslots
  exact ⟨h.received, h.sent, h.arrived, h.senders, hnqueue, h.room, fun hne => absurd rfl hne, hlt, hiput, hslots,
    nofun, h.reading⟩

theorem echoInv_wrap (h : EchoInv clilen s done unsent) (hpc : s.pc = .bumped) :
    EchoInv clilen { s with iget := if QSIZE ≤ s.iget then 0 else s.iget, pc := .wrapped } done unsent := by
  have hfirst : s.first = s.iget := first_of_pc hpc
  have hle := h.iget_le
  have hpos := qsize_pos
  have hmod : (if QSIZE ≤ s.iget then 0 else s.iget) % QSIZE = s.iget % QSIZE := by
    by_cases hq : QSIZE ≤ s.iget
    · have heq : s.iget = QSIZE := by omega
      rw [if_pos hq, heq, Nat.mod_self]
      rfl
    · rw [if_neg hq]
  have hlt : (if QSIZE ≤ s.iget then 0 else s.iget) < QSIZE := by
    by_cases hq : QSIZE ≤ s.iget
    · rw [if_pos hq]
      exact hpos
    · rw [if_neg hq]
      omega
  have hnqueue := h.nqueue_of_pc hpc
  have hiput := h.iput
  have hslots := h.slots
  rw [hfirst] at hiput hslots
  refine ⟨h.received, h.sent, h.arrived, h.senders, hnqueue, h.room, fun _ => hlt, Nat.le_of_lt hlt, ?_, ?_, nofun,
    h.reading⟩
  · show s.iput = ((if QSIZE ≤ s.iget then 0 else s.iget) + unsent.length) % QSIZE
    rw [Nat.add_mod, hmod, ← Nat.add_mod]
    exact hiput
  · exact hslots.congr_start hmod

theorem echoInv_dequeue (h : EchoInv clilen s done unsent) (hpc : s.pc = .blocked) (hhandler : s.handler = none) :
    EchoInv clilen { s with nqueue := s.nqueue - 1, pc := .test } done unsent := by
  have hlt : s.iget < QSIZE := h.iget_lt_of_pc hpc MainPc.noConfusion
  have hfirst : s.first = s.iget := first_of_pc hpc
  have hnqueue := h.nqueue_of_pc hpc
  have hiput := h.iput
  have hslots := h.slots
  have hroom := h.room
  rw [hfirst] at hiput hslots
  refine ⟨h.received, h.sent, h.arrived, h.senders, ?_, ?_, fun _ => hlt, h.iget_le, hiput, hslots, nofun, ?_⟩
  · show s.nqueue - 1 = unsent.length + (0 : ℕ)
    change s.nqueue = unsent.length + (1 : ℕ) at hnqueue
    omega
  · show s.nqueue - 1 ≤ QSIZE
    omega
  · show s.handler.any HandlerPc.isRecv → _
    rw [hhandler]
    exact nofun

theorem echoInv_main (h : EchoInv clilen s done unsent) (hhandler : s.handler = none) :
    ∃ done' unsent', EchoInv clilen (mainNext s) done' unsent' := by
  unfold mainNext
  cases hpc : s.pc with
  | setup => exact ⟨done, unsent, h.goto hpc rfl rfl nofun nofun⟩
  | test =>
    dsimp only
    by_cases hzero : s.nqueue = 0
    · rw [if_pos hzero]
      exact ⟨done, unsent, h.goto hpc rfl rfl nofun nofun⟩
    · rw [if_neg hzero]
      refine ⟨done, unsent, h.goto hpc rfl rfl nofun fun _ hnil => hzero ?_⟩
      rw [h.nqueue_of_pc hpc, hnil]
      rfl
  | suspend => exact ⟨done, unsent, h⟩
  | send =>
    cases unsent with
    | nil => exact absurd rfl (h.sending hpc)
    | cons d rest => exact ⟨done ++ [d], rest, echoInv_send h hpc⟩
  | sent => exact ⟨done, unsent, echoInv_bump h hpc⟩
  | bumped => exact ⟨done, unsent, echoInv_wrap h hpc⟩
  | wrapped => exact ⟨done, unsent, h.goto hpc rfl rfl nofun nofun⟩
  | blocked => exact ⟨done, unsent, echoInv_dequeue h hpc hhandler⟩

theorem resume_spec (pc : MainPc) : pc.resume.lag = pc.lag ∧ pc.resume.behind = pc.behind ∧
    (pc = .bumped → pc.resume = .bumped) ∧ (pc.resume = .send → pc = .send) := by
  cases pc <;> simp [MainPc.resume, MainPc.lag, MainPc.behind]

theorem EchoInv.resume (h : EchoInv clilen s done unsent) :
    EchoInv clilen { s with pc := s.pc.resume } done unsent := by
  obtain ⟨hlag, hbehind, hbumped, hsend⟩ := resume_spec s.pc
  exact h.goto rfl hlag hbehind hbumped fun heq => h.sending (hsend heq)

/-- The slot that the handler writes to holds nothing that is unsent. -/
theorem EchoInv.free (h : EchoInv clilen s done unsent) (hlt : s.nqueue < QSIZE) : unsent.length < QSIZE := by
  have hnqueue := h.nqueue
  omega

theorem echoInv_check (h : EchoInv clilen s done unsent) (nread : ℕ) (hlt : s.nqueue < QSIZE) :
    EchoInv clilen { s with
      dg := Function.update s.dg s.iput { s.dg s.iput with salen := clilen }
      handler := some (.recv nread) } done unsent := by
  refine ⟨h.received, h.sent, h.arrived, h.senders, h.nqueue, h.room, h.iget_lt, h.iget_le, h.iput, ?_, h.sending,
    fun _ => hlt⟩
  have hlen : (unsent.map (Datagram.store clilen)).length < QSIZE := by
    rw [List.length_map]
    exact h.free hlt
  have hslots := h.slots.update_free hlen { s.dg s.iput with salen := clilen }
  rw [List.length_map, ← h.iput] at hslots
  exact hslots

theorem echoInv_store (h : EchoInv clilen s done unsent) (nread : ℕ) (hlt : s.nqueue < QSIZE) {d : Datagram}
    {socket : List Datagram} (hsocket : s.socket = d :: socket) :
    EchoInv clilen { s with
      socket := socket
      dg := Function.update s.dg s.iput (d.store clilen)
      nqueue := s.nqueue + 1
      iput := wrapSucc QSIZE s.iput
      handler := some (.check (nread + 1))
      received := s.received ++ [d] } done (unsent ++ [d]) := by
  have hlen : (unsent.map (Datagram.store clilen)).length < QSIZE := by
    rw [List.length_map]
    exact h.free hlt
  refine ⟨?_, h.sent, ?_, h.senders, ?_, ?_, h.iget_lt, h.iget_le, ?_, ?_, fun hpc => ?_, nofun⟩
  · show s.received ++ [d] = done ++ (unsent ++ [d])
    rw [h.received, List.append_assoc]
  · show s.arrived = s.received ++ [d] ++ socket
    rw [h.arrived, hsocket, List.append_assoc]
    rfl
  · show s.nqueue + 1 = ((unsent ++ [d]).length : ℤ) + s.pc.lag
    have hnqueue := h.nqueue
    rw [List.length_append, List.length_singleton]
    omega
  · show s.nqueue + 1 ≤ QSIZE
    omega
  · show wrapSucc QSIZE s.iput = (s.first + (unsent ++ [d]).length) % QSIZE
    have hiput : s.iput < QSIZE := by
      rw [h.iput]
      exact Nat.mod_lt _ qsize_pos
    rw [wrapSucc_eq hiput, h.iput, Nat.mod_add_mod, List.length_append, List.length_singleton, Nat.add_assoc]
  · have hslots := h.slots.push hlen (d.store clilen)
    rw [List.length_map, ← h.iput] at hslots
    rw [List.map_append]
    exact hslots
  · exact List.append_ne_nil_of_right_ne_nil _ (List.cons_ne_nil d [])

theorem receive_nil (h : s.socket = []) (nread : ℕ) :
    receive clilen s nread =
      { s with
        cntread := Function.update s.cntread nread (s.cntread nread + 1)
        handler := none
        pc := s.pc.resume } := by
  unfold receive
  rw [h]

theorem receive_cons {d : Datagram} {socket : List Datagram} (h : s.socket = d :: socket) (nread : ℕ) :
    receive clilen s nread =
      { s with
        socket := socket
        dg := Function.update s.dg s.iput (d.store clilen)
        nqueue := s.nqueue + 1
        iput := wrapSucc QSIZE s.iput
        handler := some (.check (nread + 1))
        received := s.received ++ [d] } := by
  unfold receive
  rw [h]

/-- What a step of `sig_io` can do. -/
inductive SigIoStep (clilen : ℕ) (s : DgEcho) : DgEcho → Prop where
  | idle (hhandler : s.handler = none) : SigIoStep clilen s s
  | overflow (nread : ℕ) (hhandler : s.handler = some (.check nread)) (hfull : QSIZE ≤ s.nqueue) :
    SigIoStep clilen s { s with quit := some .overflow }
  | ready (nread : ℕ) (hhandler : s.handler = some (.check nread)) (hlt : s.nqueue < QSIZE) :
    SigIoStep clilen s
      { s with
        dg := Function.update s.dg s.iput { s.dg s.iput with salen := clilen }
        handler := some (.recv nread) }
  | drained (nread : ℕ) (hhandler : s.handler = some (.recv nread)) (hsocket : s.socket = []) :
    SigIoStep clilen s
      { s with
        cntread := Function.update s.cntread nread (s.cntread nread + 1)
        handler := none
        pc := s.pc.resume }
  | stored (nread : ℕ) (d : Datagram) (socket : List Datagram) (hhandler : s.handler = some (.recv nread))
    (hsocket : s.socket = d :: socket) :
    SigIoStep clilen s
      { s with
        socket := socket
        dg := Function.update s.dg s.iput (d.store clilen)
        nqueue := s.nqueue + 1
        iput := wrapSucc QSIZE s.iput
        handler := some (.check (nread + 1))
        received := s.received ++ [d] }

theorem sigIo_step (clilen : ℕ) (s : DgEcho) : SigIoStep clilen s (sigIo clilen s) := by
  unfold sigIo
  cases hhandler : s.handler with
  | none => exact .idle hhandler
  | some hpc =>
    cases hpc with
    | check nread =>
      dsimp only
      by_cases hfull : QSIZE ≤ s.nqueue
      · rw [if_pos hfull, ← hhandler]
        exact .overflow nread hhandler hfull
      · rw [if_neg hfull]
        exact .ready nread hhandler (by omega)
    | recv nread =>
      show SigIoStep clilen s (receive clilen s nread)
      cases hsocket : s.socket with
      | nil =>
        rw [receive_nil hsocket]
        exact .drained nread hhandler hsocket
      | cons d socket =>
        rw [receive_cons hsocket]
        exact .stored nread d socket hhandler hsocket

theorem EchoInv.lt_of_recv (h : EchoInv clilen s done unsent) {nread : ℕ}
    (hhandler : s.handler = some (.recv nread)) : s.nqueue < QSIZE := by
  apply h.reading
  rw [hhandler]
  rfl

theorem echoInv_handler (h : EchoInv clilen s done unsent) :
    ∃ unsent', EchoInv clilen (sigIo clilen s) done unsent' := by
  have hstep := sigIo_step clilen s
  generalize sigIo clilen s = s' at hstep ⊢
  cases hstep with
  | idle => exact ⟨unsent, h⟩
  | overflow => exact ⟨unsent, h.setHandler s.handler (some .overflow) s.cntread h.reading⟩
  | ready nread _ hlt => exact ⟨unsent, echoInv_check h nread hlt⟩
  | drained => exact ⟨unsent, h.resume.setHandler none s.quit _ nofun⟩
  | stored nread d socket hhandler hsocket =>
    exact ⟨unsent ++ [d], echoInv_store h nread (h.lt_of_recv hhandler) hsocket⟩

theorem echoInv_arrive (h : EchoInv clilen s done unsent) {d : Datagram} (hd : d.sender.length ≤ clilen) :
    EchoInv clilen { s with socket := s.socket ++ [d], arrived := s.arrived ++ [d] } done unsent := by
  refine ⟨h.received, h.sent, ?_, fun d' hmem => ?_, h.nqueue, h.room, h.iget_lt, h.iget_le, h.iput, h.slots,
    h.sending, h.reading⟩
  · show s.arrived ++ [d] = s.received ++ (s.socket ++ [d])
    rw [h.arrived, List.append_assoc]
  · rcases List.mem_append.mp hmem with hmem | hmem
    · exact h.senders d' hmem
    · rw [List.mem_singleton.mp hmem]
      exact hd

theorem echoInv_step (h : EchoInv clilen s done unsent) {a : EchoAction} (ha : EchoEnabled clilen s a) :
    ∃ done' unsent', EchoInv clilen (echoNext clilen s a) done' unsent' := by
  cases a with
  | main => exact echoInv_main h ha.2.1
  | sendError => exact ⟨done, unsent, h.setHandler s.handler (some .error) s.cntread h.reading⟩
  | wake => exact ⟨done, unsent, h.resume⟩
  | signal => exact ⟨done, unsent, h.setHandler (some (.check 0)) s.quit s.cntread nofun⟩
  | handler => exact ⟨done, echoInv_handler h⟩
  | recvError => exact ⟨done, unsent, h.setHandler s.handler (some .error) s.cntread h.reading⟩
  | arrive d => exact ⟨done, unsent, echoInv_arrive h ha⟩

theorem echoInv_reachable (h : (dgEcho clilen).Reachable s) : ∃ done unsent, EchoInv clilen s done unsent := by
  refine TransitionSystem.invariant (P := fun s => ∃ done unsent, EchoInv clilen s done unsent) ?_ ?_ h
  · intro s hs
    rw [hs]
    exact ⟨[], [], echoInv_start clilen⟩
  · intro s s' _ hinv hstep
    obtain ⟨done, unsent, hinv⟩ := hinv
    obtain ⟨a, ha, rfl⟩ := hstep
    exact echoInv_step hinv ha

/-! ### The echo -/

theorem EchoInv.unsent_eq (h : EchoInv clilen s done unsent) : s.unsent = unsent := by
  rw [DgEcho.unsent, h.received, h.sent, List.length_map, List.drop_left]

theorem lag_eq (pc : MainPc) : pc.lag = pc.behind + pc.moved := by
  cases pc <;> rfl

theorem EchoInv.iput_eq (h : EchoInv clilen s done unsent) :
    (s.iput : ℤ) = (s.iget + s.nqueue - s.pc.moved) % QSIZE := by
  have hlag := lag_eq s.pc
  have hsum : (s.iget + s.nqueue - s.pc.moved : ℤ) = ((s.first + unsent.length : ℕ) : ℤ) := by
    rw [h.nqueue, DgEcho.first]
    omega
  rw [hsum, h.iput, Int.natCast_emod]

/-- The handler writes only to the slot behind the last datagram, and only while the ring is not full. -/
theorem sigIo_dg (h : EchoInv clilen s done unsent) {j : ℕ} (hj : s.nqueue < QSIZE → j ≠ s.iput) :
    (sigIo clilen s).dg j = s.dg j := by
  have hstep := sigIo_step clilen s
  generalize sigIo clilen s = s' at hstep ⊢
  cases hstep with
  | idle => rfl
  | overflow => rfl
  | ready nread _ hlt => exact Function.update_of_ne (hj hlt) _ _
  | drained => rfl
  | stored nread d socket hhandler => exact Function.update_of_ne (hj (h.lt_of_recv hhandler)) _ _

theorem EchoInv.sigIo_keeps (h : EchoInv clilen s done unsent) {k : ℕ} (hk : k < unsent.length) :
    (sigIo clilen s).dg ((s.first + k) % QSIZE) = s.dg ((s.first + k) % QSIZE) := by
  apply sigIo_dg h
  intro hlt
  have hlen := h.free hlt
  rw [h.iput]
  exact add_mod_ne hk (by omega)

theorem resume_ne_suspend (pc : MainPc) : pc.resume ≠ .suspend := by
  cases pc <;> exact MainPc.noConfusion

theorem nqueue_of_suspend {a : EchoAction} (hpc : s.pc ≠ .suspend) (hpc' : (echoNext clilen s a).pc = .suspend) :
    (echoNext clilen s a).nqueue = 0 := by
  cases a with
  | main =>
    change (mainNext s).pc = .suspend at hpc'
    show (mainNext s).nqueue = 0
    unfold mainNext at hpc' ⊢
    cases hs : s.pc with
    | test =>
      rw [hs] at hpc'
      dsimp only at hpc' ⊢
      by_cases hzero : s.nqueue = 0
      · rw [if_pos hzero]
        exact hzero
      · rw [if_neg hzero] at hpc'
        exact nomatch hpc'
    | suspend => exact absurd hs hpc
    | setup | send | sent | bumped | wrapped | blocked =>
      rw [hs] at hpc'
      exact nomatch hpc'
  | wake => exact absurd hpc' (resume_ne_suspend s.pc)
  | handler =>
    exfalso
    change (sigIo clilen s).pc = .suspend at hpc'
    have hstep := sigIo_step clilen s
    generalize sigIo clilen s = s' at hstep hpc'
    cases hstep with
    | idle | overflow | ready | stored => exact hpc hpc'
    | drained => exact resume_ne_suspend s.pc hpc'
  | sendError | signal | recvError | arrive => exact absurd hpc' hpc

/-- **The queue between the handler and the main loop.** In every reachable state `nqueue` is between 0 and
`QSIZE`; `iput` is where `iget` and `nqueue` say, one less being counted while the main loop is between
`++iget` and `nqueue--`; the datagrams that were read and not sent are in the slots from `iget` on, and
`sig_io` leaves these alone; what was sent is the datagrams in the order of their arrival, each once, to
its sender; and `sigsuspend` is entered only with an empty queue. -/
theorem dg_echo_queue (clilen : ℕ) {s : DgEcho} (h : (dgEcho clilen).Reachable s) :
    (0 ≤ s.nqueue ∧ s.nqueue ≤ QSIZE) ∧
    (s.iput : ℤ) = (s.iget + s.nqueue - s.pc.moved) % QSIZE ∧
    (∀ k d, s.unsent[k]? = some d → s.dg ((s.first + k) % QSIZE) = d.store clilen ∧
      (sigIo clilen s).dg ((s.first + k) % QSIZE) = s.dg ((s.first + k) % QSIZE)) ∧
    s.arrived.map Datagram.echo = s.sent ++ (s.unsent ++ s.socket).map Datagram.echo ∧
    ∀ s', (dgEcho clilen).step s s' → s.pc ≠ .suspend → s'.pc = .suspend → s'.nqueue = 0 := by
  obtain ⟨done, unsent, hinv⟩ := echoInv_reachable h
  refine ⟨⟨?_, hinv.room⟩, hinv.iput_eq, fun k d hk => ?_, ?_, fun s' hstep hpc hpc' => ?_⟩
  · have hnqueue := hinv.nqueue
    omega
  · rw [hinv.unsent_eq] at hk
    have hlt := (List.getElem?_eq_some_iff.mp hk).1
    refine ⟨hinv.slots k (d.store clilen) ?_, hinv.sigIo_keeps hlt⟩
    rw [List.getElem?_map, hk]
    rfl
  · rw [hinv.unsent_eq, hinv.arrived, hinv.received, hinv.sent, List.append_assoc, List.map_append]
  · obtain ⟨a, -, rfl⟩ := hstep
    exact nqueue_of_suspend hpc hpc'

end Steps

/-- Two datagrams arrive; a third is read while the first is sent and still counted. -/
def sampleEcho : List EchoAction :=
  [.main, .main, .arrive ⟨[97], [1]⟩, .arrive ⟨[98], [2]⟩, .signal, .handler, .handler, .handler, .handler, .handler,
    .handler, .main, .main, .arrive ⟨[99], [3]⟩, .main, .signal, .handler, .handler]

theorem dg_echo_queue_sample :
    let s := sampleEcho.foldl (echoNext 16) (echoStart 16)
    (s.pc = .bumped ∧ s.iget = 1 ∧ s.nqueue = 3 ∧ s.sent = [([97], [1])]) ∧
    (s.iput : ℤ) = (s.iget + s.nqueue - s.pc.moved) % QSIZE ∧
    s.arrived.map Datagram.echo = s.sent ++ (s.unsent ++ s.socket).map Datagram.echo := by
  intro s
  have h₀ : (dgEcho 16).Reachable (echoStart 16) := TransitionSystem.reachable_init rfl
  have h : (dgEcho 16).Reachable s := h₀.actions (by decide)
  obtain ⟨-, hiput, -, hecho, -⟩ := dg_echo_queue 16 h
  exact ⟨by decide, hiput, hecho⟩

end UnixNetProg.Sigio
