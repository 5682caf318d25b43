import UnixNetProg.Sigio.DgEcho

/-!
# When `sig_io` quits (`sigio/dgecho01.c`)

The handler tests for a full queue before each `recvfrom`, so after the read that fills the queue it quits
without asking whether another datagram is there. It also counts the datagram that the main loop has just
sent, when the signal comes between `Sendto` and `nqueue--`. It quits with a full queue and a datagram
waiting just when, at the read that fills the queue, another datagram is behind in the socket and the main
loop is not at one of these points.
-/

namespace UnixNetProg.Sigio

open Lib

/-- The handler is about to read the datagram that fills the queue. -/
def Fills (s : DgEcho) : Prop := s.handler.any HandlerPc.isRecv ∧ s.nqueue + 1 = QSIZE ∧ s.socket ≠ []

instance (s : DgEcho) : Decidable (Fills s) := inferInstanceAs (Decidable (_ ∧ _))

/-- Another datagram is waiting behind it, and no datagram is sent and still counted. -/
def FillsLate (s : DgEcho) : Prop := 1 < s.socket.length ∧ s.pc.lag = 0

instance (s : DgEcho) : Decidable (FillsLate s) := inferInstanceAs (Decidable (_ ∧ _))

def LateStep (s : DgEcho) : EchoAction → Prop
  | .handler => Fills s → FillsLate s
  | .main | .sendError | .wake | .signal | .recvError | .arrive _ => True

instance (s : DgEcho) : ∀ a, Decidable (LateStep s a)
  | .handler => inferInstanceAs (Decidable (_ → _))
  | .main | .sendError | .wake | .signal | .recvError | .arrive _ => inferInstanceAs (Decidable True)

/-- The runs in which each read that fills the queue is late. -/
def dgEchoLate (clilen : ℕ) : TransitionSystem DgEcho :=
  .ofActions (· = echoStart clilen) (fun s a => EchoEnabled clilen s a ∧ LateStep s a) (echoNext clilen)

/-- `QSIZE` datagrams are unsent and a further one is waiting. -/
def Overflowing (s : DgEcho) : Prop := s.unsent.length = QSIZE ∧ s.socket ≠ []

instance (s : DgEcho) : Decidable (Overflowing s) := inferInstanceAs (Decidable (_ ∧ _))

def HandlerPc.isCheck : HandlerPc → Bool
  | .check _ => true
  | .recv _ => false

structure LateInv (clilen : ℕ) (s : DgEcho) : Prop where
  queue : ∃ done unsent, EchoInv clilen s done unsent
  outside : s.handler = none → s.nqueue < QSIZE
  full : s.handler.any HandlerPc.isCheck → QSIZE ≤ s.nqueue → s.socket ≠ [] ∧ s.pc.lag = 0
  overflow : s.quit = some .overflow → Overflowing s

section Steps

variable {clilen : ℕ} {s : DgEcho}

theorem lateInv_start (clilen : ℕ) : LateInv clilen (echoStart clilen) :=
  ⟨⟨[], [], echoInv_start clilen⟩, fun _ => Int.natCast_pos.mpr qsize_pos, nofun, nofun⟩

theorem mainNext_spec (s : DgEcho) :
    (mainNext s).nqueue ≤ s.nqueue ∧ (mainNext s).handler = s.handler ∧ (mainNext s).quit = s.quit := by
  unfold mainNext
  cases s.pc with
  | test =>
    dsimp only
    by_cases hzero : s.nqueue = 0
    · rw [if_pos hzero]
      exact ⟨Int.le_refl _, rfl, rfl⟩
    · rw [if_neg hzero]
      exact ⟨Int.le_refl _, rfl, rfl⟩
  | blocked => exact ⟨Int.sub_le_self _ (by decide), rfl, rfl⟩
  | setup | suspend | send | sent | bumped | wrapped => exact ⟨Int.le_refl _, rfl, rfl⟩

theorem length_unsent {done unsent : List Datagram} (h : EchoInv clilen s done unsent) :
    (s.unsent.length : ℤ) = s.nqueue - s.pc.lag := by
  have hnqueue := h.nqueue
  rw [h.unsent_eq]
  omega

theorem lateInv_handler (h : LateInv clilen s) (hq : s.quit = none) (hlate : Fills s → FillsLate s) :
    LateInv clilen (sigIo clilen s) := by
  obtain ⟨done, unsent, hinv⟩ := h.queue
  have hqueue : ∃ done unsent, EchoInv clilen (sigIo clilen s) done unsent := ⟨done, echoInv_handler hinv⟩
  have hquit : s.quit ≠ some .overflow := by
    rw [hq]
    exact nofun
  have hstep := sigIo_step clilen s
  generalize sigIo clilen s = s' at hqueue hstep ⊢
  cases hstep with
  | idle => exact h
  | overflow nread hhandler hfull =>
    -- the process quits, with what the invariant says about a full queue
    have hcheck : s.handler.any HandlerPc.isCheck := by
      rw [hhandler]
      rfl
    obtain ⟨hsocket, hlag⟩ := h.full hcheck hfull
    refine ⟨hqueue, h.outside, h.full, fun _ => ⟨?_, hsocket⟩⟩
    have hlen := length_unsent hinv
    have hroom := hinv.room
    rw [hlag] at hlen
    show s.unsent.length = QSIZE
    omega
  | ready => exact ⟨hqueue, nofun, nofun, fun hover => absurd hover hquit⟩
  | drained nread hhandler =>
    exact ⟨hqueue, fun _ => hinv.lt_of_recv hhandler, nofun, fun hover => absurd hover hquit⟩
  | stored nread d socket hhandler hsocket =>
    refine ⟨hqueue, nofun, fun _ hfull => ?_, fun hover => absurd hover hquit⟩
    -- this read has filled the queue
    change (QSIZE : ℤ) ≤ s.nqueue + 1 at hfull
    have hlt := hinv.lt_of_recv hhandler
    have hfills : Fills s := by
      refine ⟨?_, by omega, ?_⟩
      · rw [hhandler]
        rfl
      · rw [hsocket]
        exact List.cons_ne_nil d socket
    obtain ⟨hlen, hlag⟩ := hlate hfills
    refine ⟨fun hnil => ?_, hlag⟩
    change socket = [] at hnil
    rw [hsocket, hnil] at hlen
    exact absurd hlen (show ¬ 1 < 1 by decide)

theorem lateInv_step (h : LateInv clilen s) {a : EchoAction} (ha : EchoEnabled clilen s a) (hlate : LateStep s a) :
    LateInv clilen (echoNext clilen s a) := by
  obtain ⟨done, unsent, hinv⟩ := h.queue
  have hqueue := echoInv_step hinv ha
  cases a with
  | main =>
    obtain ⟨hq, hhandler, -⟩ := ha
    obtain ⟨hle, hhandler', hquit'⟩ := mainNext_spec s
    have hlt := h.outside hhandler
    refine ⟨hqueue, fun _ => ?_, fun hcheck => ?_, fun hover => ?_⟩
    · show (mainNext s).nqueue < QSIZE
      omega
    · change (mainNext s).handler.any HandlerPc.isCheck at hcheck
      rw [hhandler', hhandler] at hcheck
      exact nomatch hcheck
    · change (mainNext s).quit = some .overflow at hover
      rw [hquit', hq] at hover
      exact nomatch hover
  | sendError => exact ⟨hqueue, h.outside, h.full, nofun⟩
  | wake =>
    obtain ⟨hq, hhandler, -⟩ := ha
    refine ⟨hqueue, h.outside, fun hcheck => ?_, fun hover => ?_⟩
    · change s.handler.any HandlerPc.isCheck at hcheck
      rw [hhandler] at hcheck
      exact nomatch hcheck
    · change s.quit = some .overflow at hover
      rw [hq] at hover
      exact nomatch hover
  | signal =>
    have hlt := h.outside ha.2.1
    refine ⟨hqueue, nofun, fun _ hfull => ?_, h.overflow⟩
    change (QSIZE : ℤ) ≤ s.nqueue at hfull
    omega
  | handler => exact lateInv_handler h ha.1 hlate
  | recvError => exact ⟨hqueue, h.outside, h.full, nofun⟩
  | arrive d =>
    have hne : s.socket ++ [d] ≠ [] := List.append_ne_nil_of_right_ne_nil _ (List.cons_ne_nil d [])
    refine ⟨hqueue, h.outside, fun hcheck hfull => ⟨hne, (h.full hcheck hfull).2⟩, fun hover => ?_⟩
    exact ⟨(h.overflow hover).1, hne⟩

theorem lateInv_reachable (h : (dgEchoLate clilen).Reachable s) : LateInv clilen s := by
  refine TransitionSystem.invariant ?_ ?_ h
  · intro s hs
    rw [hs]
    exact lateInv_start clilen
  · intro s s' _ hinv hstep
    obtain ⟨a, ⟨ha, hlate⟩, rfl⟩ := hstep
    exact lateInv_step hinv ha hlate

theorem quit_of_fills {done unsent : List Datagram} (h : EchoInv clilen s done unsent) (hfills : Fills s) :
    (sigIo clilen (sigIo clilen s)).quit = some .overflow ∧
      (Overflowing (sigIo clilen (sigIo clilen s)) ↔ FillsLate s) := by
  obtain ⟨hrecv, hfull, hne⟩ := hfills
  obtain ⟨nread, hhandler⟩ : ∃ nread, s.handler = some (.recv nread) := by
    cases hs : s.handler with
    | none =>
      rw [hs] at hrecv
      exact nomatch hrecv
    | some hp =>
      cases hp with
      | recv nread => exact ⟨nread, rfl⟩
      | check nread =>
        rw [hs] at hrecv
        exact nomatch hrecv
  obtain ⟨d, socket, hsocket⟩ := List.exists_cons_of_ne_nil hne
  have hfirst : sigIo clilen s = receive clilen s nread := by simp only [sigIo, hhandler]
  have hstore := echoInv_store h nread (by omega) hsocket
  rw [hfirst, receive_cons hsocket]
  generalize hs' : ({ s with
      socket := socket
      dg := Function.update s.dg s.iput (d.store clilen)
      nqueue := s.nqueue + 1
      iput := wrapSucc QSIZE s.iput
      handler := some (.check (nread + 1))
      received := s.received ++ [d] } : DgEcho) = s' at hstore ⊢
  have hhandler' : s'.handler = some (.check (nread + 1)) := by rw [← hs']
  have hnqueue' : s'.nqueue = s.nqueue + 1 := by rw [← hs']
  have hsocket' : s'.socket = socket := by rw [← hs']
  have hpc' : s'.pc = s.pc := by rw [← hs']
  have hnext : sigIo clilen s' = { s' with quit := some .overflow } := by
    simp only [sigIo, hhandler', if_pos (show (QSIZE : ℤ) ≤ s'.nqueue by omega)]
  have hlen := length_unsent hstore
  rw [hnqueue', hpc'] at hlen
  rw [hnext]
  refine ⟨rfl, ?_⟩
  show s'.unsent.length = QSIZE ∧ s'.socket ≠ [] ↔ 1 < s.socket.length ∧ s.pc.lag = 0
  rw [hsocket', hsocket, List.length_cons, ← List.length_pos_iff]
  constructor
  · rintro ⟨hunsent, hpos⟩
    exact ⟨by omega, by omega⟩
  · rintro ⟨hpos, hlag⟩
    exact ⟨by omega, by omega⟩

/-- **When the handler quits with a full queue and a datagram waiting.** In every run in which each read
that fills the queue leaves a datagram waiting in the socket and does not interrupt the main loop between
`Sendto` and `nqueue--`, the process quits for overflow only with `QSIZE` datagrams unsent and another one
waiting. After any read that fills the queue, the next two steps of the handler lead to the quit, and it is so just
then, unless a datagram arrives in between. -/
theorem overflow_when_late (clilen : ℕ) {s : DgEcho} (h : (dgEchoLate clilen).Reachable s) :
    (s.quit = some .overflow → Overflowing s) ∧
    (Fills s → (sigIo clilen (sigIo clilen s)).quit = some .overflow ∧
      (Overflowing (sigIo clilen (sigIo clilen s)) ↔ FillsLate s)) := by
  have hinv := lateInv_reachable h
  obtain ⟨done, unsent, hqueue⟩ := hinv.queue
  exact ⟨hinv.overflow, quit_of_fills hqueue⟩

end Steps

/-- A signal that finds `n` datagrams in the socket. -/
def sampleBurst (n : ℕ) : List EchoAction :=
  [.main, .main] ++ List.replicate n (.arrive ⟨[97], [1]⟩) ++ [.signal] ++ List.replicate 17 .handler

/-- Nine datagrams: the ninth is waiting when the handler quits. -/
theorem overflow_when_late_sample :
    let s := (sampleBurst 9).foldl (echoNext 16) (echoStart 16)
    s.quit = some .overflow ∧ Overflowing s := by
  intro s
  have h₀ : (dgEchoLate 16).Reachable (echoStart 16) := TransitionSystem.reachable_init rfl
  have h : (dgEchoLate 16).Reachable s := h₀.actions (by decide)
  have hquit : s.quit = some .overflow := by decide
  exact ⟨hquit, (overflow_when_late 16 h).1 hquit⟩

/-- Eight datagrams fill the queue, and the handler quits although the socket is empty. -/
theorem overflow_when_full :
    ¬ ∀ clilen s, (dgEcho clilen).Reachable s → s.quit = some .overflow → Overflowing s := by
  intro hall
  have h₀ : (dgEcho 16).Reachable (echoStart 16) := TransitionSystem.reachable_init rfl
  have h : (dgEcho 16).Reachable ((sampleBurst 8).foldl (echoNext 16) (echoStart 16)) := h₀.actions (by decide)
  have hover := hall 16 _ h (by decide)
  revert hover
  decide

end UnixNetProg.Sigio
