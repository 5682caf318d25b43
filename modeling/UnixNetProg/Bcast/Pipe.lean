import UnixNetProg.Bcast.Client

/-!
# The version with a pipe (`bcast/dgclibcast6.c`)

The handler writes one byte to a pipe, and the loop selects on the pipe as well as on the socket. The byte stays in the
pipe until the loop reads it, so that it does not matter at which point of the program the signal comes.
-/

namespace UnixNetProg.Bcast

open Lib TransitionSystem

/-- The points of `dg_cli`: `fdset` are the two `FD_SET`, `isset` and `issetPipe` the two tests. -/
inductive PipePc (ρ : Type) where
  | fgets
  | sendto
  | alarm
  | fdset
  | inSelect
  | isset
  | recvfrom
  | printf (d : ρ)
  | issetPipe
  | read
  | done

/-- `pipe` is the number of bytes in the pipe, `rsock` and `rpipe` what `select` has left in `rset`. -/
structure PipeClient (ρ : Type) extends Client (PipePc ρ) ρ where
  pipe : ℕ
  rsock : Bool
  rpipe : Bool

variable {ρ : Type}

/-- In the `for` loop. -/
def PipePc.waiting : PipePc ρ → Bool
  | .fdset | .inSelect | .isset | .recvfrom | .printf _ | .issetPipe | .read => true
  | .fgets | .sendto | .alarm | .done => false

def PipePc.holds : PipePc ρ → Bool
  | .sendto => true
  | _ => false

/-- In an iteration of the loop in which `select` has returned, before the second test. -/
def PipePc.selected : PipePc ρ → Bool
  | .isset | .recvfrom | .printf _ | .issetPipe => true
  | _ => false

namespace PipeClient

def init (fp : List Byte) : PipeClient ρ := ⟨⟨.fgets, fp, [], [], [], [], false, false, false⟩, 0, false, false⟩

/-- The next step of `dg_cli`. -/
def run (s : PipeClient ρ) : PipeClient ρ :=
  match s.pc with
  | .fgets => { s with toClient := s.fgets .sendto .done }
  | .sendto => { s with toClient := s.sendto .alarm }
  | .alarm => { s with pc := .fdset, timer := true }
  | .fdset => { s with pc := .inSelect }
  | .inSelect => { s with pc := .isset, rsock := !s.queue.isEmpty, rpipe := decide (0 < s.pipe) }
  | .isset => { s with pc := if s.rsock then .recvfrom else .issetPipe }
  | .recvfrom =>
    match s.queue with
    | [] => s
    | d :: queue => { s with pc := .printf d, queue := queue }
  | .printf d => { s with pc := .issetPipe, printed := s.printed ++ [d] }
  | .issetPipe => { s with pc := if s.rpipe then .read else .fdset }
  | .read => { s with pc := .fgets, pipe := s.pipe - 1 }
  | .done => s

/-- `select`, `recvfrom` and `read` wait until there is something to read. -/
def canRun (s : PipeClient ρ) : Prop :=
  match s.pc with
  | .inSelect => s.queue ≠ [] ∨ 0 < s.pipe
  | .recvfrom => s.queue ≠ []
  | .read => 0 < s.pipe
  | .done => False
  | _ => True

/-- `recvfrom_alarm`; a `select` that it interrupts is called again. -/
def sigalrm (s : PipeClient ρ) : PipeClient ρ :=
  match s.pc with
  | .inSelect => { s with pc := .fdset, pipe := s.pipe + 1, pending := false }
  | _ => { s with pipe := s.pipe + 1, pending := false }

def enabled (s : PipeClient ρ) : Act ρ → Prop
  | .reply _ => True
  | .expire => s.timer = true
  | .sigalrm => s.pending = true ∧ s.blocked = false
  | .run => s.canRun

def next (s : PipeClient ρ) : Act ρ → PipeClient ρ
  | .reply d => { s with queue := s.queue ++ [d] }
  | .expire => { s with timer := false, pending := true }
  | .sigalrm => s.sigalrm
  | .run => s.run

def system (fp : List Byte) : TransitionSystem (PipeClient ρ) := ofActions (· = init fp) enabled next

/-- From any state of a run on, with no more replies. -/
def quiet (fp : List Byte) : TransitionSystem (PipeClient ρ) :=
  onward (· = init fp) enabled next fun a => ∀ d, a ≠ .reply d

/-- The signal is still to come, or its byte is in the pipe. -/
def due (s : PipeClient ρ) : Prop := s.timer = true ∨ s.pending = true ∨ 0 < s.pipe

/-- In the loop, with nothing left to end it. -/
def Hangs : PipeClient ρ → Prop := Lost (fun s => s.pc.waiting = true) due

/-- One alarm is on its way in the loop, and none outside of it. -/
structure Inv (s : PipeClient ρ) : Prop where
  flight : s.timer.toNat + s.pending.toNat + s.pipe = s.pc.waiting.toNat
  unblocked : s.blocked = false
  ready : s.pc = .recvfrom ∨ s.pc = .isset ∧ s.rsock = true → s.queue ≠ []
  found : s.pc.selected = true → s.rsock = true ∨ s.rpipe = true
  byte : s.pc.selected = true → s.rpipe = true → 0 < s.pipe
  read : s.pc = .read → 0 < s.pipe
  atEnd : s.pc = .done → s.fp = []

variable {s : PipeClient ρ} {fp : List Byte}

theorem inv_init (fp : List Byte) : (init fp : PipeClient ρ).Inv := by
  constructor <;> simp [init, PipePc.waiting, PipePc.selected]

theorem inv_run (h : s.Inv) (ha : s.canRun) : s.run.Inv := by
  obtain ⟨hflight, hopen, hready, hfound, hbyte, hread, hend⟩ := h
  obtain ⟨⟨pc, fp, sendline, sent, queue, printed, timer, pending, blocked⟩, pipe, rsock, rpipe⟩ := s
  cases pc with
  | fgets =>
    rw [run, Client.fgets]
    cases hline : fgets MAXLINE fp with
    | none =>
      have hend : fp = [] := fgets_eq_none_iff.mp hline
      exact ⟨hflight, hopen, by simp, by simp [PipePc.selected], by simp [PipePc.selected], by simp, fun _ => hend⟩
    | some line =>
      exact ⟨hflight, hopen, by simp, by simp [PipePc.selected], by simp [PipePc.selected], by simp, by simp⟩
  | alarm =>
    refine ⟨?_, hopen, by simp [run], by simp [run, PipePc.selected], by simp [run, PipePc.selected], by simp [run],
      by simp [run]⟩
    simp only [run, PipePc.waiting, Bool.toNat_true, Bool.toNat_false] at hflight ⊢
    omega
  | inSelect =>
    have hqueue : queue ≠ [] ∨ 0 < pipe := ha
    constructor <;> simp_all [run, PipePc.waiting, PipePc.selected]
  | isset => cases rsock <;> constructor <;> simp_all [run, PipePc.waiting, PipePc.selected]
  | recvfrom =>
    cases queue with
    | nil => exact absurd rfl ha
    | cons d queue => constructor <;> simp_all [run, PipePc.waiting, PipePc.selected]
  | issetPipe => cases rpipe <;> constructor <;> simp_all [run, PipePc.waiting, PipePc.selected]
  | read =>
    have hpipe : 0 < pipe := ha
    refine ⟨?_, hopen, by simp [run], by simp [run, PipePc.selected], by simp [run, PipePc.selected], by simp [run],
      by simp [run]⟩
    simp only [run, PipePc.waiting, Bool.toNat_true, Bool.toNat_false] at hflight ⊢
    omega
  | done => exact absurd ha id
  | _ => constructor <;> simp_all [run, Client.sendto, PipePc.waiting, PipePc.selected]

theorem inv_sigalrm (h : s.Inv) (hpending : s.pending = true) : s.sigalrm.Inv := by
  obtain ⟨hflight, hopen, hready, hfound, hbyte, hread, hend⟩ := h
  obtain ⟨⟨pc, fp, sendline, sent, queue, printed, timer, pending, blocked⟩, pipe, rsock, rpipe⟩ := s
  subst hpending
  have hflight' : timer.toNat + false.toNat + (pipe + 1) = pc.waiting.toNat := by
    simp only [Bool.toNat_true, Bool.toNat_false] at hflight ⊢
    omega
  cases pc with
  | inSelect => exact ⟨hflight', hopen, by simp [sigalrm], by simp [sigalrm, PipePc.selected],
      by simp [sigalrm, PipePc.selected], by simp [sigalrm], by simp [sigalrm]⟩
  | _ => exact ⟨hflight', hopen, hready, hfound, fun _ _ => Nat.succ_pos _, fun _ => Nat.succ_pos _, hend⟩

theorem inv_next {a : Act ρ} (h : s.Inv) (ha : s.enabled a) : (s.next a).Inv := by
  cases a with
  | reply d =>
    obtain ⟨hflight, hopen, hready, hfound, hbyte, hread, hend⟩ := h
    exact ⟨hflight, hopen, fun _ => by simp [next], hfound, hbyte, hread, hend⟩
  | expire =>
    have htimer : s.timer = true := ha
    obtain ⟨hflight, hopen, hready, hfound, hbyte, hread, hend⟩ := h
    refine ⟨?_, hopen, hready, hfound, hbyte, hread, hend⟩
    have hle : s.pc.waiting.toNat ≤ 1 := Bool.toNat_le _
    show false.toNat + true.toNat + s.pipe = s.pc.waiting.toNat
    rw [htimer, Bool.toNat_true] at hflight
    rw [Bool.toNat_true, Bool.toNat_false]
    omega
  | sigalrm => exact inv_sigalrm h ha.1
  | run => exact inv_run h ha

theorem inv_reachable (hr : (system fp).Reachable s) : s.Inv := by
  refine invariant ?_ ?_ hr
  · rintro s rfl
    exact inv_init fp
  · rintro s s' - h ⟨a, ha, rfl⟩
    exact inv_next h ha

theorem lines_run (ha : s.canRun) : s.run.lines PipePc.holds = s.lines PipePc.holds := by
  obtain ⟨⟨pc, fp, sendline, sent, queue, printed, timer, pending, blocked⟩, pipe, rsock, rpipe⟩ := s
  cases pc with
  | fgets => exact Client.lines_fgets rfl rfl rfl
  | sendto => exact Client.lines_sendto rfl rfl
  | isset => cases rsock <;> rfl
  | recvfrom =>
    cases queue with
    | nil => exact absurd rfl ha
    | cons d queue => rfl
  | issetPipe => cases rpipe <;> rfl
  | _ => rfl

theorem lines_next {a : Act ρ} (ha : s.enabled a) : (s.next a).lines PipePc.holds = s.lines PipePc.holds := by
  cases a with
  | reply d => rfl
  | expire => rfl
  | sigalrm =>
    obtain ⟨⟨pc, fp, sendline, sent, queue, printed, timer, pending, blocked⟩, pipe, rsock, rpipe⟩ := s
    cases pc <;> rfl
  | run => exact lines_run ha

theorem lines_reachable (hr : (system fp).Reachable s) : s.lines PipePc.holds = sendlines fp := by
  refine invariant (P := fun s => s.lines PipePc.holds = sendlines fp) ?_ ?_ hr
  · rintro s rfl
    simp [Client.lines, init, PipePc.holds]
  · rintro s s' - h ⟨a, ha, rfl⟩
    exact (lines_next ha).trans h

theorem sent_prefix (hr : (system fp).Reachable s) : s.sent <+: sendlines fp := by
  rw [← lines_reachable hr, Client.lines, List.append_assoc]
  exact List.prefix_append _ _

theorem sent_of_done (hr : (system fp).Reachable s) (hpc : s.pc = .done) : s.sent = sendlines fp := by
  have hlines := lines_reachable hr
  rw [Client.lines, hpc, (inv_reachable hr).atEnd hpc, sendlines_of_none rfl] at hlines
  simpa [PipePc.holds] using hlines

/-- The steps to the end of the loop or to the next `select`; the way back to it is paid by the reply that was read. -/
def rank (s : PipeClient ρ) : ℕ :=
  match s.pc with
  | .fgets => 1
  | .sendto => 12
  | .alarm => 11
  | .fdset => 7
  | .inSelect => 6
  | .isset => 5
  | .recvfrom => 4
  | .printf _ => 11
  | .issetPipe => if s.rpipe then 4 else 10
  | .read => 3
  | .done => 0

def work (s : PipeClient ρ) : ℕ :=
  16 * s.fp.length + 8 * s.queue.length + 3 * s.timer.toNat + 2 * s.pending.toNat + s.rank

theorem work_run (h : s.Inv) (ha : s.canRun) : s.run.work < s.work := by
  have hfound := h.found
  obtain ⟨⟨pc, fp, sendline, sent, queue, printed, timer, pending, blocked⟩, pipe, rsock, rpipe⟩ := s
  cases pc with
  | fgets =>
    rw [run, Client.fgets]
    cases hline : fgets MAXLINE fp with
    | none =>
      simp only [work, rank]
      omega
    | some line =>
      have hlt := length_lt_of_fgets (by decide) hline
      simp only [work, rank]
      omega
  | alarm =>
    have hle := Bool.toNat_le timer
    simp only [run, work, rank, Bool.toNat_true]
    omega
  | isset =>
    cases rsock with
    | true =>
      simp only [run, work, rank, if_true]
      omega
    | false =>
      have hrpipe : rpipe = true := (hfound rfl).resolve_left Bool.false_ne_true
      simp only [run, work, rank, hrpipe, if_true, Bool.false_eq_true, if_false]
      omega
  | recvfrom =>
    cases queue with
    | nil => exact absurd rfl ha
    | cons d queue =>
      simp only [run, work, rank, List.length_cons]
      omega
  | printf | issetPipe =>
    cases rpipe <;> simp only [run, work, rank, if_true, Bool.false_eq_true, if_false] <;> omega
  | done => exact absurd ha id
  | _ =>
    simp only [run, Client.sendto, work, rank]
    omega

theorem work_sigalrm (hpending : s.pending = true) : s.sigalrm.work < s.work := by
  obtain ⟨⟨pc, fp, sendline, sent, queue, printed, timer, pending, blocked⟩, pipe, rsock, rpipe⟩ := s
  subst hpending
  cases pc with
  | inSelect =>
    simp only [sigalrm, work, rank, Bool.toNat_true, Bool.toNat_false]
    omega
  | _ => exact Nat.add_lt_add_right (Nat.add_lt_add_left (by decide : 2 * false.toNat < 2 * true.toNat) _) _

theorem work_next {a : Act ρ} (h : s.Inv) (ha : s.enabled a) (hquiet : ∀ d, a ≠ .reply d) :
    (s.next a).work < s.work := by
  cases a with
  | reply d => exact absurd rfl (hquiet d)
  | expire =>
    have htimer : s.timer = true := ha
    have hle := Bool.toNat_le s.pending
    show 16 * s.fp.length + 8 * s.queue.length + 3 * false.toNat + 2 * true.toNat + s.rank < s.work
    simp only [work, htimer, Bool.toNat_true, Bool.toNat_false]
    omega
  | sigalrm => exact work_sigalrm ha.1
  | run => exact work_run h ha

theorem due_of_waiting (h : s.Inv) (hwait : s.pc.waiting = true) : s.due := by
  have hflight := h.flight
  rw [hwait, Bool.toNat_true] at hflight
  unfold due
  cases htimer : s.timer with
  | true => exact .inl rfl
  | false =>
    cases hpending : s.pending with
    | true => exact .inr (.inl rfl)
    | false =>
      rw [htimer, hpending, Bool.toNat_false] at hflight
      exact .inr (.inr (by omega))

theorem exists_enabled (h : s.Inv) (hpc : s.pc ≠ .done) : ∃ a, s.enabled a ∧ ∀ d, a ≠ .reply d := by
  by_cases hrun : s.canRun
  · exact ⟨.run, hrun, by simp⟩
  · have hselect : s.pc = .inSelect := by
      obtain ⟨-, -, hready, -, -, hread, -⟩ := h
      obtain ⟨⟨pc, fp, sendline, sent, queue, printed, timer, pending, blocked⟩, pipe, rsock, rpipe⟩ := s
      cases pc with
      | inSelect => rfl
      | recvfrom => exact absurd (hready (.inl rfl)) hrun
      | read => exact absurd (hread rfl) hrun
      | done => exact absurd rfl hpc
      | _ => exact absurd trivial hrun
    have hpipe : ¬ 0 < s.pipe := by
      intro hpipe
      refine hrun ?_
      rw [canRun, hselect]
      exact .inr hpipe
    have hwait : s.pc.waiting = true := by rw [hselect, PipePc.waiting]
    rcases due_of_waiting h hwait with htimer | hpending | hbyte
    · exact ⟨.expire, htimer, by simp⟩
    · exact ⟨.sigalrm, ⟨hpending, h.unblocked⟩, by simp⟩
    · exact absurd hbyte hpipe

end PipeClient

/-- **No race with the pipe.** At every point of the loop exactly one alarm is on its way, in the timer, in the signal
or in the pipe, and outside of the loop none; so `dg_cli` never hangs, and no byte is left in the pipe for the next
line. From every state, `dg_cli` comes to an end when no more replies arrive, with all lines of the input broadcast, in
their order. -/
theorem dgCliPipe_no_race (fp : List Byte) :
    (∀ s : PipeClient ρ, (PipeClient.system fp).Reachable s →
      s.timer.toNat + s.pending.toNat + s.pipe = s.pc.waiting.toNat ∧ ¬ s.Hangs ∧ s.sent <+: sendlines fp) ∧
    (PipeClient.quiet (ρ := ρ) fp).Ends fun s => s.pc = .done ∧ s.fp = [] ∧ s.sent = sendlines fp := by
  refine ⟨fun s hr => ?_, ?_⟩
  · have h := PipeClient.inv_reachable hr
    exact ⟨h.flight, fun hhangs => hhangs.2 (PipeClient.due_of_waiting h hhangs.1), PipeClient.sent_prefix hr⟩
  · refine onward_ends PipeClient.work ?_ ?_
    · intro s a hr ha hquiet
      exact PipeClient.work_next (PipeClient.inv_reachable hr) ha hquiet
    · intro s hr hstop
      have h := PipeClient.inv_reachable hr
      exact PipeClient.exists_enabled h fun hpc => hstop ⟨hpc, h.atEnd hpc, PipeClient.sent_of_done hr hpc⟩

end UnixNetProg.Bcast
