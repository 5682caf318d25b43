import UnixNetProg.Lib.Wakeup
import UnixNetProg.Libc

/-!
# Broadcasting with a timeout

`dg_cli` broadcasts each line of its input and prints the replies until `SIGALRM` interrupts the system call in which it
waits for them. A `Version` of it says what its program does in each step, and what the handler does at the point that
the process has come to: where that is not the system call, the handler returns, and the next call knows nothing of it.
This module has what follows for all versions that are `Lawful`.

`queue` are the replies in the receive buffer of the socket, `timer` is set from `alarm` until the timer expires, and
`pending` until the signal that it sends is delivered.
-/

namespace UnixNetProg.Bcast

open Lib TransitionSystem

structure Client (P ρ : Type) where
  pc : P
  fp : List Byte
  sendline : List Byte
  sent : List CString
  queue : List ρ
  printed : List ρ
  timer : Bool
  pending : Bool
  blocked : Bool

inductive Act (ρ : Type) where
  | reply (d : ρ)
  | expire
  | sigalrm
  | run

/-- The points of the program in its `for` loop are `waiting`, and those inside of the system call `interrupted`.
A line that was read and not yet sent is in `sendline` where the program `holds` it. -/
structure Version (P ρ : Type) where
  start : P
  stop : P
  holds : P → Bool
  waiting : P → Bool
  interrupted : P → Bool
  canRun : Client P ρ → Prop
  run : Client P ρ → Client P ρ
  sigalrm : Client P ρ → Client P ρ

variable {P ρ : Type}

namespace Client

/-- `while (Fgets(sendline, MAXLINE, fp) != NULL)`. -/
def fgets (s : Client P ρ) (sendto done : P) : Client P ρ :=
  match UnixNetProg.fgets MAXLINE s.fp with
  | none => { s with pc := done }
  | some (line, rest) => { s with pc := sendto, fp := rest, sendline := line }

/-- `Sendto(sockfd, sendline, strlen(sendline), ..)`. -/
def sendto (s : Client P ρ) (pc : P) : Client P ρ := { s with pc := pc, sent := s.sent ++ [stringOf s.sendline] }

/-- `SIGALRM` is still to come. -/
def due (s : Client P ρ) : Prop := s.timer = true ∨ s.pending = true

/-- The lines that were sent, the one that was read, and those that are left. -/
def lines (holds : P → Bool) (s : Client P ρ) : List CString :=
  s.sent ++ (if holds s.pc then [stringOf s.sendline] else []) ++ sendlines s.fp

/-- What is left to do: the lines, the replies in the buffer, the signal, and the way to the next line. -/
def work (rank : P → ℕ) (s : Client P ρ) : ℕ :=
  16 * s.fp.length + 8 * s.queue.length + 2 * s.timer.toNat + s.pending.toNat + rank s.pc

end Client

namespace Version

variable (v : Version P ρ)

def init (fp : List Byte) : Client P ρ := ⟨v.start, fp, [], [], [], [], false, false, false⟩

def enabled (s : Client P ρ) : Act ρ → Prop
  | .reply _ => True
  | .expire => s.timer = true
  | .sigalrm => s.pending = true ∧ s.blocked = false
  | .run => v.canRun s

def next (s : Client P ρ) : Act ρ → Client P ρ
  | .reply d => { s with queue := s.queue ++ [d] }
  | .expire => { s with timer := false, pending := true }
  | .sigalrm => v.sigalrm s
  | .run => v.run s

def system (fp : List Byte) : TransitionSystem (Client P ρ) := ofActions (· = v.init fp) v.enabled v.next

/-- The handler runs in the loop, but not inside of the system call. -/
def missed (s : Client P ρ) (a : Act ρ) : Prop :=
  a = .sigalrm ∧ v.waiting s.pc = true ∧ v.interrupted s.pc = false

/-- In the loop, with nothing left to end it. -/
def Hangs : Client P ρ → Prop := Lost (fun s => v.waiting s.pc = true) Client.due

/-- The runs in which the handler does not run in the loop outside of the system call. -/
def careful (fp : List Byte) : TransitionSystem (Client P ρ) := Lib.careful (· = v.init fp) v.enabled v.next v.missed

/-- From any state of such a run, with no more replies. -/
def quiet (fp : List Byte) : TransitionSystem (Client P ρ) :=
  onward (· = v.init fp) (fun s a => v.enabled s a ∧ ¬ v.missed s a) v.next fun a => ∀ d, a ≠ .reply d

/-- What a step of the program does to the signal: none leads out of the loop, and `alarm` leads into it. -/
def RunCases (s s' : Client P ρ) : Prop :=
  s'.pending = s.pending ∧ (s'.timer = s.timer ∧ v.waiting s'.pc = v.waiting s.pc ∨
    s'.timer = true ∧ v.waiting s.pc = false ∧ v.waiting s'.pc = true)

/-- What the handler does: in the system call it leads out of the loop, elsewhere it has no effect. -/
def SigalrmCases (s s' : Client P ρ) : Prop :=
  s'.pending = false ∧ s'.timer = s.timer ∧ s'.fp = s.fp ∧ s'.queue = s.queue ∧
    (v.interrupted s.pc = true ∧ v.waiting s'.pc = false ∨ v.interrupted s.pc = false ∧ s'.pc = s.pc)

/-- `Known` is what is known of the signal mask, the input and the buffer at each point of the program. -/
structure Lawful (Known : Client P ρ → Prop) (rank : P → ℕ) : Prop where
  start : v.waiting v.start = false
  holds_start : v.holds v.start = false
  holds_stop : v.holds v.stop = false
  known_init : ∀ fp, Known (v.init fp)
  known_reply : ∀ s d, Known s → Known { s with queue := s.queue ++ [d] }
  known_expire : ∀ s, Known s → Known { s with timer := false, pending := true }
  known_run : ∀ s, v.canRun s → Known s → Known (v.run s)
  known_sigalrm : ∀ s, s.blocked = false → Known s → Known (v.sigalrm s)
  interrupted : ∀ s, v.interrupted s.pc = true → Known s → s.blocked = false ∧ v.waiting s.pc = true
  stop : ∀ s, s.pc = v.stop → Known s → s.fp = []
  goes : ∀ s, v.interrupted s.pc = false → s.pc ≠ v.stop → Known s → v.canRun s
  run_cases : ∀ s, v.canRun s → v.RunCases s (v.run s)
  sigalrm_cases : ∀ s, v.SigalrmCases s (v.sigalrm s)
  lines_run : ∀ s, v.canRun s → (v.run s).lines v.holds = s.lines v.holds
  lines_sigalrm : ∀ s, (v.sigalrm s).lines v.holds = s.lines v.holds
  work_run : ∀ s, v.canRun s → (v.run s).work rank < s.work rank
  rank_sigalrm : ∀ s, rank (v.sigalrm s).pc ≤ rank s.pc

end Version

namespace Client

variable {holds : P → Bool} {s : Client P ρ} {pc sendto done : P}

theorem lines_fgets (hpc : holds s.pc = false) (hsendto : holds sendto = true) (hdone : holds done = false) :
    (s.fgets sendto done).lines holds = s.lines holds := by
  unfold fgets
  cases hline : UnixNetProg.fgets MAXLINE s.fp with
  | none => simp [lines, hpc, hdone]
  | some line => simp [lines, hpc, hsendto, sendlines_of_some hline]

theorem lines_sendto (hpc : holds s.pc = true) (hnext : holds pc = false) :
    (s.sendto pc).lines holds = s.lines holds := by
  simp [sendto, lines, hpc, hnext]

end Client

namespace Version

variable {v : Version P ρ} {Known : Client P ρ → Prop} {rank : P → ℕ} {s : Client P ρ} {fp : List Byte}

theorem hangs_iff : v.Hangs s ↔ v.waiting s.pc = true ∧ s.timer = false ∧ s.pending = false := by
  simp [Hangs, Lost, Client.due]

theorem reachable_line (v : Version P ρ) {sendto done : P} (hcan : v.canRun (v.init fp))
    (hrun : v.run (v.init fp) = (v.init fp).fgets sendto done) (hfp : fp ≠ []) :
    ∃ line rest, (v.system fp).Reachable ⟨sendto, rest, line, [], [], [], false, false, false⟩ := by
  have hsome : UnixNetProg.fgets MAXLINE fp ≠ none := mt fgets_eq_none_iff.mp hfp
  obtain ⟨⟨line, rest⟩, hline⟩ := Option.ne_none_iff_exists'.mp hsome
  refine ⟨line, rest, ?_⟩
  have hstep : (v.system fp).Reachable (v.next (v.init fp) .run) := (reachable_init rfl).action hcan
  have hnext : v.next (v.init fp) .run = ⟨sendto, rest, line, [], [], [], false, false, false⟩ := by
    rw [next, hrun, Client.fgets]
    simp only [init, hline]
  exact hnext ▸ hstep

/-- There is at most one signal to come, and none outside of the loop; no line is lost. -/
structure Inv (v : Version P ρ) (Known : Client P ρ → Prop) (fp : List Byte) (s : Client P ρ) : Prop where
  known : Known s
  lines : s.lines v.holds = sendlines fp
  once : s.timer = true → s.pending = false
  outside : v.waiting s.pc = false → s.timer = false ∧ s.pending = false

namespace Lawful

variable (h : v.Lawful Known rank)

include h

theorem inv_run (hinv : v.Inv Known fp s) (hrun : v.canRun s) : v.Inv Known fp (v.run s) := by
  have hlines := (h.lines_run s hrun).trans hinv.lines
  obtain ⟨hpending, ⟨htimer, hwait⟩ | ⟨htimer, hwait, hwait'⟩⟩ := h.run_cases s hrun
  · refine ⟨h.known_run s hrun hinv.known, hlines, ?_, ?_⟩
    · rw [hpending, htimer]
      exact hinv.once
    · rw [hpending, htimer, hwait]
      exact hinv.outside
  · refine ⟨h.known_run s hrun hinv.known, hlines, fun _ => ?_, fun hout => ?_⟩
    · rw [hpending]
      exact (hinv.outside hwait).2
    · exact absurd (hout.symm.trans hwait') (by decide)

theorem inv_sigalrm (hinv : v.Inv Known fp s) (hpending : s.pending = true) (hblocked : s.blocked = false) :
    v.Inv Known fp (v.sigalrm s) := by
  have honce : s.timer = false := by
    by_contra htimer
    rw [Bool.not_eq_false] at htimer
    exact absurd ((hinv.once htimer).symm.trans hpending) (by decide)
  obtain ⟨hpending', htimer, -, -, -⟩ := h.sigalrm_cases s
  exact ⟨h.known_sigalrm s hblocked hinv.known, (h.lines_sigalrm s).trans hinv.lines, fun _ => hpending',
    fun _ => ⟨htimer.trans honce, hpending'⟩⟩

theorem inv_reachable (hr : (v.system fp).Reachable s) : v.Inv Known fp s := by
  refine invariant ?_ ?_ hr
  · rintro s rfl
    have hlines : (v.init fp).lines v.holds = sendlines fp := by simp [Client.lines, init, h.holds_start]
    exact ⟨h.known_init fp, hlines, fun hfalse => absurd hfalse Bool.false_ne_true, fun _ => ⟨rfl, rfl⟩⟩
  · rintro s s' - hinv ⟨a, ha, rfl⟩
    cases a with
    | reply d => exact ⟨h.known_reply s d hinv.known, hinv.lines, hinv.once, hinv.outside⟩
    | expire =>
      have htimer : s.timer = true := ha
      refine ⟨h.known_expire s hinv.known, hinv.lines, fun hfalse => absurd hfalse Bool.false_ne_true, fun hout => ?_⟩
      exact absurd ((hinv.outside hout).1.symm.trans htimer) (by decide)
    | sigalrm => exact h.inv_sigalrm hinv ha.1 ha.2
    | run => exact h.inv_run hinv ha

theorem waitLoop (fp : List Byte) :
    WaitLoop (· = v.init fp) v.enabled v.next (fun s => v.waiting s.pc = true) Client.due v.missed where
  start := by
    rintro s rfl hwait
    exact absurd (h.start.symm.trans hwait) (by decide)
  keeps := by
    intro s a hr ha hkeep hdue hwait
    cases a with
    | reply d => exact hdue hwait
    | expire => exact .inr rfl
    | sigalrm =>
      obtain ⟨-, -, -, -, ⟨-, hout⟩ | ⟨hnot, hpc⟩⟩ := h.sigalrm_cases s
      · exact absurd (hout.symm.trans hwait) (by decide)
      · exact absurd ⟨rfl, (congrArg v.waiting hpc).symm.trans hwait, hnot⟩ hkeep
    | run =>
      obtain ⟨hpending, ⟨htimer, hwait'⟩ | ⟨htimer, -, -⟩⟩ := h.run_cases s ha
      · exact (hdue (hwait'.symm.trans hwait)).imp htimer.trans hpending.trans
      · exact .inl htimer
  loses := by
    rintro s a hr ha ⟨rfl, hwait, hnot⟩
    obtain ⟨hpending, hblocked⟩ : s.pending = true ∧ s.blocked = false := ha
    obtain ⟨hpending', htimer, -, -, ⟨hin, -⟩ | ⟨-, hpc⟩⟩ := h.sigalrm_cases s
    · exact absurd (hnot.symm.trans hin) (by decide)
    · refine hangs_iff.mpr ⟨(congrArg v.waiting hpc).trans hwait, htimer.trans ?_, hpending'⟩
      by_contra htrue
      rw [Bool.not_eq_false] at htrue
      exact absurd (((h.inv_reachable hr).once htrue).symm.trans hpending) (by decide)
  forever := by
    intro s a hr ha hlost
    obtain ⟨hwait, htimer, hpending⟩ := hangs_iff.mp hlost
    cases a with
    | reply d => exact hlost
    | expire => exact absurd (htimer.symm.trans ha) (by decide)
    | sigalrm => exact absurd (hpending.symm.trans ha.1) (by decide)
    | run =>
      obtain ⟨hpending', ⟨htimer', hwait'⟩ | ⟨-, hout, -⟩⟩ := h.run_cases s ha
      · exact hangs_iff.mpr ⟨hwait'.trans hwait, htimer'.trans htimer, hpending'.trans hpending⟩
      · exact absurd (hout.symm.trans hwait) (by decide)

theorem work_sigalrm (hpending : s.pending = true) : (v.sigalrm s).work rank < s.work rank := by
  obtain ⟨hpending', htimer, hfp, hqueue, -⟩ := h.sigalrm_cases s
  have hrank := h.rank_sigalrm s
  simp only [Client.work, hpending', htimer, hfp, hqueue, hpending, Bool.toNat_true, Bool.toNat_false]
  omega

/-- While a signal is due, the process waits for nothing but a reply or the signal. -/
theorem exists_enabled (hinv : v.Inv Known fp s) (hdue : v.waiting s.pc = true → s.due) (hpc : s.pc ≠ v.stop) :
    ∃ a, (v.enabled s a ∧ ¬ v.missed s a) ∧ ∀ d, a ≠ .reply d := by
  by_cases hin : v.interrupted s.pc = true
  · obtain ⟨hblocked, hwait⟩ := h.interrupted s hin hinv.known
    rcases hdue hwait with htimer | hpending
    · exact ⟨.expire, ⟨htimer, by simp [missed]⟩, by simp⟩
    · exact ⟨.sigalrm, ⟨⟨hpending, hblocked⟩, fun hmissed => absurd (hmissed.2.2.symm.trans hin) (by decide)⟩, by simp⟩
  · exact ⟨.run, ⟨h.goes s (by simpa using hin) hpc hinv.known, by simp [missed]⟩, by simp⟩

theorem sent_prefix (hr : (v.system fp).Reachable s) : s.sent <+: sendlines fp := by
  rw [← (h.inv_reachable hr).lines, Client.lines, List.append_assoc]
  exact List.prefix_append _ _

theorem sent_of_stop (hinv : v.Inv Known fp s) (hpc : s.pc = v.stop) : s.sent = sendlines fp := by
  have hfp : s.fp = [] := h.stop s hpc hinv.known
  have hlines := hinv.lines
  rw [Client.lines, hpc, h.holds_stop, hfp, sendlines_of_none rfl] at hlines
  simpa using hlines

theorem quiet_ends (fp : List Byte) :
    (v.quiet fp).Ends fun s => s.pc = v.stop ∧ s.fp = [] ∧ s.sent = sendlines fp := by
  refine (h.waitLoop fp).ends (Client.work rank) ?_ ?_
  · intro s a hr ha hquiet
    cases a with
    | reply d => exact absurd rfl (hquiet d)
    | expire =>
      have htimer : s.timer = true := ha
      have hle := Bool.toNat_le s.pending
      show Client.work rank { s with timer := false, pending := true } < _
      simp only [Client.work, htimer, Bool.toNat_true, Bool.toNat_false]
      omega
    | sigalrm => exact h.work_sigalrm ha.1
    | run => exact h.work_run s ha
  · intro s hr hdue hstop
    have hinv := h.inv_reachable hr
    exact h.exists_enabled hinv hdue fun hpc =>
      hstop ⟨hpc, h.stop s hpc hinv.known, h.sent_of_stop hinv hpc⟩

theorem hangs_iff_missed (hr : (v.system fp).Reachable s) : v.Hangs s ↔ ¬ (v.careful fp).Reachable s :=
  (h.waitLoop fp).lost_iff hr

theorem hangs_forever (hr : (v.system fp).Reachable s) (hhangs : v.Hangs s) {s' : Client P ρ}
    (hrun : Relation.ReflTransGen (v.system fp).step s s') : v.Hangs s' := Lost.forever (h.waitLoop fp) hr hhangs hrun

end Lawful

end Version

end UnixNetProg.Bcast
