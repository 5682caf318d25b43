import UnixNetProg.Lib.Transition
import UnixNetProg.Libc

/-!
# The client that tells a premature end (`threads/strclithread2.c`)

The thread `copyto` copies standard input to the socket and sends a FIN at its end; the main thread copies
the socket to standard output. The server sends the bytes of its reply when it likes and in what portions it
likes, and closes its side only after it has received the client's FIN. A step is one call of one thread,
one access to `done`, or one move of the server or the network.

`copyto` sets `done` behind `Shutdown`. Between the two the whole exchange with the server can take place.
-/

namespace UnixNetProg.Threads

open Lib

/-- The main thread: `Pthread_create`, `Readline`, `Fputs`, the test of `done`; `str_cli` has returned, or
has called `err_quit`. -/
inductive StrCliPc where
  | create
  | readline
  | fputs (recvline : CString)
  | test
  | returned
  | quit
  deriving DecidableEq, Repr

/-- `copyto`: `Fgets`, `Writen`, `Shutdown`, the assignment of `done`. -/
inductive CopyPc where
  | unborn
  | fgets
  | writen (sendline : CString)
  | shutdown
  | setDone
  | ended
  deriving DecidableEq, Repr

/-- `sent` and `inbox` are the bytes on their way to the server and to the client; `fin` is set when the
client has sent its FIN, `finRcvd` when the server has received it. -/
structure Cli where
  fp : List Byte
  done : Bool
  main : StrCliPc
  copyto : CopyPc
  stdout : List Byte
  sent : List Byte
  fin : Bool
  finRcvd : Bool
  reply : List Byte
  inbox : List Byte
  closed : Bool
  deriving DecidableEq

/-! ### The client -/

/-- What `Readline` returns is complete: there is a newline, the buffer is full, or the server has closed. -/
def LineReady (s : Cli) : Prop :=
  10 ∈ s.inbox.take (MAXLINE - 1) ∨ MAXLINE - 1 ≤ s.inbox.length ∨ s.closed

instance (s : Cli) : Decidable (LineReady s) := inferInstanceAs (Decidable (_ ∨ _ ∨ _))

/-- `while (Readline(sockfd, recvline, MAXLINE) > 0)`. -/
def readLoop (s : Cli) : Cli :=
  match fgets MAXLINE s.inbox with
  | none => { s with main := .test }
  | some (recvline, rest) => { s with inbox := rest, main := .fputs (stringOf recvline) }

def strCliNext (s : Cli) : Cli :=
  match s.main with
  | .create => { s with copyto := .fgets, main := .readline }
  | .readline => readLoop s
  | .fputs recvline => { s with stdout := s.stdout ++ recvline, main := .readline }
  | .test => { s with main := if s.done = false then .quit else .returned }
  | .returned | .quit => s

/-- `while (Fgets(sendline, MAXLINE, fp) != NULL)`. -/
def sendLoop (s : Cli) : Cli :=
  match fgets MAXLINE s.fp with
  | none => { s with copyto := .shutdown }
  | some (sendline, rest) => { s with fp := rest, copyto := .writen (stringOf sendline) }

def copytoNext (s : Cli) : Cli :=
  match s.copyto with
  | .fgets => sendLoop s
  | .writen sendline => { s with sent := s.sent ++ sendline, copyto := .fgets }
  | .shutdown => { s with fin := true, copyto := .setDone }
  | .setDone => { s with done := true, copyto := .ended }
  | .unborn | .ended => s

/-! ### The server -/

/-- The server sends `n` bytes, receives `n` bytes, receives the FIN, or closes. -/
inductive ServerMove where
  | send (n : ℕ)
  | recv (n : ℕ)
  | fin
  | close

def serverNext (s : Cli) : ServerMove → Cli
  | .send n => { s with reply := s.reply.drop n, inbox := s.inbox ++ s.reply.take n }
  | .recv n => { s with sent := s.sent.drop n }
  | .fin => { s with finRcvd := true }
  | .close => { s with closed := true }

def ServerEnabled (s : Cli) : ServerMove → Prop
  | .send n => 0 < n ∧ n ≤ s.reply.length
  | .recv n => 0 < n ∧ n ≤ s.sent.length
  | .fin => s.fin = true ∧ s.finRcvd = false ∧ s.sent = []
  | .close => s.finRcvd = true ∧ s.closed = false ∧ s.reply = []

/-! ### The system -/

inductive CliMove where
  | main
  | copyto
  | server (m : ServerMove)

def cliNext (s : Cli) : CliMove → Cli
  | .main => strCliNext s
  | .copyto => copytoNext s
  | .server m => serverNext s m

def StrCliEnabled (s : Cli) : StrCliPc → Prop
  | .create | .fputs _ | .test => True
  | .readline => LineReady s
  | .returned | .quit => False

def CopytoEnabled : CopyPc → Prop
  | .fgets | .writen _ | .shutdown | .setDone => True
  | .unborn | .ended => False

/-- The call does not block; `err_quit` ends `copyto` with the process. -/
def CliEnabled (s : Cli) : CliMove → Prop
  | .main => StrCliEnabled s s.main
  | .copyto => s.main ≠ .quit ∧ CopytoEnabled s.copyto
  | .server m => ServerEnabled s m

instance (s : Cli) : ∀ m, Decidable (ServerEnabled s m)
  | .send _ | .recv _ => inferInstanceAs (Decidable (_ ∧ _))
  | .fin | .close => inferInstanceAs (Decidable (_ ∧ _ ∧ _))

instance (s : Cli) : ∀ pc, Decidable (StrCliEnabled s pc)
  | .create | .fputs _ | .test => inferInstanceAs (Decidable True)
  | .readline => inferInstanceAs (Decidable (LineReady s))
  | .returned | .quit => inferInstanceAs (Decidable False)

instance : ∀ pc, Decidable (CopytoEnabled pc)
  | .fgets | .writen _ | .shutdown | .setDone => inferInstanceAs (Decidable True)
  | .unborn | .ended => inferInstanceAs (Decidable False)

instance (s : Cli) : ∀ a, Decidable (CliEnabled s a)
  | .main => inferInstanceAs (Decidable (StrCliEnabled s s.main))
  | .copyto => inferInstanceAs (Decidable (_ ∧ CopytoEnabled s.copyto))
  | .server m => inferInstanceAs (Decidable (ServerEnabled s m))

def cliStart (input reply : List Byte) : Cli where
  fp := input
  done := false
  main := .create
  copyto := .unborn
  stdout := []
  sent := []
  fin := false
  finRcvd := false
  reply := reply
  inbox := []
  closed := false

def strCliThread2 (input reply : List Byte) : TransitionSystem Cli :=
  .ofActions (· = cliStart input reply) CliEnabled cliNext

/-- The main thread does not test `done` while `copyto` is between `Shutdown` and the assignment. -/
def Timely (s : Cli) (a : CliMove) : Prop :=
  match a with
  | .main => s.main = .test → s.copyto ≠ .setDone
  | .copyto | .server _ => True

/-- The runs all of whose steps are `Timely`. -/
def timelyRuns (input reply : List Byte) : TransitionSystem Cli :=
  .ofActions (· = cliStart input reply) (fun s a => CliEnabled s a ∧ Timely s a) cliNext

/-! ### The invariant -/

/-- `copyto` has called `Shutdown`. -/
def CopyPc.shut : CopyPc → Bool
  | .setDone | .ended => true
  | .unborn | .fgets | .writen _ | .shutdown => false

/-- The main thread has seen the end of the socket. -/
def StrCliPc.sawEof : StrCliPc → Bool
  | .test | .returned | .quit => true
  | .create | .readline | .fputs _ => false

/-- The chain of events: `Shutdown`, the FIN at the server, the server's FIN, the end of file. -/
structure CliInv (s : Cli) : Prop where
  fin : s.fin = s.copyto.shut
  done : s.done = true ↔ s.copyto = .ended
  finRcvd : s.finRcvd = true → s.fin = true
  closed : s.closed = true → s.finRcvd = true
  eof : s.main.sawEof = true → s.closed = true
  born : s.copyto = .unborn ↔ s.main = .create

section Steps

variable {input reply : List Byte} {s : Cli}

theorem cliInv_start (input reply : List Byte) : CliInv (cliStart input reply) := by
  constructor <;> simp [cliStart, CopyPc.shut, StrCliPc.sawEof]

theorem closed_of_nil (hready : LineReady s) (hinbox : s.inbox = []) : s.closed = true := by
  rcases hready with hline | hfull | hclosed
  · simp [hinbox] at hline
  · simp [hinbox, MAXLINE] at hfull
  · exact hclosed

theorem cliInv_main (h : CliInv s) (ha : StrCliEnabled s s.main) : CliInv (strCliNext s) := by
  obtain ⟨hfin, hdone, hrcvd, hclosed, heof, hborn⟩ := h
  unfold strCliNext
  cases hpc : s.main with
  | create =>
    have hunborn := hborn.mpr hpc
    constructor <;> simp_all [CopyPc.shut, StrCliPc.sawEof]
  | readline =>
    rw [hpc] at ha
    simp only [readLoop]
    cases hline : fgets MAXLINE s.inbox with
    | none =>
      have heof' := closed_of_nil ha (fgets_eq_none_iff.mp hline)
      constructor <;> simp_all [StrCliPc.sawEof]
    | some p => constructor <;> simp_all [StrCliPc.sawEof]
  | fputs recvline => constructor <;> simp_all [StrCliPc.sawEof]
  | test =>
    have heof' := heof (by simp [hpc, StrCliPc.sawEof])
    by_cases hd : s.done = false
    · constructor <;> simp_all [StrCliPc.sawEof]
    · constructor <;> simp_all [StrCliPc.sawEof]
  | returned => exact ⟨hfin, hdone, hrcvd, hclosed, heof, hborn⟩
  | quit => exact ⟨hfin, hdone, hrcvd, hclosed, heof, hborn⟩

theorem cliInv_copyto (h : CliInv s) (ha : CopytoEnabled s.copyto) : CliInv (copytoNext s) := by
  obtain ⟨hfin, hdone, hrcvd, hclosed, heof, hborn⟩ := h
  unfold copytoNext
  cases hpc : s.copyto with
  | unborn | ended => simp [hpc, CopytoEnabled] at ha
  | fgets =>
    simp only [sendLoop]
    cases hline : fgets MAXLINE s.fp with
    | none => constructor <;> simp_all [CopyPc.shut]
    | some p => constructor <;> simp_all [CopyPc.shut]
  | writen sendline => constructor <;> simp_all [CopyPc.shut]
  | shutdown => constructor <;> simp_all [CopyPc.shut]
  | setDone => constructor <;> simp_all [CopyPc.shut]

theorem cliInv_server (h : CliInv s) {m : ServerMove} (ha : ServerEnabled s m) : CliInv (serverNext s m) := by
  obtain ⟨hfin, hdone, hrcvd, hclosed, heof, hborn⟩ := h
  cases m with
  | send n => exact ⟨hfin, hdone, hrcvd, hclosed, heof, hborn⟩
  | recv n => exact ⟨hfin, hdone, hrcvd, hclosed, heof, hborn⟩
  | fin => exact ⟨hfin, hdone, fun _ => ha.1, fun _ => rfl, heof, hborn⟩
  | close => exact ⟨hfin, hdone, hrcvd, fun _ => ha.1, fun _ => rfl, hborn⟩

theorem cliInv_reachable (h : (strCliThread2 input reply).Reachable s) : CliInv s := by
  refine TransitionSystem.invariant (P := CliInv) ?_ ?_ h
  · intro s hs
    rw [hs]
    exact cliInv_start input reply
  · intro s s' _ hinv hstep
    obtain ⟨a, ha, rfl⟩ := hstep
    cases a with
    | main => exact cliInv_main hinv ha
    | copyto => exact cliInv_copyto hinv ha.2
    | server m => exact cliInv_server hinv ha

theorem CliInv.shut_of_test (h : CliInv s) (hpc : s.main = .test) : s.copyto = .setDone ∨ s.copyto = .ended := by
  have hclosed := h.eof (by simp [hpc, StrCliPc.sawEof])
  have hshut : s.copyto.shut = true := by
    rw [← h.fin]
    exact h.finRcvd (h.closed hclosed)
  cases hc : s.copyto <;> simp_all [CopyPc.shut]

theorem quit_iff_of_test (h : CliInv s) (hpc : s.main = .test) :
    (strCliNext s).main = .quit ↔ s.copyto = .setDone := by
  have hdone : s.done = false ↔ s.copyto = .setDone := by
    rw [← Bool.not_eq_true, h.done]
    rcases h.shut_of_test hpc with hc | hc
    · simp [hc]
    · simp [hc]
  rw [← hdone]
  by_cases hd : s.done = false
  · simp [strCliNext, hpc, hd]
  · simp [strCliNext, hpc, hd]

/-! ### Every run comes to an end -/

def StrCliPc.cost : StrCliPc → ℕ
  | .create => 9
  | .fputs _ => 3
  | .readline => 2
  | .test => 1
  | .returned | .quit => 0

def CopyPc.cost : CopyPc → ℕ
  | .writen sendline => 6 + sendline.length
  | .fgets => 5
  | .shutdown => 3
  | .setDone => 2
  | .ended => 1
  | .unborn => 0

/-- What is left to do. -/
def Cli.cost (s : Cli) : ℕ :=
  s.main.cost + s.copyto.cost + 3 * s.fp.length + s.sent.length + 4 * s.reply.length + 3 * s.inbox.length +
    (!s.finRcvd).toNat + (!s.closed).toNat

theorem cost_main (ha : StrCliEnabled s s.main) (hborn : s.main = .create → s.copyto = .unborn) :
    (strCliNext s).cost < s.cost := by
  unfold strCliNext
  cases hpc : s.main with
  | create =>
    simp only [Cli.cost, hpc, hborn hpc, StrCliPc.cost, CopyPc.cost]
    omega
  | readline =>
    simp only [readLoop]
    cases hline : fgets MAXLINE s.inbox with
    | none =>
      simp only [Cli.cost, hpc, StrCliPc.cost]
      omega
    | some p =>
      have hrest := length_lt_of_fgets (by decide) hline
      simp only [Cli.cost, hpc, StrCliPc.cost]
      omega
  | fputs recvline =>
    simp only [Cli.cost, hpc, StrCliPc.cost]
    omega
  | test =>
    by_cases hd : s.done = false
    · simp only [Cli.cost, hpc, if_pos hd, StrCliPc.cost]
      omega
    · simp only [Cli.cost, hpc, if_neg hd, StrCliPc.cost]
      omega
  | returned | quit => simp [hpc, StrCliEnabled] at ha

theorem cost_copyto (ha : CopytoEnabled s.copyto) : (copytoNext s).cost < s.cost := by
  unfold copytoNext
  cases hpc : s.copyto with
  | unborn | ended => simp [hpc, CopytoEnabled] at ha
  | fgets =>
    simp only [sendLoop]
    cases hline : fgets MAXLINE s.fp with
    | none =>
      simp only [Cli.cost, hpc, CopyPc.cost]
      omega
    | some p =>
      have hrest := length_lt_of_fgets (by decide) hline
      have hstring := length_of_fgets hline
      simp only [Cli.cost, hpc, CopyPc.cost]
      omega
  | writen sendline =>
    simp only [Cli.cost, hpc, CopyPc.cost, List.length_append]
    omega
  | shutdown | setDone =>
    simp only [Cli.cost, hpc, CopyPc.cost]
    omega

theorem cost_server {m : ServerMove} (ha : ServerEnabled s m) : (serverNext s m).cost < s.cost := by
  cases m with
  | send n =>
    obtain ⟨hpos, hle⟩ := ha
    simp only [serverNext, Cli.cost, List.length_append, List.length_take, List.length_drop]
    omega
  | recv n =>
    obtain ⟨hpos, hle⟩ := ha
    simp only [serverNext, Cli.cost, List.length_drop]
    omega
  | fin =>
    obtain ⟨-, hrcvd, -⟩ := ha
    simp [serverNext, Cli.cost, hrcvd]
  | close =>
    obtain ⟨-, hclosed, -⟩ := ha
    simp [serverNext, Cli.cost, hclosed]

/-- While the main thread waits for the server, something else can move. -/
theorem exists_move_of_waiting (h : CliInv s) (hpc : s.main = .readline) (hclosed : s.closed = false) :
    CopytoEnabled s.copyto ∨ ∃ m, ServerEnabled s m := by
  cases hc : s.copyto with
  | unborn =>
    have hcreate := h.born.mp hc
    simp [hpc] at hcreate
  | fgets | writen _ | shutdown | setDone => exact .inl trivial
  | ended =>
    right
    have hfin : s.fin = true := by
      rw [h.fin, hc]
      rfl
    by_cases hsent : s.sent = []
    · by_cases hrcvd : s.finRcvd = false
      · exact ⟨.fin, hfin, hrcvd, hsent⟩
      · by_cases hreply : s.reply = []
        · exact ⟨.close, by simpa using hrcvd, hclosed, hreply⟩
        · exact ⟨.send 1, Nat.one_pos, List.length_pos_iff.mpr hreply⟩
    · exact ⟨.recv 1, Nat.one_pos, List.length_pos_iff.mpr hsent⟩

/-- The client is never stuck before `str_cli` has returned, also when the test of `done` is held back. -/
theorem exists_timely (h : CliInv s) (hquit : s.main ≠ .quit) (hreturned : s.main ≠ .returned) :
    ∃ a, CliEnabled s a ∧ Timely s a := by
  cases hpc : s.main with
  | create | fputs _ =>
    refine ⟨.main, ?_, ?_⟩
    · simp [CliEnabled, hpc, StrCliEnabled]
    · simp [Timely, hpc]
  | readline =>
    by_cases hclosed : s.closed = false
    · rcases exists_move_of_waiting h hpc hclosed with hcopy | ⟨m, hm⟩
      · exact ⟨.copyto, ⟨hquit, hcopy⟩, trivial⟩
      · exact ⟨.server m, hm, trivial⟩
    · refine ⟨.main, ?_, ?_⟩
      · simp only [CliEnabled, hpc, StrCliEnabled]
        exact .inr (.inr (by simpa using hclosed))
      · simp [Timely, hpc]
  | test =>
    rcases h.shut_of_test hpc with hc | hc
    · refine ⟨.copyto, ⟨hquit, ?_⟩, trivial⟩
      simp [hc, CopytoEnabled]
    · refine ⟨.main, ?_, ?_⟩
      · simp [CliEnabled, hpc, StrCliEnabled]
      · simp [Timely, hc]
  | returned => exact absurd hpc hreturned
  | quit => exact absurd hpc hquit

theorem cost_cliNext (h : CliInv s) {a : CliMove} (ha : CliEnabled s a) : (cliNext s a).cost < s.cost := by
  cases a with
  | main => exact cost_main ha h.born.mpr
  | copyto => exact cost_copyto ha.2
  | server m => exact cost_server ha

theorem reachable_of_timely (h : (timelyRuns input reply).Reachable s) : (strCliThread2 input reply).Reachable s :=
  h.mono fun _ _ ha => ha.1

theorem main_copytoNext (s : Cli) : (copytoNext s).main = s.main := by
  unfold copytoNext
  cases s.copyto with
  | fgets =>
    simp only [sendLoop]
    cases fgets MAXLINE s.fp <;> rfl
  | unborn | writen _ | shutdown | setDone | ended => rfl

theorem timely_no_quit (h : (timelyRuns input reply).Reachable s) : s.main ≠ .quit := by
  refine TransitionSystem.invariant (P := fun s => s.main ≠ .quit) ?_ ?_ h
  · intro s hs
    rw [hs]
    simp [cliStart]
  · intro s s' hreach hquit hstep
    have hinv := cliInv_reachable (reachable_of_timely hreach)
    obtain ⟨a, ⟨ha, htimely⟩, rfl⟩ := hstep
    cases a with
    | main =>
      intro hnext
      have hpc : s.main = .test := by
        change (strCliNext s).main = .quit at hnext
        unfold strCliNext at hnext
        cases hpc : s.main with
        | test => rfl
        | readline =>
          simp only [hpc, readLoop] at hnext
          cases hline : fgets MAXLINE s.inbox <;> simp [hline] at hnext
        | create | fputs _ | returned | quit => simp_all
      exact htimely hpc ((quit_iff_of_test hinv hpc).mp hnext)
    | copyto =>
      simp only [cliNext, main_copytoNext]
      exact hquit
    | server m => cases m <;> exact hquit

/-- **The client and a server that answers to the FIN.** In the runs in which `done` is not tested between
`Shutdown` and the assignment, `err_quit` is never called and every run ends with the return of `str_cli`.
A test in between calls `err_quit`, and no other test does. -/
theorem strCli_reports (input reply : List Byte) :
    ((∀ s, (timelyRuns input reply).Reachable s → s.main ≠ .quit) ∧
      (timelyRuns input reply).Ends fun s => s.main = .returned) ∧
    ∀ s, (strCliThread2 input reply).Reachable s → s.main = .test →
      ((strCliNext s).main = .quit ↔ s.copyto = .setDone) := by
  refine ⟨⟨fun s hs => timely_no_quit hs, ?_⟩, fun s hs hpc => quit_iff_of_test (cliInv_reachable hs) hpc⟩
  apply TransitionSystem.Ends.of_measure Cli.cost
  · intro s s' hs hstep
    obtain ⟨a, ⟨ha, -⟩, rfl⟩ := hstep
    exact cost_cliNext (cliInv_reachable (reachable_of_timely hs)) ha
  · intro s hs hstuck
    by_contra hreturned
    obtain ⟨a, ha⟩ := exists_timely (cliInv_reachable (reachable_of_timely hs)) (timely_no_quit hs) hreturned
    exact hstuck _ ⟨a, ha, rfl⟩

end Steps

/-- Standard input is empty; the server closes and the main thread tests `done` before `copyto` goes on. -/
def sampleMoves : List CliMove :=
  [.main, .copyto, .copyto, .server .fin, .server .close, .main, .main]

/-- Not every run is free of `err_quit`. -/
theorem strCli_misreports : ¬ ∀ s, (strCliThread2 [] []).Reachable s → s.main ≠ .quit := by
  intro hnever
  have h₀ : (strCliThread2 [] []).Reachable (cliStart [] []) := TransitionSystem.reachable_init rfl
  have h : (strCliThread2 [] []).Reachable (sampleMoves.foldl cliNext (cliStart [] [])) := h₀.actions (by decide)
  exact hnever _ h (by decide)

end UnixNetProg.Threads
