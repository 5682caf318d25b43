import UnixNetProg.Bcast.Client

/-!
# The versions with `recvfrom` (`bcast/dgclibcast1.c`, `dgclibcast2.c`, `dgclibcast3.c`)

The third version blocks the signal outside of its two calls of `sigprocmask`, which makes the window smaller and does
not close it. The second version differs in its times only, and the steps have none.
-/

namespace UnixNetProg.Bcast

open Lib TransitionSystem

/-- The points of `dg_cli`: its system calls, where `inRecvfrom` is inside of the call, and what follows the test of
`n`. The two points behind an interrupted call are `blockIntr` and `leave`. -/
inductive Pc (ρ : Type) where
  | fgets
  | sendto
  | alarm
  | unblock
  | recvfrom
  | inRecvfrom
  | block (d : ρ)
  | printf (d : ρ)
  | blockIntr
  | leave
  | done

variable {ρ : Type}

/-- In the `for` loop, and not about to leave it. -/
def Pc.waiting : Pc ρ → Bool
  | .unblock | .recvfrom | .inRecvfrom | .block _ | .printf _ => true
  | .fgets | .sendto | .alarm | .blockIntr | .leave | .done => false

def Pc.holds : Pc ρ → Bool
  | .sendto => true
  | _ => false

def Pc.interrupted : Pc ρ → Bool
  | .inRecvfrom => true
  | _ => false

/-- The next step of `dg_cli`; `masked` is the version that calls `sigprocmask`. -/
def recvfromRun (masked : Bool) (s : Client (Pc ρ) ρ) : Client (Pc ρ) ρ :=
  match s.pc with
  | .fgets => s.fgets .sendto .done
  | .sendto => s.sendto .alarm
  | .alarm => { s with pc := .unblock, timer := true }
  | .unblock => { s with pc := .recvfrom, blocked := if masked then false else s.blocked }
  | .recvfrom => { s with pc := .inRecvfrom }
  | .inRecvfrom =>
    match s.queue with
    | [] => s
    | d :: queue => { s with pc := .block d, queue := queue }
  | .block d => { s with pc := .printf d, blocked := if masked then true else s.blocked }
  | .printf d => { s with pc := .unblock, printed := s.printed ++ [d] }
  | .blockIntr => { s with pc := .leave, blocked := if masked then true else s.blocked }
  | .leave => { s with pc := .fgets }
  | .done => s

def recvfromCanRun (s : Client (Pc ρ) ρ) : Prop :=
  match s.pc with
  | .inRecvfrom => s.queue ≠ []
  | .done => False
  | _ => True

/-- `recvfrom_alarm` returns; only `recvfrom` is interrupted. -/
def recvfromAlarm (s : Client (Pc ρ) ρ) : Client (Pc ρ) ρ :=
  match s.pc with
  | .inRecvfrom => { s with pc := .blockIntr, pending := false }
  | _ => { s with pending := false }

def dgCliRecvfrom (masked : Bool) : Version (Pc ρ) ρ where
  start := .fgets
  stop := .done
  holds := Pc.holds
  waiting := Pc.waiting
  interrupted := Pc.interrupted
  canRun := recvfromCanRun
  run := recvfromRun masked
  sigalrm := recvfromAlarm

/-- `dgclibcast1.c`, and with other times `dgclibcast2.c`. -/
def dgCli1 : Version (Pc ρ) ρ := dgCliRecvfrom false

/-- `dgclibcast3.c`. -/
def dgCli3 : Version (Pc ρ) ρ := dgCliRecvfrom true

def Pc.rank : Pc ρ → ℕ
  | .fgets => 1
  | .sendto => 12
  | .alarm => 11
  | .unblock => 8
  | .recvfrom => 7
  | .inRecvfrom => 6
  | .block _ => 11
  | .printf _ => 10
  | .blockIntr => 3
  | .leave => 2
  | .done => 0

structure RecvfromKnown (masked : Bool) (s : Client (Pc ρ) ρ) : Prop where
  unmasked : masked = false → s.blocked = false
  unblocked : s.pc = .recvfrom ∨ s.pc = .inRecvfrom → s.blocked = false
  atEnd : s.pc = .done → s.fp = []

variable {masked : Bool} {s : Client (Pc ρ) ρ}

theorem recvfrom_known_run (h : RecvfromKnown masked s) : RecvfromKnown masked (recvfromRun masked s) := by
  obtain ⟨hun, hopen, hend⟩ := h
  obtain ⟨pc, fp, sendline, sent, queue, printed, timer, pending, blocked⟩ := s
  cases pc with
  | fgets =>
    rw [recvfromRun, Client.fgets]
    cases hline : fgets MAXLINE fp with
    | none => exact ⟨hun, by simp, fun _ => fgets_eq_none_iff.mp hline⟩
    | some line => exact ⟨hun, by simp, by simp⟩
  | inRecvfrom =>
    cases queue with
    | nil => exact ⟨hun, hopen, hend⟩
    | cons d queue => constructor <;> simp_all [recvfromRun]
  | _ => constructor <;> simp_all [recvfromRun, Client.sendto]

theorem recvfrom_run_cases (ha : recvfromCanRun s) :
    (dgCliRecvfrom masked).RunCases s (recvfromRun masked s) := by
  obtain ⟨pc, fp, sendline, sent, queue, printed, timer, pending, blocked⟩ := s
  cases pc with
  | fgets =>
    rw [recvfromRun, Client.fgets]
    cases hline : fgets MAXLINE fp <;> exact ⟨rfl, .inl ⟨rfl, rfl⟩⟩
  | inRecvfrom =>
    cases queue with
    | nil => exact absurd rfl ha
    | cons d queue => exact ⟨rfl, .inl ⟨rfl, rfl⟩⟩
  | alarm => exact ⟨rfl, .inr ⟨rfl, rfl, rfl⟩⟩
  | done => exact absurd ha id
  | _ => exact ⟨rfl, .inl ⟨rfl, rfl⟩⟩

theorem recvfrom_lines_run (ha : recvfromCanRun s) : (recvfromRun masked s).lines Pc.holds = s.lines Pc.holds := by
  obtain ⟨pc, fp, sendline, sent, queue, printed, timer, pending, blocked⟩ := s
  cases pc with
  | fgets => exact Client.lines_fgets rfl rfl rfl
  | sendto => exact Client.lines_sendto rfl rfl
  | inRecvfrom =>
    cases queue with
    | nil => exact absurd rfl ha
    | cons d queue => rfl
  | _ => rfl

theorem recvfrom_work_run (ha : recvfromCanRun s) : (recvfromRun masked s).work Pc.rank < s.work Pc.rank := by
  obtain ⟨pc, fp, sendline, sent, queue, printed, timer, pending, blocked⟩ := s
  cases pc with
  | fgets =>
    rw [recvfromRun, Client.fgets]
    cases hline : fgets MAXLINE fp with
    | none =>
      simp only [Client.work, Pc.rank]
      omega
    | some line =>
      have hlt := length_lt_of_fgets (by decide) hline
      simp only [Client.work, Pc.rank]
      omega
  | inRecvfrom =>
    cases queue with
    | nil => exact absurd rfl ha
    | cons d queue =>
      simp only [recvfromRun, Client.work, Pc.rank, List.length_cons]
      omega
  | alarm =>
    simp only [recvfromRun, Client.work, Pc.rank, Bool.toNat_true]
    omega
  | done => exact absurd ha id
  | _ =>
    simp only [recvfromRun, Client.sendto, Client.work, Pc.rank]
    omega

theorem dgCliRecvfrom_lawful (masked : Bool) :
    (dgCliRecvfrom masked : Version (Pc ρ) ρ).Lawful (RecvfromKnown masked) Pc.rank where
  start := rfl
  holds_start := rfl
  holds_stop := rfl
  known_init fp := ⟨fun _ => rfl, fun _ => rfl, fun hpc => by cases hpc⟩
  known_reply _ _ h := ⟨h.unmasked, h.unblocked, h.atEnd⟩
  known_expire _ h := ⟨h.unmasked, h.unblocked, h.atEnd⟩
  known_run _ _ h := recvfrom_known_run h
  known_sigalrm s hblocked h := by
    obtain ⟨hun, hopen, hend⟩ := h
    obtain ⟨pc, fp, sendline, sent, queue, printed, timer, pending, blocked⟩ := s
    cases pc with
    | inRecvfrom => exact ⟨hun, fun _ => hblocked, fun hpc => by cases hpc⟩
    | _ => exact ⟨hun, hopen, hend⟩
  interrupted s hin h := by
    obtain ⟨pc, fp, sendline, sent, queue, printed, timer, pending, blocked⟩ := s
    cases pc with
    | inRecvfrom => exact ⟨h.unblocked (.inr rfl), rfl⟩
    | _ => cases hin
  stop _ hpc h := h.atEnd hpc
  goes s hin hpc _ := by
    obtain ⟨pc, fp, sendline, sent, queue, printed, timer, pending, blocked⟩ := s
    cases pc with
    | inRecvfrom => cases hin
    | done => exact absurd rfl hpc
    | _ => trivial
  run_cases _ ha := recvfrom_run_cases ha
  sigalrm_cases s := by
    obtain ⟨pc, fp, sendline, sent, queue, printed, timer, pending, blocked⟩ := s
    cases pc with
    | inRecvfrom => exact ⟨rfl, rfl, rfl, rfl, .inl ⟨rfl, rfl⟩⟩
    | _ => exact ⟨rfl, rfl, rfl, rfl, .inr ⟨rfl, rfl⟩⟩
  lines_run _ ha := recvfrom_lines_run ha
  lines_sigalrm s := by
    obtain ⟨pc, fp, sendline, sent, queue, printed, timer, pending, blocked⟩ := s
    cases pc <;> rfl
  work_run _ ha := recvfrom_work_run ha
  rank_sigalrm s := by
    obtain ⟨pc, fp, sendline, sent, queue, printed, timer, pending, blocked⟩ := s
    cases pc with
    | inRecvfrom => exact (by decide : 3 ≤ 6)
    | _ => exact le_refl _

theorem exists_hangs (masked : Bool) {fp : List Byte} (hfp : fp ≠ []) :
    ∃ s : Client (Pc ρ) ρ, ((dgCliRecvfrom masked).system fp).Reachable s ∧ (dgCliRecvfrom masked).Hangs s := by
  obtain ⟨line, rest, h₁⟩ := (dgCliRecvfrom masked).reachable_line (ρ := ρ) trivial rfl hfp
  have h₂ := ((h₁.action (a := Act.run) trivial).action (a := Act.run) trivial).action (a := Act.run) trivial
  have h₃ := (h₂.action (a := Act.expire) rfl).action (a := Act.sigalrm) ⟨rfl, by cases masked <;> rfl⟩
  exact ⟨_, h₃, Version.hangs_iff.mpr ⟨rfl, rfl, rfl⟩⟩

/-- **The race of the versions with `recvfrom`.** `dg_cli` hangs exactly when the handler has run in the loop outside of
`recvfrom`, and then for ever; such a run exists for every input, also with the calls of `sigprocmask`. All other runs
come to an end when no more replies arrive, with all lines of the input broadcast, in their order. -/
theorem dgCliRecvfrom_race (masked : Bool) (fp : List Byte) :
    (∀ s : Client (Pc ρ) ρ, ((dgCliRecvfrom masked).system fp).Reachable s →
      ((dgCliRecvfrom masked).Hangs s ↔ ¬ ((dgCliRecvfrom masked).careful fp).Reachable s) ∧
      ((dgCliRecvfrom masked).Hangs s → ∀ s', Relation.ReflTransGen ((dgCliRecvfrom masked).system fp).step s s' →
        (dgCliRecvfrom masked).Hangs s') ∧
      s.sent <+: sendlines fp) ∧
    (fp ≠ [] → ∃ s : Client (Pc ρ) ρ, ((dgCliRecvfrom masked).system fp).Reachable s ∧
      (dgCliRecvfrom masked).Hangs s) ∧
    ((dgCliRecvfrom masked : Version (Pc ρ) ρ).quiet fp).Ends fun s =>
      s.pc = .done ∧ s.fp = [] ∧ s.sent = sendlines fp := by
  have hlawful : (dgCliRecvfrom masked : Version (Pc ρ) ρ).Lawful _ _ := dgCliRecvfrom_lawful masked
  exact ⟨fun s hr => ⟨hlawful.hangs_iff_missed hr, fun hhangs s' => hlawful.hangs_forever hr hhangs,
      hlawful.sent_prefix hr⟩,
    exists_hangs masked, hlawful.quiet_ends fp⟩

end UnixNetProg.Bcast
