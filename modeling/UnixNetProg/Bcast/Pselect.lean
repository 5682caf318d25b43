import UnixNetProg.Bcast.Client

/-!
# The version with `pselect` (`bcast/dgclibcast4.c`), and the `pselect` of the library (`lib/pselect.c`)

`SIGALRM` is blocked in the loop, and `pselect` puts the empty mask in place while it waits. In the kernel that is one
operation. `lib/pselect.c` calls `sigprocmask`, `select` and `sigprocmask`, and the signal can come between them.
-/

namespace UnixNetProg.Bcast

open Lib TransitionSystem

/-- The points of `dg_cli`. `select` and the two restores are in `lib/pselect.c`: behind the first call of
`sigprocmask`, and behind a `select` that found the socket readable or was interrupted. -/
inductive PselectPc (ρ : Type) where
  | fgets
  | sendto
  | block
  | alarm
  | pselect
  | select
  | inSelect
  | restore
  | restoreIntr
  | recvfrom
  | printf (d : ρ)
  | leave
  | done

variable {ρ : Type}

/-- In the `for` loop, and not about to leave it. -/
def PselectPc.waiting : PselectPc ρ → Bool
  | .pselect | .select | .inSelect | .restore | .recvfrom | .printf _ => true
  | .fgets | .sendto | .block | .alarm | .restoreIntr | .leave | .done => false

def PselectPc.holds : PselectPc ρ → Bool
  | .sendto => true
  | _ => false

def PselectPc.interrupted : PselectPc ρ → Bool
  | .inSelect => true
  | _ => false

/-- The next step of `dg_cli`; `atomic` is the `pselect` of the kernel. -/
def pselectRun (atomic : Bool) (s : Client (PselectPc ρ) ρ) : Client (PselectPc ρ) ρ :=
  match s.pc with
  | .fgets => s.fgets .sendto .done
  | .sendto => s.sendto .block
  | .block => { s with pc := .alarm, blocked := true }
  | .alarm => { s with pc := .pselect, timer := true }
  | .pselect => { s with pc := if atomic then .inSelect else .select, blocked := false }
  | .select => { s with pc := .inSelect }
  | .inSelect => if atomic then { s with pc := .recvfrom, blocked := true } else { s with pc := .restore }
  | .restore => { s with pc := .recvfrom, blocked := true }
  | .restoreIntr => { s with pc := .leave, blocked := true }
  | .recvfrom =>
    match s.queue with
    | [] => s
    | d :: queue => { s with pc := .printf d, queue := queue }
  | .printf d => { s with pc := .pselect, printed := s.printed ++ [d] }
  | .leave => { s with pc := .fgets }
  | .done => s

/-- `select` and `recvfrom` wait until there is a reply. -/
def pselectCanRun (s : Client (PselectPc ρ) ρ) : Prop :=
  match s.pc with
  | .inSelect | .recvfrom => s.queue ≠ []
  | .done => False
  | _ => True

/-- `recvfrom_alarm` returns; only `select` is interrupted. -/
def pselectAlarm (atomic : Bool) (s : Client (PselectPc ρ) ρ) : Client (PselectPc ρ) ρ :=
  match s.pc with
  | .inSelect =>
    if atomic then { s with pc := .leave, pending := false, blocked := true }
    else { s with pc := .restoreIntr, pending := false }
  | _ => { s with pending := false }

def dgCliPselect (atomic : Bool) : Version (PselectPc ρ) ρ where
  start := .fgets
  stop := .done
  holds := PselectPc.holds
  waiting := PselectPc.waiting
  interrupted := PselectPc.interrupted
  canRun := pselectCanRun
  run := pselectRun atomic
  sigalrm := pselectAlarm atomic

def PselectPc.rank : PselectPc ρ → ℕ
  | .fgets => 1
  | .sendto => 13
  | .block => 12
  | .alarm => 11
  | .pselect => 8
  | .select => 7
  | .inSelect => 6
  | .restore => 5
  | .restoreIntr => 3
  | .recvfrom => 4
  | .printf _ => 9
  | .leave => 2
  | .done => 0

structure PselectKnown (atomic : Bool) (s : Client (PselectPc ρ) ρ) : Prop where
  unblocked : s.pc = .select ∨ s.pc = .inSelect → s.blocked = false
  blocked : s.pc = .alarm ∨ s.pc = .pselect ∨ s.pc = .recvfrom ∨ (∃ d, s.pc = .printf d) → s.blocked = true
  ready : s.pc = .restore ∨ s.pc = .recvfrom → s.queue ≠ []
  kernel : atomic = true → s.pc ≠ .select ∧ s.pc ≠ .restore
  atEnd : s.pc = .done → s.fp = []

variable {atomic : Bool} {s : Client (PselectPc ρ) ρ}

theorem pselect_known_run (ha : pselectCanRun s) (h : PselectKnown atomic s) :
    PselectKnown atomic (pselectRun atomic s) := by
  obtain ⟨hopen, hblocked, hready, hkernel, hend⟩ := h
  obtain ⟨pc, fp, sendline, sent, queue, printed, timer, pending, blocked⟩ := s
  cases pc with
  | fgets =>
    rw [pselectRun, Client.fgets]
    cases hline : fgets MAXLINE fp with
    | none => exact ⟨by simp, by simp, by simp, by simp, fun _ => fgets_eq_none_iff.mp hline⟩
    | some line => constructor <;> simp
  | recvfrom =>
    cases queue with
    | nil => exact absurd rfl ha
    | cons d queue => constructor <;> simp_all [pselectRun]
  | pselect => cases atomic <;> constructor <;> simp_all [pselectRun]
  | inSelect =>
    have hqueue : queue ≠ [] := ha
    cases atomic <;> constructor <;> simp_all [pselectRun]
  | done => exact absurd ha id
  | _ => constructor <;> simp_all [pselectRun, Client.sendto]

theorem pselect_run_cases (ha : pselectCanRun s) : (dgCliPselect atomic).RunCases s (pselectRun atomic s) := by
  obtain ⟨pc, fp, sendline, sent, queue, printed, timer, pending, blocked⟩ := s
  cases pc with
  | fgets =>
    rw [pselectRun, Client.fgets]
    cases hline : fgets MAXLINE fp <;> exact ⟨rfl, .inl ⟨rfl, rfl⟩⟩
  | recvfrom =>
    cases queue with
    | nil => exact absurd rfl ha
    | cons d queue => exact ⟨rfl, .inl ⟨rfl, rfl⟩⟩
  | pselect | inSelect => cases atomic <;> exact ⟨rfl, .inl ⟨rfl, rfl⟩⟩
  | alarm => exact ⟨rfl, .inr ⟨rfl, rfl, rfl⟩⟩
  | done => exact absurd ha id
  | _ => exact ⟨rfl, .inl ⟨rfl, rfl⟩⟩

theorem pselect_lines_run (ha : pselectCanRun s) :
    (pselectRun atomic s).lines PselectPc.holds = s.lines PselectPc.holds := by
  obtain ⟨pc, fp, sendline, sent, queue, printed, timer, pending, blocked⟩ := s
  cases pc with
  | fgets => exact Client.lines_fgets rfl rfl rfl
  | sendto => exact Client.lines_sendto rfl rfl
  | recvfrom =>
    cases queue with
    | nil => exact absurd rfl ha
    | cons d queue => rfl
  | pselect | inSelect => cases atomic <;> rfl
  | _ => rfl

theorem pselect_work_run (ha : pselectCanRun s) :
    (pselectRun atomic s).work PselectPc.rank < s.work PselectPc.rank := by
  obtain ⟨pc, fp, sendline, sent, queue, printed, timer, pending, blocked⟩ := s
  cases pc with
  | fgets =>
    rw [pselectRun, Client.fgets]
    cases hline : fgets MAXLINE fp with
    | none =>
      simp only [Client.work, PselectPc.rank]
      omega
    | some line =>
      have hlt := length_lt_of_fgets (by decide) hline
      simp only [Client.work, PselectPc.rank]
      omega
  | recvfrom =>
    cases queue with
    | nil => exact absurd rfl ha
    | cons d queue =>
      simp only [pselectRun, Client.work, PselectPc.rank, List.length_cons]
      omega
  | pselect | inSelect =>
    cases atomic <;>
      simp only [pselectRun, Client.work, PselectPc.rank, if_true, Bool.false_eq_true, if_false] <;> omega
  | alarm =>
    simp only [pselectRun, Client.work, PselectPc.rank, Bool.toNat_true]
    omega
  | done => exact absurd ha id
  | _ =>
    simp only [pselectRun, Client.sendto, Client.work, PselectPc.rank]
    omega

theorem dgCliPselect_lawful (atomic : Bool) :
    (dgCliPselect atomic : Version (PselectPc ρ) ρ).Lawful (PselectKnown atomic) PselectPc.rank where
  start := rfl
  holds_start := rfl
  holds_stop := rfl
  known_init fp := by constructor <;> simp [Version.init, dgCliPselect]
  known_reply _ _ h := ⟨h.unblocked, h.blocked, fun _ => by simp, h.kernel, h.atEnd⟩
  known_expire _ h := ⟨h.unblocked, h.blocked, h.ready, h.kernel, h.atEnd⟩
  known_run _ ha h := pselect_known_run ha h
  known_sigalrm s hblocked h := by
    obtain ⟨hopen, hmask, hready, hkernel, hend⟩ := h
    obtain ⟨pc, fp, sendline, sent, queue, printed, timer, pending, blocked⟩ := s
    cases pc with
    | inSelect => cases atomic <;> constructor <;> simp [dgCliPselect, pselectAlarm]
    | _ => exact ⟨hopen, hmask, hready, hkernel, hend⟩
  interrupted s hin h := by
    obtain ⟨pc, fp, sendline, sent, queue, printed, timer, pending, blocked⟩ := s
    cases pc with
    | inSelect => exact ⟨h.unblocked (.inr rfl), rfl⟩
    | _ => cases hin
  stop _ hpc h := h.atEnd hpc
  goes s hin hpc h := by
    obtain ⟨-, -, hready, -, -⟩ := h
    obtain ⟨pc, fp, sendline, sent, queue, printed, timer, pending, blocked⟩ := s
    cases pc with
    | inSelect => cases hin
    | recvfrom => exact hready (.inr rfl)
    | done => exact absurd rfl hpc
    | _ => trivial
  run_cases _ ha := pselect_run_cases ha
  sigalrm_cases s := by
    obtain ⟨pc, fp, sendline, sent, queue, printed, timer, pending, blocked⟩ := s
    cases pc with
    | inSelect => cases atomic <;> exact ⟨rfl, rfl, rfl, rfl, .inl ⟨rfl, rfl⟩⟩
    | _ => exact ⟨rfl, rfl, rfl, rfl, .inr ⟨rfl, rfl⟩⟩
  lines_run _ ha := pselect_lines_run ha
  lines_sigalrm s := by
    obtain ⟨pc, fp, sendline, sent, queue, printed, timer, pending, blocked⟩ := s
    cases pc with
    | inSelect => cases atomic <;> rfl
    | _ => rfl
  work_run _ ha := pselect_work_run ha
  rank_sigalrm s := by
    obtain ⟨pc, fp, sendline, sent, queue, printed, timer, pending, blocked⟩ := s
    cases pc with
    | inSelect => cases atomic <;> simp [dgCliPselect, pselectAlarm, PselectPc.rank]
    | _ => exact le_refl _

theorem pselect_exists_hangs {fp : List Byte} (hfp : fp ≠ []) :
    ∃ s : Client (PselectPc ρ) ρ, ((dgCliPselect false).system fp).Reachable s ∧ (dgCliPselect false).Hangs s := by
  obtain ⟨line, rest, h₁⟩ := (dgCliPselect false).reachable_line (ρ := ρ) trivial rfl hfp
  have h₂ := ((h₁.action (a := Act.run) trivial).action (a := Act.run) trivial).action (a := Act.run) trivial
  have h₃ := (h₂.action (a := Act.run) trivial).action (a := Act.expire) rfl
  have h₄ := h₃.action (a := Act.sigalrm) ⟨rfl, rfl⟩
  exact ⟨_, h₄, Version.hangs_iff.mpr ⟨rfl, rfl, rfl⟩⟩

/-- With the `pselect` of the kernel, the signal is blocked in the loop outside of it. -/
theorem pselect_kernel_not_missed {a : Act ρ} (h : PselectKnown true s) (ha : (dgCliPselect true).enabled s a) :
    ¬ (dgCliPselect true).missed s a := by
  rintro ⟨rfl, hwait, hnot⟩
  obtain ⟨-, hopen⟩ : s.pending = true ∧ s.blocked = false := ha
  have hkernel := h.kernel rfl
  have hblocked : s.blocked = true := by
    refine h.blocked ?_
    obtain ⟨pc, fp, sendline, sent, queue, printed, timer, pending, blocked⟩ := s
    cases pc with
    | pselect => exact .inr (.inl rfl)
    | select => exact absurd rfl hkernel.1
    | restore => exact absurd rfl hkernel.2
    | recvfrom => exact .inr (.inr (.inl rfl))
    | printf d => exact .inr (.inr (.inr ⟨d, rfl⟩))
    | inSelect => cases hnot
    | _ => cases hwait
  exact absurd (hopen.symm.trans hblocked) (by decide)

theorem pselect_kernel_careful {fp : List Byte} (hr : ((dgCliPselect true).system fp).Reachable s) :
    ((dgCliPselect true).careful fp).Reachable s := by
  refine invariant (P := fun s => ((dgCliPselect true).careful fp).Reachable s) ?_ ?_ hr
  · exact fun s hs => reachable_init hs
  · rintro s s' hr hcareful ⟨a, ha, rfl⟩
    have hinv := (dgCliPselect_lawful true).inv_reachable hr
    exact hcareful.action ⟨ha, pselect_kernel_not_missed hinv.known ha⟩

/-- **The race of `lib/pselect.c`.** With it the version has the race of the versions with `recvfrom`: it hangs exactly
when the handler has run in the loop outside of `select`, and then for ever. With the `pselect` of the kernel it never
hangs. All other runs, and with the `pselect` of the kernel all, come to an end when no more replies arrive, with all
lines of the input broadcast, in their order. -/
theorem dgCliPselect_race (fp : List Byte) :
    (∀ s : Client (PselectPc ρ) ρ, ((dgCliPselect false).system fp).Reachable s →
      ((dgCliPselect false).Hangs s ↔ ¬ ((dgCliPselect false).careful fp).Reachable s) ∧
      ((dgCliPselect false).Hangs s → ∀ s', Relation.ReflTransGen ((dgCliPselect false).system fp).step s s' →
        (dgCliPselect false).Hangs s')) ∧
    (fp ≠ [] → ∃ s : Client (PselectPc ρ) ρ, ((dgCliPselect false).system fp).Reachable s ∧
      (dgCliPselect false).Hangs s) ∧
    (∀ s : Client (PselectPc ρ) ρ, ((dgCliPselect true).system fp).Reachable s →
      ¬ (dgCliPselect true).Hangs s ∧ ((dgCliPselect true).careful fp).Reachable s) ∧
    ∀ atomic : Bool, (∀ s : Client (PselectPc ρ) ρ, ((dgCliPselect atomic).system fp).Reachable s →
        s.sent <+: sendlines fp) ∧
      ((dgCliPselect atomic : Version (PselectPc ρ) ρ).quiet fp).Ends fun s =>
        s.pc = .done ∧ s.fp = [] ∧ s.sent = sendlines fp := by
  have hlib : (dgCliPselect false : Version (PselectPc ρ) ρ).Lawful _ _ := dgCliPselect_lawful false
  have hkernel : (dgCliPselect true : Version (PselectPc ρ) ρ).Lawful _ _ := dgCliPselect_lawful true
  refine ⟨fun s hr => ⟨hlib.hangs_iff_missed hr, fun hhangs s' => hlib.hangs_forever hr hhangs⟩,
    pselect_exists_hangs, fun s hr => ?_, fun atomic => ?_⟩
  · have hcareful := pselect_kernel_careful hr
    exact ⟨fun hhangs => (hkernel.hangs_iff_missed hr).mp hhangs hcareful, hcareful⟩
  · have hlawful : (dgCliPselect atomic : Version (PselectPc ρ) ρ).Lawful _ _ := dgCliPselect_lawful atomic
    exact ⟨fun s hr => hlawful.sent_prefix hr, hlawful.quiet_ends fp⟩

end UnixNetProg.Bcast
