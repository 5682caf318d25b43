import Mathlib.Tactic.Linarith
import UnixNetProg.Lib.Wakeup

/-!
# One child after the other (`sock/tellwait.c`, `sock/servopen.c`)

With the `-F` option the server forks a child for each connection. The child sets the options of the connected socket
(`sock/buffers.c`, `sock/sockopts.c`) and tells the parent, which waits for that before its next `accept`, so that what
the children write to the terminal when `verbose` is set does not mix. A child that cannot set an option ends in
`err_sys` or `err_quit` instead, and tells nobody. `TELL_WAIT` is called once and blocks the two signals; `WAIT_CHILD`
is called for each child and sets the mask back to the one from before `TELL_WAIT`. So the signals are blocked for the
first child only.

`oldmask` says whether the mask that the process was started with has `SIGUSR2` blocked. A state is that of the parent
and of the last child, for as long as that has not told.
-/

namespace UnixNetProg.Sock

open Lib TransitionSystem

/-! ### The child -/

/-- The options of the command line that are set on a connected TCP socket, under the names of their variables. `sigio`
is not given: its handler would write to the terminal at any time. -/
inductive SockOption where
  | rcvbuflen
  | sndbuflen
  | debug
  | dontroute
  | maxseg
  | broadcast
  | onesbcast
  | joinip
  | mcastttl
  | keepalive
  | nodelay
  | linger
  | rcvtimeo
  | sndtimeo

structure ServOpts where
  verbose : Bool
  given : SockOption → Bool

/-- What is written to the terminal, without its values: `option` is the report on an option that is set, and `error`
the message of `err_sys` or `err_quit`. -/
inductive Text where
  | connectionOn
  | fromClient
  | option (opt : SockOption)
  | error

/-- A text on the terminal, with the number of the connection. -/
structure Line where
  text : Text
  conn : ℕ

/-- A step of the child: a call or a test that ends in `err_sys` or `err_quit` when it fails, or an `fprintf`. -/
inductive ChildStep where
  | check
  | write (text : Text)

/-- The calls that set an option and read it back, and the test of its value where there is one. -/
def SockOption.checks : SockOption → ℕ
  | .maxseg | .joinip | .rcvtimeo | .sndtimeo => 2
  | _ => 3

namespace ServOpts

variable (o : ServOpts)

/-- `if (verbose) fprintf(stderr, ..)`. -/
def report (text : Text) : List ChildStep := if o.verbose then [.write text] else []

/-- The branch of an option in `buffers` and `sockopts`. -/
def setOption (opt : SockOption) : List ChildStep :=
  if o.given opt then List.replicate opt.checks .check ++ o.report (.option opt) else []

/-- The local and the foreign address. -/
def address : List ChildStep := if o.verbose then [.check, .write .connectionOn, .write .fromClient] else []

/-- `buffers(newfd)`; `rbuf` and `wbuf` have been allocated for the listening socket. -/
def buffers : List ChildStep := o.setOption .rcvbuflen ++ o.setOption .sndbuflen

/-- `sockopts(newfd, 1)` with `udp` 0. `iptos`, `ipttl` and the source route are for the listening socket. -/
def sockopts : List ChildStep :=
  o.setOption .debug ++ o.setOption .dontroute ++ o.setOption .maxseg ++
  o.setOption .broadcast ++ (if o.given .broadcast then o.setOption .onesbcast else []) ++
  o.setOption .joinip ++ o.setOption .mcastttl ++ o.setOption .keepalive ++ o.setOption .nodelay ++
  (if o.verbose then [.check, .write (.option .maxseg)] else []) ++
  o.setOption .linger ++ o.setOption .rcvtimeo ++ o.setOption .sndtimeo

/-- What the child does between `close(fd)` and `TELL_PARENT`. -/
def program : List ChildStep := o.address ++ o.buffers ++ o.sockopts

end ServOpts

/-- What the steps write for a connection. -/
def printed (steps : List ChildStep) (conn : ℕ) : List Line :=
  steps.flatMap fun
    | .check => []
    | .write text => [⟨text, conn⟩]

/-- The lines of the first connections. -/
def lines (o : ServOpts) : ℕ → List Line
  | 0 => []
  | k + 1 => lines o k ++ printed o.program (k + 1)

theorem printed_append (steps steps' : List ChildStep) (conn : ℕ) :
    printed (steps ++ steps') conn = printed steps conn ++ printed steps' conn := List.flatMap_append

/-! ### The parent and its child -/

/-- The points of the parent: from `test` on it is in `WAIT_CHILD`, with `suspend` between the test of `sigflag` and
`sigsuspend`. -/
inductive ServPc where
  | tellWait
  | accept
  | fork
  | close
  | test
  | suspend
  | inSuspend
  | clear
  | restore
  deriving DecidableEq

/-- `child` is what the last child has still to do before `TELL_PARENT`; `failed` says that it has ended before. -/
structure Servopen where
  pc : ServPc
  conns : ℕ
  child : Option (List ChildStep)
  failed : Bool
  terminal : List Line
  pending : Bool
  sigflag : Bool
  blocked : Bool

inductive ServAct where
  | connect
  | child
  | childFails
  | sigUsr
  | run

namespace Servopen

def init (oldmask : Bool) : Servopen := ⟨.tellWait, 0, none, false, [], false, false, oldmask⟩

variable (o : ServOpts)

/-- The next step of the parent; `accept` and `sigsuspend` return by `connect` and `sigUsr`. -/
def run (oldmask : Bool) (s : Servopen) : Servopen :=
  match s.pc with
  | .tellWait => { s with pc := .accept, blocked := true }
  | .accept => s
  | .fork => { s with pc := .close, conns := s.conns + 1, child := some o.program }
  | .close => { s with pc := .test }
  | .test => { s with pc := if s.sigflag then .clear else .suspend }
  | .suspend => { s with pc := .inSuspend }
  | .inSuspend => s
  | .clear => { s with pc := .restore, sigflag := false }
  | .restore => { s with pc := .accept, blocked := oldmask }

/-- The next step of the last child. -/
def childRun (s : Servopen) : Servopen :=
  match s.child with
  | none => s
  | some [] => { s with child := none, pending := true }
  | some (step :: steps) => { s with child := some steps, terminal := s.terminal ++ printed [step] s.conns }

/-- `err_sys` or `err_quit`. -/
def childFails (s : Servopen) : Servopen :=
  { s with child := none, failed := true, terminal := s.terminal ++ [⟨.error, s.conns⟩] }

/-- `sig_usr`, with the return from `sigsuspend`. -/
def sigUsr (s : Servopen) : Servopen :=
  match s.pc with
  | .inSuspend => { s with pc := .test, pending := false, sigflag := true }
  | _ => { s with pending := false, sigflag := true }

/-- In `sigsuspend` the mask is `zeromask`. -/
def enabled (s : Servopen) : ServAct → Prop
  | .connect => s.pc = .accept
  | .child => s.child ≠ none
  | .childFails => ∃ steps, s.child = some (.check :: steps)
  | .sigUsr => s.pending = true ∧ (s.blocked = false ∨ s.pc = .inSuspend)
  | .run => s.pc ≠ .accept ∧ s.pc ≠ .inSuspend

def next (oldmask : Bool) (s : Servopen) : ServAct → Servopen
  | .connect => { s with pc := .fork }
  | .child => s.childRun
  | .childFails => s.childFails
  | .sigUsr => s.sigUsr
  | .run => s.run o oldmask

def system (oldmask : Bool) : TransitionSystem Servopen := ofActions (· = init oldmask) enabled (next o oldmask)

end Servopen

/-- The parent is on its way to the return from `sigsuspend`, or in it. -/
def ServPc.waiting : ServPc → Bool
  | .close | .test | .suspend | .inSuspend => true
  | _ => false

/-- From the `fork` to the end of `WAIT_CHILD`. -/
def ServPc.busy : ServPc → Bool
  | .close | .test | .suspend | .inSuspend | .clear => true
  | _ => false

/-- From the `fork` to the next `accept`. -/
def ServPc.forked : ServPc → Bool
  | .tellWait | .accept | .fork => false
  | _ => true

namespace Servopen

variable (o : ServOpts)

/-- The child will wake the parent, or `WAIT_CHILD` will find `sigflag` set. -/
def due (s : Servopen) : Prop :=
  s.child ≠ none ∨ s.pending = true ∨ s.sigflag = true ∧ (s.pc = .close ∨ s.pc = .test)

/-- In `WAIT_CHILD`, with nothing left to end it. -/
def Hangs : Servopen → Prop := Lost (fun s => s.pc.waiting = true) due

/-- The handler runs between the test of `sigflag` and `sigsuspend`. -/
def missed (s : Servopen) (a : ServAct) : Prop := a = .sigUsr ∧ s.pc = .suspend

/-- The runs in which the handler does not run there. -/
def careful (oldmask : Bool) : TransitionSystem Servopen :=
  Lib.careful (· = init oldmask) enabled (next o oldmask) missed

/-- From any state of such a run, with no more connections. -/
def quiet (oldmask : Bool) : TransitionSystem Servopen :=
  onward (· = init oldmask) (fun s a => enabled s a ∧ ¬ missed s a) (next o oldmask) (· ≠ .connect)

/-- What stands on the terminal: the lines of the connections before, and what the last child has written. -/
def Shows (s : Servopen) : Prop :=
  match s.child with
  | some steps => ∃ before, before ++ steps = o.program ∧
    s.terminal = lines o (s.conns - 1) ++ printed before s.conns
  | none =>
    if s.failed then ∃ before, before <+: o.program ∧
      s.terminal = lines o (s.conns - 1) ++ printed before s.conns ++ [⟨.error, s.conns⟩]
    else s.terminal = lines o s.conns

/-- The signal mask: with `SIGUSR2` blocked until the first child has told. -/
def mask (oldmask : Bool) (pc : ServPc) (conns : ℕ) : Bool :=
  match pc with
  | .tellWait => oldmask
  | .accept | .fork => oldmask || decide (conns = 0)
  | _ => oldmask || decide (conns ≤ 1)

/-- From the `fork` on, one wake-up is on its way: in the child, in the signal or in `sigflag`; or the child has
failed. -/
structure Inv (oldmask : Bool) (s : Servopen) : Prop where
  flight : s.child.isSome.toNat + s.failed.toNat + s.pending.toNat + s.sigflag.toNat = s.pc.busy.toNat
  clear : s.pc = .clear → s.sigflag = true
  atStart : s.pc = .tellWait → s.conns = 0
  counted : s.pc.forked = true → 0 < s.conns
  output : s.Shows o
  mask : s.blocked = mask oldmask s.pc s.conns

variable {o : ServOpts} {oldmask : Bool} {s : Servopen}

theorem forked_of_busy {pc : ServPc} (h : pc.busy = true) : pc.forked = true := by
  revert h
  cases pc <;> decide

theorem Inv.idle (h : s.Inv o oldmask) (hpc : s.pc.busy = false) :
    s.child = none ∧ s.failed = false ∧ s.pending = false ∧ s.sigflag = false := by
  have hflight := h.flight
  rw [hpc, Bool.toNat_false] at hflight
  simp only [Nat.add_eq_zero_iff, Bool.toNat_eq_zero, Option.isSome_eq_false_iff, Option.isNone_iff_eq_none] at hflight
  obtain ⟨⟨⟨hchild, hfailed⟩, hpending⟩, hflag⟩ := hflight
  exact ⟨hchild, hfailed, hpending, hflag⟩

theorem inv_run (h : s.Inv o oldmask) (ha : s.enabled .run) : (s.run o oldmask).Inv o oldmask := by
  have hidle := h.idle
  obtain ⟨hflight, hclear, hstart, hcounted, houtput, hmask⟩ := h
  obtain ⟨pc, conns, child, failed, terminal, pending, sigflag, blocked⟩ := s
  cases pc with
  | tellWait => exact ⟨hflight, by simp [run], by simp [run], by simp [run, ServPc.forked], houtput, by
      simp_all [run, mask]⟩
  | accept => exact absurd rfl ha.1
  | fork =>
    obtain ⟨rfl, rfl, rfl, rfl⟩ := hidle rfl
    have hshown : terminal = lines o conns := houtput
    have hmask' : blocked = mask oldmask .close (conns + 1) := hmask.trans (by simp [mask])
    exact ⟨rfl, by simp [run], by simp [run], fun _ => Nat.succ_pos _,
      ⟨[], rfl, hshown.trans (List.append_nil _).symm⟩, hmask'⟩
  | close => exact ⟨hflight, by simp [run], by simp [run], hcounted, houtput, hmask⟩
  | test =>
    cases sigflag with
    | true => exact ⟨hflight, fun _ => rfl, by simp [run], hcounted, houtput, hmask⟩
    | false => exact ⟨hflight, by simp [run], by simp [run], hcounted, houtput, hmask⟩
  | suspend => exact ⟨hflight, by simp [run], by simp [run], hcounted, houtput, hmask⟩
  | inSuspend => exact absurd rfl ha.2
  | clear =>
    have hflag : sigflag = true := hclear rfl
    refine ⟨?_, by simp [run], by simp [run], fun _ => hcounted rfl, houtput, hmask⟩
    rw [hflag] at hflight
    simp only [run, ServPc.busy, Bool.toNat_true, Bool.toNat_false] at hflight ⊢
    omega
  | restore =>
    have hpos : 0 < conns := hcounted rfl
    have hmask' : oldmask = mask oldmask .accept conns := by simp [mask, hpos.ne']
    exact ⟨hflight, by simp [run], by simp [run], by simp [run, ServPc.forked], houtput, hmask'⟩

theorem Inv.child_busy (h : s.Inv o oldmask) (hchild : s.child ≠ none) : s.pc.busy = true ∧ s.failed = false := by
  have hflight := h.flight
  have hle := Bool.toNat_le s.pc.busy
  rw [Option.isSome_iff_ne_none.mpr hchild, Bool.toNat_true] at hflight
  have hfailed : s.failed.toNat = 0 := by omega
  refine ⟨?_, Bool.toNat_eq_zero.mp hfailed⟩
  by_contra hfalse
  exact hchild (h.idle (by simpa using hfalse)).1

theorem Inv.conns_pos (h : s.Inv o oldmask) (hchild : s.child ≠ none) : 0 < s.conns :=
  h.counted (forked_of_busy (h.child_busy hchild).1)

theorem inv_childRun (h : s.Inv o oldmask) (ha : s.child ≠ none) : s.childRun.Inv o oldmask := by
  have hpos := h.conns_pos ha
  have hfailed := (h.child_busy ha).2
  obtain ⟨hflight, hclear, hstart, hcounted, houtput, hmask⟩ := h
  obtain ⟨pc, conns, child, failed, terminal, pending, sigflag, blocked⟩ := s
  obtain rfl : failed = false := hfailed
  obtain ⟨k, rfl⟩ : ∃ k, conns = k + 1 := Nat.exists_eq_add_one.mpr hpos
  cases child with
  | none => exact absurd rfl ha
  | some steps =>
    obtain ⟨before, hprogram, hshown⟩ := houtput
    cases steps with
    | nil =>
      rw [List.append_nil] at hprogram
      subst hprogram
      refine ⟨?_, hclear, hstart, hcounted, hshown, hmask⟩
      have hle := Bool.toNat_le pc.busy
      simp only [childRun, Option.isSome_some, Option.isSome_none, Bool.toNat_true, Bool.toNat_false] at hflight ⊢
      omega
    | cons step steps =>
      have hprogram' : (before ++ [step]) ++ steps = o.program := by rw [← hprogram, List.append_assoc]; rfl
      refine ⟨hflight, hclear, hstart, hcounted, ⟨before ++ [step], hprogram', ?_⟩, hmask⟩
      rw [printed_append, ← List.append_assoc]
      exact congrArg (· ++ _) hshown

theorem inv_childFails (h : s.Inv o oldmask) (ha : s.enabled .childFails) : s.childFails.Inv o oldmask := by
  obtain ⟨steps, hchild⟩ := ha
  have hfailed := (h.child_busy (by simp [hchild])).2
  obtain ⟨hflight, hclear, hstart, hcounted, houtput, hmask⟩ := h
  obtain ⟨pc, conns, child, failed, terminal, pending, sigflag, blocked⟩ := s
  obtain rfl : child = some (.check :: steps) := hchild
  obtain rfl : failed = false := hfailed
  obtain ⟨before, hprogram, hshown⟩ := houtput
  refine ⟨?_, hclear, hstart, hcounted, ⟨before, ⟨_, hprogram⟩, congrArg (· ++ _) hshown⟩, hmask⟩
  simp only [childFails, Option.isSome_some, Option.isSome_none, Bool.toNat_true, Bool.toNat_false] at hflight ⊢
  omega

theorem inv_sigUsr (h : s.Inv o oldmask) (hpending : s.pending = true) : s.sigUsr.Inv o oldmask := by
  obtain ⟨hflight, hclear, hstart, hcounted, houtput, hmask⟩ := h
  obtain ⟨pc, conns, child, failed, terminal, pending, sigflag, blocked⟩ := s
  subst hpending
  have hle := Bool.toNat_le pc.busy
  have hflight' : child.isSome.toNat + failed.toNat + false.toNat + true.toNat = pc.busy.toNat := by
    simp only [Bool.toNat_true, Bool.toNat_false] at hflight ⊢
    omega
  cases pc with
  | inSuspend => exact ⟨hflight', fun _ => rfl, by simp [sigUsr], hcounted, houtput, hmask⟩
  | _ => exact ⟨hflight', fun _ => rfl, hstart, hcounted, houtput, hmask⟩

theorem inv_next {a : ServAct} (h : s.Inv o oldmask) (ha : s.enabled a) : (s.next o oldmask a).Inv o oldmask := by
  cases a with
  | connect =>
    have hpc : s.pc = .accept := ha
    obtain ⟨hflight, hclear, hstart, hcounted, houtput, hmask⟩ := h
    rw [hpc] at hflight hmask
    exact ⟨hflight, by simp [next], by simp [next], by simp [next, ServPc.forked], houtput, hmask⟩
  | child => exact inv_childRun h ha
  | childFails => exact inv_childFails h ha
  | sigUsr => exact inv_sigUsr h ha.1
  | run => exact inv_run h ha

theorem inv_reachable (hr : (system o oldmask).Reachable s) : s.Inv o oldmask := by
  refine invariant ?_ ?_ hr
  · rintro s rfl
    exact ⟨rfl, by simp [init], fun _ => rfl, by simp [init, ServPc.forked], rfl, rfl⟩
  · rintro s s' - h ⟨a, ha, rfl⟩
    exact inv_next h ha

/-! ### The wake-up -/

theorem hangs_iff : s.Hangs ↔ s.pc.waiting = true ∧ s.child = none ∧ s.pending = false ∧
    ¬ (s.sigflag = true ∧ (s.pc = .close ∨ s.pc = .test)) := by
  simp [Hangs, Lost, due]

theorem Inv.hangs_of_failed (h : s.Inv o oldmask) (hfailed : s.failed = true) : s.Hangs := by
  have hflight := h.flight
  have hclear := h.clear
  have hle := Bool.toNat_le s.pc.busy
  obtain ⟨pc, conns, child, failed, terminal, pending, sigflag, blocked⟩ := s
  obtain rfl : failed = true := hfailed
  have hsum : child.isSome.toNat + true.toNat + pending.toNat + sigflag.toNat = pc.busy.toNat := hflight
  rw [Bool.toNat_true] at hsum
  have hle' : pc.busy.toNat ≤ 1 := hle
  have hchild : child = none := by
    have hzero : child.isSome.toNat = 0 := by omega
    simpa using hzero
  have hpending : pending = false := Bool.toNat_eq_zero.mp (by omega)
  have hflag : sigflag = false := Bool.toNat_eq_zero.mp (by omega)
  have hwait : pc.waiting = true := by
    cases pc with
    | close | test | suspend | inSuspend => rfl
    | clear => exact absurd ((hclear rfl).symm.trans hflag) (by decide)
    | _ => simp [ServPc.busy] at hsum
  exact hangs_iff.mpr ⟨hwait, hchild, hpending, by simp [hflag]⟩

/-- A wake-up is still to come, or the child has failed and there is none. -/
def dueOrFailed (s : Servopen) : Prop := s.due ∨ s.failed = true

theorem lost_dueOrFailed_iff : Lost (fun s => s.pc.waiting = true) dueOrFailed s ↔ s.Hangs ∧ s.failed = false := by
  simp only [Hangs, Lost, dueOrFailed, not_or, Bool.not_eq_true, and_assoc]

theorem lost_run (h : s.Inv o oldmask) (hlost : s.Hangs) (ha : s.enabled .run) : (s.run o oldmask).Hangs := by
  obtain ⟨hwait, hchild, hpending, hflag⟩ := hangs_iff.mp hlost
  obtain ⟨pc, conns, child, failed, terminal, pending, sigflag, blocked⟩ := s
  subst hchild hpending
  cases pc with
  | close => exact hangs_iff.mpr ⟨rfl, rfl, rfl, fun hnot => hflag ⟨hnot.1, .inl rfl⟩⟩
  | test =>
    cases sigflag with
    | true => exact absurd ⟨rfl, by simp⟩ hflag
    | false => exact hangs_iff.mpr ⟨rfl, rfl, rfl, by simp [run]⟩
  | suspend => exact hangs_iff.mpr ⟨rfl, rfl, rfl, by simp [run]⟩
  | inSuspend => exact absurd rfl ha.2
  | _ => cases hwait

/-- Nothing that can still happen ends the loop. -/
theorem lost_next {a : ServAct} (h : s.Inv o oldmask) (hlost : s.Hangs) (ha : s.enabled a) :
    (s.next o oldmask a).Hangs ∧ (s.next o oldmask a).failed = s.failed := by
  obtain ⟨hwait, hchild, hpending, -⟩ := hangs_iff.mp hlost
  cases a with
  | connect =>
    have hpc : s.pc = .accept := ha
    rw [hpc] at hwait
    cases hwait
  | child => exact absurd hchild ha
  | childFails =>
    obtain ⟨steps, hsome⟩ := ha
    exact absurd (hchild.symm.trans hsome) (by simp)
  | sigUsr => exact absurd (hpending.symm.trans ha.1) (by decide)
  | run =>
    refine ⟨lost_run h hlost ha, ?_⟩
    obtain ⟨pc, conns, child, failed, terminal, pending, sigflag, blocked⟩ := s
    cases pc <;> rfl

theorem hangs_forever (hr : (system o oldmask).Reachable s) (hhangs : s.Hangs) {s' : Servopen}
    (hrun : Relation.ReflTransGen (system o oldmask).step s s') : s'.Hangs := by
  induction hrun with
  | refl => exact hhangs
  | tail hrun hstep ih =>
    obtain ⟨a, ha, rfl⟩ := hstep
    exact (lost_next (inv_reachable (hr.trans hrun)) ih ha).1

theorem due_run (hdue : s.pc.waiting = true → s.dueOrFailed) (ha : s.enabled .run)
    (hwait : (s.run o oldmask).pc.waiting = true) : (s.run o oldmask).dueOrFailed := by
  obtain ⟨pc, conns, child, failed, terminal, pending, sigflag, blocked⟩ := s
  cases pc with
  | accept => exact absurd rfl ha.1
  | inSuspend => exact absurd rfl ha.2
  | fork => exact .inl (.inl (by simp [run]))
  | close => exact (hdue rfl).imp_left (Or.imp_right (Or.imp_right fun h => ⟨h.1, .inr rfl⟩))
  | test =>
    cases sigflag with
    | true => cases hwait
    | false => exact (hdue rfl).imp_left (Or.imp_right (Or.imp_right fun h => absurd h.1 Bool.false_ne_true))
  | suspend =>
    rcases hdue rfl with (h | h | h) | h
    · exact .inl (.inl h)
    · exact .inl (.inr (.inl h))
    · simp at h
    · exact .inr h
  | _ => cases hwait

theorem due_sigUsr (hpc : s.pc ≠ .suspend) (hwait : s.sigUsr.pc.waiting = true) : s.sigUsr.due := by
  obtain ⟨pc, conns, child, failed, terminal, pending, sigflag, blocked⟩ := s
  cases pc with
  | close => exact .inr (.inr ⟨rfl, .inl rfl⟩)
  | test | inSuspend => exact .inr (.inr ⟨rfl, .inr rfl⟩)
  | suspend => exact absurd rfl hpc
  | _ => cases hwait

theorem due_childRun (ha : s.child ≠ none) : s.childRun.due := by
  obtain ⟨pc, conns, child, failed, terminal, pending, sigflag, blocked⟩ := s
  cases child with
  | none => exact absurd rfl ha
  | some steps =>
    cases steps with
    | nil => exact .inr (.inl rfl)
    | cons step steps => exact .inl (by simp [childRun])

/-- The handler that runs in front of `sigsuspend` takes the only wake-up there is. -/
theorem lost_sigUsr (h : s.Inv o oldmask) (hpending : s.pending = true) (hpc : s.pc = .suspend) :
    s.sigUsr.Hangs ∧ s.sigUsr.failed = false := by
  have hflight := h.flight
  obtain ⟨pc, conns, child, failed, terminal, pending, sigflag, blocked⟩ := s
  subst hpc hpending
  simp only [ServPc.busy, Bool.toNat_true] at hflight
  have hchild : child = none := by
    have hzero : child.isSome.toNat = 0 := by omega
    simpa using hzero
  have hfailed : failed = false := Bool.toNat_eq_zero.mp (by omega)
  exact ⟨hangs_iff.mpr ⟨rfl, hchild, rfl, by simp [sigUsr]⟩, hfailed⟩

theorem waitLoop (o : ServOpts) (oldmask : Bool) :
    WaitLoop (· = init oldmask) enabled (next o oldmask) (fun s => s.pc.waiting = true) dueOrFailed missed where
  start := by
    rintro s rfl hwait
    cases hwait
  keeps := by
    intro s a hr ha hkeep hdue hwait
    cases a with
    | connect => cases hwait
    | child => exact .inl (due_childRun ha)
    | childFails => exact .inr rfl
    | sigUsr => exact .inl (due_sigUsr (fun hpc => hkeep ⟨rfl, hpc⟩) hwait)
    | run => exact due_run hdue ha hwait
  loses := by
    rintro s a hr ha ⟨rfl, hpc⟩
    exact lost_dueOrFailed_iff.mpr (lost_sigUsr (inv_reachable hr) ha.1 hpc)
  forever := by
    intro s a hr ha hlost
    obtain ⟨hhangs, hfailed⟩ := lost_dueOrFailed_iff.mp hlost
    obtain ⟨hhangs', hfailed'⟩ := lost_next (inv_reachable hr) hhangs ha
    exact lost_dueOrFailed_iff.mpr ⟨hhangs', hfailed'.trans hfailed⟩

theorem hangs_iff_missed (hr : (system o oldmask).Reachable s) :
    s.Hangs ↔ s.failed = true ∨ ¬ (careful o oldmask).Reachable s := by
  have hiff : s.Hangs ∧ s.failed = false ↔ ¬ (careful o oldmask).Reachable s :=
    lost_dueOrFailed_iff.symm.trans ((waitLoop o oldmask).lost_iff hr)
  cases hfailed : s.failed with
  | true => exact iff_of_true ((inv_reachable hr).hangs_of_failed hfailed) (.inl rfl)
  | false => simpa [hfailed] using hiff

/-! ### The way back to `accept` -/

/-- The steps to the end of `WAIT_CHILD`; `n` is the number of the steps of a child. -/
def rank (n : ℕ) : ServPc → ℕ
  | .tellWait => 1
  | .accept => 0
  | .fork => 4 * n + 11
  | .close => 6
  | .test => 5
  | .suspend => 4
  | .inSuspend => 3
  | .clear => 2
  | .restore => 1

def childRank : Option (List ChildStep) → ℕ
  | none => 0
  | some steps => steps.length + 1

def work (n : ℕ) (s : Servopen) : ℕ := 4 * childRank s.child + 3 * s.pending.toNat + rank n s.pc

theorem work_next {a : ServAct} (h : s.Inv o oldmask) (ha : s.enabled a) (hquiet : a ≠ .connect) :
    (s.next o oldmask a).work o.program.length < s.work o.program.length := by
  have hidle := h.idle
  obtain ⟨pc, conns, child, failed, terminal, pending, sigflag, blocked⟩ := s
  cases a with
  | connect => exact absurd rfl hquiet
  | child =>
    have hle := Bool.toNat_le pending
    cases child with
    | none => exact absurd rfl ha
    | some steps =>
      cases steps <;>
        simp only [next, childRun, work, childRank, Bool.toNat_true, List.length_cons, List.length_nil] <;>
        omega
  | childFails =>
    obtain ⟨steps, rfl⟩ : ∃ steps, child = some (.check :: steps) := ha
    simp only [next, childFails, work, childRank]
    omega
  | sigUsr =>
    obtain rfl : pending = true := ha.1
    cases pc <;> simp only [next, sigUsr, work, rank, Bool.toNat_true, Bool.toNat_false] <;> omega
  | run =>
    cases pc with
    | accept => exact absurd rfl ha.1
    | inSuspend => exact absurd rfl ha.2
    | fork =>
      obtain ⟨rfl, -⟩ := hidle rfl
      simp only [next, run, work, childRank, rank]
      omega
    | test =>
      cases sigflag <;> simp only [next, run, work, rank, if_true, Bool.false_eq_true, if_false] <;> omega
    | _ =>
      simp only [next, run, work, rank]
      omega

/-- The parent has come back to `accept`, or waits for a child that has failed. -/
def Returned (o : ServOpts) (s : Servopen) : Prop :=
  s.pc = .accept ∧ s.failed = false ∧ s.terminal = lines o s.conns ∨ s.pc = .inSuspend ∧ s.failed = true

theorem exists_enabled (hdue : s.pc.waiting = true → s.dueOrFailed) (haccept : s.pc ≠ .accept)
    (hfailed : ¬ (s.pc = .inSuspend ∧ s.failed = true)) : ∃ a, (s.enabled a ∧ ¬ s.missed a) ∧ a ≠ .connect := by
  by_cases hin : s.pc = .inSuspend
  · rcases hdue (by rw [hin, ServPc.waiting]) with (hchild | hpending | ⟨-, hclose | htest⟩) | hfail
    · exact ⟨.child, ⟨hchild, by simp [missed]⟩, by simp⟩
    · exact ⟨.sigUsr, ⟨⟨hpending, .inr hin⟩, by simp [missed, hin]⟩, by simp⟩
    · simp [hin] at hclose
    · simp [hin] at htest
    · exact absurd ⟨hin, hfail⟩ hfailed
  · exact ⟨.run, ⟨⟨haccept, hin⟩, by simp [missed]⟩, by simp⟩

theorem Inv.accept (h : s.Inv o oldmask) (hpc : s.pc = .accept) : s.failed = false ∧ s.terminal = lines o s.conns := by
  obtain ⟨hchild, hfailed, -⟩ := h.idle (by rw [hpc]; rfl)
  have houtput := h.output
  simp only [Shows, hchild, hfailed, Bool.false_eq_true, if_false] at houtput
  exact ⟨hfailed, houtput⟩

theorem quiet_ends (o : ServOpts) (oldmask : Bool) : (quiet o oldmask).Ends (Returned o) := by
  refine (waitLoop o oldmask).ends (work o.program.length) ?_ ?_
  · intro s a hr ha hquiet
    exact work_next (inv_reachable hr) ha hquiet
  · intro s hr hdue hstop
    exact exists_enabled hdue (fun hpc => hstop (.inl ⟨hpc, (inv_reachable hr).accept hpc⟩))
      fun hfail => hstop (.inr hfail)

theorem conns_next_le {a : ServAct} : s.conns ≤ (s.next o oldmask a).conns := by
  obtain ⟨pc, conns, child, failed, terminal, pending, sigflag, blocked⟩ := s
  cases a with
  | connect | childFails => exact le_refl _
  | child =>
    cases child with
    | none => exact le_refl _
    | some steps => cases steps <;> exact le_refl _
  | sigUsr => cases pc <;> exact le_refl _
  | run => cases pc <;> simp [next, run]

theorem careful_of_blocked (hr : (system o oldmask).Reachable s) (hmask : s.conns ≤ 1 ∨ oldmask = true) :
    (careful o oldmask).Reachable s := by
  revert hmask
  refine invariant (P := fun s => s.conns ≤ 1 ∨ oldmask = true → (careful o oldmask).Reachable s) ?_ ?_ hr
  · exact fun s hs _ => reachable_init hs
  · rintro s s' hr ih ⟨a, ha, rfl⟩ hmask
    have hold : s.conns ≤ 1 ∨ oldmask = true := hmask.imp_left conns_next_le.trans
    refine (ih hold).action ⟨ha, ?_⟩
    rintro ⟨rfl, hpc⟩
    have hblocked : s.blocked = true := by
      rw [(inv_reachable hr).mask, hpc]
      simpa [mask, or_comm] using hold
    rcases ha.2 with hopen | hin
    · exact absurd (hopen.symm.trans hblocked) (by decide)
    · rw [hpc] at hin
      cases hin

theorem child_runs (steps : List ChildStep) {s : Servopen} (hchild : s.child = some steps) :
    Relation.ReflTransGen (system o oldmask).step s
      { s with child := none, pending := true, terminal := s.terminal ++ printed steps s.conns } := by
  induction steps generalizing s with
  | nil =>
    refine .single ⟨.child, by simp [enabled, hchild], ?_⟩
    simp [next, childRun, hchild, printed]
  | cons step steps ih =>
    refine .head ⟨.child, by simp [enabled, hchild], rfl⟩ ?_
    have hnext : s.next o oldmask .child =
        { s with child := some steps, terminal := s.terminal ++ printed [step] s.conns } := by
      simp [next, childRun, hchild]
    rw [hnext]
    have hrun := ih (s := { s with child := some steps, terminal := s.terminal ++ printed [step] s.conns }) rfl
    have hprinted : printed (step :: steps) s.conns = printed [step] s.conns ++ printed steps s.conns :=
      printed_append [step] steps s.conns
    rw [hprinted, ← List.append_assoc]
    exact hrun

theorem exists_hangs (hr : (system o false).Reachable s) (hpc : s.pc = .accept) (hconns : 0 < s.conns) :
    ∃ s', Relation.ReflTransGen (system o false).step s s' ∧ s'.conns = s.conns + 1 ∧ s'.failed = false ∧ s'.Hangs := by
  have h := inv_reachable hr
  obtain ⟨hchild, hfailed, hpending, hflag⟩ := h.idle (by rw [hpc]; rfl)
  have hopen : s.blocked = false := by
    rw [h.mask, hpc, mask, Bool.false_or, decide_eq_false_iff_not]
    omega
  obtain ⟨pc, conns, child, failed, terminal, pending, sigflag, blocked⟩ := s
  subst hpc hchild hopen hfailed hpending hflag
  have hfork : Relation.ReflTransGen (system o false).step
      ⟨.accept, conns, none, false, terminal, false, false, false⟩ _ :=
    steps_of_enables [.connect, .run, .run, .run] (by simp [Enables, enabled, next, run])
  have htold : Relation.ReflTransGen (system o false).step
      ⟨.suspend, conns + 1, some o.program, false, terminal, false, false, false⟩ _ := child_runs o.program rfl
  refine ⟨_, (hfork.trans htold).tail ⟨.sigUsr, ⟨rfl, .inl rfl⟩, rfl⟩, rfl, rfl, ?_⟩
  exact hangs_iff.mpr ⟨rfl, rfl, rfl, by simp [next, sigUsr]⟩

/-- **The output of the children is in the order of the connections.** The parent does not call `accept` again before
the child of the last connection has written all of its lines, so that the lines of two children never mix; without
`verbose` there are none. In the runs without the race below, the parent comes back to `accept` from every state, or
waits for ever for a child that has failed, whose message then is the last one. -/
theorem servopen_terminal (o : ServOpts) (oldmask : Bool) :
    (∀ s : Servopen, (system o oldmask).Reachable s → s.Shows o ∧
      (s.pc = .accept → s.failed = false ∧ s.terminal = lines o s.conns)) ∧
    (quiet o oldmask).Ends (Returned o) :=
  ⟨fun _ hr => ⟨(inv_reachable hr).output, (inv_reachable hr).accept⟩, quiet_ends o oldmask⟩

/-- **The race of `WAIT_CHILD`.** The parent of a child that has not failed hangs exactly when the handler has run
between its test of `sigflag` and `sigsuspend`; and it hangs for ever, as does that of a child that has failed. For the
first connection the handler cannot run there, nor when the mask from before `TELL_WAIT` has the signal blocked. When it
has not, every later connection can be the one that hangs. -/
theorem waitChild_race (o : ServOpts) :
    (∀ oldmask, ∀ s : Servopen, (system o oldmask).Reachable s →
      (s.Hangs ↔ s.failed = true ∨ ¬ (careful o oldmask).Reachable s) ∧
      (s.Hangs → ∀ s', Relation.ReflTransGen (system o oldmask).step s s' → s'.Hangs) ∧
      (s.conns ≤ 1 ∨ oldmask = true → s.Hangs → s.failed = true)) ∧
    ∀ s : Servopen, (system o false).Reachable s → s.pc = .accept → 0 < s.conns →
      ∃ s', Relation.ReflTransGen (system o false).step s s' ∧ s'.conns = s.conns + 1 ∧
        s'.failed = false ∧ s'.Hangs := by
  refine ⟨fun oldmask s hr => ?_, fun s hr => exists_hangs hr⟩
  have hiff := hangs_iff_missed hr
  refine ⟨hiff, fun hhangs s' => hangs_forever hr hhangs, fun hmask hhangs => ?_⟩
  exact (hiff.mp hhangs).resolve_right (not_not.mpr (careful_of_blocked hr hmask))

end Servopen

end UnixNetProg.Sock
