import Mathlib.Tactic.Linarith
import UnixNetProg.Rtt.Jump

/-!
# The limits of the retransmission timer

The calls of `lib/rtt.c` in the order in which `dg_send_recv` makes them, as a system of its own: a request
(`rtt_init` when the timer is not initialized, `rtt_newpack`, `rtt_start`), a timeout (`rtt_timeout`, and
`rtt_start` if it does not give up), and a response (`rtt_stop`, for any measured time). Every run of
`dg_send_recv` is a run of it (`dgSendRecv_follows`).

`rtt_init` and `rtt_stop` keep `rtt_rto` between `RTT_RXTMIN` and `RTT_RXTMAX` with `rtt_minmax`;
`rtt_timeout` doubles it and does not.
-/

namespace UnixNetProg.Rtt

open Lib

/-- The timer between two calls; `alarms` holds the values passed to `alarm`. -/
structure Timer where
  rttinfo : RttInfo
  rttinit : Bool
  waiting : Bool
  alarms : List ℤ
  deriving DecidableEq

inductive TimerAct where
  | request (now : TimeOfDay)
  | timeout
  | stop (ms : BitVec 32)
  deriving DecidableEq

/-- `alarm(rtt_start(&rttinfo))`. -/
def sendagain (t : Timer) : Timer := { t with waiting := true, alarms := t.alarms ++ [rttStart t.rttinfo] }

def timerNext (t : Timer) : TimerAct → Timer
  | .request now =>
    sendagain { t with
      rttinfo := rttNewpack (if t.rttinit then t.rttinfo else rttInit t.rttinfo now)
      rttinit := true }
  | .timeout =>
    let rc := rttTimeout t.rttinfo
    if rc.2 then { t with rttinfo := rc.1, rttinit := false, waiting := false }
    else sendagain { t with rttinfo := rc.1 }
  | .stop ms => { t with rttinfo := rttStop t.rttinfo ms, waiting := false }

def TimerEnabled (t : Timer) : TimerAct → Prop
  | .request _ => t.waiting = false
  | .timeout | .stop _ => t.waiting = true

instance (t : Timer) : (a : TimerAct) → Decidable (TimerEnabled t a)
  | .request _ => inferInstanceAs (Decidable (t.waiting = false))
  | .timeout | .stop _ => inferInstanceAs (Decidable (t.waiting = true))

def timerStart : Timer := ⟨⟨0, 0, 0, 0, 0, 0⟩, false, false, []⟩

def timers : TransitionSystem Timer := .ofActions (· = timerStart) TimerEnabled timerNext

/-! ### The client's timer -/

/-- The timer of a state of the client: after `sendagain` it has already been set. -/
structure Follows (s : State) (t : Timer) : Prop where
  rttinfo : t.rttinfo = s.rttinfo
  rttinit : t.rttinit = s.rttinit
  idle : s.pc = .idle → t.waiting = false
  waiting : s.pc ≠ .idle → t.waiting = true ∧ rttStart s.rttinfo ∈ t.alarms
  alarm : s.alarm ≠ 0 → s.alarm ∈ t.alarms

section Client

variable {s s' : State} {t : Timer}

theorem Follows.keep (h : Follows s t) (hinfo : s'.rttinfo = s.rttinfo) (hinit : s'.rttinit = s.rttinit)
    (hpc : s.pc ≠ .idle) (hpc' : s'.pc ≠ .idle) (halarm : s'.alarm ≠ 0 → s'.alarm ∈ t.alarms) : Follows s' t where
  rttinfo := h.rttinfo.trans hinfo.symm
  rttinit := h.rttinit.trans hinit.symm
  idle hidle := absurd hidle hpc'
  waiting _ := by
    rw [hinfo]
    exact h.waiting hpc
  alarm := halarm

theorem follows_startCall (h : Follows s t) (hjmp : JmpInv s) (hpc : s.pc = .idle) (outbuff : List Byte)
    (inbuff : Memory Byte) (inbytes : ℕ) (now : TimeOfDay) :
    Follows (startCall s outbuff inbuff inbytes now) (timerNext t (.request now)) := by
  refine ⟨?_, rfl, nofun, fun _ => ⟨rfl, ?_⟩, fun hne => absurd hne (hjmp.not_alarm (.inl hpc))⟩
  · simp only [timerNext, sendagain, startCall, h.rttinfo, h.rttinit]
  · simp only [timerNext, sendagain, startCall, h.rttinfo, h.rttinit]
    exact List.mem_append_right _ List.mem_cons_self

theorem follows_timeout (h : Follows s t) (halarm : s.alarm = 0) :
    Follows (timeout s) (timerNext t .timeout) := by
  simp only [timeout, timerNext, h.rttinfo]
  by_cases hgiveUp : (rttTimeout s.rttinfo).2 = true
  · rw [if_pos hgiveUp, if_pos hgiveUp]
    exact ⟨rfl, rfl, fun _ => rfl, fun hpc => absurd rfl hpc, fun hne => absurd halarm hne⟩
  · rw [if_neg hgiveUp, if_neg hgiveUp]
    exact ⟨rfl, h.rttinit, fun hpc => (by cases hpc), fun _ => ⟨rfl, List.mem_append_right _ List.mem_cons_self⟩,
      fun hne => absurd halarm hne⟩

theorem follows_next {a : Action} (h : Follows s t) (hjmp : JmpInv s) (ha : Enabled s a)
    (hpc' : (next s a).pc ≠ .wild) :
    ∃ t', (t' = t ∨ ∃ act, TimerEnabled t act ∧ t' = timerNext t act) ∧ Follows (next s a) t' := by
  cases a with
  | call outbuff inbuff inbytes now =>
    exact ⟨_, .inr ⟨.request now, h.idle ha, rfl⟩, follows_startCall h hjmp ha outbuff inbuff inbytes now⟩
  | sendmsg now =>
    have hne : s.pc ≠ .idle := fun hidle => nomatch hidle.symm.trans ha
    exact ⟨t, .inl rfl, h.keep rfl rfl hne nofun h.alarm⟩
  | alarm =>
    have hne : s.pc ≠ .idle := fun hidle => nomatch hidle.symm.trans ha
    exact ⟨t, .inl rfl, h.keep rfl rfl hne nofun fun _ => (h.waiting hne).2⟩
  | sigsetjmp =>
    have hne : s.pc ≠ .idle := fun hidle => nomatch hidle.symm.trans ha
    exact ⟨t, .inl rfl, h.keep rfl rfl hne nofun h.alarm⟩
  | recvmsg dgram =>
    have hne : s.pc ≠ .idle := fun hidle => nomatch hidle.symm.trans ha.1
    refine ⟨t, .inl rfl, h.keep rfl rfl hne ?_ h.alarm⟩
    rcases recvmsg_pc s dgram with hres | hres
    · exact fun hidle => nomatch hidle.symm.trans hres
    · exact fun hidle => nomatch hidle.symm.trans hres
  | alarmOff =>
    have hne : s.pc ≠ .idle := fun hidle => nomatch hidle.symm.trans ha
    exact ⟨t, .inl rfl, h.keep rfl rfl hne nofun fun hzero => absurd rfl hzero⟩
  | stop now =>
    have hne : s.pc ≠ .idle := fun hidle => nomatch hidle.symm.trans ha
    refine ⟨_, .inr ⟨.stop (rttTs s.rttinfo now - s.recvhdr.ts), (h.waiting hne).1, rfl⟩, ?_⟩
    refine ⟨?_, h.rttinit, fun _ => rfl, fun hbusy => absurd rfl hbusy, h.alarm⟩
    simp only [timerNext, next, stop, h.rttinfo]
  | sigalrm =>
    -- a jump that is not safe leads out of the model
    by_cases hsafe : JumpSafe s
    · have hoff : Follows { s with alarm := 0 } t :=
        ⟨h.rttinfo, h.rttinit, h.idle, h.waiting, fun hne => absurd rfl hne⟩
      refine ⟨_, .inr ⟨.timeout, (h.waiting hsafe.1).1, rfl⟩, ?_⟩
      show Follows (sigalrm s) _
      rw [sigalrm, if_pos hsafe]
      exact follows_timeout hoff rfl
    · exact absurd (congrArg State.pc (if_neg hsafe)) hpc'
  | echo dgram => exact ⟨t, .inl rfl, ⟨h.rttinfo, h.rttinit, h.idle, h.waiting, h.alarm⟩⟩

/-- **The timer system covers the client**: until a jump that is not safe, the values that `dg_send_recv`
passes to `alarm` are those of a run of it. -/
theorem dgSendRecv_follows (h : dgSendRecv.Reachable s) (hpc : s.pc ≠ .wild) :
    ∃ t, timers.Reachable t ∧ Follows s t := by
  refine TransitionSystem.invariant (P := fun s => s.pc ≠ .wild → ∃ t, timers.Reachable t ∧ Follows s t)
    ?_ ?_ h hpc
  · rintro s rfl -
    refine ⟨timerStart, TransitionSystem.reachable_init rfl, rfl, rfl, fun _ => rfl, ?_, ?_⟩
    · exact fun hne => absurd rfl hne
    · exact fun hne => absurd rfl hne
  · rintro s s' hr ih ⟨a, ha, rfl⟩ hpc'
    have hjmp := jmpInv_reachable hr
    have hpc : s.pc ≠ .wild := fun hwild => hpc' (next_pc_eq_wild hjmp hwild ha)
    obtain ⟨t, ht, hfollows⟩ := ih hpc
    obtain ⟨t', ht' | ⟨act, hact, ht'⟩, hfollows'⟩ := follows_next hfollows hjmp ha hpc'
    · exact ⟨t', ht' ▸ ht, hfollows'⟩
    · exact ⟨t', ht' ▸ ht.action hact, hfollows'⟩

end Client

/-! ### Limits -/

/-- A value for `alarm` between the limits. -/
def InLimits (v : ℤ) : Prop := RTT_RXTMIN ≤ v ∧ (v : ℚ) ≤ RTT_RXTMAX

/-- A timeout that retransmits comes while doubling keeps the rounded value within the limit. -/
def Below (t : Timer) : TimerAct → Prop
  | .timeout => t.rttinfo.rttNrexmt < RTT_MAXNREXMT → t.rttinfo.rttRto < 121 / 4
  | _ => True

/-- So it is at every step of the run. -/
def AllBelow : Timer → List TimerAct → Prop
  | _, [] => True
  | t, a :: acts => Below t a ∧ AllBelow (timerNext t a) acts

/-- `rtt_minmax` has been called since the last request, or the value has only been doubled. -/
structure TimerInv (t : Timer) : Prop where
  low : t.waiting = true ∨ t.rttinit = true → RTT_RXTMIN ≤ t.rttinfo.rttRto
  high : t.waiting = false → t.rttinit = true → t.rttinfo.rttRto ≤ RTT_RXTMAX

theorem rttMinmax_bounds (rto : ℚ) : RTT_RXTMIN ≤ rttMinmax rto ∧ rttMinmax rto ≤ RTT_RXTMAX := by
  have hle : RTT_RXTMIN ≤ RTT_RXTMAX := by norm_num [RTT_RXTMIN, RTT_RXTMAX]
  unfold rttMinmax
  split_ifs with hlow hhigh
  · exact ⟨le_refl _, hle⟩
  · exact ⟨hle, le_refl _⟩
  · exact ⟨not_lt.mp hlow, not_lt.mp hhigh⟩

theorem request_bounds {t : Timer} (h : TimerInv t) (hwait : t.waiting = false) (now : TimeOfDay) :
    RTT_RXTMIN ≤ (timerNext t (.request now)).rttinfo.rttRto ∧
      (timerNext t (.request now)).rttinfo.rttRto ≤ RTT_RXTMAX := by
  show RTT_RXTMIN ≤ (if t.rttinit then t.rttinfo else rttInit t.rttinfo now).rttRto ∧
    (if t.rttinit then t.rttinfo else rttInit t.rttinfo now).rttRto ≤ RTT_RXTMAX
  by_cases hinit : t.rttinit = true
  · rw [if_pos hinit]
    exact ⟨h.low (.inr hinit), h.high hwait hinit⟩
  · rw [if_neg hinit]
    exact rttMinmax_bounds _

theorem timerNext_timeout (t : Timer) :
    timerNext t .timeout =
      if t.rttinfo.rttNrexmt < RTT_MAXNREXMT then sendagain { t with rttinfo := (rttTimeout t.rttinfo).1 }
      else { t with rttinfo := (rttTimeout t.rttinfo).1, rttinit := false, waiting := false } := by
  by_cases hmore : t.rttinfo.rttNrexmt < RTT_MAXNREXMT
  · have hrc : (rttTimeout t.rttinfo).2 = false := decide_eq_false (by omega)
    simp only [timerNext, hrc, if_pos hmore]
    rfl
  · have hrc : (rttTimeout t.rttinfo).2 = true := decide_eq_true (by omega)
    simp only [timerNext, hrc, if_neg hmore]
    rfl

theorem timerInv_next {t : Timer} {a : TimerAct} (h : TimerInv t) (ha : TimerEnabled t a) :
    TimerInv (timerNext t a) := by
  cases a with
  | request now => exact ⟨fun _ => (request_bounds h ha now).1, nofun⟩
  | timeout =>
    have hlow : RTT_RXTMIN ≤ t.rttinfo.rttRto * 2 := by
      have hrto := h.low (.inl ha)
      unfold RTT_RXTMIN at hrto ⊢
      linarith
    rw [timerNext_timeout]
    split_ifs
    · exact ⟨fun _ => hlow, nofun⟩
    · exact ⟨nofun, nofun⟩
  | stop ms => exact ⟨fun _ => (rttMinmax_bounds _).1, fun _ _ => (rttMinmax_bounds _).2⟩

theorem inLimits_rttStart_iff {ptr : RttInfo} (hlow : RTT_RXTMIN ≤ ptr.rttRto) :
    InLimits (rttStart ptr) ↔ ptr.rttRto < 121 / 2 := by
  unfold RTT_RXTMIN at hlow
  have hfloor : rttStart ptr = ⌊ptr.rttRto + 1 / 2⌋ := if_neg (by linarith)
  have hmin : RTT_RXTMIN ≤ (⌊ptr.rttRto + 1 / 2⌋ : ℤ) := by
    have hle : (2 : ℤ) ≤ ⌊ptr.rttRto + 1 / 2⌋ := Int.le_floor.mpr (by push_cast; linarith)
    unfold RTT_RXTMIN
    exact_mod_cast hle
  have hmax : (⌊ptr.rttRto + 1 / 2⌋ : ℤ) ≤ RTT_RXTMAX ↔ ⌊ptr.rttRto + 1 / 2⌋ < 61 := by
    unfold RTT_RXTMAX
    rw [show (60 : ℚ) = ((60 : ℤ) : ℚ) by norm_num, Int.cast_le, ← Int.lt_add_one_iff]
    rfl
  rw [InLimits, hfloor, hmax, Int.floor_lt]
  constructor
  · intro hlt
    have hlt' : ptr.rttRto + 1 / 2 < 61 := by exact_mod_cast hlt.2
    linarith
  · intro hlt
    refine ⟨hmin, ?_⟩
    push_cast
    linarith

/-- One step adds a value within the limits, or none, just when it meets the condition. -/
theorem alarms_next_iff {t : Timer} {a : TimerAct} (h : TimerInv t) (ha : TimerEnabled t a) :
    (∀ v ∈ (timerNext t a).alarms, InLimits v) ↔ (∀ v ∈ t.alarms, InLimits v) ∧ Below t a := by
  cases a with
  | request now =>
    obtain ⟨hlow, hhigh⟩ := request_bounds h ha now
    have hin : InLimits (rttStart (timerNext t (.request now)).rttinfo) := by
      rw [inLimits_rttStart_iff hlow]
      unfold RTT_RXTMAX at hhigh
      linarith
    have halarms : (timerNext t (.request now)).alarms =
        t.alarms ++ [rttStart (timerNext t (.request now)).rttinfo] := rfl
    rw [halarms, List.forall_mem_append, List.forall_mem_singleton]
    exact ⟨fun hall => ⟨hall.1, trivial⟩, fun hall => ⟨hall.1, hin⟩⟩
  | timeout =>
    have hrto := h.low (.inl ha)
    rw [timerNext_timeout, Below]
    by_cases hmore : t.rttinfo.rttNrexmt < RTT_MAXNREXMT
    · have hdouble : InLimits (rttStart (rttTimeout t.rttinfo).1) ↔ t.rttinfo.rttRto < 121 / 4 := by
        have htwice : (rttTimeout t.rttinfo).1.rttRto = t.rttinfo.rttRto * 2 := rfl
        have hlow : RTT_RXTMIN ≤ (rttTimeout t.rttinfo).1.rttRto := by
          rw [htwice]
          unfold RTT_RXTMIN at hrto ⊢
          linarith
        rw [inLimits_rttStart_iff hlow, htwice]
        constructor <;> intro hlt <;> linarith
      rw [if_pos hmore]
      simp only [sendagain, List.forall_mem_append, List.forall_mem_singleton, hdouble]
      exact ⟨fun hall => ⟨hall.1, fun _ => hall.2⟩, fun hall => ⟨hall.1, hall.2 hmore⟩⟩
    · rw [if_neg hmore]
      exact ⟨fun hall => ⟨hall, fun hlt => absurd hlt hmore⟩, fun hall => hall.1⟩
  | stop ms => exact ⟨fun hall => ⟨hall, trivial⟩, fun hall => hall.1⟩

theorem alarms_run_iff {t : Timer} {acts : List TimerAct} (h : TimerInv t)
    (hacts : TransitionSystem.Enables TimerEnabled timerNext t acts) :
    (∀ v ∈ (acts.foldl timerNext t).alarms, InLimits v) ↔ (∀ v ∈ t.alarms, InLimits v) ∧ AllBelow t acts := by
  induction acts generalizing t with
  | nil => exact ⟨fun hall => ⟨hall, trivial⟩, fun hall => hall.1⟩
  | cons a acts ih =>
    obtain ⟨ha, hrest⟩ := hacts
    rw [List.foldl_cons, ih (timerInv_next h ha) hrest, alarms_next_iff h ha]
    exact and_assoc

/-- **When the timer stays in its limits.** In every run of the calls, over any number of requests and with
any measured times, all the values passed to `alarm` lie between `RTT_RXTMIN` and `RTT_RXTMAX` exactly when no
retransmission was made while `rtt_rto` was 30.25 seconds or more. -/
theorem alarms_inLimits_iff {acts : List TimerAct}
    (hacts : TransitionSystem.Enables TimerEnabled timerNext timerStart acts) :
    (∀ v ∈ (acts.foldl timerNext timerStart).alarms, InLimits v) ↔ AllBelow timerStart acts := by
  have hinv : TimerInv timerStart := ⟨by simp [timerStart], nofun⟩
  rw [alarms_run_iff hinv hacts]
  exact and_iff_right nofun

/-- One retransmission, and a response after a tenth of a second. -/
def quickRun : List TimerAct := [.request sampleTime, .timeout, .stop 100]

theorem alarms_inLimits_sample :
    (quickRun.foldl timerNext timerStart).alarms = [3, 6] ∧
    ∀ v ∈ (quickRun.foldl timerNext timerStart).alarms, InLimits v := by
  refine ⟨by decide +kernel, (alarms_inLimits_iff (by decide)).mpr ⟨trivial, fun _ => ?_, trivial, trivial⟩⟩
  decide +kernel

/-- A response that took 100 seconds, and a timeout of the next request. -/
def slowRun : List TimerAct := [.request sampleTime, .stop 100000, .request sampleTime, .timeout]

theorem alarms_exceed_limit :
    (slowRun.foldl timerNext timerStart).alarms = [3, 60, 120] ∧
    ¬ ∀ acts, TransitionSystem.Enables TimerEnabled timerNext timerStart acts →
      ∀ v ∈ (acts.foldl timerNext timerStart).alarms, InLimits v := by
  have halarms : (slowRun.foldl timerNext timerStart).alarms = [3, 60, 120] := by decide +kernel
  refine ⟨halarms, fun hall => ?_⟩
  have hlast := hall slowRun (by decide) 120 (by rw [halarms]; decide)
  have hmax : ((120 : ℤ) : ℚ) ≤ RTT_RXTMAX := hlast.2
  norm_num [RTT_RXTMAX] at hmax

end UnixNetProg.Rtt
