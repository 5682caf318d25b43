import UnixNetProg.Rtt.DgSendRecv

/-!
# Where `sig_alrm` jumps to

`alarm` is called before `sigsetjmp`. On the first transmission of a call `jmpbuf` is then still empty
or left over from an earlier call; on a retransmission it is that of this call. `JmpInv` says so for
every point of the function, and that the timer runs only from `alarm` to `alarm(0)`.
-/

namespace UnixNetProg.Rtt

open Lib

/-- Between `sendagain` and `sigsetjmp`. -/
def BeforeSetjmp (pc : Pc) : Prop := pc = .sendagain ∨ pc = .sent ∨ pc = .armed

/-- Between `sigsetjmp` and the return. -/
def AfterSetjmp (pc : Pc) : Prop := pc = .receiving ∨ pc = .accepted ∨ pc = .stopping

structure JmpInv (s : State) : Prop where
  timer : s.alarm ≠ 0 → s.pc = .armed ∨ s.pc = .receiving ∨ s.pc = .accepted
  old : ∀ c, s.jmpbuf = some c → c ≤ s.ncalls
  before : BeforeSetjmp s.pc → (s.jmpbuf = some s.ncalls ↔ s.rttinfo.rttNrexmt ≠ 0)
  after : AfterSetjmp s.pc → s.jmpbuf = some s.ncalls

variable {s : State}

theorem jmpInv_start : JmpInv start := ⟨nofun, nofun, nofun, nofun⟩

theorem JmpInv.not_alarm (h : JmpInv s) (hpc : s.pc = .idle ∨ s.pc = .sendagain ∨ s.pc = .stopping) :
    ¬ s.alarm ≠ 0 := by
  intro hne
  have htimer := h.timer hne
  rcases hpc with hpc | hpc | hpc <;> rw [hpc] at htimer <;> simp at htimer

theorem jmpInv_startCall (h : JmpInv s) (hpc : s.pc = .idle) (outbuff : List Byte)
    (inbuff : Memory Byte) (inbytes : ℕ) (now : TimeOfDay) :
    JmpInv (startCall s outbuff inbuff inbytes now) := by
  refine ⟨fun hne => absurd hne (h.not_alarm (.inl hpc)), fun c hc => ?_, fun _ => ⟨fun hc => ?_, fun hne => ?_⟩,
    nofun⟩
  · exact Nat.le_succ_of_le (h.old c hc)
  · have hle := h.old _ hc
    simp only [startCall] at hle
    omega
  · exact absurd rfl hne

theorem jmpInv_recvmsg (h : JmpInv s) (hpc : s.pc = .receiving) (dgram : Dgram) :
    JmpInv (recvmsg s dgram) := by
  refine ⟨fun _ => .inr (recvmsg_pc s dgram), h.old, fun hbefore => ?_, fun _ => h.after (.inl hpc)⟩
  rcases recvmsg_pc s dgram with hpc' | hpc' <;> rw [hpc'] at hbefore <;> simp [BeforeSetjmp] at hbefore

theorem jmpInv_timeout (h : JmpInv s) (halarm : s.alarm = 0) (hsafe : s.jmpbuf = some s.ncalls) :
    JmpInv (timeout s) := by
  unfold timeout
  dsimp only
  split_ifs with hgiveUp
  · exact ⟨fun hne => absurd halarm hne, h.old, nofun, nofun⟩
  · exact ⟨fun hne => absurd halarm hne, h.old, fun _ => ⟨fun _ => Nat.succ_ne_zero _, fun _ => hsafe⟩,
      nofun⟩

theorem jmpInv_sigalrm (h : JmpInv s) : JmpInv (sigalrm s) := by
  unfold sigalrm
  split_ifs with hsafe
  · exact jmpInv_timeout ⟨fun hne => absurd rfl hne, h.old, h.before, h.after⟩ rfl hsafe.2
  · exact ⟨fun hne => absurd rfl hne, h.old, nofun, nofun⟩

theorem jmpInv_next {a : Action} (h : JmpInv s) (ha : Enabled s a) : JmpInv (next s a) := by
  cases a with
  | call outbuff inbuff inbytes now => exact jmpInv_startCall h ha outbuff inbuff inbytes now
  | sendmsg now =>
    exact ⟨fun hne => absurd hne (h.not_alarm (.inr (.inl ha))), h.old, fun _ => h.before (.inl ha), nofun⟩
  | alarm => exact ⟨fun _ => .inl rfl, h.old, fun _ => h.before (.inr (.inl ha)), nofun⟩
  | sigsetjmp =>
    refine ⟨fun _ => .inr (.inl rfl), fun c hc => ?_, nofun, fun _ => rfl⟩
    exact (Option.some.inj hc).ge
  | recvmsg dgram => exact jmpInv_recvmsg h ha.1 dgram
  | alarmOff => exact ⟨fun hne => absurd rfl hne, h.old, nofun, fun _ => h.after (.inr (.inl ha))⟩
  | stop now => exact ⟨fun hne => absurd hne (h.not_alarm (.inr (.inr ha))), h.old, nofun, nofun⟩
  | sigalrm => exact jmpInv_sigalrm h
  | echo dgram => exact ⟨h.timer, h.old, h.before, h.after⟩

theorem jmpInv_reachable (h : dgSendRecv.Reachable s) : JmpInv s := by
  refine TransitionSystem.invariant ?_ ?_ h
  · rintro s rfl
    exact jmpInv_start
  · rintro s s' - hinv ⟨a, ha, rfl⟩
    exact jmpInv_next hinv ha

/-- Between `alarm` and `sigsetjmp` on the first transmission of a call. -/
def FirstWindow (s : State) : Prop := s.pc = .armed ∧ s.rttinfo.rttNrexmt = 0

/-- The runs in which no `SIGALRM` arrives between `alarm` and `sigsetjmp` on the first transmission of a
call. -/
def dgSendRecvLate : TransitionSystem State :=
  .ofActions (· = start) (fun s a => Enabled s a ∧ (a = .sigalrm → ¬ FirstWindow s)) next

theorem JmpInv.jumpSafe_iff (h : JmpInv s) (halarm : s.alarm ≠ 0) : JumpSafe s ↔ ¬ FirstWindow s := by
  unfold JumpSafe FirstWindow
  rcases h.timer halarm with hpc | hpc | hpc
  · have hbefore := h.before (.inr (.inr hpc))
    rw [hbefore, hpc]
    simp
  · have hafter := h.after (.inl hpc)
    rw [hafter, hpc]
    simp
  · have hafter := h.after (.inr (.inl hpc))
    rw [hafter, hpc]
    simp

theorem sigalrm_pc_ne_wild (hsafe : JumpSafe s) : (sigalrm s).pc ≠ .wild := by
  rw [sigalrm, if_pos hsafe, timeout]
  dsimp only
  split_ifs <;> simp

theorem next_pc_ne_wild {a : Action} (h : JmpInv s) (hpc : s.pc ≠ .wild) (ha : Enabled s a)
    (hlate : a = .sigalrm → ¬ FirstWindow s) : (next s a).pc ≠ .wild := by
  cases a with
  | sigalrm => exact sigalrm_pc_ne_wild ((h.jumpSafe_iff ha).mpr (hlate rfl))
  | recvmsg dgram =>
    intro hwild
    rcases recvmsg_pc s dgram with hpc' | hpc' <;> exact nomatch hpc'.symm.trans hwild
  | echo dgram => exact hpc
  | _ => exact nofun

theorem late_pc_ne_wild (h : dgSendRecvLate.Reachable s) : s.pc ≠ .wild := by
  refine TransitionSystem.invariant (P := fun s => s.pc ≠ .wild) ?_ ?_ h
  · rintro s rfl
    exact nofun
  · rintro s s' hr hpc ⟨a, ⟨ha, hlate⟩, rfl⟩
    have hr' : dgSendRecv.Reachable s := hr.mono fun _ _ => And.left
    exact next_pc_ne_wild (jmpInv_reachable hr') hpc ha hlate

theorem next_pc_eq_wild {a : Action} (h : JmpInv s) (hpc : s.pc = .wild) (ha : Enabled s a) :
    (next s a).pc = .wild := by
  cases a with
  | echo dgram => exact hpc
  | sigalrm =>
    have htimer := h.timer ha
    rw [hpc] at htimer
    simp at htimer
  | recvmsg dgram => exact nomatch hpc.symm.trans ha.1
  | _ => exact nomatch hpc.symm.trans ha

/-- A run that has made safe jumps only got each `SIGALRM` late. -/
theorem late_of_pc_ne_wild (h : dgSendRecv.Reachable s) (hpc : s.pc ≠ .wild) : dgSendRecvLate.Reachable s := by
  refine TransitionSystem.invariant (P := fun s => s.pc ≠ .wild → dgSendRecvLate.Reachable s) ?_ ?_ h hpc
  · intro s hs _
    exact TransitionSystem.reachable_init hs
  · rintro s s' hr ih ⟨a, ha, rfl⟩ hpc'
    have hinv := jmpInv_reachable hr
    have hpc : s.pc ≠ .wild := fun hw => hpc' (next_pc_eq_wild hinv hw ha)
    refine (ih hpc).step ⟨a, ⟨ha, ?_⟩, rfl⟩
    rintro rfl hwindow
    have hunsafe : ¬ JumpSafe s := fun hsafe => (hinv.jumpSafe_iff ha).mp hsafe hwindow
    exact hpc' (congrArg State.pc (if_neg hunsafe))

/-- **Jump safety.** In every reachable state in which `SIGALRM` may arrive, `sig_alrm` jumps through a
`jmpbuf` of the active call exactly when it is not between `alarm` and `sigsetjmp` on the first
transmission; and the runs that make safe jumps only are those in which it never arrives there. -/
theorem sigalrm_jumpSafe_iff (h : dgSendRecv.Reachable s) :
    (Enabled s .sigalrm → (JumpSafe s ↔ ¬ FirstWindow s)) ∧
    (s.pc ≠ .wild ↔ dgSendRecvLate.Reachable s) :=
  ⟨(jmpInv_reachable h).jumpSafe_iff, late_of_pc_ne_wild h, late_pc_ne_wild⟩

/-! A sample run: the first call, for a request of one byte at time 0. -/

def sampleTime : TimeOfDay := ⟨⟨0, 0⟩, by decide, by decide⟩

/-- After `alarm`, before `sigsetjmp`. -/
def sampleArmed : State :=
  next (next (next start (.call [120] (fun _ => 0) 16 sampleTime)) (.sendmsg sampleTime)) .alarm

theorem sampleArmed_reachable : dgSendRecv.Reachable sampleArmed := by
  have h0 : dgSendRecv.Reachable start := TransitionSystem.reachable_init rfl
  have h1 := reachable_next h0 (.call [120] (fun _ => 0) 16 sampleTime) rfl
  have h2 := reachable_next h1 (.sendmsg sampleTime) rfl
  exact reachable_next h2 .alarm rfl

theorem rttStart_rttInit (ptr : RttInfo) (now : TimeOfDay) :
    rttStart (rttNewpack (rttInit ptr now)) = 3 := by
  have hrto : rttMinmax (rttRtocalc 0 (3 / 4)) = 3 := by
    norm_num [rttMinmax, rttRtocalc, RTT_RXTMIN, RTT_RXTMAX]
  show toInt (rttMinmax (rttRtocalc 0 (3 / 4)) + 1 / 2) = 3
  rw [hrto, toInt, if_neg (by norm_num), Int.floor_eq_iff]
  norm_num

theorem sampleArmed_alarm : sampleArmed.alarm ≠ 0 := by
  have h : sampleArmed.alarm = 3 := rttStart_rttInit _ sampleTime
  rw [h]
  decide

/-- `SIGALRM` before the first `sigsetjmp` jumps through a `jmpbuf` that was never filled. -/
theorem sigalrm_jump_unfilled :
    ¬ ∀ s, dgSendRecv.Reachable s → Enabled s .sigalrm → JumpSafe s := by
  intro h
  have hsafe := h sampleArmed sampleArmed_reachable sampleArmed_alarm
  exact nomatch hsafe.2

/-- After `sigsetjmp` the jump is safe. -/
theorem sigalrm_jumpSafe_sample : JumpSafe (next sampleArmed .sigsetjmp) := by
  have hr := reachable_next sampleArmed_reachable .sigsetjmp rfl
  exact ((sigalrm_jumpSafe_iff hr).1 sampleArmed_alarm).mpr fun h => nomatch h.1

end UnixNetProg.Rtt
