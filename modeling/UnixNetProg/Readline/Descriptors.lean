import Mathlib.Logic.Function.Basic
import UnixNetProg.Lib.Transition
import UnixNetProg.Readline.Readline

/-!
# `readline` on several descriptors

`nonblock/tcpservselect03.c` calls `Readline` on whichever client is ready. All these calls share the
one static buffer, so the bytes that a call on one descriptor leaves in hand are handed out by the next
call, whatever its descriptor. A run keeps the descriptors apart as long as each call finds the buffer
empty or filled from its own descriptor (`OwnBuffer`).
-/

namespace UnixNetProg.Readline

open Lib

/-- The static buffer and the open descriptors. No call looks at `owner`, the descriptor that the
buffer was last filled from, or at `got`, the bytes of the lines returned for each descriptor. -/
structure FdState where
  buf : ReadBuf
  desc : ℕ → Source Byte
  owner : Option ℕ
  got : ℕ → List Byte
  quit : Bool

/-- A call of `Readline`. -/
structure FdCall where
  fd : ℕ
  maxlen : ℕ

/-- What `readline` does in a call. -/
def FdState.run (s : FdState) (call : FdCall) : Line × ReadBuf × Source Byte :=
  readline call.maxlen (s.buf, s.desc call.fd)

/-- `Readline`: an error ends the process. -/
def fdNext (s : FdState) (call : FdCall) : FdState :=
  let res := s.run call
  { buf := res.2.1
    desc := Function.update s.desc call.fd res.2.2
    owner := if res.2.2.rest = (s.desc call.fd).rest then s.owner else some call.fd
    got := if res.1.ret = -1 then s.got else Function.update s.got call.fd (s.got call.fd ++ res.1.bytes)
    quit := decide (res.1.ret = -1) }

def fdStart (desc : ℕ → Source Byte) : FdState := ⟨.zero, desc, none, fun _ => [], false⟩

/-- Any calls on any descriptors. -/
def readlineCalls (desc : ℕ → Source Byte) : TransitionSystem FdState :=
  .ofActions (· = fdStart desc) (fun s _ => s.quit = false) fdNext

/-- A call that asks for a byte finds the buffer empty or filled from its own descriptor. -/
def OwnBuffer (s : FdState) (call : FdCall) : Prop :=
  1 < call.maxlen → 0 < s.buf.cnt → s.owner = some call.fd

instance (s : FdState) (call : FdCall) : Decidable (OwnBuffer s call) :=
  inferInstanceAs (Decidable (_ → _ → _))

/-- The runs in which each call does. -/
def readlineCallsOwn (desc : ℕ → Source Byte) : TransitionSystem FdState :=
  .ofActions (· = fdStart desc) (fun s call => s.quit = false ∧ OwnBuffer s call) fdNext

/-! ### The invariant -/

/-- What the buffer holds for a descriptor. -/
def FdState.inHand (s : FdState) (fd : ℕ) : List Byte := if s.owner = some fd then s.buf.inHand else []

structure FdInv (desc : ℕ → Source Byte) (s : FdState) : Prop where
  begins : ∀ fd, s.got fd <+: (desc fd).rest
  split : s.quit = false → ∀ fd, s.got fd ++ (s.inHand fd ++ (s.desc fd).rest) = (desc fd).rest
  owned : s.quit = false → 0 < s.buf.cnt → s.owner ≠ none

variable {desc : ℕ → Source Byte} {s : FdState} {call : FdCall}

theorem fdInv_start (desc : ℕ → Source Byte) : FdInv desc (fdStart desc) := by
  refine ⟨fun fd => List.nil_prefix, fun _ fd => rfl, fun _ h => ?_⟩
  exact absurd h (show ¬ (0 : ℤ) < 0 by decide)

/-- The buffer holds bytes of `fd` and of no other descriptor. -/
def BelongsTo (s : FdState) (fd : ℕ) : Prop :=
  s.inHand fd = s.buf.inHand ∧ ∀ fd' ≠ fd, s.inHand fd' = []

theorem belongsTo_of_owner {fd : ℕ} (h : s.owner = some fd) : BelongsTo s fd := by
  refine ⟨if_pos h, fun fd' hne => if_neg ?_⟩
  rw [h]
  intro heq
  exact hne (Option.some.inj heq).symm

theorem belongsTo_of_nil (h : s.buf.inHand = []) (fd : ℕ) : BelongsTo s fd := by
  have hnil : ∀ fd', s.inHand fd' = [] := by
    intro fd'
    rw [FdState.inHand, h, ite_self]
  exact ⟨(hnil fd).trans h.symm, fun fd' _ => hnil fd'⟩

theorem belongsTo_of_own (hown : OwnBuffer s call) (hmax : 1 < call.maxlen) : BelongsTo s call.fd := by
  by_cases hcnt : 0 < s.buf.cnt
  · exact belongsTo_of_owner (hown hmax hcnt)
  · exact belongsTo_of_nil (inHand_of_cnt_le (by omega)) call.fd

theorem run_of_maxlen_le (h : call.maxlen ≤ 1) : s.run call = (⟨1, [0]⟩, s.buf, s.desc call.fd) := by
  have hzero : call.maxlen - 1 = 0 := by omega
  rw [FdState.run, readline, readlineWith, hzero]
  rfl

theorem run_takes (hret : (s.run call).1.ret ≠ -1) :
    s.buf.inHand ++ (s.desc call.fd).rest =
      (s.run call).1.bytes ++ ((s.run call).2.1.inHand ++ (s.run call).2.2.rest) :=
  readlineWith_takes myRead_takes call.maxlen (s.buf, s.desc call.fd) hret

/-- Either the call has read from its descriptor, or what it leaves in hand was there before. -/
theorem owner_next (hret : (s.run call).1.ret ≠ -1) :
    (fdNext s call).owner = some call.fd ∨
      (fdNext s call).owner = s.owner ∧ s.buf.inHand = (s.run call).1.bytes ++ (s.run call).2.1.inHand := by
  by_cases hrest : (s.run call).2.2.rest = (s.desc call.fd).rest
  · have htakes := run_takes hret
    rw [hrest, ← List.append_assoc, List.append_left_inj] at htakes
    exact .inr ⟨if_pos hrest, htakes⟩
  · exact .inl (if_neg hrest)

theorem belongsTo_next (hown : OwnBuffer s call) (hmax : 1 < call.maxlen)
    (hret : (s.run call).1.ret ≠ -1) : BelongsTo (fdNext s call) call.fd := by
  rcases owner_next hret with howner | ⟨howner, hhand⟩
  · exact belongsTo_of_owner howner
  · by_cases hcnt : 0 < s.buf.cnt
    · exact belongsTo_of_owner (howner.trans (hown hmax hcnt))
    · rw [inHand_of_cnt_le (b := s.buf) (by omega)] at hhand
      exact belongsTo_of_nil (List.append_eq_nil_iff.mp hhand.symm).2 call.fd

theorem owned_next (h : 0 < s.buf.cnt → s.owner ≠ none) (hret : (s.run call).1.ret ≠ -1)
    (hcnt : 0 < (s.run call).2.1.cnt) : (fdNext s call).owner ≠ none := by
  rcases owner_next hret with howner | ⟨howner, hhand⟩
  · rw [howner]
    exact Option.some_ne_none _
  · rw [howner]
    apply h
    by_contra hle
    rw [inHand_of_cnt_le (b := s.buf) (by omega)] at hhand
    have hnil := (List.append_eq_nil_iff.mp hhand.symm).2
    rw [inHand_eq_nil_iff] at hnil
    omega

theorem fdInv_next (h : FdInv desc s) (hq : s.quit = false) (hown : OwnBuffer s call) :
    FdInv desc (fdNext s call) := by
  by_cases hret : (s.run call).1.ret = -1
  · -- the process ends
    have hquit : (fdNext s call).quit = true := decide_eq_true hret
    have hgot : (fdNext s call).got = s.got := if_pos hret
    refine ⟨fun fd => ?_, fun hq' => ?_, fun hq' => ?_⟩
    · rw [hgot]
      exact h.begins fd
    · exact nomatch hquit.symm.trans hq'
    · exact nomatch hquit.symm.trans hq'
  · have hgot : (fdNext s call).got = Function.update s.got call.fd (s.got call.fd ++ (s.run call).1.bytes) :=
      if_neg hret
    have hdesc : (fdNext s call).desc = Function.update s.desc call.fd (s.run call).2.2 := rfl
    have hsplit : ∀ fd, (fdNext s call).got fd ++
        ((fdNext s call).inHand fd ++ ((fdNext s call).desc fd).rest) = (desc fd).rest := by
      intro fd
      rw [hgot, hdesc, ← h.split hq fd]
      by_cases hmax : 1 < call.maxlen
      · obtain ⟨hhand, hother⟩ := belongsTo_of_own hown hmax
        obtain ⟨hhand', hother'⟩ := belongsTo_next hown hmax hret
        by_cases hfd : fd = call.fd
        · rw [hfd, Function.update_self, Function.update_self, hhand, hhand', List.append_assoc, run_takes hret]
          rfl
        · rw [Function.update_of_ne hfd, Function.update_of_ne hfd, hother fd hfd, hother' fd hfd]
      · have hrun : s.run call = (⟨1, [0]⟩, s.buf, s.desc call.fd) := run_of_maxlen_le (by omega)
        have hhand : (fdNext s call).inHand fd = s.inHand fd := by
          rw [FdState.inHand, FdState.inHand, fdNext, hrun]
          simp
        rw [hhand, hrun, Function.update_eq_self]
        by_cases hfd : fd = call.fd
        · rw [hfd, Function.update_self, Line.bytes, List.dropLast_singleton, List.append_nil]
        · rw [Function.update_of_ne hfd]
    refine ⟨fun fd => ⟨_, hsplit fd⟩, fun _ => hsplit, fun _ => owned_next (h.owned hq) hret⟩

theorem fdInv_reachable (h : (readlineCallsOwn desc).Reachable s) : FdInv desc s := by
  refine TransitionSystem.invariant ?_ ?_ h
  · intro s hs
    rw [hs]
    exact fdInv_start desc
  · intro s s' _ hinv hstep
    obtain ⟨call, ⟨hq, hown⟩, rfl⟩ := hstep
    exact fdInv_next hinv hq hown

theorem run_foreign (h : FdInv desc s) (hq : s.quit = false) (hown : ¬ OwnBuffer s call)
    (hret : (s.run call).1.ret ≠ -1) :
    ∃ fd ≠ call.fd, ∃ c bytes, (s.run call).1.bytes = c :: bytes ∧ s.got fd ++ [c] <+: (desc fd).rest := by
  unfold OwnBuffer at hown
  push Not at hown
  obtain ⟨hmax, hcnt, hne⟩ := hown
  obtain ⟨fd, howner⟩ := Option.ne_none_iff_exists'.mp (h.owned hq hcnt)
  obtain ⟨c, hand, hhand⟩ : ∃ c hand, s.buf.inHand = c :: hand := by
    apply List.exists_cons_of_ne_nil
    rw [Ne, inHand_eq_nil_iff]
    omega
  have hget : ∃ b, myRead (s.buf, s.desc call.fd) = (.byte c, b) := by
    have hbyte : (myRead (s.buf, s.desc call.fd)).1 = .byte c := by
      rw [(myRead_inHand _ _).1, hhand]
      rfl
    exact ⟨_, Prod.ext hbyte rfl⟩
  obtain ⟨b, hget⟩ := hget
  obtain ⟨bytes, hbytes⟩ := readlineWith_head myRead_takes hmax hget hret
  refine ⟨fd, ?_, c, bytes, hbytes, ?_⟩
  · intro heq
    exact hne (howner.trans (congrArg some heq))
  · have hsplit := h.split hq fd
    rw [(belongsTo_of_owner howner).1, hhand] at hsplit
    refine ⟨hand ++ (s.desc fd).rest, ?_⟩
    rw [List.append_assoc]
    exact hsplit

/-- **When `readline` keeps descriptors apart.** In every run in which each call finds the buffer empty or
filled from its own descriptor, the lines returned for a descriptor are the beginning of its stream. The
next call that does not find it so, and does not fail, hands out a byte of another descriptor. -/
theorem readline_keeps_apart (h : (readlineCallsOwn desc).Reachable s) :
    (∀ fd, s.got fd <+: (desc fd).rest) ∧
    ∀ call, s.quit = false → ¬ OwnBuffer s call → (s.run call).1.ret ≠ -1 →
      ∃ fd ≠ call.fd, ∃ c bytes, (s.run call).1.bytes = c :: bytes ∧ s.got fd ++ [c] <+: (desc fd).rest :=
  ⟨(fdInv_reachable h).begins, fun _ => run_foreign (fdInv_reachable h)⟩

/-- Two clients; the first has sent two lines. -/
def sampleDesc (plan : List Grant) (fd : ℕ) : Source Byte :=
  if fd = 3 then ⟨[97, 10, 98, 10], plan⟩ else ⟨[99, 10], []⟩

/-- Read line by line, the clients stay apart. -/
theorem readline_keeps_apart_sample :
    let s := fdNext (fdNext (fdStart (sampleDesc [.upTo 1])) ⟨3, 16⟩) ⟨4, 16⟩
    (s.got 3 = [97, 10] ∧ s.got 4 = [99, 10]) ∧ ∀ fd, s.got fd <+: (sampleDesc [.upTo 1] fd).rest := by
  intro s
  have h₀ : (readlineCallsOwn (sampleDesc [.upTo 1])).Reachable (fdStart (sampleDesc [.upTo 1])) :=
    TransitionSystem.reachable_init rfl
  have h₁ : (readlineCallsOwn (sampleDesc [.upTo 1])).Reachable
      (fdNext (fdStart (sampleDesc [.upTo 1])) ⟨3, 16⟩) :=
    h₀.step ⟨⟨3, 16⟩, by decide, rfl⟩
  have h₂ : (readlineCallsOwn (sampleDesc [.upTo 1])).Reachable s := h₁.step ⟨⟨4, 16⟩, by decide, rfl⟩
  exact ⟨by decide, (readline_keeps_apart h₂).1⟩

/-- Both lines of the first client arrive together, and the second client gets the second of them. -/
theorem readline_mixes : ¬ ∀ desc s, (readlineCalls desc).Reachable s →
    ∀ fd, s.got fd <+: (desc fd).rest := by
  intro h
  have h₀ : (readlineCalls (sampleDesc [])).Reachable (fdStart (sampleDesc [])) :=
    TransitionSystem.reachable_init rfl
  have h₁ := h₀.action (a := (⟨3, 16⟩ : FdCall)) rfl
  have h₂ := h₁.action (a := (⟨4, 16⟩ : FdCall)) (by decide)
  have hprefix := h _ _ h₂ 4
  revert hprefix
  decide

end UnixNetProg.Readline
