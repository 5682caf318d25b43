import UnixNetProg.Lib.Monitor
import UnixNetProg.Lib.Ring
import UnixNetProg.Lib.Transition

/-!
# The bounded buffer (`threads/example03.c`)

A producer makes any number of calls `produce(v)` and a consumer any number of calls `consume()`. A step
is one operation on the mutex or a condition variable, one test of a `while`, or the code between the loop
and the signal, which runs with the mutex locked. Each thread sleeps on a condition variable of its own,
so both are named by a `Role`.

No step looks at `produced` and `consumed`, the values that were stored and fetched.
-/

namespace UnixNetProg.Threads

open Lib

def BUFFSIZE : ℕ := 10

/-- The two threads; `b_cond_producer` and `b_cond_consumer`. -/
inductive Role where
  | producer
  | consumer
  deriving DecidableEq, Repr

def Role.other : Role → Role
  | .producer => .consumer
  | .consumer => .producer

/-- Where a thread is in `produce` or `consume`: not in it, before `Pthread_mutex_lock`, at the test of the
`while`, in `Pthread_cond_wait`, behind the loop, before `Pthread_cond_signal`, before
`Pthread_mutex_unlock`. -/
inductive CallPc where
  | idle
  | locking
  | test
  | waiting
  | act
  | signal
  | unlock
  deriving DecidableEq, Repr

def CallPc.inside : CallPc → Bool
  | .test | .act | .signal | .unlock => true
  | .idle | .locking | .waiting => false

/-- The data of `struct buf_t`. -/
structure Buf where
  buf : ℕ → ℤ
  nitems : ℤ
  nextget : ℕ
  nextput : ℕ

structure BufState where
  b : Buf
  mon : Monitor Role Role
  pc : Role → CallPc
  val : ℤ
  produced : List ℤ
  consumed : List ℤ

/-- The buffer is full for the producer, or empty for the consumer. -/
def Buf.MustWait (b : Buf) : Role → Prop
  | .producer => BUFFSIZE ≤ b.nitems
  | .consumer => b.nitems ≤ 0

instance (b : Buf) : ∀ r, Decidable (b.MustWait r)
  | .producer | .consumer => inferInstanceAs (Decidable (_ ≤ _))

/-- Store the new value. -/
def Buf.store (b : Buf) (val : ℤ) : Buf :=
  { b with
    buf := Function.update b.buf b.nextput val
    nextput := wrapSucc BUFFSIZE b.nextput
    nitems := b.nitems + 1 }

/-- The value at `b_nextget` was fetched. -/
def Buf.fetched (b : Buf) : Buf :=
  { b with nextget := wrapSucc BUFFSIZE b.nextget, nitems := b.nitems - 1 }

def BufState.goto (s : BufState) (r : Role) (pc : CallPc) : BufState :=
  { s with pc := Function.update s.pc r pc }

/-- `produce` and `consume` between the loop and the signal. -/
def act (s : BufState) : Role → BufState
  | .producer => { s with b := s.b.store s.val, produced := s.produced ++ [s.val] }
  | .consumer => { s with b := s.b.fetched, consumed := s.consumed ++ [s.b.buf s.b.nextget] }

/-- `while (..) Pthread_cond_wait(..)`: wait, or leave the loop. -/
def testWait (s : BufState) (r : Role) : BufState :=
  if s.b.MustWait r then { s with mon := s.mon.wait r r }.goto r .waiting else s.goto r .act

/-- A call with its argument, the next operation of a thread, a signal with the threads that it wakes, and
a wakeup without a signal. -/
inductive BufAction where
  | call (r : Role) (val : ℤ)
  | step (r : Role)
  | signal (r : Role) (woken : Finset Role)
  | wakeup (r : Role)

def stepNext (s : BufState) (r : Role) : BufState :=
  match s.pc r with
  | .locking | .waiting => { s with mon := s.mon.lock r }.goto r .test
  | .test => testWait s r
  | .act => (act s r).goto r .signal
  | .unlock => { s with mon := s.mon.unlock }.goto r .idle
  | .idle | .signal => s

/-- The argument of `produce`; `consume` has none. -/
def argument (s : BufState) (val : ℤ) : Role → ℤ
  | .producer => val
  | .consumer => s.val

def bufNext (s : BufState) : BufAction → BufState
  | .call r val => { s with val := argument s val r }.goto r .locking
  | .step r => stepNext s r
  | .signal r woken => { s with mon := s.mon.wake r.other woken }.goto r .unlock
  | .wakeup r => { s with mon := s.mon.wake r {r} }

/-- The operation does not block. -/
def StepEnabled (s : BufState) (r : Role) : CallPc → Prop
  | .locking => s.mon.owner = none
  | .waiting => r ∉ s.mon.asleep r ∧ s.mon.owner = none
  | .test | .act | .unlock => True
  | .idle | .signal => False

instance (s : BufState) (r : Role) : ∀ pc, Decidable (StepEnabled s r pc)
  | .locking => inferInstanceAs (Decidable (_ = none))
  | .waiting => inferInstanceAs (Decidable (_ ∧ _))
  | .test | .act | .unlock => inferInstanceAs (Decidable True)
  | .idle | .signal => inferInstanceAs (Decidable False)

def BufEnabled (s : BufState) : BufAction → Prop
  | .call r _ => s.pc r = .idle
  | .step r => StepEnabled s r (s.pc r)
  | .signal r woken => s.pc r = .signal ∧ s.mon.Signals r.other woken
  | .wakeup _ => True

instance (s : BufState) : ∀ a, Decidable (BufEnabled s a)
  | .call _ _ => inferInstanceAs (Decidable (_ = _))
  | .step r => inferInstanceAs (Decidable (StepEnabled s r (s.pc r)))
  | .signal _ _ => inferInstanceAs (Decidable (_ ∧ _))
  | .wakeup _ => inferInstanceAs (Decidable True)

/-- Static storage is zero. -/
def bufStart : BufState where
  b := ⟨fun _ => 0, 0, 0, 0⟩
  mon := .free
  pc _ := .idle
  val := 0
  produced := []
  consumed := []

def example03 : TransitionSystem BufState := .ofActions (· = bufStart) BufEnabled bufNext

/-! ### The invariant -/

/-- The buffer holds `items`. -/
structure Buf.Holds (b : Buf) (items : List ℤ) : Prop where
  nitems : b.nitems = items.length
  queue : RingQueue BUFFSIZE b.buf b.nextget b.nextput items

/-- `items` were stored and not fetched. A thread that has left its loop need not wait; a thread that is
asleep must wait, or the other thread is about to signal it. -/
structure BufInv (s : BufState) (items : List ℤ) : Prop where
  holds : s.b.Holds items
  fifo : s.produced = s.consumed ++ items
  excludes : s.mon.Excludes fun r => (s.pc r).inside
  ready : ∀ r, s.pc r = .act → ¬ s.b.MustWait r
  sleeper : ∀ r c, r ∈ s.mon.asleep c → r = c ∧ s.pc r = .waiting
  wakeup : ∀ r, r ∈ s.mon.asleep r → s.b.MustWait r ∨ s.pc r.other = .signal

section Queue

variable {b : Buf} {items : List ℤ}

theorem Buf.Holds.store (h : b.Holds items) (hroom : ¬ b.MustWait .producer) (val : ℤ) :
    (b.store val).Holds (items ++ [val]) := by
  have hlt : items.length < BUFFSIZE := by
    have hn := h.nitems
    simp only [Buf.MustWait] at hroom
    omega
  constructor
  · simp [Buf.store, h.nitems]
  · simp only [Buf.store, wrapSucc_eq h.queue.put_lt]
    exact h.queue.push hlt val

theorem Buf.Holds.fetch (h : b.Holds items) (hdata : ¬ b.MustWait .consumer) :
    ∃ rest, items = b.buf b.nextget :: rest ∧ b.fetched.Holds rest := by
  cases items with
  | nil =>
    have hn := h.nitems
    simp [Buf.MustWait, hn] at hdata
  | cons x rest =>
    obtain ⟨hx, hqueue⟩ := h.queue.pop
    have hn := h.nitems
    simp only [List.length_cons] at hn
    refine ⟨rest, by rw [hx], ?_, ?_⟩
    · simp only [Buf.fetched]
      omega
    · simp only [Buf.fetched, wrapSucc_eq h.queue.get_lt]
      exact hqueue

end Queue

section Steps

variable {s : BufState} {items : List ℤ} {r : Role}

theorem eq_other_of_ne {u : Role} (h : u ≠ r) : u = r.other := by
  cases u <;> cases r <;> simp_all [Role.other]

theorem pc_goto (s : BufState) (r u : Role) (pc : CallPc) :
    (s.goto r pc).pc u = if u = r then pc else s.pc u := by
  by_cases hu : u = r
  · simp [BufState.goto, hu]
  · simp [BufState.goto, hu]

theorem bufInv_start : BufInv bufStart [] := by
  refine ⟨⟨rfl, RingQueue.nil (by decide)⟩, rfl, ?_, ?_, ?_, ?_⟩
  · simp [Monitor.Excludes, bufStart, Monitor.free, CallPc.inside]
  · simp [bufStart]
  · simp [bufStart, Monitor.free]
  · simp [bufStart, Monitor.free]

theorem BufInv.awake (h : BufInv s items) (hin : (s.pc r).inside) (c : Role) : r ∉ s.mon.asleep c := by
  intro hmem
  simp [(h.sleeper r c hmem).2, CallPc.inside] at hin

theorem BufInv.move (h : BufInv s items) {s' : BufState} (hpc : ∀ u ≠ r, s'.pc u = s.pc u)
    (hqueue : s'.b = s.b ∧ s'.produced = s.produced ∧ s'.consumed = s.consumed ∨
      (s.pc r).inside ∧ s'.pc r = .signal)
    {items' : List ℤ} (hholds : s'.b.Holds items') (hfifo : s'.produced = s'.consumed ++ items')
    (hexcludes : s'.mon.Excludes fun u => (s'.pc u).inside) (hready : s'.pc r = .act → ¬ s'.b.MustWait r)
    (hasleep : ∀ u c, u ∈ s'.mon.asleep c →
      u ∈ s.mon.asleep c ∧ u ≠ r ∨ u = r ∧ c = r ∧ s'.pc r = .waiting ∧ s'.b.MustWait r)
    (hsignal : s.pc r = .signal → s'.pc r = .signal ∨ r.other ∉ s'.mon.asleep r.other) : BufInv s' items' := by
  refine ⟨hholds, hfifo, hexcludes, fun u hu => ?_, fun u c hu => ?_, fun u hu => ?_⟩
  · by_cases hur : u = r
    · subst hur
      exact hready hu
    · rw [hpc u hur] at hu
      rcases hqueue with ⟨hb, -⟩ | ⟨hin, -⟩
      · rw [hb]
        exact h.ready u hu
      · exact absurd (h.excludes.eq_of_inside (by simp [hu, CallPc.inside]) hin) hur
  · rcases hasleep u c hu with ⟨hmem, hur⟩ | ⟨rfl, rfl, hwait, -⟩
    · obtain ⟨huc, hwait⟩ := h.sleeper u c hmem
      rw [hpc u hur]
      exact ⟨huc, hwait⟩
    · exact ⟨rfl, hwait⟩
  · rcases hasleep u u hu with ⟨hmem, hur⟩ | ⟨rfl, -, -, hmust⟩
    · have hother : u.other = r := by
        rw [eq_other_of_ne hur]
        cases r <;> rfl
      rcases hqueue with ⟨hb, -⟩ | ⟨-, hsig⟩
      · rcases h.wakeup u hmem with hmust | hsig
        · rw [hb]
          exact .inl hmust
        · rw [hother] at hsig ⊢
          refine .inr ((hsignal hsig).resolve_right ?_)
          rw [← eq_other_of_ne hur]
          exact fun hnot => hnot hu
      · rw [hother]
        exact .inr hsig
    · exact .inl hmust

theorem BufInv.moveMon (h : BufInv s items) (mon : Monitor Role Role) (pc : CallPc)
    (hexcludes : mon.Excludes fun u => (Function.update s.pc r pc u).inside)
    (hready : pc = .act → ¬ s.b.MustWait r)
    (hasleep : ∀ u c, u ∈ mon.asleep c →
      u ∈ s.mon.asleep c ∧ u ≠ r ∨ u = r ∧ c = r ∧ pc = .waiting ∧ s.b.MustWait r)
    (hsignal : s.pc r = .signal → pc = .signal ∨ r.other ∉ mon.asleep r.other) :
    BufInv ({ s with mon := mon }.goto r pc) items := by
  have hself : ({ s with mon := mon }.goto r pc).pc r = pc := by simp [pc_goto]
  apply h.move (r := r)
  · intro u hu
    simp [pc_goto, hu]
  · exact .inl ⟨rfl, rfl, rfl⟩
  · exact h.holds
  · exact h.fifo
  · exact hexcludes
  · rw [hself]
    exact hready
  · rw [hself]
    exact hasleep
  · rw [hself]
    exact hsignal

theorem bufInv_call (h : BufInv s items) (hpc : s.pc r = .idle) (val : ℤ) :
    BufInv ({ s with val := argument s val r }.goto r .locking) items := by
  have hval : BufInv { s with val := argument s val r } items :=
    ⟨h.holds, h.fifo, h.excludes, h.ready, h.sleeper, h.wakeup⟩
  apply hval.moveMon s.mon .locking
  · apply h.excludes.stay (t := r) rfl
    · simp [hpc, CallPc.inside]
    · intro u hu
      simp [hu]
  · simp
  · intro u c hu
    refine .inl ⟨hu, ?_⟩
    rintro rfl
    simp [(h.sleeper u c hu).2] at hpc
  · simp [hpc]

theorem bufInv_lock (h : BufInv s items) (hpc : (s.pc r).inside = false) (hawake : r ∉ s.mon.asleep r)
    (hfree : s.mon.owner = none) : BufInv ({ s with mon := s.mon.lock r }.goto r .test) items := by
  apply h.moveMon
  · apply h.excludes.enter (t := r) hfree
    · rfl
    · simp [CallPc.inside]
    · intro u hu
      simp [hu]
  · simp
  · intro u c hu
    refine .inl ⟨hu, ?_⟩
    rintro rfl
    obtain ⟨rfl, -⟩ := h.sleeper u c hu
    exact hawake hu
  · intro hsig
    simp [hsig, CallPc.inside] at hpc

theorem bufInv_test (h : BufInv s items) (hpc : s.pc r = .test) : BufInv (testWait s r) items := by
  have hin : (s.pc r).inside := by simp [hpc, CallPc.inside]
  unfold testWait
  by_cases hmust : s.b.MustWait r
  · rw [if_pos hmust]
    apply h.moveMon
    · apply h.excludes.leave (t := r) hin
      · rfl
      · simp [CallPc.inside]
      · intro u hu
        simp [hu]
    · simp
    · intro u c hu
      rcases Monitor.mem_asleep_wait.mp hu with hmem | ⟨rfl, rfl⟩
      · refine .inl ⟨hmem, ?_⟩
        rintro rfl
        exact h.awake hin c hmem
      · exact .inr ⟨rfl, rfl, rfl, hmust⟩
    · simp [hpc]
  · rw [if_neg hmust]
    apply h.moveMon s.mon .act
    · apply h.excludes.stay (t := r) rfl
      · simp [hpc, CallPc.inside]
      · intro u hu
        simp [hu]
    · exact fun _ => hmust
    · intro u c hu
      refine .inl ⟨hu, ?_⟩
      rintro rfl
      exact h.awake hin c hu
    · simp [hpc]

theorem bufInv_act (h : BufInv s items) (hpc : s.pc r = .act) :
    ∃ items', BufInv ((act s r).goto r .signal) items' := by
  have hin : (s.pc r).inside := by simp [hpc, CallPc.inside]
  have hmon : (act s r).mon = s.mon := by cases r <;> rfl
  have hpcs : (act s r).pc = s.pc := by cases r <;> rfl
  have hqueue : ∃ items', (act s r).b.Holds items' ∧ (act s r).produced = (act s r).consumed ++ items' := by
    have hready := h.ready r hpc
    cases r with
    | producer =>
      refine ⟨items ++ [s.val], h.holds.store hready s.val, ?_⟩
      simp [act, h.fifo]
    | consumer =>
      obtain ⟨rest, hitems, hrest⟩ := h.holds.fetch hready
      refine ⟨rest, hrest, ?_⟩
      simp [act, h.fifo, hitems]
  obtain ⟨items', hholds, hfifo⟩ := hqueue
  refine ⟨items', ?_⟩
  apply h.move (r := r)
  · intro u hu
    simp [pc_goto, hu, hpcs]
  · exact .inr ⟨hin, by simp [pc_goto]⟩
  · exact hholds
  · exact hfifo
  · apply h.excludes.congr (congrArg Monitor.owner hmon)
    intro u
    by_cases hur : u = r
    · simp [pc_goto, hur, hpc, CallPc.inside]
    · simp [pc_goto, hur, hpcs]
  · simp [pc_goto]
  · intro u c hu
    change u ∈ (act s r).mon.asleep c at hu
    rw [hmon] at hu
    refine .inl ⟨hu, ?_⟩
    rintro rfl
    exact h.awake hin c hu
  · simp [hpc]

theorem bufInv_signal (h : BufInv s items) (hpc : s.pc r = .signal) {woken : Finset Role}
    (hwoken : s.mon.Signals r.other woken) :
    BufInv ({ s with mon := s.mon.wake r.other woken }.goto r .unlock) items := by
  have hin : (s.pc r).inside := by simp [hpc, CallPc.inside]
  apply h.moveMon
  · apply h.excludes.stay (t := r) rfl
    · simp [hpc, CallPc.inside]
    · intro u hu
      simp [hu]
  · simp
  · intro u c hu
    have hmem := (Monitor.mem_asleep_wake.mp hu).1
    refine .inl ⟨hmem, ?_⟩
    rintro rfl
    exact h.awake hin c hmem
  · intro _
    refine .inr fun hmem => ?_
    obtain ⟨hasleep, hnot⟩ := Monitor.mem_asleep_wake.mp hmem
    obtain ⟨hsub, hempty⟩ := hwoken
    have hne : woken.Nonempty := by
      rw [Finset.nonempty_iff_ne_empty]
      intro hw
      simp [hempty hw] at hasleep
    obtain ⟨w, hw⟩ := hne
    have hwr : w = r.other := (h.sleeper w r.other (hsub hw)).1
    exact hnot rfl (hwr ▸ hw)

theorem bufInv_unlock (h : BufInv s items) (hpc : s.pc r = .unlock) :
    BufInv ({ s with mon := s.mon.unlock }.goto r .idle) items := by
  have hin : (s.pc r).inside := by simp [hpc, CallPc.inside]
  apply h.moveMon
  · apply h.excludes.leave (t := r) hin
    · rfl
    · simp [CallPc.inside]
    · intro u hu
      simp [hu]
  · simp
  · intro u c hu
    refine .inl ⟨hu, ?_⟩
    rintro rfl
    exact h.awake hin c hu
  · simp [hpc]

theorem bufInv_wakeup (h : BufInv s items) (r : Role) : BufInv { s with mon := s.mon.wake r {r} } items := by
  refine ⟨h.holds, h.fifo, h.excludes.congr rfl fun _ => Iff.rfl, h.ready, fun u c hu => ?_, fun u hu => ?_⟩
  · exact h.sleeper u c (Monitor.mem_asleep_wake.mp hu).1
  · exact h.wakeup u (Monitor.mem_asleep_wake.mp hu).1

theorem bufInv_stepNext (h : BufInv s items) (ha : StepEnabled s r (s.pc r)) :
    ∃ items', BufInv (stepNext s r) items' := by
  unfold stepNext
  cases hpc : s.pc r with
  | idle => exact ⟨items, h⟩
  | locking =>
    rw [hpc] at ha
    refine ⟨items, bufInv_lock h (by simp [hpc, CallPc.inside]) (fun hmem => ?_) ha⟩
    simp [(h.sleeper r r hmem).2] at hpc
  | test => exact ⟨items, bufInv_test h hpc⟩
  | waiting =>
    rw [hpc] at ha
    exact ⟨items, bufInv_lock h (by simp [hpc, CallPc.inside]) ha.1 ha.2⟩
  | act => exact bufInv_act h hpc
  | signal => exact ⟨items, h⟩
  | unlock => exact ⟨items, bufInv_unlock h hpc⟩

theorem bufInv_reachable (h : example03.Reachable s) : ∃ items, BufInv s items := by
  refine TransitionSystem.invariant (P := fun s => ∃ items, BufInv s items) ?_ ?_ h
  · intro s hs
    rw [hs]
    exact ⟨[], bufInv_start⟩
  · intro s s' _ hinv hstep
    obtain ⟨items, hinv⟩ := hinv
    obtain ⟨a, ha, rfl⟩ := hstep
    cases a with
    | call r val => exact ⟨items, bufInv_call hinv ha val⟩
    | step r => exact bufInv_stepNext hinv ha
    | signal r woken => exact ⟨items, bufInv_signal hinv ha.1 ha.2⟩
    | wakeup r => exact ⟨items, bufInv_wakeup hinv r⟩

/-- **The bounded buffer.** Whenever the mutex is free, the count and the indices agree and are in range,
the values that were consumed are a prefix of those produced and the entries from `b_nextget` on hold the
others, and no thread sleeps unsignalled that need not wait. -/
theorem bounded_buffer (h : example03.Reachable s) (hfree : s.mon.owner = none) :
    (0 ≤ s.b.nitems ∧ s.b.nitems ≤ BUFFSIZE) ∧
    (s.b.nextget < BUFFSIZE ∧ s.b.nextput < BUFFSIZE ∧
      (s.b.nextput : ℤ) = (s.b.nextget + s.b.nitems) % BUFFSIZE) ∧
    (∃ rest, s.produced = s.consumed ++ rest ∧ (rest.length : ℤ) = s.b.nitems ∧
      ∀ k val, rest[k]? = some val → s.b.buf ((s.b.nextget + k) % BUFFSIZE) = val) ∧
    ¬ (.consumer ∈ s.mon.asleep .consumer ∧ 0 < s.b.nitems) ∧
    ¬ (.producer ∈ s.mon.asleep .producer ∧ s.b.nitems < BUFFSIZE) := by
  obtain ⟨items, hinv⟩ := bufInv_reachable h
  have hn := hinv.holds.nitems
  have hqueue := hinv.holds.queue
  have hroom := hqueue.room
  have hawake : ∀ r, r ∈ s.mon.asleep r → s.b.MustWait r := by
    intro r hr
    refine (hinv.wakeup r hr).resolve_right fun hsig => ?_
    have hout := hinv.excludes.not_inside (t := r.other) hfree
    simp [hsig, CallPc.inside] at hout
  refine ⟨⟨by omega, by omega⟩, ⟨hqueue.get_lt, hqueue.put_lt, ?_⟩, ⟨items, hinv.fifo, hn.symm, ?_⟩, ?_, ?_⟩
  · rw [hqueue.put_eq, hn]
    simp
  · exact hqueue.holds
  · rintro ⟨hsleep, hpos⟩
    have hmust := hawake .consumer hsleep
    simp only [Buf.MustWait] at hmust
    omega
  · rintro ⟨hsleep, hlt⟩
    have hmust := hawake .producer hsleep
    simp only [Buf.MustWait] at hmust
    omega

end Steps

/-- The consumer comes first and sleeps; the producer stores 7 and signals; the consumer fetches it. -/
def sampleCalls : List BufAction :=
  [.call .consumer 0, .step .consumer, .step .consumer, .call .producer 7, .step .producer, .step .producer,
    .step .producer, .signal .producer {.consumer}, .step .producer, .call .producer 8, .step .producer,
    .step .producer, .step .producer, .signal .producer ∅, .step .producer, .step .consumer, .step .consumer,
    .step .consumer, .signal .consumer ∅, .step .consumer]

theorem bounded_buffer_sample :
    let s := sampleCalls.foldl bufNext bufStart
    (s.mon.owner = none ∧ s.produced = [7, 8] ∧ s.consumed = [7] ∧ s.b.nitems = 1) ∧
    ¬ (.consumer ∈ s.mon.asleep .consumer ∧ 0 < s.b.nitems) := by
  intro s
  have h₀ : example03.Reachable bufStart := TransitionSystem.reachable_init rfl
  have h : example03.Reachable s := h₀.actions (by decide)
  have hfree : s.mon.owner = none := by decide
  exact ⟨by decide, (bounded_buffer h hfree).2.2.2.1⟩

end UnixNetProg.Threads
