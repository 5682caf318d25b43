import Mathlib.Tactic.Linarith
import UnixNetProg.Lib.Monitor
import UnixNetProg.Lib.Transition

/-!
# Two threads and a counter (`threads/example01.c`, `threads/example02.c`)

Each of the two threads fetches, prints and increments the counter `NLOOP` times. A step is one access to the counter,
one operation on the mutex, the `printf`, or the test of the loop. The second program locks the mutex around the three
lines of the loop. `nloop` stands for `NLOOP`.
-/

namespace UnixNetProg.Threads

open Lib TransitionSystem

def NLOOP : ℕ := 5000

/-- `tidA` and `tidB`. -/
inductive Tid where
  | a
  | b
  deriving DecidableEq

/-- The points of `doit`. -/
inductive DoitPc where
  | test
  | lock
  | fetch
  | printf
  | store
  | unlock
  | done
  deriving DecidableEq

/-- Between `Pthread_mutex_lock` and `Pthread_mutex_unlock`. -/
def DoitPc.inside : DoitPc → Bool
  | .fetch | .printf | .store | .unlock => true
  | .test | .lock | .done => false

def DoitPc.rank : DoitPc → ℕ
  | .test => 6
  | .lock => 5
  | .fetch => 4
  | .printf => 3
  | .store => 2
  | .unlock => 1
  | .done => 0

/-- The thread has a value of the counter that it has not stored yet. -/
def DoitPc.fetched : DoitPc → Bool
  | .printf | .store => true
  | .test | .lock | .fetch | .unlock | .done => false

structure Doit where
  pc : DoitPc
  i : ℕ
  val : ℕ

/-- The number of stores of a thread: `unlock` is behind the store of an iteration. -/
def Doit.stores (d : Doit) : ℕ := if d.pc = .unlock then d.i + 1 else d.i

/-- The number of values that are printed and not stored yet. -/
def Doit.ahead (d : Doit) : ℕ := if d.pc = .store then 1 else 0

def Doit.work (nloop : ℕ) (d : Doit) : ℕ := 7 * (nloop - d.i) + d.pc.rank

/-- `printed` are the numbers on the standard output. -/
structure Count where
  counter : ℕ
  counterMutex : Monitor Tid Empty
  thread : Tid → Doit
  printed : List ℕ

namespace Count

def init : Count := ⟨0, .free, fun _ => ⟨.test, 0, 0⟩, []⟩

def set (s : Count) (t : Tid) (d : Doit) : Count := { s with thread := Function.update s.thread t d }

def enabled (s : Count) (t : Tid) : Prop :=
  match (s.thread t).pc with
  | .lock => s.counterMutex.owner = none
  | .done => False
  | _ => True

/-- The next step of a thread whose state is `d`; `mutex` is the program with the mutex. -/
def step (nloop : ℕ) (mutex : Bool) (s : Count) (t : Tid) (d : Doit) : Count :=
  match d.pc with
  | .test => s.set t { d with pc := if d.i < nloop then if mutex then .lock else .fetch else .done }
  | .lock => { s with counterMutex := s.counterMutex.lock t }.set t { d with pc := .fetch }
  | .fetch => s.set t { d with pc := .printf, val := s.counter }
  | .printf => { s with printed := s.printed ++ [d.val + 1] }.set t { d with pc := .store }
  | .store =>
    if mutex then { s with counter := d.val + 1 }.set t { d with pc := .unlock }
    else { s with counter := d.val + 1 }.set t { d with pc := .test, i := d.i + 1 }
  | .unlock => { s with counterMutex := s.counterMutex.unlock }.set t { d with pc := .test, i := d.i + 1 }
  | .done => s

def next (nloop : ℕ) (mutex : Bool) (s : Count) (t : Tid) : Count := s.step nloop mutex t (s.thread t)

def system (nloop : ℕ) (mutex : Bool) : TransitionSystem Count := ofActions (· = init) enabled (next nloop mutex)

def example01 (nloop : ℕ) : TransitionSystem Count := system nloop false

def example02 (nloop : ℕ) : TransitionSystem Count := system nloop true

def sum (f : Doit → ℕ) (s : Count) : ℕ := f (s.thread .a) + f (s.thread .b)

/-- Both threads can be joined. -/
def Joined (s : Count) : Prop := ∀ t, (s.thread t).pc = .done

@[simp] theorem set_counter (s : Count) (t : Tid) (d : Doit) : (s.set t d).counter = s.counter := rfl

@[simp] theorem set_counterMutex (s : Count) (t : Tid) (d : Doit) : (s.set t d).counterMutex = s.counterMutex := rfl

@[simp] theorem set_printed (s : Count) (t : Tid) (d : Doit) : (s.set t d).printed = s.printed := rfl

@[simp] theorem set_thread_self (s : Count) (t : Tid) (d : Doit) : (s.set t d).thread t = d :=
  Function.update_self _ _ _

theorem set_thread_of_ne {s : Count} {t u : Tid} (d : Doit) (h : u ≠ t) : (s.set t d).thread u = s.thread u :=
  Function.update_of_ne h _ _

variable {nloop : ℕ} {mutex : Bool} {s : Count} {t u : Tid}

theorem step_thread_of_ne {d : Doit} (h : u ≠ t) : (s.step nloop mutex t d).thread u = s.thread u := by
  obtain ⟨pc, i, val⟩ := d
  cases pc with
  | store => cases mutex <;> exact set_thread_of_ne _ h
  | done => rfl
  | _ => exact set_thread_of_ne _ h

theorem next_thread_of_ne (h : u ≠ t) : (s.next nloop mutex t).thread u = s.thread u := step_thread_of_ne h

theorem sum_eq {s' : Count} (f : Doit → ℕ) (h : ∀ u ≠ t, s'.thread u = s.thread u) :
    s'.sum f + f (s.thread t) = s.sum f + f (s'.thread t) := by
  unfold sum
  cases t with
  | a =>
    rw [h .b (by decide)]
    omega
  | b =>
    rw [h .a (by decide)]
    omega

theorem sum_set (f : Doit → ℕ) (d : Doit) : (s.set t d).sum f + f (s.thread t) = s.sum f + f d := by
  have hsum := sum_eq (s := s) (t := t) f fun u hu => set_thread_of_ne d hu
  rwa [set_thread_self] at hsum

/-! ### Every run ends -/

/-- The counter of the loop is in its bounds. -/
structure InLoop (nloop : ℕ) (d : Doit) : Prop where
  le : d.i ≤ nloop
  lt : d.pc ≠ .test → d.pc ≠ .done → d.i < nloop
  done : d.pc = .done → d.i = nloop

theorem inLoop_step {d : Doit} (h : InLoop nloop d) (ht : s.thread t = d) :
    InLoop nloop ((s.step nloop mutex t d).thread t) := by
  have hd := h
  obtain ⟨hle, hlt, hdone⟩ := h
  obtain ⟨pc, i, val⟩ := d
  cases pc with
  | test =>
    simp only [step, set_thread_self]
    by_cases hi : i < nloop
    · rw [if_pos hi]
      exact ⟨hle, fun _ _ => hi, by cases mutex <;> simp⟩
    · rw [if_neg hi]
      exact ⟨hle, by simp, fun _ => Nat.le_antisymm hle (Nat.not_lt.mp hi)⟩
  | store =>
    have hi : i < nloop := hlt (by simp) (by simp)
    cases mutex with
    | true => exact set_thread_self .. ▸ ⟨hle, fun _ _ => hi, by simp⟩
    | false => exact set_thread_self .. ▸ ⟨hi, by simp, by simp⟩
  | unlock =>
    have hi : i < nloop := hlt (by simp) (by simp)
    exact set_thread_self .. ▸ ⟨hi, by simp, by simp⟩
  | done =>
    show InLoop nloop (s.thread t)
    rwa [ht]
  | _ =>
    have hi : i < nloop := hlt (by simp) (by simp)
    exact set_thread_self .. ▸ ⟨hle, fun _ _ => hi, by simp⟩

theorem inLoop_reachable (hr : (system nloop mutex).Reachable s) : ∀ t, InLoop nloop (s.thread t) := by
  refine invariant (P := fun s => ∀ t, InLoop nloop (s.thread t)) ?_ ?_ hr
  · rintro s rfl t
    exact ⟨Nat.zero_le _, by simp [init], by simp [init]⟩
  · rintro s s' - h ⟨t, -, rfl⟩ u
    by_cases hu : u = t
    · subst hu
      exact inLoop_step (h u) rfl
    · rw [next_thread_of_ne hu]
      exact h u

theorem work_step {d : Doit} (h : InLoop nloop d) (hpc : d.pc ≠ .done) :
    Doit.work nloop ((s.step nloop mutex t d).thread t) < Doit.work nloop d := by
  obtain ⟨hle, hlt, -⟩ := h
  obtain ⟨pc, i, val⟩ := d
  cases pc with
  | test =>
    simp only [step, set_thread_self, Doit.work]
    split_ifs <;> simp only [DoitPc.rank] <;> omega
  | store =>
    have hi : i < nloop := hlt (by simp) (by simp)
    cases mutex <;>
      simp only [step, Bool.false_eq_true, if_false, if_true, set_thread_self, Doit.work, DoitPc.rank] <;> omega
  | unlock =>
    have hi : i < nloop := hlt (by simp) (by simp)
    simp only [step, set_thread_self, Doit.work, DoitPc.rank]
    omega
  | done => exact absurd rfl hpc
  | _ =>
    simp only [step, set_thread_self, Doit.work, DoitPc.rank]
    omega

def work (nloop : ℕ) (s : Count) : ℕ := s.sum (Doit.work nloop)

theorem work_next (h : ∀ t, InLoop nloop (s.thread t)) (ha : s.enabled t) :
    (s.next nloop mutex t).work nloop < s.work nloop := by
  have hpc : (s.thread t).pc ≠ .done := by
    intro hdone
    rw [enabled, hdone] at ha
    exact ha
  have hdown : Doit.work nloop ((s.next nloop mutex t).thread t) < Doit.work nloop (s.thread t) := work_step (h t) hpc
  have hsum : (s.next nloop mutex t).sum (Doit.work nloop) + _ = _ :=
    sum_eq (t := t) (Doit.work nloop) fun u hu => next_thread_of_ne hu
  unfold work
  omega

theorem ends (hgoes : ∀ s, (system nloop mutex).Reachable s → (∃ t, (s.thread t).pc = .lock) → ∃ t, s.enabled t) :
    (system nloop mutex).Ends Joined := by
  refine Ends.of_measure (work nloop) ?_ ?_
  · rintro s s' hr ⟨t, ha, rfl⟩
    exact work_next (inLoop_reachable hr) ha
  · intro s hr hlast t
    by_contra hpc
    have hsome : ∃ t, s.enabled t := by
      by_cases hlock : (s.thread t).pc = .lock
      · exact hgoes s hr ⟨t, hlock⟩
      · refine ⟨t, ?_⟩
        unfold enabled
        cases h : (s.thread t).pc <;> simp_all
    obtain ⟨u, ha⟩ := hsome
    exact hlast (s.next nloop mutex u) ⟨u, ha, rfl⟩

theorem i_of_joined (hr : (system nloop mutex).Reachable s) (hjoined : s.Joined) (t : Tid) : (s.thread t).i = nloop :=
  (inLoop_reachable hr t).done (hjoined t)

/-! ### Without the mutex -/

def total (s : Count) : ℕ := s.sum Doit.i

/-- What a thread has fetched is at most the number of stores, and not 0 after its first store. -/
structure Fetched (counter total : ℕ) (d : Doit) : Prop where
  plain : d.pc ≠ .lock ∧ d.pc ≠ .unlock
  val_le : d.pc.fetched = true → d.val ≤ total
  pos : 0 < d.i → 0 < counter
  val_pos : d.pc.fetched = true → 0 < d.i → 0 < d.val

theorem Fetched.mono {counter total counter' total' : ℕ} {d : Doit} (h : Fetched counter total d)
    (hcounter : 0 < counter') (htotal : total ≤ total') : Fetched counter' total' d :=
  ⟨h.plain, fun hpc => (h.val_le hpc).trans htotal, fun _ => hcounter, h.val_pos⟩

structure Race (nloop : ℕ) (s : Count) : Prop where
  le : s.counter ≤ s.total
  last : (∀ t, (s.thread t).i = nloop) → 2 ≤ s.counter
  fetched : ∀ t, Fetched s.counter s.total (s.thread t)

theorem race_init (hloop : 2 ≤ nloop) : init.Race nloop := by
  refine ⟨le_refl _, fun hall => ?_, fun t => ?_⟩
  · have hzero : 0 = nloop := hall .a
    omega
  · constructor <;> simp [init, DoitPc.fetched]

theorem Race.set (h : s.Race nloop) {d : Doit} (hi : d.i = (s.thread t).i) (hd : Fetched s.counter s.total d) :
    (s.set t d).Race nloop := by
  have htotal : (s.set t d).total = s.total := by
    have hset := sum_set (s := s) (t := t) Doit.i d
    rw [hi] at hset
    exact Nat.add_right_cancel hset
  have hthread : ∀ u, ((s.set t d).thread u).i = (s.thread u).i := by
    intro u
    by_cases hu : u = t
    · rw [hu, set_thread_self, hi]
    · rw [set_thread_of_ne d hu]
  refine ⟨?_, fun hall => h.last fun u => (hthread u).symm.trans (hall u), fun u => ?_⟩
  · rw [htotal]
    exact h.le
  · rw [htotal]
    by_cases hu : u = t
    · rw [hu, set_thread_self]
      exact hd
    · rw [set_thread_of_ne d hu]
      exact h.fetched u

theorem Race.store (h : s.Race nloop) (hloop : 2 ≤ nloop) (hpc : (s.thread t).pc = .store) :
    ({ s with counter := (s.thread t).val + 1 }.set t
      { s.thread t with pc := .test, i := (s.thread t).i + 1 }).Race nloop := by
  have hd := h.fetched t
  have hfetched : (s.thread t).pc.fetched = true := by rw [hpc, DoitPc.fetched]
  have htotal : ({ s with counter := (s.thread t).val + 1 }.set t
      { s.thread t with pc := .test, i := (s.thread t).i + 1 }).total = s.total + 1 := by
    have hset := sum_set (s := { s with counter := (s.thread t).val + 1 }) (t := t) Doit.i
      { s.thread t with pc := .test, i := (s.thread t).i + 1 }
    have hright : s.sum Doit.i + ((s.thread t).i + 1) = s.sum Doit.i + 1 + (s.thread t).i := by omega
    exact Nat.add_right_cancel (hset.trans hright)
  refine ⟨?_, fun hall => ?_, fun u => ?_⟩
  · rw [htotal]
    exact Nat.succ_le_succ (hd.val_le hfetched)
  · -- The thread has stored before, so that it did not fetch the 0 of the beginning.
    have hlast : (s.thread t).i + 1 = nloop := by
      have hself := hall t
      rwa [set_thread_self] at hself
    have hval := hd.val_pos hfetched (by omega)
    exact Nat.succ_le_succ hval
  · rw [htotal]
    by_cases hu : u = t
    · rw [hu, set_thread_self]
      exact ⟨by simp, by simp [DoitPc.fetched], fun _ => Nat.succ_pos _, by simp [DoitPc.fetched]⟩
    · rw [set_thread_of_ne _ hu]
      exact (h.fetched u).mono (Nat.succ_pos _) (Nat.le_succ _)

theorem race_next (h : s.Race nloop) (hloop : 2 ≤ nloop) : (s.next nloop false t).Race nloop := by
  have hd := h.fetched t
  cases hpc : (s.thread t).pc with
  | lock => exact absurd hpc hd.plain.1
  | unlock => exact absurd hpc hd.plain.2
  | test =>
    have hnext : s.next nloop false t =
        s.set t { s.thread t with pc := if (s.thread t).i < nloop then .fetch else .done } := by
      simp [next, step, hpc]
    rw [hnext]
    refine h.set rfl ⟨?_, ?_, hd.pos, ?_⟩ <;> simp only <;> split_ifs <;> simp [DoitPc.fetched]
  | fetch =>
    have hnext : s.next nloop false t = s.set t { s.thread t with pc := .printf, val := s.counter } := by
      simp [next, step, hpc]
    rw [hnext]
    exact h.set rfl ⟨by simp, fun _ => h.le, hd.pos, fun _ => hd.pos⟩
  | printf =>
    have hnext : s.next nloop false t =
        { s with printed := s.printed ++ [(s.thread t).val + 1] }.set t { s.thread t with pc := .store } := by
      simp [next, step, hpc]
    have hfetched : (s.thread t).pc.fetched = true := by rw [hpc, DoitPc.fetched]
    have hprinted : ({ s with printed := s.printed ++ [(s.thread t).val + 1] } : Count).Race nloop :=
      ⟨h.le, h.last, h.fetched⟩
    rw [hnext]
    exact hprinted.set rfl ⟨by simp, fun _ => hd.val_le hfetched, hd.pos, fun _ => hd.val_pos hfetched⟩
  | store =>
    have hnext : s.next nloop false t = { s with counter := (s.thread t).val + 1 }.set t
        { s.thread t with pc := .test, i := (s.thread t).i + 1 } := by
      simp [next, step, hpc]
    rw [hnext]
    exact h.store hloop hpc
  | done =>
    have hnext : s.next nloop false t = s := by simp [next, step, hpc]
    rw [hnext]
    exact h

theorem race_reachable (hloop : 2 ≤ nloop) (hr : (example01 nloop).Reachable s) : s.Race nloop := by
  refine invariant ?_ ?_ hr
  · rintro s rfl
    exact race_init hloop
  · rintro s s' - h ⟨t, -, rfl⟩
    exact race_next h hloop

/-! ### Runs to every final value -/

/-- A thread has run, and the others have not. -/
structure After (nloop : ℕ) (t : Tid) (s s' : Count) : Prop where
  reachable : (example01 nloop).Reachable s'
  others : ∀ u ≠ t, s'.thread u = s.thread u

theorem After.trans {s₁ s₂ s₃ : Count} (h : After nloop t s₁ s₂) (h' : After nloop t s₂ s₃) : After nloop t s₁ s₃ :=
  ⟨h'.reachable, fun u hu => (h'.others u hu).trans (h.others u hu)⟩

theorem after_next (hr : (example01 nloop).Reachable s) (hpc : (s.thread t).pc ≠ .lock)
    (hdone : (s.thread t).pc ≠ .done) : After nloop t s (s.next nloop false t) := by
  refine ⟨hr.action ?_, fun u hu => step_thread_of_ne hu⟩
  unfold enabled
  cases h : (s.thread t).pc <;> simp_all

theorem exists_fetch (hr : (example01 nloop).Reachable s) (hpc : (s.thread t).pc = .test)
    (hi : (s.thread t).i < nloop) :
    ∃ s', After nloop t s s' ∧ s'.thread t = ⟨.printf, (s.thread t).i, s.counter⟩ ∧ s'.counter = s.counter := by
  have htest : s.next nloop false t = s.set t { s.thread t with pc := .fetch } := by simp [next, step, hpc, hi]
  have h₁ := after_next (t := t) hr (by simp [hpc]) (by simp [hpc])
  rw [htest] at h₁
  have h₂ := after_next (t := t) h₁.reachable (by simp) (by simp)
  exact ⟨_, h₁.trans h₂, by simp [next, step], by simp [next, step]⟩

theorem exists_store {i val : ℕ} (hr : (example01 nloop).Reachable s) (hd : s.thread t = ⟨.printf, i, val⟩) :
    ∃ s', After nloop t s s' ∧ s'.thread t = ⟨.test, i + 1, val⟩ ∧ s'.counter = val + 1 := by
  have hprintf : s.next nloop false t =
      { s with printed := s.printed ++ [val + 1] }.set t ⟨.store, i, val⟩ := by simp [next, step, hd]
  have h₁ := after_next (t := t) hr (by simp [hd]) (by simp [hd])
  rw [hprintf] at h₁
  have h₂ := after_next (t := t) h₁.reachable (by simp) (by simp)
  exact ⟨_, h₁.trans h₂, by simp [next, step], by simp [next, step]⟩

theorem exists_alone (k : ℕ) (hr : (example01 nloop).Reachable s) (hpc : (s.thread t).pc = .test)
    (hi : (s.thread t).i + k ≤ nloop) :
    ∃ s', After nloop t s s' ∧ (s'.thread t).pc = .test ∧ (s'.thread t).i = (s.thread t).i + k ∧
      s'.counter = s.counter + k := by
  induction k with
  | zero => exact ⟨s, ⟨hr, fun _ _ => rfl⟩, hpc, rfl, rfl⟩
  | succ k ih =>
    obtain ⟨s₁, h₁, hpc₁, hi₁, hc₁⟩ := ih (by omega)
    obtain ⟨s₂, h₂, hd₂, hc₂⟩ := exists_fetch h₁.reachable hpc₁ (by omega)
    obtain ⟨s₃, h₃, hd₃, hc₃⟩ := exists_store h₂.reachable hd₂
    refine ⟨s₃, (h₁.trans h₂).trans h₃, by rw [hd₃], ?_, ?_⟩
    · rw [hd₃, hi₁]
      rfl
    · rw [hc₃, hc₁]
      rfl

theorem exists_done (hr : (example01 nloop).Reachable s) (hpc : (s.thread t).pc = .test) (hi : (s.thread t).i = nloop) :
    ∃ s', After nloop t s s' ∧ (s'.thread t).pc = .done ∧ s'.counter = s.counter := by
  have htest : s.next nloop false t = s.set t { s.thread t with pc := .done } := by simp [next, step, hpc, hi]
  have h := after_next (t := t) hr (by simp [hpc]) (by simp [hpc])
  rw [htest] at h
  exact ⟨_, h, by simp, rfl⟩

/-- One thread fetches after `y` iterations of the other and stores after all but the last of them, which fetches `x`
iterations later and stores at the end. -/
theorem exists_final {x y : ℕ} (hx : x < nloop) (hy : y < nloop) :
    ∃ s, (example01 nloop).Reachable s ∧ s.Joined ∧ s.counter = y + x + 2 := by
  have hstart : (example01 nloop).Reachable init := reachable_init rfl
  -- `b` runs alone, then `a` fetches.
  obtain ⟨s₁, h₁, hpc₁, hi₁, hc₁⟩ := exists_alone (t := .b) y hstart rfl (by simp only [init]; omega)
  have ha₁ : s₁.thread .a = ⟨.test, 0, 0⟩ := h₁.others .a (by decide)
  obtain ⟨s₂, h₂, ha₂, hc₂⟩ := exists_fetch (t := .a) h₁.reachable (by rw [ha₁])
    (by rw [ha₁]; show 0 < nloop; omega)
  have hb₂ : s₂.thread .b = s₁.thread .b := h₂.others .b (by decide)
  have hi₂ : (s₂.thread .b).i = y := by rw [hb₂, hi₁, init, Nat.zero_add]
  -- `b` comes to its last iteration, then `a` stores and runs alone.
  obtain ⟨s₃, h₃, hpc₃, hi₃, hc₃⟩ := exists_alone (t := .b) (nloop - 1 - y) h₂.reachable (by rw [hb₂, hpc₁]) (by omega)
  have ha₃ : s₃.thread .a = ⟨.printf, 0, y⟩ := by
    rw [h₃.others .a (by decide), ha₂, ha₁, hc₁, init, Nat.zero_add]
  obtain ⟨s₄, h₄, ha₄, hc₄⟩ := exists_store (t := .a) h₃.reachable ha₃
  have hb₄ : s₄.thread .b = s₃.thread .b := h₄.others .b (by decide)
  obtain ⟨s₅, h₅, hpc₅, hi₅, hc₅⟩ := exists_alone (t := .a) x h₄.reachable (by rw [ha₄])
    (by rw [ha₄]; show 0 + 1 + x ≤ nloop; omega)
  have hb₅ : s₅.thread .b = s₃.thread .b := (h₅.others .b (by decide)).trans hb₄
  -- `b` fetches for the last time, `a` runs to its end, and `b` stores.
  obtain ⟨s₆, h₆, hb₆, hc₆⟩ := exists_fetch (t := .b) h₅.reachable (by rw [hb₅, hpc₃]) (by rw [hb₅]; omega)
  have ha₆ : s₆.thread .a = s₅.thread .a := h₆.others .a (by decide)
  have hi₆ : (s₆.thread .a).i = x + 1 := by rw [ha₆, hi₅, ha₄]; exact Nat.add_comm _ _
  obtain ⟨s₇, h₇, hpc₇, hi₇, hc₇⟩ := exists_alone (t := .a) (nloop - 1 - x) h₆.reachable (by rw [ha₆, hpc₅]) (by omega)
  obtain ⟨s₈, h₈, hdone₈, hc₈⟩ := exists_done (t := .a) h₇.reachable hpc₇ (by omega)
  have hb₈ : s₈.thread .b = s₆.thread .b := (h₈.others .b (by decide)).trans (h₇.others .b (by decide))
  obtain ⟨s₉, h₉, hb₉, hc₉⟩ := exists_store (t := .b) h₈.reachable (hb₈.trans hb₆)
  have hlast : (s₅.thread .b).i + 1 = nloop := by
    rw [hb₅]
    omega
  obtain ⟨s, h, hdone, hc⟩ := exists_done (t := .b) h₉.reachable (by rw [hb₉]) (by rw [hb₉]; exact hlast)
  refine ⟨s, h.reachable, fun t => ?_, ?_⟩
  · cases t with
    | a => rw [h.others .a (by decide), h₉.others .a (by decide), hdone₈]
    | b => exact hdone
  · rw [hc, hc₉, hc₅, hc₄]
    omega

/-- **The values that the counter can have in the end.** Without the mutex every run ends with both threads done, and
the counter can then have every value from 2 to `2 * NLOOP`, and no other. -/
theorem example01_counter (nloop : ℕ) (hloop : 2 ≤ nloop) :
    (example01 nloop).Ends Joined ∧
    ∀ m, (∃ s, (example01 nloop).Reachable s ∧ s.Joined ∧ s.counter = m) ↔ 2 ≤ m ∧ m ≤ 2 * nloop := by
  refine ⟨ends fun s hr ⟨t, hlock⟩ => ?_, fun m => ⟨?_, fun ⟨hlo, hhi⟩ => ?_⟩⟩
  · exact absurd hlock ((race_reachable hloop hr).fetched t).plain.1
  · rintro ⟨s, hr, hjoined, rfl⟩
    have h := race_reachable hloop hr
    have hi := i_of_joined hr hjoined
    have htotal : s.total = 2 * nloop := by rw [total, sum, hi, hi, Nat.two_mul]
    exact ⟨h.last hi, htotal ▸ h.le⟩
  · obtain ⟨s, hr, hjoined, hc⟩ := exists_final (show min (m - 2) (nloop - 1) < nloop by omega)
      (show m - 2 - min (m - 2) (nloop - 1) < nloop by omega)
    exact ⟨s, hr, hjoined, by omega⟩

theorem example01_counter_nloop : 2 ≤ NLOOP ∧ (example01 NLOOP).Ends Joined ∧
    ∀ m, (∃ s, (example01 NLOOP).Reachable s ∧ s.Joined ∧ s.counter = m) ↔ 2 ≤ m ∧ m ≤ 2 * NLOOP :=
  ⟨by decide, example01_counter NLOOP (by decide)⟩

/-! ### With the mutex -/

/-- The owner of the mutex is the one thread between its calls. -/
structure Locked (s : Count) : Prop where
  excludes : s.counterMutex.Excludes fun t => (s.thread t).pc.inside = true
  counter : s.counter = s.sum Doit.stores
  fetched : ∀ t, (s.thread t).pc.fetched = true → (s.thread t).val = s.counter
  printed : s.printed = List.range' 1 (s.counter + s.sum Doit.ahead)

theorem locked_init : init.Locked := by
  refine ⟨fun t => ?_, rfl, fun t ht => ?_, rfl⟩
  · simp [init, DoitPc.inside, Monitor.free]
  · cases ht

theorem Locked.set {s' : Count} (h : s.Locked) {d : Doit} (hothers : ∀ u ≠ t, s'.thread u = s.thread u)
    (hd : s'.thread t = d)
    (hexcludes : s'.counterMutex.Excludes fun t => (s'.thread t).pc.inside = true)
    (hcounter : s'.counter + (s.thread t).stores = s.counter + d.stores)
    (hval : d.pc.fetched = true → d.val = s'.counter)
    (hfetched : s'.counter = s.counter ∨ (s.thread t).pc.inside = true)
    (hprinted : s'.printed = List.range' 1 (s'.counter + s'.sum Doit.ahead)) : s'.Locked := by
  refine ⟨hexcludes, ?_, fun u hu => ?_, hprinted⟩
  · have hsum := sum_eq Doit.stores hothers
    rw [hd, ← h.counter] at hsum
    omega
  · by_cases hut : u = t
    · rw [hut, hd] at hu ⊢
      exact hval hu
    · rw [hothers u hut] at hu ⊢
      rcases hfetched with hsame | hin
      · rw [hsame]
        exact h.fetched u hu
      · have hinu : (s.thread u).pc.inside = true := by
          cases hpc : (s.thread u).pc <;> simp_all [DoitPc.fetched, DoitPc.inside]
        exact absurd (h.excludes.eq_of_inside hinu hin) hut

theorem Locked.sum_ahead (h : s.Locked) (hin : (s.thread t).pc.inside = true) :
    s.sum Doit.ahead = (s.thread t).ahead := by
  have hzero : ∀ u ≠ t, (s.thread u).ahead = 0 := by
    intro u hu
    have hout : (s.thread u).pc.inside ≠ true := fun hinu => hu (h.excludes.eq_of_inside hinu hin)
    rw [Doit.ahead, if_neg]
    intro hstore
    rw [hstore] at hout
    exact hout rfl
  unfold sum
  cases t with
  | a => rw [hzero .b (by decide), Nat.add_zero]
  | b => rw [hzero .a (by decide), Nat.zero_add]

theorem Locked.printed_set (h : s.Locked) {d : Doit} (hahead : d.ahead = (s.thread t).ahead) :
    s.printed = List.range' 1 (s.counter + (s.set t d).sum Doit.ahead) := by
  have hsum := sum_set (s := s) (t := t) Doit.ahead d
  rw [hahead] at hsum
  rw [h.printed, Nat.add_right_cancel hsum]

theorem inside_set {d : Doit} (hu : u ≠ t) :
    ((s.set t d).thread u).pc.inside = true ↔ (s.thread u).pc.inside = true := by
  rw [set_thread_of_ne d hu]

theorem Locked.outside (h : s.Locked) {d : Doit} (hout : (s.thread t).pc.inside = false) (hd : d.pc.inside = false)
    (hi : d.i = (s.thread t).i) : (s.set t d).Locked := by
  have hplain : ∀ {d : Doit}, d.pc.inside = false → d.stores = d.i ∧ d.ahead = 0 ∧ d.pc.fetched = false := by
    intro d hd
    obtain ⟨pc, i, val⟩ := d
    cases pc <;> first | exact ⟨rfl, rfl, rfl⟩ | cases hd
  obtain ⟨hstores, hahead, hfetched⟩ := hplain hd
  obtain ⟨hstores', hahead', -⟩ := hplain hout
  refine h.set (fun u hu => set_thread_of_ne d hu) (set_thread_self _ _ _) ?_ ?_ ?_ (.inl rfl)
    (h.printed_set (hahead.trans hahead'.symm))
  · refine h.excludes.stay rfl ?_ fun u hu => inside_set hu
    rw [set_thread_self, hd, hout]
  · rw [set_counter, hstores, hstores', hi]
  · intro htrue
    exact absurd (hfetched.symm.trans htrue) (by decide)

theorem locked_lock (h : s.Locked) (hpc : (s.thread t).pc = .lock) (hfree : s.counterMutex.owner = none) :
    ({ s with counterMutex := s.counterMutex.lock t }.set t { s.thread t with pc := .fetch }).Locked := by
  refine h.set (fun u hu => set_thread_of_ne _ hu) (set_thread_self _ _ _) ?_ ?_ ?_ (.inl rfl) ?_
  · refine h.excludes.enter hfree rfl ?_ fun u hu => inside_set hu
    rw [set_thread_self, DoitPc.inside]
  · simp [Doit.stores, hpc]
  · simp [DoitPc.fetched]
  · exact h.printed_set (by simp [Doit.ahead, hpc])

theorem locked_fetch (h : s.Locked) (hpc : (s.thread t).pc = .fetch) :
    (s.set t { s.thread t with pc := .printf, val := s.counter }).Locked := by
  refine h.set (fun u hu => set_thread_of_ne _ hu) (set_thread_self _ _ _) ?_ ?_ (fun _ => rfl) (.inl rfl)
    (h.printed_set (by simp [Doit.ahead, hpc]))
  · refine h.excludes.stay rfl ?_ fun u hu => inside_set hu
    rw [set_thread_self, hpc, DoitPc.inside, DoitPc.inside]
  · simp [Doit.stores, hpc]

theorem locked_printf (h : s.Locked) (hpc : (s.thread t).pc = .printf) :
    ({ s with printed := s.printed ++ [(s.thread t).val + 1] }.set t { s.thread t with pc := .store }).Locked := by
  have hval : (s.thread t).val = s.counter := h.fetched t (by rw [hpc, DoitPc.fetched])
  refine h.set (fun u hu => set_thread_of_ne _ hu) (set_thread_self _ _ _) ?_ ?_ (fun _ => hval) (.inl rfl) ?_
  · refine h.excludes.stay rfl ?_ fun u hu => inside_set hu
    rw [set_thread_self, hpc, DoitPc.inside, DoitPc.inside]
  · simp [Doit.stores, hpc]
  · have hzero : s.sum Doit.ahead = 0 := by
      rw [h.sum_ahead (t := t) (by rw [hpc, DoitPc.inside]), Doit.ahead, hpc]
      rfl
    have hsum := sum_set (s := s) (t := t) Doit.ahead { s.thread t with pc := .store }
    have hone : (s.set t { s.thread t with pc := .store }).sum Doit.ahead = 1 := by
      simp [Doit.ahead, hpc, hzero] at hsum
      exact hsum
    show s.printed ++ [(s.thread t).val + 1] =
      List.range' 1 (s.counter + (s.set t { s.thread t with pc := .store }).sum Doit.ahead)
    rw [hone, h.printed, hzero, Nat.add_zero, hval, List.range'_concat]
    simp [Nat.add_comm]

theorem locked_store (h : s.Locked) (hpc : (s.thread t).pc = .store) :
    ({ s with counter := (s.thread t).val + 1 }.set t { s.thread t with pc := .unlock }).Locked := by
  have hval : (s.thread t).val = s.counter := h.fetched t (by rw [hpc, DoitPc.fetched])
  have hin : (s.thread t).pc.inside = true := by rw [hpc, DoitPc.inside]
  refine h.set (fun u hu => set_thread_of_ne _ hu) (set_thread_self _ _ _) ?_ ?_ (by simp [DoitPc.fetched])
    (.inr hin) ?_
  · refine h.excludes.stay rfl ?_ fun u hu => inside_set hu
    rw [set_thread_self, hpc, DoitPc.inside, DoitPc.inside]
  · rw [set_counter, hval]
    simp [Doit.stores, hpc]
    omega
  · have hsum := sum_set (s := s) (t := t) Doit.ahead { s.thread t with pc := .unlock }
    have hone : (s.set t { s.thread t with pc := .unlock }).sum Doit.ahead + 1 = s.sum Doit.ahead := by
      simpa [Doit.ahead, hpc] using hsum
    show s.printed =
      List.range' 1 ((s.thread t).val + 1 + (s.set t { s.thread t with pc := .unlock }).sum Doit.ahead)
    rw [h.printed, hval, ← hone]
    congr 1
    omega

theorem locked_unlock (h : s.Locked) (hpc : (s.thread t).pc = .unlock) :
    ({ s with counterMutex := s.counterMutex.unlock }.set t
      { s.thread t with pc := .test, i := (s.thread t).i + 1 }).Locked := by
  have hin : (s.thread t).pc.inside = true := by rw [hpc, DoitPc.inside]
  refine h.set (fun u hu => set_thread_of_ne _ hu) (set_thread_self _ _ _) ?_ ?_ (by simp [DoitPc.fetched])
    (.inl rfl) ?_
  · refine h.excludes.leave hin rfl ?_ fun u hu => inside_set hu
    simp [DoitPc.inside]
  · simp [Doit.stores, hpc]
  · exact h.printed_set (by simp [Doit.ahead, hpc])

theorem locked_next (h : s.Locked) (ha : s.enabled t) : (s.next nloop true t).Locked := by
  cases hpc : (s.thread t).pc with
  | test =>
    rw [next, step, hpc]
    refine h.outside (by rw [hpc, DoitPc.inside]) ?_ rfl
    simp only [if_true]
    split_ifs <;> rfl
  | lock =>
    rw [enabled, hpc] at ha
    rw [next, step, hpc]
    exact locked_lock h hpc ha
  | fetch =>
    rw [next, step, hpc]
    exact locked_fetch h hpc
  | printf =>
    rw [next, step, hpc]
    exact locked_printf h hpc
  | store =>
    rw [next, step, hpc]
    exact locked_store h hpc
  | unlock =>
    rw [next, step, hpc]
    exact locked_unlock h hpc
  | done =>
    rw [next, step, hpc]
    exact h

theorem locked_reachable (hr : (example02 nloop).Reachable s) : s.Locked := by
  refine invariant ?_ ?_ hr
  · rintro s rfl
    exact locked_init
  · rintro s s' - h ⟨t, ha, rfl⟩
    exact locked_next h ha

theorem Locked.sum_ahead_le (h : s.Locked) : s.sum Doit.ahead ≤ 1 := by
  by_cases hin : ∃ t, (s.thread t).pc.inside = true
  · obtain ⟨t, hin⟩ := hin
    rw [h.sum_ahead hin, Doit.ahead]
    split_ifs <;> omega
  · have hzero : ∀ t, (s.thread t).ahead = 0 := by
      intro t
      rw [Doit.ahead, if_neg]
      exact fun hstore => hin ⟨t, by rw [hstore, DoitPc.inside]⟩
    rw [sum, hzero, hzero]
    exact Nat.zero_le _

theorem Locked.exists_enabled (h : s.Locked) (hlock : (s.thread t).pc = .lock) : ∃ u, s.enabled u := by
  cases howner : s.counterMutex.owner with
  | none => exact ⟨t, by rw [enabled, hlock]; exact howner⟩
  | some u =>
    have hin : (s.thread u).pc.inside = true := (h.excludes u).mpr howner
    refine ⟨u, ?_⟩
    unfold enabled
    cases hpc : (s.thread u).pc <;> simp_all [DoitPc.inside]

/-- **The counter with the mutex.** The numbers are printed in their order, each once, whichever thread prints them,
and every run ends with both threads done and a counter of `2 * NLOOP`. -/
theorem example02_counter (nloop : ℕ) :
    (∀ s, (example02 nloop).Reachable s → ∃ n, s.printed = List.range' 1 n ∧ s.counter ≤ n ∧ n ≤ s.counter + 1) ∧
    (example02 nloop).Ends fun s => s.Joined ∧ s.counter = 2 * nloop ∧ s.printed = List.range' 1 (2 * nloop) := by
  have hends : (example02 nloop).Ends Joined :=
    ends fun s hr ⟨t, hlock⟩ => (locked_reachable hr).exists_enabled hlock
  refine ⟨fun s hr => ?_, hends.finite, fun s hr hlast => ?_⟩
  · have h := locked_reachable hr
    have hahead := h.sum_ahead_le
    exact ⟨_, h.printed, by omega, by omega⟩
  · have h := locked_reachable hr
    have hjoined : s.Joined := hends.last s hr hlast
    have hi := i_of_joined hr hjoined
    have hstores : ∀ t, (s.thread t).stores = nloop ∧ (s.thread t).ahead = 0 := by
      intro t
      rw [Doit.stores, Doit.ahead, hjoined t, hi t]
      exact ⟨rfl, rfl⟩
    have hcounter : s.counter = 2 * nloop := by
      rw [h.counter, sum, (hstores .a).1, (hstores .b).1, Nat.two_mul]
    refine ⟨hjoined, hcounter, ?_⟩
    rw [h.printed, hcounter, sum, (hstores .a).2, (hstores .b).2, Nat.add_zero]

end Count

end UnixNetProg.Threads
