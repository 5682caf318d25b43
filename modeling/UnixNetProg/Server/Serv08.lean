import Mathlib.Data.List.Infix
import UnixNetProg.Lib.Monitor
import UnixNetProg.Lib.Ring
import UnixNetProg.Lib.Transition

/-!
# The prethreaded server with a queue of connections (`server/serv08.c`, `server/pthread08.c`)

The main thread accepts every connection and puts its descriptor into the ring `clifd`; `nthreads` workers
take the descriptors out. A step is one call of one thread together with the assignments behind it; what
stands between two operations on the mutex runs as one step, since no other thread can look at the ring in
the meantime.

No step looks at `accepted`, `queued` and `taken`, the descriptors in the order in which they were accepted,
put into the ring and taken out of it.
-/

namespace UnixNetProg.Server

open Lib

def MAXNCLI : ℕ := 32

inductive Thread where
  | main
  | worker (i : ℕ)
  deriving DecidableEq, Repr

/-- The next call of `main`: `thread_make(i)`, `Accept`, `Pthread_mutex_lock`, the assignments behind it,
`Pthread_cond_signal`, `Pthread_mutex_unlock`; `quit` is after `err_quit`. -/
inductive MainPc where
  | make (i : ℕ)
  | accept
  | locking (connfd : ℤ)
  | put (connfd : ℤ)
  | signal
  | unlock
  | quit
  deriving DecidableEq, Repr

/-- The next call of `thread_main`: `Pthread_mutex_lock`, the test of the `while`, `Pthread_cond_wait`, the
assignments behind the loop, `Pthread_mutex_unlock`, `web_child` and `Close`; `unborn` is before
`Pthread_create`. -/
inductive WorkerPc where
  | unborn
  | locking
  | test
  | waiting
  | take
  | unlock (connfd : ℤ)
  | serve (connfd : ℤ)
  deriving DecidableEq, Repr

def MainPc.inside : MainPc → Bool
  | .put _ | .signal | .unlock | .quit => true
  | .make _ | .accept | .locking _ => false

def WorkerPc.inside : WorkerPc → Bool
  | .test | .take | .unlock _ => true
  | .unborn | .locking | .waiting | .serve _ => false

/-- The descriptor that was accepted and is not in the ring. -/
def MainPc.inHand : MainPc → List ℤ
  | .locking connfd | .put connfd => [connfd]
  | .make _ | .accept | .signal | .unlock | .quit => []

structure Pool where
  clifd : ℕ → ℤ
  iget : ℕ
  iput : ℕ
  threadCount : ℕ → ℕ
  mon : Monitor Thread Unit
  main : MainPc
  worker : ℕ → WorkerPc
  accepted : List ℤ
  queued : List ℤ
  taken : List ℤ

def Pool.setWorker (s : Pool) (i : ℕ) (pc : WorkerPc) : Pool :=
  { s with worker := Function.update s.worker i pc }

def Pool.inside (s : Pool) : Thread → Bool
  | .main => s.main.inside
  | .worker i => (s.worker i).inside

/-- The loop that creates all the threads. -/
def threadMake (nthreads : ℕ) (s : Pool) (i : ℕ) : Pool :=
  if i < nthreads then { s with main := .make (i + 1) }.setWorker i .locking else { s with main := .accept }

/-- The assignments of `main` with the mutex locked. -/
def putConnection (s : Pool) (connfd : ℤ) : Pool :=
  let iput := stepRound MAXNCLI s.iput
  { s with
    clifd := Function.update s.clifd s.iput connfd
    iput := iput
    queued := s.queued ++ [connfd]
    main := if iput = s.iget then .quit else .signal }

def mainNext (nthreads : ℕ) (s : Pool) : Pool :=
  match s.main with
  | .make i => threadMake nthreads s i
  | .locking connfd => { s with mon := s.mon.lock .main, main := .put connfd }
  | .put connfd => putConnection s connfd
  | .unlock => { s with mon := s.mon.unlock, main := .accept }
  | .accept | .signal | .quit => s

/-- `while (iget == iput) Pthread_cond_wait(..)`. -/
def testQueue (s : Pool) (i : ℕ) : Pool :=
  if s.iget = s.iput then { s with mon := s.mon.wait (.worker i) () }.setWorker i .waiting
  else s.setWorker i .take

/-- The assignments of a worker behind its loop. -/
def takeConnection (s : Pool) (i : ℕ) : Pool :=
  let connfd := s.clifd s.iget
  { s with iget := stepRound MAXNCLI s.iget, taken := s.taken ++ [connfd] }.setWorker i (.unlock connfd)

/-- `Pthread_mutex_unlock`, and `thread_count++`, which no other thread looks at. -/
def leaveQueue (s : Pool) (i : ℕ) (connfd : ℤ) : Pool :=
  { s with
    mon := s.mon.unlock
    threadCount := Function.update s.threadCount i (s.threadCount i + 1) }.setWorker i (.serve connfd)

def workerNext (s : Pool) (i : ℕ) : Pool :=
  match s.worker i with
  | .unborn => s
  | .locking | .waiting => { s with mon := s.mon.lock (.worker i) }.setWorker i .test
  | .test => testQueue s i
  | .take => takeConnection s i
  | .unlock connfd => leaveQueue s i connfd
  | .serve _ => s.setWorker i .locking

/-- A connection is accepted; the main thread signals, with the workers that wake; another step of the main
thread; a step of a worker; a worker wakes without a signal. -/
inductive PoolAction where
  | accept (connfd : ℤ)
  | signal (woken : Finset Thread)
  | main
  | worker (i : ℕ)
  | wakeup (i : ℕ)

def poolNext (nthreads : ℕ) (s : Pool) : PoolAction → Pool
  | .accept connfd => { s with accepted := s.accepted ++ [connfd], main := .locking connfd }
  | .signal woken => { s with mon := s.mon.wake () woken, main := .unlock }
  | .main => mainNext nthreads s
  | .worker i => workerNext s i
  | .wakeup i => { s with mon := s.mon.wake () {.worker i} }

def MainEnabled (s : Pool) : MainPc → Prop
  | .make _ | .put _ | .unlock => True
  | .locking _ => s.mon.owner = none
  | .accept | .signal | .quit => False

def WorkerEnabled (s : Pool) (i : ℕ) : WorkerPc → Prop
  | .unborn => False
  | .locking => s.mon.owner = none
  | .waiting => .worker i ∉ s.mon.asleep () ∧ s.mon.owner = none
  | .test | .take | .unlock _ | .serve _ => True

instance (s : Pool) : ∀ pc, Decidable (MainEnabled s pc)
  | .make _ | .put _ | .unlock => inferInstanceAs (Decidable True)
  | .locking _ => inferInstanceAs (Decidable (_ = none))
  | .accept | .signal | .quit => inferInstanceAs (Decidable False)

instance (s : Pool) (i : ℕ) : ∀ pc, Decidable (WorkerEnabled s i pc)
  | .unborn => inferInstanceAs (Decidable False)
  | .locking => inferInstanceAs (Decidable (_ = none))
  | .waiting => inferInstanceAs (Decidable (_ ∧ _))
  | .test | .take | .unlock _ | .serve _ => inferInstanceAs (Decidable True)

def PoolReady (s : Pool) : PoolAction → Prop
  | .accept _ => s.main = .accept
  | .signal woken => s.main = .signal ∧ s.mon.Signals () woken
  | .main => MainEnabled s s.main
  | .worker i => WorkerEnabled s i (s.worker i)
  | .wakeup _ => True

/-- The operation does not block, and the process has not quit. -/
def PoolEnabled (s : Pool) (a : PoolAction) : Prop := s.main ≠ .quit ∧ PoolReady s a

instance (s : Pool) : ∀ a, Decidable (PoolReady s a)
  | .accept _ => inferInstanceAs (Decidable (_ = _))
  | .signal _ => inferInstanceAs (Decidable (_ ∧ _))
  | .main => inferInstanceAs (Decidable (MainEnabled s s.main))
  | .worker i => inferInstanceAs (Decidable (WorkerEnabled s i (s.worker i)))
  | .wakeup _ => inferInstanceAs (Decidable True)

instance (s : Pool) (a : PoolAction) : Decidable (PoolEnabled s a) := inferInstanceAs (Decidable (_ ∧ _))

def poolStart : Pool where
  clifd _ := 0
  iget := 0
  iput := 0
  threadCount _ := 0
  mon := .free
  main := .make 0
  worker _ := .unborn
  accepted := []
  queued := []
  taken := []

def serv08 (nthreads : ℕ) : TransitionSystem Pool := .ofActions (· = poolStart) PoolEnabled (poolNext nthreads)

/-- The connections in the ring. -/
def Pool.untaken (s : Pool) : List ℤ := s.queued.drop s.taken.length

/-! ### The invariant -/

/-- The ring holds `untaken`, and all of it is used only when the process quits. A worker that has left
its loop finds a connection, and one that is still to be created has not started. -/
structure PoolInv (s : Pool) (untaken : List ℤ) : Prop where
  excludes : s.mon.Excludes fun t => s.inside t
  order : s.accepted = s.queued ++ s.main.inHand
  fifo : s.queued = s.taken ++ untaken
  queue : RingQueue MAXNCLI s.clifd s.iget s.iput untaken
  full : s.main = .quit ↔ untaken.length = MAXNCLI
  ready : ∀ i, s.worker i = .take → untaken ≠ []
  unborn : ∀ k, s.main = .make k → ∀ i, k ≤ i → s.worker i = .unborn

section Steps

variable {s : Pool} {untaken : List ℤ} {nthreads i : ℕ}

theorem poolInv_start : PoolInv poolStart [] := by
  refine ⟨?_, rfl, rfl, RingQueue.nil (by decide), ?_, ?_, ?_⟩
  · intro t
    cases t with
    | main => simp [Pool.inside, poolStart, MainPc.inside, Monitor.free]
    | worker i => simp [Pool.inside, poolStart, WorkerPc.inside, Monitor.free]
  · simp [poolStart, MAXNCLI]
  · simp [poolStart]
  · simp [poolStart]

theorem worker_setWorker (s : Pool) (i j : ℕ) (pc : WorkerPc) :
    (s.setWorker i pc).worker j = if j = i then pc else s.worker j := by
  by_cases hj : j = i
  · simp [Pool.setWorker, hj]
  · simp [Pool.setWorker, hj]

theorem inside_worker (s : Pool) (i : ℕ) : s.inside (.worker i) = (s.worker i).inside := rfl

theorem inside_main (s : Pool) : s.inside .main = s.main.inside := rfl

theorem PoolInv.workerMove (h : PoolInv s untaken) (mon : Monitor Thread Unit) (threadCount : ℕ → ℕ)
    (pc : WorkerPc) (hborn : s.worker i ≠ .unborn)
    (hexcludes : mon.Excludes fun t => if t = .worker i then pc.inside else s.inside t)
    (htake : pc = .take → untaken ≠ []) :
    PoolInv ({ s with mon := mon, threadCount := threadCount }.setWorker i pc) untaken := by
  refine ⟨hexcludes.congr rfl fun t => ?_, h.order, h.fifo, h.queue, h.full, fun j hj => ?_,
    fun k hk j hkj => ?_⟩
  · cases t with
    | main => simp [inside_main, Pool.setWorker]
    | worker j =>
      by_cases hj : j = i
      · simp [inside_worker, worker_setWorker, hj]
      · simp [inside_worker, worker_setWorker, hj]
  · rw [worker_setWorker] at hj
    by_cases hji : j = i
    · rw [if_pos hji] at hj
      exact htake hj
    · rw [if_neg hji] at hj
      exact h.ready j hj
  · have hunborn := h.unborn k hk j hkj
    have hji : j ≠ i := by
      rintro rfl
      exact hborn hunborn
    rw [worker_setWorker, if_neg hji]
    exact hunborn

theorem PoolInv.mainMove (h : PoolInv s untaken) (mon : Monitor Thread Unit) (main : MainPc)
    (accepted : List ℤ) (hlive : s.main ≠ .quit) (hmain : main ≠ .quit) (hmake : ∀ k, main ≠ .make k)
    (hexcludes : mon.Excludes fun t => if t = .main then main.inside else s.inside t)
    (horder : accepted = s.queued ++ main.inHand) :
    PoolInv { s with mon := mon, main := main, accepted := accepted } untaken := by
  refine ⟨hexcludes.congr rfl fun t => ?_, horder, h.fifo, h.queue, ?_, h.ready, fun k hk => ?_⟩
  · cases t with
    | main => simp [inside_main]
    | worker j => simp [inside_worker]
  · simp only [hmain, false_iff]
    exact fun hlen => hlive (h.full.mpr hlen)
  · exact absurd hk (hmake k)

/-! ### The steps of the main thread -/

theorem poolInv_accept (h : PoolInv s untaken) (hpc : s.main = .accept) (connfd : ℤ) :
    PoolInv { s with accepted := s.accepted ++ [connfd], main := .locking connfd } untaken := by
  apply h.mainMove s.mon (.locking connfd) (s.accepted ++ [connfd]) (by simp [hpc]) (by simp) (by simp)
  · apply h.excludes.stay (t := .main) rfl
    · simp [inside_main, hpc, MainPc.inside]
    · intro t ht
      simp [ht]
  · simp [h.order, hpc, MainPc.inHand]

theorem poolInv_lock (h : PoolInv s untaken) {connfd : ℤ} (hpc : s.main = .locking connfd)
    (hfree : s.mon.owner = none) : PoolInv { s with mon := s.mon.lock .main, main := .put connfd } untaken := by
  apply h.mainMove (s.mon.lock .main) (.put connfd) s.accepted (by simp [hpc]) (by simp) (by simp)
  · apply h.excludes.enter (t := .main) hfree
    · rfl
    · simp [MainPc.inside]
    · intro t ht
      simp [ht]
  · simp [h.order, hpc, MainPc.inHand]

theorem poolInv_signal (h : PoolInv s untaken) (hpc : s.main = .signal) (woken : Finset Thread) :
    PoolInv { s with mon := s.mon.wake () woken, main := .unlock } untaken := by
  apply h.mainMove (s.mon.wake () woken) .unlock s.accepted (by simp [hpc]) (by simp) (by simp)
  · apply h.excludes.stay (t := .main) rfl
    · simp [inside_main, hpc, MainPc.inside]
    · intro t ht
      simp [ht]
  · simp [h.order, hpc, MainPc.inHand]

theorem poolInv_unlock (h : PoolInv s untaken) (hpc : s.main = .unlock) :
    PoolInv { s with mon := s.mon.unlock, main := .accept } untaken := by
  apply h.mainMove s.mon.unlock .accept s.accepted (by simp [hpc]) (by simp) (by simp)
  · apply h.excludes.leave (t := .main)
    · simp [inside_main, hpc, MainPc.inside]
    · rfl
    · simp [MainPc.inside]
    · intro t ht
      simp [ht]
  · simp [h.order, hpc, MainPc.inHand]

theorem poolInv_make (h : PoolInv s untaken) {k : ℕ} (hpc : s.main = .make k) :
    PoolInv (threadMake nthreads s k) untaken := by
  unfold threadMake
  by_cases hk : k < nthreads
  · have hunborn := h.unborn k hpc k le_rfl
    rw [if_pos hk]
    refine ⟨h.excludes.congr rfl fun t => ?_, ?_, h.fifo, h.queue, ?_, fun j hj => ?_, fun m hm j hmj => ?_⟩
    · cases t with
      | main => simp [inside_main, Pool.setWorker, hpc, MainPc.inside]
      | worker j =>
        by_cases hj : j = k
        · simp [inside_worker, worker_setWorker, hj, hunborn, WorkerPc.inside]
        · simp [inside_worker, worker_setWorker, hj]
    · simp [Pool.setWorker, h.order, hpc, MainPc.inHand]
    · have hfull := h.full
      simp only [hpc, reduceCtorEq, false_iff] at hfull
      simp [Pool.setWorker, hfull]
    · by_cases hjk : j = k
      · simp [worker_setWorker, hjk] at hj
      · rw [worker_setWorker, if_neg hjk] at hj
        exact h.ready j hj
    · have hmk : k + 1 = m := by simpa [Pool.setWorker] using hm
      rw [worker_setWorker, if_neg (by omega)]
      exact h.unborn k hpc j (by omega)
  · rw [if_neg hk]
    apply h.mainMove s.mon .accept s.accepted (by simp [hpc]) (by simp) (by simp)
    · apply h.excludes.stay (t := .main) rfl
      · simp [inside_main, hpc, MainPc.inside]
      · intro t ht
        simp [ht]
    · simp [h.order, hpc, MainPc.inHand]

/-- The ring has a free slot for the connection in hand; the process quits when that was the last one. -/
theorem poolInv_put (h : PoolInv s untaken) {connfd : ℤ} (hpc : s.main = .put connfd) :
    PoolInv (putConnection s connfd) (untaken ++ [connfd]) := by
  have hlt : untaken.length < MAXNCLI := by
    have hne : untaken.length ≠ MAXNCLI := fun hlen => by simp [h.full.mpr hlen] at hpc
    have hroom := h.queue.room
    omega
  have hqueue := h.queue.push hlt connfd
  rw [← stepRound_eq h.queue.put_lt] at hqueue
  have hmeet := hqueue.put_eq_get_iff
  refine ⟨h.excludes.congr rfl fun t => ?_, ?_, ?_, hqueue, ?_, ?_, ?_⟩
  · cases t with
    | main =>
      by_cases hfull : stepRound MAXNCLI s.iput = s.iget
      · simp [inside_main, putConnection, hfull, hpc, MainPc.inside]
      · simp [inside_main, putConnection, hfull, hpc, MainPc.inside]
    | worker j => simp [inside_worker, putConnection]
  · by_cases hfull : stepRound MAXNCLI s.iput = s.iget
    · simp [putConnection, hfull, h.order, hpc, MainPc.inHand]
    · simp [putConnection, hfull, h.order, hpc, MainPc.inHand]
  · simp [putConnection, h.fifo]
  · have hquit : (putConnection s connfd).main = .quit ↔ stepRound MAXNCLI s.iput = s.iget := by
      simp [putConnection]
    rw [hquit, hmeet]
    simp
  · simp
  · intro k hk
    by_cases hfull : stepRound MAXNCLI s.iput = s.iget
    · simp [putConnection, hfull] at hk
    · simp [putConnection, hfull] at hk

/-! ### The steps of a worker -/

theorem poolInv_workerLock (h : PoolInv s untaken) (hborn : s.worker i ≠ .unborn) (hfree : s.mon.owner = none) :
    PoolInv ({ s with mon := s.mon.lock (.worker i) }.setWorker i .test) untaken := by
  apply h.workerMove (s.mon.lock (.worker i)) s.threadCount .test hborn
  · apply h.excludes.enter (t := .worker i) hfree
    · rfl
    · simp [WorkerPc.inside]
    · intro t ht
      simp [ht]
  · simp

theorem poolInv_test (h : PoolInv s untaken) (hpc : s.worker i = .test) : PoolInv (testQueue s i) untaken := by
  have hborn : s.worker i ≠ .unborn := by simp [hpc]
  have hin : s.inside (.worker i) := by simp [inside_worker, hpc, WorkerPc.inside]
  unfold testQueue
  by_cases hmeet : s.iget = s.iput
  · rw [if_pos hmeet]
    apply h.workerMove (s.mon.wait (.worker i) ()) s.threadCount .waiting hborn
    · apply h.excludes.leave (t := .worker i) hin
      · rfl
      · simp [WorkerPc.inside]
      · intro t ht
        simp [ht]
    · simp
  · rw [if_neg hmeet]
    apply h.workerMove s.mon s.threadCount .take hborn
    · apply h.excludes.stay (t := .worker i) rfl
      · simp [hin, WorkerPc.inside]
      · intro t ht
        simp [ht]
    · rintro - rfl
      exact hmeet (h.queue.put_eq_get_iff.mpr (.inl rfl)).symm

theorem poolInv_leave (h : PoolInv s untaken) {connfd : ℤ} (hpc : s.worker i = .unlock connfd) :
    PoolInv (leaveQueue s i connfd) untaken := by
  have hin : s.inside (.worker i) := by simp [inside_worker, hpc, WorkerPc.inside]
  apply h.workerMove s.mon.unlock _ (.serve connfd) (by simp [hpc])
  · apply h.excludes.leave (t := .worker i) hin
    · rfl
    · simp [WorkerPc.inside]
    · intro t ht
      simp [ht]
  · simp

theorem poolInv_serve (h : PoolInv s untaken) {connfd : ℤ} (hpc : s.worker i = .serve connfd) :
    PoolInv (s.setWorker i .locking) untaken := by
  apply h.workerMove s.mon s.threadCount .locking (by simp [hpc])
  · apply h.excludes.stay (t := .worker i) rfl
    · simp [inside_worker, hpc, WorkerPc.inside]
    · intro t ht
      simp [ht]
  · simp

theorem poolInv_take (h : PoolInv s untaken) (hpc : s.worker i = .take) :
    ∃ rest, untaken = s.clifd s.iget :: rest ∧ PoolInv (takeConnection s i) rest := by
  have hin : s.inside (.worker i) := by simp [inside_worker, hpc, WorkerPc.inside]
  have hmain : s.main.inside = false := by
    rw [← inside_main, ← Bool.not_eq_true]
    intro hm
    exact absurd (h.excludes.eq_of_inside hm hin) (by simp)
  obtain ⟨connfd, rest, rfl⟩ := List.exists_cons_of_ne_nil (h.ready i hpc)
  obtain ⟨hfd, hqueue⟩ := h.queue.pop
  rw [← stepRound_eq h.queue.get_lt] at hqueue
  refine ⟨rest, by rw [hfd], h.excludes.congr rfl fun t => ?_, h.order, ?_, hqueue, ?_, fun j hj => ?_,
    fun k hk j hkj => ?_⟩
  · cases t with
    | main => simp [inside_main, takeConnection, Pool.setWorker]
    | worker j =>
      by_cases hj : j = i
      · simp [inside_worker, takeConnection, worker_setWorker, hj, hpc, WorkerPc.inside]
      · simp [inside_worker, takeConnection, worker_setWorker, hj]
  · simp [takeConnection, Pool.setWorker, h.fifo, hfd]
  · have hquit : s.main ≠ .quit := by
      intro hq
      simp [hq, MainPc.inside] at hmain
    have hroom := h.queue.room
    simp only [List.length_cons] at hroom
    simp only [takeConnection, Pool.setWorker, hquit, false_iff]
    omega
  · by_cases hji : j = i
    · simp [takeConnection, worker_setWorker, hji] at hj
    · simp only [takeConnection, worker_setWorker, if_neg hji] at hj
      have hjin : s.inside (.worker j) := by simp [inside_worker, hj, WorkerPc.inside]
      have hsame := h.excludes.eq_of_inside hjin hin
      exact absurd (Thread.worker.inj hsame) hji
  · have hunborn := h.unborn k hk j hkj
    have hji : j ≠ i := by
      rintro rfl
      simp [hpc] at hunborn
    simp only [takeConnection, worker_setWorker, if_neg hji]
    exact hunborn

theorem poolInv_wakeup (h : PoolInv s untaken) (woken : Finset Thread) :
    PoolInv { s with mon := s.mon.wake () woken } untaken :=
  ⟨h.excludes.congr rfl fun t => by cases t <;> rfl, h.order, h.fifo, h.queue, h.full, h.ready, h.unborn⟩

theorem poolInv_mainNext (h : PoolInv s untaken) (ha : MainEnabled s s.main) :
    ∃ untaken', PoolInv (mainNext nthreads s) untaken' := by
  unfold mainNext
  cases hpc : s.main with
  | make k => exact ⟨untaken, poolInv_make h hpc⟩
  | accept => exact ⟨untaken, h⟩
  | locking connfd =>
    rw [hpc] at ha
    exact ⟨untaken, poolInv_lock h hpc ha⟩
  | put connfd => exact ⟨untaken ++ [connfd], poolInv_put h hpc⟩
  | signal => exact ⟨untaken, h⟩
  | unlock => exact ⟨untaken, poolInv_unlock h hpc⟩
  | quit => exact ⟨untaken, h⟩

theorem poolInv_workerNext (h : PoolInv s untaken) (ha : WorkerEnabled s i (s.worker i)) :
    ∃ untaken', PoolInv (workerNext s i) untaken' := by
  unfold workerNext
  cases hpc : s.worker i with
  | unborn => exact ⟨untaken, h⟩
  | locking =>
    rw [hpc] at ha
    exact ⟨untaken, poolInv_workerLock h (by simp [hpc]) ha⟩
  | test => exact ⟨untaken, poolInv_test h hpc⟩
  | waiting =>
    rw [hpc] at ha
    exact ⟨untaken, poolInv_workerLock h (by simp [hpc]) ha.2⟩
  | take =>
    obtain ⟨rest, -, hrest⟩ := poolInv_take h hpc
    exact ⟨rest, hrest⟩
  | unlock connfd => exact ⟨untaken, poolInv_leave h hpc⟩
  | serve connfd => exact ⟨untaken, poolInv_serve h hpc⟩

theorem poolInv_reachable (h : (serv08 nthreads).Reachable s) : ∃ untaken, PoolInv s untaken := by
  refine TransitionSystem.invariant (P := fun s => ∃ untaken, PoolInv s untaken) ?_ ?_ h
  · intro s hs
    rw [hs]
    exact ⟨[], poolInv_start⟩
  · intro s s' _ hinv hstep
    obtain ⟨untaken, hinv⟩ := hinv
    obtain ⟨a, ⟨-, ha⟩, rfl⟩ := hstep
    cases a with
    | accept connfd => exact ⟨untaken, poolInv_accept hinv ha connfd⟩
    | signal woken => exact ⟨untaken, poolInv_signal hinv ha.1 woken⟩
    | main => exact poolInv_mainNext hinv ha
    | worker i => exact poolInv_workerNext hinv ha
    | wakeup i => exact ⟨untaken, poolInv_wakeup hinv _⟩

theorem PoolInv.untaken_eq (h : PoolInv s untaken) : s.untaken = untaken := by
  simp [Pool.untaken, h.fifo]

/-- **The queue of connections.** The descriptors that the workers took are a prefix of those that were
accepted, and the ring holds what was put and not taken, in this order. A worker that reads the ring takes
the first of these, a put does not write over any of them, and the process has quit exactly when a put has
left `MAXNCLI` of them. -/
theorem serv08_queue (h : (serv08 nthreads).Reachable s) :
    (s.taken <+: s.accepted ∧ s.queued = s.taken ++ s.untaken ∧ s.accepted = s.queued ++ s.main.inHand) ∧
    (∀ k connfd, s.untaken[k]? = some connfd → s.clifd ((s.iget + k) % MAXNCLI) = connfd) ∧
    (∀ i, s.worker i = .take → s.untaken.head? = some (s.clifd s.iget) ∧
      (workerNext s i).untaken = s.untaken.tail ∧ (workerNext s i).taken = s.taken ++ [s.clifd s.iget]) ∧
    (∀ connfd, s.main = .put connfd → (∀ k < s.untaken.length, (s.iget + k) % MAXNCLI ≠ s.iput) ∧
      (mainNext nthreads s).untaken = s.untaken ++ [connfd] ∧
      ((mainNext nthreads s).main = .quit ↔ s.untaken.length + 1 = MAXNCLI)) ∧
    (s.main = .quit ↔ s.untaken.length = MAXNCLI) := by
  obtain ⟨untaken, hinv⟩ := poolInv_reachable h
  rw [hinv.untaken_eq]
  refine ⟨⟨?_, hinv.fifo, hinv.order⟩, hinv.queue.holds, fun i hpc => ?_, fun connfd hpc => ?_, hinv.full⟩
  · rw [hinv.order, hinv.fifo, List.append_assoc]
    exact List.prefix_append _ _
  · obtain ⟨rest, hrest, hnext⟩ := poolInv_take hinv hpc
    have hstep : workerNext s i = takeConnection s i := by simp [workerNext, hpc]
    rw [hstep, hnext.untaken_eq, hrest]
    exact ⟨rfl, rfl, rfl⟩
  · have hnext := poolInv_put hinv hpc
    have hstep : mainNext nthreads s = putConnection s connfd := by simp [mainNext, hpc]
    have hlt : untaken.length < MAXNCLI := by
      have hroom := hnext.queue.room
      simp only [List.length_append, List.length_singleton] at hroom
      omega
    rw [hstep, hnext.untaken_eq, hnext.full]
    refine ⟨fun k hk => hinv.queue.put_ne hlt hk, rfl, ?_⟩
    simp

end Steps

/-- Two workers are created, the first sleeps, and two connections are accepted. -/
def samplePool : List PoolAction :=
  [.main, .main, .main, .worker 0, .worker 0, .accept 4, .main, .main, .signal {.worker 0}, .main, .worker 1,
    .worker 1, .worker 1, .accept 5, .worker 1, .main, .main, .worker 1, .signal ∅, .main, .worker 0, .worker 0]

theorem serv08_queue_sample :
    let s := samplePool.foldl (poolNext 2) poolStart
    (s.accepted = [4, 5] ∧ s.taken = [4] ∧ s.worker 0 = .take) ∧ s.untaken.head? = some (s.clifd s.iget) := by
  intro s
  have h₀ : (serv08 2).Reachable poolStart := TransitionSystem.reachable_init rfl
  have h : (serv08 2).Reachable s := h₀.actions (by decide)
  have htake : s.worker 0 = .take := by decide
  exact ⟨by decide, ((serv08_queue h).2.2.1 0 htake).1⟩

end UnixNetProg.Server
