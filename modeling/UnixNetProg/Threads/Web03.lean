import UnixNetProg.Lib.Monitor
import UnixNetProg.Lib.Slots
import UnixNetProg.Lib.Transition

/-!
# The web client with threads (`threads/web03.c`)

`main` starts a thread for each file, at most `maxnconn` at a time, and waits on a condition variable for
threads that are done. A step is one access to a variable that the threads share, or one operation on the
mutex, the condition variable or a thread, together with the assignments to the variables that only `main`
uses. A call that fails ends the process. The threads are named by their files.

A thread sets `F_DONE` before it locks the mutex to count itself, and `main` joins every thread whose
`F_DONE` it finds while it holds the mutex.
-/

namespace UnixNetProg.Threads

open Lib

def MAXFILES : ℕ := 20

/-- The values of `f_flags`: 0, `F_CONNECTING`, `F_READING`, `F_DONE` and `F_JOINED`. -/
inductive FileFlags where
  | none
  | connecting
  | reading
  | done
  | joined
  deriving DecidableEq, Repr

/-- The next operation of `main`: the two tests of the loops, the search for a file, the assignment of
`F_CONNECTING`, `Pthread_create`, the assignment of `f_tid`; `Pthread_mutex_lock`, the test of `ndone`,
`Pthread_cond_wait`; the test of `F_DONE`, `Pthread_join`, the assignment of `F_JOINED` to the file that the
thread returned, `ndone--`; `Pthread_mutex_unlock`. It has called `exit(0)`, or the process has quit. -/
inductive WebPc where
  | loop
  | fill
  | find (i : ℕ)
  | setConnecting (i : ℕ)
  | create (i : ℕ)
  | setTid (i : ℕ)
  | lock
  | testDone
  | waiting
  | scan (i : ℕ)
  | join (i : ℕ)
  | setJoined (i : ℕ)
  | decr (i : ℕ)
  | unlock
  | exited
  | quit
  deriving DecidableEq, Repr

/-- The next operation of `do_get_read`: `Tcp_connect`, `write_get_cmd` with the assignment of `F_READING`,
`Read`, the assignment of `F_DONE`, `Pthread_mutex_lock`, `ndone++`, `Pthread_cond_signal`,
`Pthread_mutex_unlock`; the thread has terminated. -/
inductive GetPc where
  | unborn
  | connect
  | writeGetCmd
  | read
  | setDone
  | locking
  | count
  | signal
  | unlock
  | ended
  deriving DecidableEq, Repr

inductive WebThread where
  | main
  | get (i : ℕ)
  deriving DecidableEq, Repr

structure Web where
  flags : ℕ → FileFlags
  tid : ℕ → Option ℕ
  ndone : ℤ
  nconn : ℤ
  nlefttoconn : ℤ
  nlefttoread : ℤ
  mon : Monitor WebThread Unit
  main : WebPc
  get : ℕ → GetPc

def Web.setFlags (s : Web) (i : ℕ) (flags : FileFlags) : Web :=
  { s with flags := Function.update s.flags i flags }

def Web.setGet (s : Web) (i : ℕ) (pc : GetPc) : Web := { s with get := Function.update s.get i pc }

/-! ### `main` -/

/-- `while (nlefttoread > 0)`. -/
def loopTest (s : Web) : Web := { s with main := if 0 < s.nlefttoread then .fill else .exited }

/-- `while (nconn < maxnconn && nlefttoconn > 0)`. -/
def fillTest (maxnconn : ℤ) (s : Web) : Web :=
  { s with main := if s.nconn < maxnconn ∧ 0 < s.nlefttoconn then .find 0 else .lock }

/-- Find a file to read. -/
def findFile (nfiles : ℕ) (s : Web) (i : ℕ) : Web :=
  { s with
    main := if i < nfiles then if s.flags i = .none then .setConnecting i else .find (i + 1) else .quit }

/-- `file[i].f_tid = tid`, and the two counters. -/
def setTid (s : Web) (i : ℕ) : Web :=
  { s with
    tid := Function.update s.tid i (some i)
    nconn := s.nconn + 1
    nlefttoconn := s.nlefttoconn - 1
    main := .fill }

/-- `while (ndone == 0) Pthread_cond_wait(..)`. -/
def testDone (s : Web) : Web :=
  if s.ndone = 0 then { s with mon := s.mon.wait .main (), main := .waiting } else { s with main := .scan 0 }

/-- `if (file[i].f_flags & F_DONE)`. -/
def scanFile (nfiles : ℕ) (s : Web) (i : ℕ) : Web :=
  { s with main := if i < nfiles then if s.flags i = .done then .join i else .scan (i + 1) else .unlock }

/-- `Pthread_join` returns the file of the thread; there is no such thread if `f_tid` was not set. -/
def joinThread (s : Web) (i : ℕ) : Web :=
  match s.tid i with
  | none => { s with main := .quit }
  | some t => { s with main := if i = t then .setJoined i else .quit }

/-- The counters behind the join. -/
def decrDone (s : Web) (i : ℕ) : Web :=
  { s with
    ndone := s.ndone - 1
    nconn := s.nconn - 1
    nlefttoread := s.nlefttoread - 1
    main := .scan (i + 1) }

def webMainNext (nfiles : ℕ) (maxnconn : ℤ) (s : Web) : Web :=
  match s.main with
  | .loop => loopTest s
  | .fill => fillTest maxnconn s
  | .find i => findFile nfiles s i
  | .setConnecting i => { s with main := .create i }.setFlags i .connecting
  | .create i => { s with main := .setTid i }.setGet i .connect
  | .setTid i => setTid s i
  | .lock | .waiting => { s with mon := s.mon.lock .main, main := .testDone }
  | .testDone => testDone s
  | .scan i => scanFile nfiles s i
  | .join i => joinThread s i
  | .setJoined i => { s with main := .decr i }.setFlags i .joined
  | .decr i => decrDone s i
  | .unlock => { s with mon := s.mon.unlock, main := .loop }
  | .exited | .quit => s

/-- The thread that `main` joins has terminated, or there is none. -/
def Joinable (s : Web) (i : ℕ) : Prop := ∀ t ∈ s.tid i, s.get t = .ended

instance (s : Web) (i : ℕ) : Decidable (Joinable s i) := inferInstanceAs (Decidable (∀ t ∈ s.tid i, _))

def WebMainEnabled (s : Web) : WebPc → Prop
  | .lock => s.mon.owner = none
  | .waiting => .main ∉ s.mon.asleep () ∧ s.mon.owner = none
  | .join i => Joinable s i
  | .loop | .fill | .find _ | .setConnecting _ | .create _ | .setTid _ | .testDone | .scan _ | .setJoined _
  | .decr _ | .unlock => True
  | .exited | .quit => False

instance (s : Web) : ∀ pc, Decidable (WebMainEnabled s pc)
  | .lock => inferInstanceAs (Decidable (_ = none))
  | .waiting => inferInstanceAs (Decidable (_ ∧ _))
  | .join i => inferInstanceAs (Decidable (Joinable s i))
  | .loop | .fill | .find _ | .setConnecting _ | .create _ | .setTid _ | .testDone | .scan _ | .setJoined _
  | .decr _ | .unlock => inferInstanceAs (Decidable True)
  | .exited | .quit => inferInstanceAs (Decidable False)

/-! ### `do_get_read` -/

def getNext (s : Web) (i : ℕ) : Web :=
  match s.get i with
  | .connect => s.setGet i .writeGetCmd
  | .writeGetCmd => (s.setFlags i .reading).setGet i .read
  | .setDone => (s.setFlags i .done).setGet i .locking
  | .locking => { s with mon := s.mon.lock (.get i) }.setGet i .count
  | .count => { s with ndone := s.ndone + 1 }.setGet i .signal
  | .unlock => { s with mon := s.mon.unlock }.setGet i .ended
  | .unborn | .read | .signal | .ended => s

def GetEnabled (s : Web) : GetPc → Prop
  | .locking => s.mon.owner = none
  | .connect | .writeGetCmd | .setDone | .count | .unlock => True
  | .unborn | .read | .signal | .ended => False

instance (s : Web) : ∀ pc, Decidable (GetEnabled s pc)
  | .locking => inferInstanceAs (Decidable (_ = none))
  | .connect | .writeGetCmd | .setDone | .count | .unlock => inferInstanceAs (Decidable True)
  | .unborn | .read | .signal | .ended => inferInstanceAs (Decidable False)

/-- `Tcp_connect`, `Writen` and `Read` end the process when they fail. -/
def GetPc.mayFail : GetPc → Bool
  | .connect | .writeGetCmd | .read => true
  | .unborn | .setDone | .locking | .count | .signal | .unlock | .ended => false

/-! ### The system -/

/-- A step of `main`; a step of a thread; `Read` returns `n`; a thread signals `main`, with what wakes; a
call of a thread fails; `main` wakes without a signal. -/
inductive WebAction where
  | main
  | get (i : ℕ)
  | read (i n : ℕ)
  | signal (i : ℕ) (woken : Finset WebThread)
  | fail (i : ℕ)
  | wakeup

def webNext (nfiles : ℕ) (maxnconn : ℤ) (s : Web) : WebAction → Web
  | .main => webMainNext nfiles maxnconn s
  | .get i => getNext s i
  | .read i n => if n = 0 then s.setGet i .setDone else s
  | .signal i woken => { s with mon := s.mon.wake () woken }.setGet i .unlock
  | .fail _ => { s with main := .quit }
  | .wakeup => { s with mon := s.mon.wake () {.main} }

def WebReady (s : Web) : WebAction → Prop
  | .main => WebMainEnabled s s.main
  | .get i => GetEnabled s (s.get i)
  | .read i _ => s.get i = .read
  | .signal i woken => s.get i = .signal ∧ s.mon.Signals () woken
  | .fail i => (s.get i).mayFail
  | .wakeup => True

/-- The operation does not block, and the process has not terminated. -/
def WebEnabled (s : Web) (a : WebAction) : Prop := (s.main ≠ .exited ∧ s.main ≠ .quit) ∧ WebReady s a

instance (s : Web) : ∀ a, Decidable (WebReady s a)
  | .main => inferInstanceAs (Decidable (WebMainEnabled s s.main))
  | .get i => inferInstanceAs (Decidable (GetEnabled s (s.get i)))
  | .read _ _ => inferInstanceAs (Decidable (_ = _))
  | .signal _ _ => inferInstanceAs (Decidable (_ ∧ _))
  | .fail i => inferInstanceAs (Decidable ((s.get i).mayFail = true))
  | .wakeup => inferInstanceAs (Decidable True)

instance (s : Web) (a : WebAction) : Decidable (WebEnabled s a) := inferInstanceAs (Decidable (_ ∧ _))

/-- At the loop, with the home page read; without a file on the command line, the usage message. -/
def webStart (nargs : ℕ) : Web where
  flags _ := .none
  tid _ := none
  ndone := 0
  nconn := 0
  nlefttoconn := (min nargs MAXFILES : ℕ)
  nlefttoread := (min nargs MAXFILES : ℕ)
  mon := .free
  main := if nargs < 1 then .quit else .loop
  get _ := .unborn

/-- `main` with `nargs` files on the command line. -/
def web03 (nargs : ℕ) (maxnconn : ℤ) : TransitionSystem Web :=
  .ofActions (· = webStart nargs) WebEnabled (webNext (min nargs MAXFILES) maxnconn)

/-- `main` waits in `Pthread_join` with the mutex locked for a thread that waits for the mutex. -/
def JoinDeadlock (s : Web) : Prop :=
  ∃ i t, s.main = .join i ∧ s.tid i = some t ∧ s.mon.owner = some .main ∧ s.get t = .locking

/-! ### The invariant -/

/-- The flags that a thread at this place has in its file. -/
def FileFlags.Fits : FileFlags → GetPc → Bool
  | .none, .unborn | .connecting, .unborn => true
  | .connecting, .connect | .connecting, .writeGetCmd => true
  | .reading, .read | .reading, .setDone => true
  | .done, .locking | .done, .count | .done, .signal | .done, .unlock | .done, .ended => true
  | .joined, .ended => true
  | _, _ => false

def GetPc.counted : GetPc → Bool
  | .signal | .unlock | .ended => true
  | .unborn | .connect | .writeGetCmd | .read | .setDone | .locking | .count => false

/-- The thread of the file is one of `nconn`. -/
def Web.Connected (s : Web) (i : ℕ) : Prop :=
  s.flags i ≠ .none ∧ s.flags i ≠ .joined ∧ s.main ≠ .create i ∧ s.main ≠ .setTid i ∨ s.main = .decr i

/-- The thread of the file is one of `ndone`. -/
def Web.Pending (s : Web) (i : ℕ) : Prop := (s.get i).counted ∧ (s.flags i = .joined → s.main = .decr i)

instance (s : Web) : DecidablePred s.Connected := fun _ => inferInstanceAs (Decidable (_ ∨ _))

instance (s : Web) : DecidablePred s.Pending := fun _ => inferInstanceAs (Decidable (_ ∧ (_ → _)))

/-- The file that `main` works on. -/
def WebPc.onFile : WebPc → Option ℕ
  | .setConnecting i | .create i | .setTid i | .join i | .setJoined i | .decr i => some i
  | .loop | .fill | .find _ | .lock | .testDone | .waiting | .scan _ | .unlock | .exited | .quit => none

/-- `main` is about to start a thread. -/
def WebPc.filling : WebPc → Bool
  | .find _ | .setConnecting _ | .create _ | .setTid _ => true
  | .loop | .fill | .lock | .testDone | .waiting | .scan _ | .join _ | .setJoined _ | .decr _ | .unlock
  | .exited | .quit => false

/-- A file, its thread, and the place of `main` agree. -/
structure FileInv (s : Web) (i : ℕ) : Prop where
  fits : (s.flags i).Fits (s.get i)
  create : s.flags i = .connecting ∧ s.get i = .unborn ↔ s.main = .create i
  chosen : s.main = .setConnecting i → s.flags i = .none
  begun : s.main = .setTid i → s.flags i ≠ .none ∧ s.flags i ≠ .joined
  tid : s.flags i ≠ .none → s.main ≠ .create i → s.main ≠ .setTid i → s.tid i = some i
  done : s.main = .join i ∨ s.main = .setJoined i → s.flags i = .done
  ended : s.main = .setJoined i → s.get i = .ended
  decr : s.main = .decr i → s.flags i = .joined

structure WebInv (nfiles : ℕ) (maxnconn : ℤ) (s : Web) : Prop where
  file : ∀ i, FileInv s i
  low : ∀ i, s.flags i ≠ .none ∨ s.main = .setConnecting i → i < nfiles
  ndone : s.ndone = Nat.count s.Pending nfiles
  nconn : s.nconn = Nat.count s.Connected nfiles
  filling : s.main.filling → s.nconn < maxnconn
  bound : s.nconn ≤ max maxnconn 0

/-- The step from `s` to `s'` is not about the file `i`. -/
structure Aside (s s' : Web) (i : ℕ) : Prop where
  flags : s'.flags i = s.flags i
  get : s'.get i = s.get i
  tid : s'.tid i = s.tid i
  main : s'.main = s.main ∨ s.main.onFile ≠ some i ∧ s'.main.onFile ≠ some i

section Aside

variable {s s' : Web} {i : ℕ}

theorem Aside.main_eq_iff (h : Aside s s' i) {pc : WebPc} (hpc : pc.onFile = some i) :
    s'.main = pc ↔ s.main = pc := by
  rcases h.main with hsame | ⟨hbefore, hafter⟩
  · rw [hsame]
  · constructor
    · intro heq
      exact absurd (heq ▸ hpc) hafter
    · intro heq
      exact absurd (heq ▸ hpc) hbefore

theorem Aside.fileInv (h : Aside s s' i) (hinv : FileInv s i) : FileInv s' i := by
  have hmain {pc : WebPc} (hpc : pc.onFile = some i) : s'.main = pc ↔ s.main = pc := h.main_eq_iff hpc
  constructor
  · rw [h.flags, h.get]
    exact hinv.fits
  · rw [h.flags, h.get, hmain rfl]
    exact hinv.create
  · rw [h.flags, hmain rfl]
    exact hinv.chosen
  · rw [h.flags, hmain rfl]
    exact hinv.begun
  · rw [h.flags, h.tid, Ne, Ne, Ne, hmain rfl, hmain rfl]
    exact hinv.tid
  · rw [h.flags, hmain rfl, hmain rfl]
    exact hinv.done
  · rw [h.get, hmain rfl]
    exact hinv.ended
  · rw [h.flags, hmain rfl]
    exact hinv.decr

theorem Aside.connected (h : Aside s s' i) : s.Connected i ↔ s'.Connected i := by
  have hcreate : s'.main = .create i ↔ s.main = .create i := h.main_eq_iff rfl
  have hsetTid : s'.main = .setTid i ↔ s.main = .setTid i := h.main_eq_iff rfl
  have hdecr : s'.main = .decr i ↔ s.main = .decr i := h.main_eq_iff rfl
  simp only [Web.Connected, ne_eq, h.flags, hcreate, hsetTid, hdecr]

theorem Aside.pending (h : Aside s s' i) : s.Pending i ↔ s'.Pending i := by
  unfold Web.Pending
  rw [h.flags, h.get, h.main_eq_iff rfl]

theorem Aside.low (h : Aside s s' i) {nfiles : ℕ} (hlow : s.flags i ≠ .none ∨ s.main = .setConnecting i → i < nfiles) :
    s'.flags i ≠ .none ∨ s'.main = .setConnecting i → i < nfiles := by
  rw [h.flags, h.main_eq_iff rfl]
  exact hlow

end Aside

section Steps

variable {nfiles : ℕ} {maxnconn : ℤ} {s s' : Web}

theorem WebInv.aside (h : WebInv nfiles maxnconn s) (haside : ∀ i, Aside s s' i) (hndone : s'.ndone = s.ndone)
    (hnconn : s'.nconn = s.nconn) (hfilling : s'.main.filling → s.nconn < maxnconn) :
    WebInv nfiles maxnconn s' := by
  refine ⟨fun i => (haside i).fileInv (h.file i), fun i => (haside i).low (h.low i), ?_, ?_, ?_, ?_⟩
  · rw [hndone, h.ndone, count_congr fun i _ => (haside i).pending]
  · rw [hnconn, h.nconn, count_congr fun i _ => (haside i).connected]
  · rw [hnconn]
    exact hfilling
  · rw [hnconn]
    exact h.bound

theorem WebInv.onFile (h : WebInv nfiles maxnconn s) {j : ℕ} (hj : j < nfiles) (haside : ∀ i ≠ j, Aside s s' i)
    (hfile : FileInv s' j)
    (hndone : s'.ndone = s.ndone + ((if s'.Pending j then 1 else 0) - if s.Pending j then 1 else 0))
    (hnconn : s'.nconn = s.nconn + ((if s'.Connected j then 1 else 0) - if s.Connected j then 1 else 0))
    (hfilling : s'.main.filling → s'.nconn < maxnconn) (hbound : s'.nconn ≤ max maxnconn 0) :
    WebInv nfiles maxnconn s' := by
  refine ⟨fun i => ?_, fun i => ?_, ?_, ?_, hfilling, hbound⟩
  · by_cases hij : i = j
    · rw [hij]
      exact hfile
    · exact (haside i hij).fileInv (h.file i)
  · by_cases hij : i = j
    · rw [hij]
      exact fun _ => hj
    · exact (haside i hij).low (h.low i)
  · rw [hndone, h.ndone, count_change hj fun i hij => (haside i hij).pending]
  · rw [hnconn, h.nconn, count_change hj fun i hij => (haside i hij).connected]

theorem WebInv.fresh (hflags : ∀ i, s.flags i = .none) (hget : ∀ i, s.get i = .unborn) (hndone : s.ndone = 0)
    (hnconn : s.nconn = 0) (hmain : s.main.onFile = none) (hfilling : s.main.filling = false) :
    WebInv nfiles maxnconn s := by
  have hidle {i : ℕ} {pc : WebPc} (hpc : pc.onFile = some i) : s.main ≠ pc := by
    rintro rfl
    simp [hmain] at hpc
  have hpending : ∀ i < nfiles, ¬ s.Pending i := by
    intro i _
    simp [Web.Pending, hget, GetPc.counted]
  have hconnected : ∀ i < nfiles, ¬ s.Connected i := by
    intro i _
    have hdecr : s.main ≠ .decr i := hidle rfl
    simp [Web.Connected, hflags, hdecr]
  refine ⟨fun i => ?_, fun i hi => ?_, ?_, ?_, ?_, ?_⟩
  · constructor
    · simp [hflags, hget, FileFlags.Fits]
    all_goals grind [WebPc.onFile]
  · rcases hi with hi | hi
    · exact absurd (hflags i) hi
    · exact absurd hi (hidle rfl)
  · rw [hndone, Nat.count_iff_forall_not.mpr hpending]
    rfl
  · rw [hnconn, Nat.count_iff_forall_not.mpr hconnected]
    rfl
  · simp [hfilling]
  · rw [hnconn]
    exact le_max_right _ _

theorem webInv_start (nargs : ℕ) : WebInv nfiles maxnconn (webStart nargs) := by
  apply WebInv.fresh (fun _ => rfl) (fun _ => rfl) rfl rfl
  · by_cases h : nargs < 1
    · simp only [webStart, if_pos h, WebPc.onFile]
    · simp only [webStart, if_neg h, WebPc.onFile]
  · by_cases h : nargs < 1
    · simp only [webStart, if_pos h, WebPc.filling]
    · simp only [webStart, if_neg h, WebPc.filling]

theorem WebInv.mainAside (h : WebInv nfiles maxnconn s) (main : WebPc) (mon : Monitor WebThread Unit)
    (hpc : s.main.onFile = none) (hmain : main.onFile = none) (hfilling : main.filling → s.nconn < maxnconn) :
    WebInv nfiles maxnconn { s with main := main, mon := mon } := by
  apply WebInv.aside h
  · intro i
    exact ⟨rfl, rfl, rfl, .inr ⟨by simp [hpc], by simp [hmain]⟩⟩
  · rfl
  · rfl
  · exact hfilling

theorem webInv_find (h : WebInv nfiles maxnconn s) {i : ℕ} (hpc : s.main = .find i) :
    WebInv nfiles maxnconn (findFile nfiles s i) := by
  have hfill := h.filling (by simp [hpc, WebPc.filling])
  unfold findFile
  by_cases hi : i < nfiles
  · rw [if_pos hi]
    by_cases hflags : s.flags i = .none
    · have hinv := h.file i
      rw [if_pos hflags]
      apply h.onFile hi
      · intro j hj
        exact ⟨rfl, rfl, rfl, .inr ⟨by simp [hpc, WebPc.onFile], by simp [WebPc.onFile, Ne.symm hj]⟩⟩
      · constructor <;> grind [FileInv]
      · simp [Web.Pending, hpc, hflags]
      · simp [Web.Connected, hpc, hflags]
      · exact fun _ => hfill
      · exact h.bound
    · rw [if_neg hflags]
      exact h.mainAside _ s.mon (by simp [hpc, WebPc.onFile]) rfl fun _ => hfill
  · rw [if_neg hi]
    exact h.mainAside _ s.mon (by simp [hpc, WebPc.onFile]) rfl fun _ => hfill

theorem webInv_setConnecting (h : WebInv nfiles maxnconn s) {i : ℕ} (hpc : s.main = .setConnecting i) :
    WebInv nfiles maxnconn ({ s with main := .create i }.setFlags i .connecting) := by
  have hinv := h.file i
  have hflags := hinv.chosen hpc
  have hget : s.get i = .unborn := by
    have hfits := hinv.fits
    rw [hflags] at hfits
    cases hg : s.get i <;> simp_all [FileFlags.Fits]
  apply h.onFile (h.low i (.inr hpc))
  · intro j hj
    refine ⟨by simp [Web.setFlags, hj], rfl, rfl, .inr ⟨?_, ?_⟩⟩
    · simp [hpc, WebPc.onFile, Ne.symm hj]
    · simp [Web.setFlags, WebPc.onFile, Ne.symm hj]
  · constructor <;> simp [Web.setFlags, hget, FileFlags.Fits]
  · simp [Web.Pending, Web.setFlags, hget, GetPc.counted]
  · simp [Web.Connected, Web.setFlags, hpc, hflags]
  · exact fun _ => h.filling (by simp [hpc, WebPc.filling])
  · exact h.bound

theorem webInv_create (h : WebInv nfiles maxnconn s) {i : ℕ} (hpc : s.main = .create i) :
    WebInv nfiles maxnconn ({ s with main := .setTid i }.setGet i .connect) := by
  obtain ⟨hflags, hget⟩ := (h.file i).create.mpr hpc
  apply h.onFile (h.low i (.inl (by simp [hflags])))
  · intro j hj
    refine ⟨rfl, by simp [Web.setGet, hj], rfl, .inr ⟨?_, ?_⟩⟩
    · simp [hpc, WebPc.onFile, Ne.symm hj]
    · simp [Web.setGet, WebPc.onFile, Ne.symm hj]
  · constructor <;> simp [Web.setGet, hflags, FileFlags.Fits]
  · simp [Web.Pending, Web.setGet, hget, GetPc.counted]
  · simp [Web.Connected, Web.setGet, hpc]
  · exact fun _ => h.filling (by simp [hpc, WebPc.filling])
  · exact h.bound

theorem webInv_setTid (h : WebInv nfiles maxnconn s) {i : ℕ} (hpc : s.main = .setTid i) :
    WebInv nfiles maxnconn (setTid s i) := by
  have hinv := h.file i
  obtain ⟨hflags, hjoined⟩ := hinv.begun hpc
  have hcreate := hinv.create
  have hfill := h.filling (by simp [hpc, WebPc.filling])
  apply h.onFile (h.low i (.inl hflags))
  · intro j hj
    refine ⟨rfl, rfl, by simp [setTid, hj], .inr ⟨?_, ?_⟩⟩
    · simp [hpc, WebPc.onFile, Ne.symm hj]
    · simp [setTid, WebPc.onFile]
  · rw [hpc] at hcreate
    constructor <;> simp_all [setTid, hinv.fits]
  · simp [Web.Pending, setTid, hpc]
  · simp [Web.Connected, setTid, hpc, hflags, hjoined]
  · simp [setTid, WebPc.filling]
  · simp only [setTid]
    omega

theorem webInv_testDone (h : WebInv nfiles maxnconn s) (hpc : s.main = .testDone) :
    WebInv nfiles maxnconn (testDone s) := by
  unfold testDone
  by_cases hndone : s.ndone = 0
  · rw [if_pos hndone]
    exact h.mainAside _ _ (by simp [hpc, WebPc.onFile]) rfl (by simp [WebPc.filling])
  · rw [if_neg hndone]
    exact h.mainAside _ s.mon (by simp [hpc, WebPc.onFile]) rfl (by simp [WebPc.filling])

theorem webInv_scan (h : WebInv nfiles maxnconn s) {i : ℕ} (hpc : s.main = .scan i) :
    WebInv nfiles maxnconn (scanFile nfiles s i) := by
  have hinv := h.file i
  unfold scanFile
  by_cases hi : i < nfiles
  · rw [if_pos hi]
    by_cases hflags : s.flags i = .done
    · rw [if_pos hflags]
      apply h.onFile hi
      · intro j hj
        exact ⟨rfl, rfl, rfl, .inr ⟨by simp [hpc, WebPc.onFile], by simp [WebPc.onFile, Ne.symm hj]⟩⟩
      · constructor <;> grind [FileInv]
      · simp [Web.Pending, hpc, hflags]
      · simp [Web.Connected, hpc, hflags]
      · simp [WebPc.filling]
      · exact h.bound
    · rw [if_neg hflags]
      exact h.mainAside _ s.mon (by simp [hpc, WebPc.onFile]) rfl (by simp [WebPc.filling])
  · rw [if_neg hi]
    exact h.mainAside _ s.mon (by simp [hpc, WebPc.onFile]) rfl (by simp [WebPc.filling])

theorem tid_of_join (h : WebInv nfiles maxnconn s) {i : ℕ} (hpc : s.main = .join i) : s.tid i = some i := by
  have hinv := h.file i
  have hflags := hinv.done (.inl hpc)
  exact hinv.tid (by simp [hflags]) (by simp [hpc]) (by simp [hpc])

theorem webInv_join (h : WebInv nfiles maxnconn s) {i : ℕ} (hpc : s.main = .join i) (hjoin : Joinable s i) :
    WebInv nfiles maxnconn (joinThread s i) := by
  have hinv := h.file i
  have hflags := hinv.done (.inl hpc)
  have htid := tid_of_join h hpc
  have hended := hjoin i (by simp [htid])
  have hstep : joinThread s i = { s with main := .setJoined i } := by simp [joinThread, htid]
  rw [hstep]
  apply h.onFile (h.low i (.inl (by simp [hflags])))
  · intro j hj
    refine ⟨rfl, rfl, rfl, .inr ⟨?_, ?_⟩⟩
    · simp [hpc, WebPc.onFile, Ne.symm hj]
    · simp [WebPc.onFile, Ne.symm hj]
  · constructor <;> grind [FileInv]
  · simp [Web.Pending, hpc, hflags]
  · simp [Web.Connected, hpc, hflags]
  · simp [WebPc.filling]
  · exact h.bound

theorem webInv_setJoined (h : WebInv nfiles maxnconn s) {i : ℕ} (hpc : s.main = .setJoined i) :
    WebInv nfiles maxnconn ({ s with main := .decr i }.setFlags i .joined) := by
  have hinv := h.file i
  have hflags := hinv.done (.inr hpc)
  have hended := hinv.ended hpc
  have htid := hinv.tid (by simp [hflags]) (by simp [hpc]) (by simp [hpc])
  apply h.onFile (h.low i (.inl (by simp [hflags])))
  · intro j hj
    refine ⟨by simp [Web.setFlags, hj], rfl, rfl, .inr ⟨?_, ?_⟩⟩
    · simp [hpc, WebPc.onFile, Ne.symm hj]
    · simp [Web.setFlags, WebPc.onFile, Ne.symm hj]
  · constructor <;> simp [Web.setFlags, hended, htid, FileFlags.Fits]
  · simp [Web.Pending, Web.setFlags, hended, hflags]
  · simp [Web.Connected, Web.setFlags, hpc, hflags]
  · simp [Web.setFlags, WebPc.filling]
  · exact h.bound

theorem webInv_decr (h : WebInv nfiles maxnconn s) {i : ℕ} (hpc : s.main = .decr i) :
    WebInv nfiles maxnconn (decrDone s i) := by
  have hinv := h.file i
  have hflags := hinv.decr hpc
  have hended : s.get i = .ended := by
    have hfits := hinv.fits
    rw [hflags] at hfits
    cases hg : s.get i <;> simp_all [FileFlags.Fits]
  have htid := hinv.tid (by simp [hflags]) (by simp [hpc]) (by simp [hpc])
  have hbound := h.bound
  apply h.onFile (h.low i (.inl (by simp [hflags])))
  · intro j hj
    refine ⟨rfl, rfl, rfl, .inr ⟨?_, ?_⟩⟩
    · simp [hpc, WebPc.onFile, Ne.symm hj]
    · simp [decrDone, WebPc.onFile]
  · constructor <;> simp [decrDone, hflags, hended, htid, FileFlags.Fits]
  · simp [Web.Pending, decrDone, hended, hflags, hpc, GetPc.counted]
    omega
  · simp [Web.Connected, decrDone, hpc, hflags]
    omega
  · simp [decrDone, WebPc.filling]
  · simp only [decrDone]
    omega

theorem flags_of_running {i : ℕ} (h : FileInv s i) (hborn : s.get i ≠ .unborn) (hended : s.get i ≠ .ended) :
    s.flags i ≠ .none ∧ s.flags i ≠ .joined := by
  have hfits := h.fits
  cases hg : s.get i <;> cases hf : s.flags i <;> simp_all [FileFlags.Fits]

theorem born_of_fits {flags : FileFlags} {pc : GetPc} (h : flags.Fits pc) (hpc : pc ≠ .unborn) : flags ≠ .none := by
  cases pc <;> cases flags <;> simp_all [FileFlags.Fits]

theorem WebInv.getMove (h : WebInv nfiles maxnconn s) {i : ℕ} (flags : FileFlags) (pc : GetPc) (ndone : ℤ)
    (mon : Monitor WebThread Unit) (hborn : s.get i ≠ .unborn) (hended : s.get i ≠ .ended) (hpc : pc ≠ .unborn)
    (hfits : flags.Fits pc) (hjoined : flags ≠ .joined) (hdone : s.flags i = .done → flags = .done)
    (hndone : ndone = s.ndone + ((if pc.counted then 1 else 0) - if (s.get i).counted then 1 else 0)) :
    WebInv nfiles maxnconn (({ s with ndone := ndone, mon := mon }.setFlags i flags).setGet i pc) := by
  have hinv := h.file i
  have hnone := born_of_fits hfits hpc
  obtain ⟨hnone', hjoined'⟩ := flags_of_running hinv hborn hended
  have hcreate : s.main ≠ .create i := fun hm => hborn (hinv.create.mpr hm).2
  apply h.onFile (h.low i (.inl hnone'))
  · intro j hj
    exact ⟨by simp [Web.setFlags, Web.setGet, hj], by simp [Web.setFlags, Web.setGet, hj], rfl, .inl rfl⟩
  · constructor
    · simpa [Web.setFlags, Web.setGet] using hfits
    · simp [Web.setFlags, Web.setGet, hpc, hcreate]
    · intro hm
      exact absurd (hinv.chosen hm) hnone'
    · simp [Web.setFlags, Web.setGet, hnone, hjoined]
    · intro _ hm hm'
      exact hinv.tid hnone' hm hm'
    · intro hm
      simpa [Web.setFlags, Web.setGet] using hdone (hinv.done hm)
    · intro hm
      exact absurd (hinv.ended hm) hended
    · intro hm
      exact absurd (hinv.decr hm) hjoined'
  · simp [Web.Pending, Web.setFlags, Web.setGet, hjoined, hjoined', hndone]
  · simp [Web.Connected, Web.setFlags, Web.setGet, hnone, hjoined, hnone', hjoined']
  · exact h.filling
  · exact h.bound

theorem WebInv.getStep (h : WebInv nfiles maxnconn s) {i : ℕ} (pc : GetPc) (ndone : ℤ)
    (mon : Monitor WebThread Unit) (hborn : s.get i ≠ .unborn) (hended : s.get i ≠ .ended) (hpc : pc ≠ .unborn)
    (hfits : ∀ flags : FileFlags, flags.Fits (s.get i) → flags.Fits pc)
    (hndone : ndone = s.ndone + ((if pc.counted then 1 else 0) - if (s.get i).counted then 1 else 0)) :
    WebInv nfiles maxnconn ({ s with ndone := ndone, mon := mon }.setGet i pc) := by
  have hinv := h.file i
  obtain ⟨-, hjoined⟩ := flags_of_running hinv hborn hended
  have hmove := h.getMove (s.flags i) pc ndone mon hborn hended hpc (hfits _ hinv.fits) hjoined id hndone
  simpa [Web.setFlags] using hmove

theorem webInv_getNext (h : WebInv nfiles maxnconn s) (i : ℕ) : WebInv nfiles maxnconn (getNext s i) := by
  unfold getNext
  cases hpc : s.get i with
  | unborn | read | signal | ended => exact h
  | connect =>
    apply h.getStep .writeGetCmd s.ndone s.mon (by simp [hpc]) (by simp [hpc]) (by simp)
    · intro flags
      cases flags <;> simp [hpc, FileFlags.Fits]
    · simp [hpc, GetPc.counted]
  | writeGetCmd =>
    have hfits := (h.file i).fits
    apply h.getMove .reading .read s.ndone s.mon (by simp [hpc]) (by simp [hpc]) (by simp) rfl (by simp)
    · intro hdone
      simp [hpc, hdone, FileFlags.Fits] at hfits
    · simp [hpc, GetPc.counted]
  | setDone =>
    apply h.getMove .done .locking s.ndone s.mon (by simp [hpc]) (by simp [hpc]) (by simp) rfl (by simp)
    · simp
    · simp [hpc, GetPc.counted]
  | locking =>
    apply h.getStep .count s.ndone _ (by simp [hpc]) (by simp [hpc]) (by simp)
    · intro flags
      cases flags <;> simp [hpc, FileFlags.Fits]
    · simp [hpc, GetPc.counted]
  | count =>
    apply h.getStep .signal _ s.mon (by simp [hpc]) (by simp [hpc]) (by simp)
    · intro flags
      cases flags <;> simp [hpc, FileFlags.Fits]
    · simp [hpc, GetPc.counted]
  | unlock =>
    apply h.getStep .ended s.ndone _ (by simp [hpc]) (by simp [hpc]) (by simp)
    · intro flags
      cases flags <;> simp [hpc, FileFlags.Fits]
    · simp [hpc, GetPc.counted]

theorem webInv_mainNext (h : WebInv nfiles maxnconn s) (ha : WebMainEnabled s s.main) :
    WebInv nfiles maxnconn (webMainNext nfiles maxnconn s) := by
  unfold webMainNext
  cases hpc : s.main with
  | loop =>
    apply h.mainAside _ s.mon (by simp [hpc, WebPc.onFile])
    · by_cases hleft : 0 < s.nlefttoread
      · simp only [if_pos hleft, WebPc.onFile]
      · simp only [if_neg hleft, WebPc.onFile]
    · by_cases hleft : 0 < s.nlefttoread
      · simp [if_pos hleft, WebPc.filling]
      · simp [if_neg hleft, WebPc.filling]
  | fill =>
    apply h.mainAside _ s.mon (by simp [hpc, WebPc.onFile])
    · by_cases hroom : s.nconn < maxnconn ∧ 0 < s.nlefttoconn
      · simp only [if_pos hroom, WebPc.onFile]
      · simp only [if_neg hroom, WebPc.onFile]
    · by_cases hroom : s.nconn < maxnconn ∧ 0 < s.nlefttoconn
      · exact fun _ => hroom.1
      · simp [if_neg hroom, WebPc.filling]
  | find i => exact webInv_find h hpc
  | setConnecting i => exact webInv_setConnecting h hpc
  | create i => exact webInv_create h hpc
  | setTid i => exact webInv_setTid h hpc
  | lock => exact h.mainAside _ _ (by simp [hpc, WebPc.onFile]) rfl (by simp [WebPc.filling])
  | testDone => exact webInv_testDone h hpc
  | waiting => exact h.mainAside _ _ (by simp [hpc, WebPc.onFile]) rfl (by simp [WebPc.filling])
  | scan i => exact webInv_scan h hpc
  | join i =>
    rw [hpc] at ha
    exact webInv_join h hpc ha
  | setJoined i => exact webInv_setJoined h hpc
  | decr i => exact webInv_decr h hpc
  | unlock => exact h.mainAside _ _ (by simp [hpc, WebPc.onFile]) rfl (by simp [WebPc.filling])
  | exited | quit => exact h

theorem webInv_webNext (h : WebInv nfiles maxnconn s) {a : WebAction} (ha : WebReady s a) :
    WebInv nfiles maxnconn (webNext nfiles maxnconn s a) ∨
      (webNext nfiles maxnconn s a).main = .quit ∧ (webNext nfiles maxnconn s a).ndone = s.ndone := by
  cases a with
  | main => exact .inl (webInv_mainNext h ha)
  | get i => exact .inl (webInv_getNext h i)
  | read i n =>
    left
    simp only [webNext]
    by_cases hn : n = 0
    · rw [if_pos hn]
      have hpc : s.get i = .read := ha
      apply h.getStep .setDone s.ndone s.mon (by simp [hpc]) (by simp [hpc]) (by simp)
      · intro flags
        cases flags <;> simp [hpc, FileFlags.Fits]
      · simp [hpc, GetPc.counted]
    · rw [if_neg hn]
      exact h
  | signal i woken =>
    have hpc := ha.1
    left
    apply h.getStep .unlock s.ndone _ (by simp [hpc]) (by simp [hpc]) (by simp)
    · intro flags
      cases flags <;> simp [hpc, FileFlags.Fits]
    · simp [hpc, GetPc.counted]
  | fail i => exact .inr ⟨rfl, rfl⟩
  | wakeup => exact .inl (h.aside (fun i => ⟨rfl, rfl, rfl, .inl rfl⟩) rfl rfl h.filling)

/-! ### One thread at a time -/

/-- `main` looks for threads to join. -/
def WebPc.scanning : WebPc → Bool
  | .scan _ | .join _ | .setJoined _ | .decr _ => true
  | .loop | .fill | .find _ | .setConnecting _ | .create _ | .setTid _ | .lock | .testDone | .waiting | .unlock
  | .exited | .quit => false

/-- Every thread that was started has counted itself. -/
def AllCounted (s : Web) : Prop := ∀ i, s.get i ≠ .unborn → (s.get i).counted

theorem AllCounted.setGet (h : AllCounted s) {i : ℕ} {pc : GetPc} (hpc : pc.counted) : AllCounted (s.setGet i pc) := by
  intro j hj
  by_cases hji : j = i
  · simpa [Web.setGet, hji] using hpc
  · have hsame : (s.setGet i pc).get j = s.get j := by simp [Web.setGet, hji]
    rw [hsame] at hj ⊢
    exact h j hj

theorem AllCounted.getNext (h : AllCounted s) (i : ℕ) : AllCounted (getNext s i) := by
  have hi := h i
  unfold Threads.getNext
  cases hpc : s.get i with
  | unborn | read | signal | ended => exact h
  | connect | writeGetCmd | setDone | locking | count => simp [hpc, GetPc.counted] at hi
  | unlock => exact AllCounted.setGet h rfl

theorem Web.Pending.connected (h : WebInv nfiles maxnconn s) {i : ℕ} (hi : s.Pending i) (hpc : s.main.onFile = none) :
    s.Connected i := by
  obtain ⟨hcounted, hjoined⟩ := hi
  have hborn : s.get i ≠ .unborn := by
    intro hget
    simp [hget, GetPc.counted] at hcounted
  refine .inl ⟨born_of_fits (h.file i).fits hborn, fun hflags => ?_, ?_, ?_⟩
  · simp [hjoined hflags, WebPc.onFile] at hpc
  · intro hm
    simp [hm, WebPc.onFile] at hpc
  · intro hm
    simp [hm, WebPc.onFile] at hpc

/-- With one connection at most, `main` finds `ndone > 0` only if no other thread runs. -/
theorem allCounted_of_ndone (h : WebInv nfiles maxnconn s) (hone : nfiles ≤ 1 ∨ maxnconn ≤ 1)
    (hpc : s.main = .testDone) (hndone : s.ndone ≠ 0) : AllCounted s := by
  have hle : Nat.count s.Connected nfiles ≤ 1 := by
    have hcount := Nat.count_le (p := s.Connected) (n := nfiles)
    have hnconn := h.nconn
    have hbound := h.bound
    omega
  have hne : Nat.count s.Pending nfiles ≠ 0 := by
    have hcount := h.ndone
    omega
  obtain ⟨k, hk, hpending⟩ := Nat.count_ne_iff_exists.mp hne
  have hkconn := hpending.connected h (by simp [hpc, WebPc.onFile])
  intro i hborn
  by_contra hnot
  have hended : s.get i ≠ .ended := by
    intro hget
    simp [hget, GetPc.counted] at hnot
  obtain ⟨hnone, hjoined⟩ := flags_of_running (h.file i) hborn hended
  have hiconn : s.Connected i := .inl ⟨hnone, hjoined, by simp [hpc], by simp [hpc]⟩
  have hik := eq_of_count_le_one hle (h.low i (.inl hnone)) hk hiconn hkconn
  rw [hik] at hnot
  exact hnot hpending.1

theorem allCounted_mainNext (h : WebInv nfiles maxnconn s) (hone : nfiles ≤ 1 ∨ maxnconn ≤ 1)
    (hscan : s.main.scanning → AllCounted s) (hnext : (webMainNext nfiles maxnconn s).main.scanning) :
    AllCounted (webMainNext nfiles maxnconn s) := by
  unfold webMainNext at hnext ⊢
  cases hpc : s.main with
  | testDone =>
    simp only [hpc, testDone] at hnext ⊢
    by_cases hndone : s.ndone = 0
    · simp [if_pos hndone, WebPc.scanning] at hnext
    · have hall : AllCounted s := allCounted_of_ndone h hone hpc hndone
      rw [if_neg hndone]
      exact hall
  | join i =>
    have hall := hscan (by simp [hpc, WebPc.scanning])
    simp only [joinThread]
    cases s.tid i with
    | none => exact hall
    | some t => exact hall
  | scan i | setJoined i | decr i => exact hscan (by simp [hpc, WebPc.scanning])
  | loop | fill | find i | setConnecting i | create i | setTid i | lock | waiting | unlock | exited | quit =>
    simp only [hpc] at hnext
    grind [WebPc.scanning, loopTest, fillTest, findFile, setTid, Web.setFlags, Web.setGet]

theorem main_getNext (s : Web) (i : ℕ) : (getNext s i).main = s.main := by
  unfold getNext
  cases s.get i <;> rfl

theorem allCounted_webNext (h : WebInv nfiles maxnconn s) (hone : nfiles ≤ 1 ∨ maxnconn ≤ 1)
    (hscan : s.main.scanning → AllCounted s) {a : WebAction} (ha : WebReady s a)
    (hnext : (webNext nfiles maxnconn s a).main.scanning) : AllCounted (webNext nfiles maxnconn s a) := by
  cases a with
  | main => exact allCounted_mainNext h hone hscan hnext
  | get i =>
    rw [webNext, main_getNext] at hnext
    exact (hscan hnext).getNext i
  | read i n =>
    have hpc : s.get i = .read := ha
    simp only [webNext] at hnext ⊢
    by_cases hn : n = 0
    · rw [if_pos hn] at hnext
      have hi := hscan hnext i
      simp [hpc, GetPc.counted] at hi
    · rw [if_neg hn] at hnext ⊢
      exact hscan hnext
  | signal i woken => exact AllCounted.setGet (hscan hnext) rfl
  | fail i => simp [webNext, WebPc.scanning] at hnext
  | wakeup => exact hscan hnext

theorem web03_ndone {nargs : ℕ} (h : (web03 nargs maxnconn).Reachable s) : 0 ≤ s.ndone := by
  have hinv : WebInv (min nargs MAXFILES) maxnconn s ∨ s.main = .quit ∧ 0 ≤ s.ndone := by
    refine TransitionSystem.invariant
      (P := fun s => WebInv (min nargs MAXFILES) maxnconn s ∨ s.main = .quit ∧ 0 ≤ s.ndone) ?_ ?_ h
    · intro s hs
      rw [hs]
      exact .inl (webInv_start nargs)
    · intro s s' _ hinv hstep
      obtain ⟨a, ⟨hlive, ha⟩, rfl⟩ := hstep
      rcases hinv with hinv | ⟨hquit, -⟩
      · rcases webInv_webNext hinv ha with hnext | ⟨hquit, hsame⟩
        · exact .inl hnext
        · have hndone := hinv.ndone
          exact .inr ⟨hquit, by omega⟩
      · exact absurd hquit hlive.2
  rcases hinv with hinv | ⟨-, hndone⟩
  · have hndone := hinv.ndone
    omega
  · exact hndone

theorem web03_no_deadlock {nargs : ℕ} (hone : min nargs MAXFILES ≤ 1 ∨ maxnconn ≤ 1)
    (h : (web03 nargs maxnconn).Reachable s) : ¬ JoinDeadlock s := by
  have hinv : WebInv (min nargs MAXFILES) maxnconn s ∧ (s.main.scanning → AllCounted s) ∨ s.main = .quit := by
    refine TransitionSystem.invariant (P := fun s => WebInv (min nargs MAXFILES) maxnconn s ∧
      (s.main.scanning → AllCounted s) ∨ s.main = .quit) ?_ ?_ h
    · intro s hs
      rw [hs]
      refine .inl ⟨webInv_start nargs, fun _ i hi => absurd rfl hi⟩
    · intro s s' _ hinv hstep
      obtain ⟨a, ⟨hlive, ha⟩, rfl⟩ := hstep
      rcases hinv with ⟨hinv, hscan⟩ | hquit
      · rcases webInv_webNext hinv ha with hnext | ⟨hquit, -⟩
        · exact .inl ⟨hnext, allCounted_webNext hinv hone hscan ha⟩
        · exact .inr hquit
      · exact absurd hquit hlive.2
  rintro ⟨i, t, hpc, -, -, hlocking⟩
  rcases hinv with ⟨-, hscan⟩ | hquit
  · have ht := hscan (by simp [hpc, WebPc.scanning]) t
    simp [hlocking, GetPc.counted] at ht
  · simp [hquit] at hpc

end Steps

/-! ### Two threads -/

section Deadlock

variable {nargs : ℕ} {maxnconn : ℤ} {s : Web}

theorem reachable_main (h : (web03 nargs maxnconn).Reachable s) (ha : WebMainEnabled s s.main) :
    (web03 nargs maxnconn).Reachable (webMainNext (min nargs MAXFILES) maxnconn s) := by
  have hready : WebReady s .main := ha
  refine h.action (a := .main) ⟨⟨?_, ?_⟩, hready⟩
  · intro hpc
    simp [hpc, WebMainEnabled] at ha
  · intro hpc
    simp [hpc, WebMainEnabled] at ha

theorem reachable_get (h : (web03 nargs maxnconn).Reachable s) (hlive : s.main = .lock) {i : ℕ}
    (ha : GetEnabled s (s.get i)) : (web03 nargs maxnconn).Reachable (getNext s i) := by
  have hready : WebReady s (.get i) := ha
  exact h.action (a := .get i) ⟨by simp [hlive], hready⟩

/-- `main` has started the threads of the first `m` files. -/
def started (nfiles m : ℕ) (main : WebPc) : Web where
  flags i := if i < m then .connecting else .none
  tid i := if i < m then some i else none
  ndone := 0
  nconn := m
  nlefttoconn := nfiles - m
  nlefttoread := nfiles
  mon := .free
  main := main
  get i := if i < m then .connect else .unborn

theorem update_below {α : Type} (m : ℕ) (a : ℕ → α) (b : α) :
    Function.update (fun i => if i < m then a i else b) m (a m) = fun i => if i < m + 1 then a i else b := by
  funext i
  by_cases him : i = m
  · simp [him]
  · have hiff : i < m ↔ i < m + 1 := by omega
    simp [him, hiff]

theorem reachable_find {m : ℕ} (hm : m < min nargs MAXFILES)
    (h : (web03 nargs maxnconn).Reachable (started (min nargs MAXFILES) m (.find 0))) {k : ℕ} (hk : k ≤ m) :
    (web03 nargs maxnconn).Reachable (started (min nargs MAXFILES) m (.find k)) := by
  induction k with
  | zero => exact h
  | succ k ih =>
    have hkm : k < m := by omega
    have hkn : k < min nargs MAXFILES := by omega
    have hstep := reachable_main (ih (by omega)) (by simp [started, WebMainEnabled])
    simpa [webMainNext, findFile, started, hkm, hkn] using hstep

theorem reachable_startNext {m : ℕ} (hm : m < min nargs MAXFILES) (hmax : (m : ℤ) < maxnconn)
    (h : (web03 nargs maxnconn).Reachable (started (min nargs MAXFILES) m .fill)) :
    (web03 nargs maxnconn).Reachable (started (min nargs MAXFILES) (m + 1) .fill) := by
  have hleft : (0 : ℤ) < (min nargs MAXFILES : ℕ) - (m : ℤ) := by omega
  have hfind : (web03 nargs maxnconn).Reachable (started (min nargs MAXFILES) m (.find 0)) := by
    have hstep := reachable_main h (by simp [started, WebMainEnabled])
    simpa only [webMainNext, fillTest, started, hmax, hleft, and_self, if_true] using hstep
  have hchosen := reachable_main (reachable_find hm hfind le_rfl) (by simp [started, WebMainEnabled])
  have hmark := reachable_main hchosen (by simp [webMainNext, findFile, started, hm, WebMainEnabled])
  have hcreate := reachable_main hmark
    (by simp [webMainNext, findFile, started, hm, Web.setFlags, WebMainEnabled])
  have htid := reachable_main hcreate
    (by simp [webMainNext, findFile, started, hm, Web.setFlags, Web.setGet, WebMainEnabled])
  have hflags := update_below m (fun _ => FileFlags.connecting) .none
  have htids := update_below m some none
  have hgets := update_below m (fun _ => GetPc.connect) .unborn
  have hnconn : ((m + 1 : ℕ) : ℤ) = m + 1 := by omega
  simp only [started, hnconn, ← Int.sub_sub]
  simpa only [webMainNext, findFile, setTid, started, hm, lt_irrefl, if_true, if_false, Web.setFlags, Web.setGet,
    hflags, htids, hgets] using htid

theorem webStart_eq (hpos : 1 ≤ nargs) : webStart nargs = started (min nargs MAXFILES) 0 .loop := by
  have hmain : ¬ nargs < 1 := by omega
  simp [webStart, started, hmain]

theorem reachable_started {m : ℕ} (hpos : 1 ≤ nargs) (hm : m ≤ min nargs MAXFILES) (hmax : (m : ℤ) ≤ maxnconn) :
    (web03 nargs maxnconn).Reachable (started (min nargs MAXFILES) m .fill) := by
  induction m with
  | zero =>
    have h₀ : (web03 nargs maxnconn).Reachable (started (min nargs MAXFILES) 0 .loop) := by
      rw [← webStart_eq hpos]
      exact TransitionSystem.reachable_init rfl
    have hstep := reachable_main h₀ (by simp [started, WebMainEnabled])
    have hread : (0 : ℤ) < (min nargs MAXFILES : ℕ) := by
      simp only [MAXFILES]
      omega
    simpa only [webMainNext, loopTest, started, hread, if_true] using hstep
  | succ m ih => exact reachable_startNext (by omega) (by omega) (ih (by omega) (by omega))

theorem reachable_done (h : (web03 nargs maxnconn).Reachable s) (hlive : s.main = .lock) {i : ℕ}
    (hget : s.get i = .connect) : (web03 nargs maxnconn).Reachable ((s.setFlags i .done).setGet i .locking) := by
  have hconnect := reachable_get (i := i) h hlive (by simp [hget, GetEnabled])
  have hwrite := reachable_get (i := i) hconnect (by simp [getNext, hget, Web.setGet, hlive])
    (by simp [getNext, hget, Web.setGet, GetEnabled])
  have hread : (web03 nargs maxnconn).Reachable ((s.setFlags i .reading).setGet i .read) := by
    simpa [getNext, hget, Web.setGet, Web.setFlags] using hwrite
  have hready : WebReady ((s.setFlags i .reading).setGet i .read) (.read i 0) := by
    simp [WebReady, Web.setGet]
  have heof := hread.action ⟨by simp [Web.setGet, Web.setFlags, hlive], hready⟩
  have hdone := reachable_get (i := i) heof (by simp [webNext, Web.setGet, Web.setFlags, hlive])
    (by simp [webNext, Web.setGet, GetEnabled])
  simpa [webNext, getNext, Web.setGet, Web.setFlags] using hdone

theorem reachable_counted (h : (web03 nargs maxnconn).Reachable s) (hlive : s.main = .lock) (hmon : s.mon = .free)
    {i : ℕ} (hget : s.get i = .locking) :
    (web03 nargs maxnconn).Reachable ({ s with ndone := s.ndone + 1 }.setGet i .ended) := by
  have hlock := reachable_get (i := i) h hlive (by simp [hget, GetEnabled, hmon, Monitor.free])
  have hcount := reachable_get (i := i) hlock (by simp [getNext, hget, Web.setGet, hlive])
    (by simp [getNext, hget, Web.setGet, GetEnabled])
  have hsignal : (web03 nargs maxnconn).Reachable
      ({ s with ndone := s.ndone + 1, mon := Monitor.free.lock (.get i) }.setGet i .signal) := by
    simpa [getNext, hget, Web.setGet, hmon] using hcount
  have hready : WebReady ({ s with ndone := s.ndone + 1, mon := Monitor.free.lock (.get i) }.setGet i .signal)
      (.signal i ∅) := by
    simp [WebReady, Web.setGet, Monitor.Signals, Monitor.free]
  have hwoken := hsignal.action ⟨by simp [Web.setGet, hlive], hready⟩
  have hunlock := reachable_get (i := i) hwoken (by simp [webNext, Web.setGet, hlive])
    (by simp [webNext, Web.setGet, GetEnabled])
  simpa [webNext, getNext, Web.setGet, hmon, Monitor.wake, Monitor.lock, Monitor.unlock, Monitor.free] using hunlock

theorem reachable_join (h : (web03 nargs maxnconn).Reachable s) (hpc : s.main = .lock) (hmon : s.mon = .free)
    (hndone : s.ndone ≠ 0) (hnfiles : 1 < min nargs MAXFILES) (htid : s.tid 0 = some 0)
    (hended : s.get 0 = .ended) (hdone : s.flags 0 = .done) (hdone' : s.flags 1 = .done) :
    ∃ s', (web03 nargs maxnconn).Reachable s' ∧ s'.main = .join 1 ∧ s'.tid = s.tid ∧ s'.get = s.get ∧
      s'.mon.owner = some .main := by
  have hpos : 0 < min nargs MAXFILES := by omega
  have hlocked := reachable_main h (by simp [hpc, WebMainEnabled, hmon, Monitor.free])
  have hscan : (web03 nargs maxnconn).Reachable { s with mon := Monitor.free.lock .main, main := .scan 0 } := by
    have hstep := reachable_main hlocked (by simp [webMainNext, hpc, WebMainEnabled])
    simpa [webMainNext, testDone, hpc, hmon, hndone] using hstep
  have hfound := reachable_main hscan (by simp [WebMainEnabled])
  have hjoined := reachable_main hfound
    (by simp [webMainNext, scanFile, hpos, hdone, WebMainEnabled, Joinable, htid, hended])
  have hset := reachable_main hjoined
    (by simp [webMainNext, scanFile, joinThread, hpos, hdone, WebMainEnabled, htid])
  have hdecr := reachable_main hset
    (by simp [webMainNext, scanFile, joinThread, hpos, hdone, WebMainEnabled, htid, Web.setFlags])
  have hnext := reachable_main hdecr
    (by simp [webMainNext, scanFile, joinThread, decrDone, hpos, hdone, WebMainEnabled, htid, Web.setFlags])
  refine ⟨_, hnext, ?_⟩
  simp [webMainNext, scanFile, joinThread, decrDone, hpos, hnfiles, hdone, hdone', htid, Web.setFlags]

theorem web03_deadlock (hnfiles : 1 < nargs) (hmax : 1 < maxnconn) :
    ∃ s, (web03 nargs maxnconn).Reachable s ∧ JoinDeadlock s := by
  obtain ⟨m, hm, hle, hbound, hstop⟩ : ∃ m : ℕ, 1 < m ∧ m ≤ min nargs MAXFILES ∧ (m : ℤ) ≤ maxnconn ∧
      ¬ ((m : ℤ) < maxnconn ∧ (0 : ℤ) < (min nargs MAXFILES : ℕ) - (m : ℤ)) := by
    refine ⟨min (min nargs MAXFILES) maxnconn.toNat, ?_, ?_, ?_, ?_⟩
    all_goals simp only [MAXFILES]; omega
  have hlock : (web03 nargs maxnconn).Reachable (started (min nargs MAXFILES) m .lock) := by
    have hstep := reachable_main (reachable_started (by omega) hle hbound) (by simp [started, WebMainEnabled])
    simpa only [webMainNext, fillTest, started, hstop, if_false] using hstep
  have hpos : 0 < m := by omega
  have hzero := reachable_done (i := 0) hlock rfl (by simp [started, hpos])
  have hcounted := reachable_counted (i := 0) hzero rfl rfl (by simp [Web.setGet])
  have hone := reachable_done (i := 1) hcounted rfl (by simp [Web.setGet, Web.setFlags, started, hm])
  obtain ⟨s, hs, hmain, htid, hget, howner⟩ := reachable_join hone rfl rfl
    (by simp [Web.setGet, Web.setFlags, started]) (by omega) (by simp [Web.setGet, Web.setFlags, started, hpos])
    (by simp [Web.setGet, Web.setFlags]) (by simp [Web.setGet, Web.setFlags]) (by simp [Web.setGet, Web.setFlags])
  refine ⟨s, hs, 1, 1, hmain, ?_, howner, ?_⟩
  · simp [htid, Web.setGet, Web.setFlags, started, hm]
  · simp [hget, Web.setGet]

/-- **When the client cannot deadlock.** `ndone` never gets negative, and `main` never waits in
`Pthread_join` with the mutex locked for a thread that waits for the mutex, if and only if there is never
more than one thread at a time. -/
theorem web03_safe_iff (nargs : ℕ) (maxnconn : ℤ) :
    (∀ s, (web03 nargs maxnconn).Reachable s → 0 ≤ s.ndone ∧ ¬ JoinDeadlock s) ↔ nargs ≤ 1 ∨ maxnconn ≤ 1 := by
  constructor
  · intro hsafe
    by_contra hmany
    push Not at hmany
    obtain ⟨s, hs, hdead⟩ := web03_deadlock hmany.1 hmany.2
    exact (hsafe s hs).2 hdead
  · intro hone s hs
    refine ⟨web03_ndone hs, web03_no_deadlock ?_ hs⟩
    omega

end Deadlock

/-- Both threads are started and read to the end; the first is counted and joined, the second has only set
`F_DONE`. -/
def sampleWeb : List WebAction :=
  [.main, .main, .main, .main, .main, .main, .main, .main, .main, .main, .main, .main, .main,
    .get 0, .get 0, .read 0 0, .get 0, .get 0, .get 0, .signal 0 ∅, .get 0,
    .get 1, .get 1, .read 1 0, .get 1, .main, .main, .main, .main, .main, .main, .main]

/-- `web 2 host / file1 file2`. -/
theorem web03_deadlock_sample :
    ¬ ∀ s, (web03 2 2).Reachable s → 0 ≤ s.ndone ∧ ¬ JoinDeadlock s := by
  intro hsafe
  have h₀ : (web03 2 2).Reachable (webStart 2) := TransitionSystem.reachable_init rfl
  have h : (web03 2 2).Reachable (sampleWeb.foldl (webNext 2 2) (webStart 2)) := h₀.actions (by decide)
  exact (hsafe _ h).2 ⟨1, 1, by decide⟩

end UnixNetProg.Threads
