import UnixNetProg.Lib.FdTable
import UnixNetProg.Lib.Slots
import UnixNetProg.Lib.Transition

/-!
# The web client with nonblocking connects (`nonblock/web.c`)

The client reads up to `maxnconn` files at a time, and keeps the state of each file in `f_flags`, three
counters, and the two descriptor sets for `select`. `start_connect` and `write_get_cmd` are called on two
paths each: a `connect` that is already done, and one that is completed later.

A step is one turn of a loop, with what the kernel returned in it: the descriptor of the new socket and the
result of `connect`, the sets that `select` returned, the result of `Read`. A call that fails ends the
process. `opened` are the descriptors that are open.
-/

namespace UnixNetProg.Nonblock

open Lib

def MAXFILES : ℕ := 20

/-- The values of `f_flags`: 0, `F_CONNECTING`, `F_READING` and `F_DONE`. -/
inductive FileFlags where
  | none
  | connecting
  | reading
  | done
  deriving DecidableEq, Repr

/-- The tests of the two `while` loops, the search for a file, `start_connect`, `Select`, the turn `i` of the
loop over the files; `exit(0)`; `err_quit` after a search that found nothing; another failed call. -/
inductive WebPc where
  | outer
  | inner
  | find
  | connect (i : ℕ)
  | select
  | scan (i : ℕ)
  | exited
  | nothingFound
  | failed
  deriving DecidableEq, Repr

structure Web where
  flags : ℕ → FileFlags
  fd : ℕ → ℕ
  nconn : ℤ
  nlefttoconn : ℤ
  nlefttoread : ℤ
  maxfd : ℤ
  rset : Finset ℕ
  wset : Finset ℕ
  rs : Finset ℕ
  ws : Finset ℕ
  opened : Finset ℕ
  pc : WebPc

/-- `if (fd > maxfd) maxfd = fd;`. -/
def raiseMaxfd (maxfd : ℤ) (fd : ℕ) : ℤ := if maxfd < fd then fd else maxfd

/-- `write()` the GET command. -/
def writeGetCmd (s : Web) (i : ℕ) : Web :=
  { s with
    flags := Function.update s.flags i .reading
    rset := insert (s.fd i) s.rset
    maxfd := raiseMaxfd s.maxfd (s.fd i) }

/-- The results of `connect`: 0, -1 with `EINPROGRESS`, and -1 with another error. -/
inductive ConnectRes where
  | established
  | inProgress
  | error
  deriving DecidableEq, Repr

/-- `fd` is the new socket; `none` is the end of the process. -/
def startConnect (s : Web) (i fd : ℕ) (res : ConnectRes) : Option Web :=
  let s := { s with fd := Function.update s.fd i fd, opened := insert fd s.opened }
  match res with
  | .established => some (writeGetCmd s i)
  | .inProgress =>
    some { s with
      flags := Function.update s.flags i .connecting
      rset := insert fd s.rset
      wset := insert fd s.wset
      maxfd := raiseMaxfd s.maxfd fd }
  | .error => none

/-- `start_connect` and the two counters. -/
def connectFile (s : Web) (i fd : ℕ) (res : ConnectRes) : Web :=
  match startConnect s i fd res with
  | none => { s with pc := .failed }
  | some s => { s with nconn := s.nconn + 1, nlefttoconn := s.nlefttoconn - 1, pc := .inner }

/-- `while (nlefttoread > 0)`. -/
def outerTest (s : Web) : Web := { s with pc := if 0 < s.nlefttoread then .inner else .exited }

/-- `while (nconn < maxnconn && nlefttoconn > 0)`. -/
def innerTest (maxnconn : ℤ) (s : Web) : Web :=
  { s with pc := if s.nconn < maxnconn ∧ 0 < s.nlefttoconn then .find else .select }

/-- Find a file to read. -/
def findFile (nfiles : ℕ) (s : Web) : Web :=
  match firstSlot (fun i => s.flags i = .none) nfiles with
  | none => { s with pc := .nothingFound }
  | some i => { s with pc := .connect i }

/-- The connection is established. -/
def finishConnect (s : Web) (i : ℕ) : Web := writeGetCmd { s with wset := s.wset.erase (s.fd i) } i

/-- End of file. -/
def finishRead (s : Web) (i : ℕ) : Web :=
  { s with
    flags := Function.update s.flags i .done
    rset := s.rset.erase (s.fd i)
    opened := s.opened.erase (s.fd i)
    nconn := s.nconn - 1
    nlefttoread := s.nlefttoread - 1 }

/-- One turn of the loop over the files, in which `Read` returns `n` if it is called. -/
def scanFile (s : Web) (i n : ℕ) : Web :=
  if s.flags i = .connecting ∧ (s.fd i ∈ s.rs ∨ s.fd i ∈ s.ws) then finishConnect s i
  else if s.flags i = .reading ∧ s.fd i ∈ s.rs then if n = 0 then finishRead s i else s
  else s

/-- The steps that ask the kernel for nothing; `start_connect`; `Select`; a turn of the loop over the files;
a call that fails. -/
inductive WebAction where
  | turn
  | connect (fd : ℕ) (res : ConnectRes)
  | select (rs ws : Finset ℕ)
  | scan (n : ℕ)
  | fail

def turnNext (nfiles : ℕ) (maxnconn : ℤ) (s : Web) : Web :=
  match s.pc with
  | .outer => outerTest s
  | .inner => innerTest maxnconn s
  | .find => findFile nfiles s
  | .connect _ | .select | .scan _ | .exited | .nothingFound | .failed => s

def webNext (nfiles : ℕ) (maxnconn : ℤ) (s : Web) : WebAction → Web
  | .turn => turnNext nfiles maxnconn s
  | .connect fd res =>
    match s.pc with
    | .connect i => connectFile s i fd res
    | _ => s
  | .select rs ws => { s with rs := rs, ws := ws, pc := .scan 0 }
  | .scan n =>
    match s.pc with
    | .scan i => if i < nfiles then { scanFile s i n with pc := .scan (i + 1) } else { s with pc := .outer }
    | _ => s
  | .fail => { s with pc := .failed }

/-- The places where each action can take place; a call can fail where one is made. -/
def WebPc.Allows : WebPc → WebAction → Bool
  | .outer, .turn | .inner, .turn | .find, .turn => true
  | .connect _, .connect _ _ | .connect _, .fail => true
  | .select, .select _ _ | .select, .fail => true
  | .scan _, .scan _ | .scan _, .fail => true
  | _, _ => false

/-- `Socket` returns a descriptor that is not open, and `Select(maxfd + 1, ..)` returns descriptors up to
`maxfd` of the sets that it was given. -/
def KernelResult (s : Web) : WebAction → Prop
  | .connect fd _ => fd ∉ s.opened
  | .select rs ws => rs ⊆ s.rset ∧ ws ⊆ s.wset ∧ ∀ fd ∈ rs ∪ ws, (fd : ℤ) ≤ s.maxfd
  | .turn | .scan _ | .fail => True

def WebEnabled (s : Web) (a : WebAction) : Prop := s.pc.Allows a ∧ KernelResult s a

instance (s : Web) : ∀ a, Decidable (KernelResult s a)
  | .connect fd _ => inferInstanceAs (Decidable (fd ∉ s.opened))
  | .select _ _ => inferInstanceAs (Decidable (_ ∧ _ ∧ _))
  | .turn | .scan _ | .fail => inferInstanceAs (Decidable True)

instance (s : Web) (a : WebAction) : Decidable (WebEnabled s a) := inferInstanceAs (Decidable (_ ∧ _))

/-- At the loop, with the home page read; without a file on the command line, the usage message. -/
def webStart (nargs : ℕ) (opened : Finset ℕ) : Web where
  flags _ := .none
  fd _ := 0
  nconn := 0
  nlefttoconn := (min nargs MAXFILES : ℕ)
  nlefttoread := (min nargs MAXFILES : ℕ)
  maxfd := -1
  rset := ∅
  wset := ∅
  rs := ∅
  ws := ∅
  opened := opened
  pc := if nargs < 1 then .failed else .outer

/-- `main` with `nargs` files on the command line; any descriptors may be open before. -/
def web (nargs : ℕ) (maxnconn : ℤ) : TransitionSystem Web :=
  .ofActions (fun s => ∃ opened, s = webStart nargs opened) WebEnabled (webNext (min nargs MAXFILES) maxnconn)

/-! ### The invariant -/

/-- The file has a connection. -/
def FileFlags.active : FileFlags → Bool
  | .connecting | .reading => true
  | .none | .done => false

structure WebInv (nfiles : ℕ) (maxnconn : ℤ) (s : Web) : Prop where
  nlefttoconn : s.nlefttoconn = Nat.count (fun i => s.flags i = .none) nfiles
  nconn : s.nconn = Nat.count (fun i => (s.flags i).active) nfiles
  nlefttoread : s.nlefttoread = Nat.count (fun i => s.flags i ≠ .done) nfiles
  nconn_le : s.nconn ≤ maxnconn
  rset : FdSet nfiles (fun i => (s.flags i).active) s.fd s.rset
  wset : FdSet nfiles (fun i => s.flags i = .connecting) s.fd s.wset
  maxfd : ∀ i < nfiles, (s.flags i).active → (s.fd i : ℤ) ≤ s.maxfd
  opened : ∀ i < nfiles, (s.flags i).active → s.fd i ∈ s.opened
  distinct : ∀ i < nfiles, ∀ j < nfiles, (s.flags i).active → (s.flags j).active → s.fd i = s.fd j → i = j

section Steps

variable {nfiles : ℕ} {maxnconn : ℤ} {s s' : Web} {i j : ℕ}

theorem webInv_start (nargs : ℕ) (opened : Finset ℕ) (hmax : 1 ≤ maxnconn) :
    WebInv (min nargs MAXFILES) maxnconn (webStart nargs opened) := by
  constructor
  · simp [webStart]
  · simp [webStart, FileFlags.active]
  · simp [webStart]
  · simp only [webStart]
    omega
  · exact FdSet.empty (by simp [webStart, FileFlags.active])
  · exact FdSet.empty (by simp [webStart])
  all_goals simp [webStart, FileFlags.active]

theorem WebInv.congr (h : WebInv nfiles maxnconn s) (rs ws : Finset ℕ) (pc : WebPc) :
    WebInv nfiles maxnconn { s with rs := rs, ws := ws, pc := pc } :=
  ⟨h.nlefttoconn, h.nconn, h.nlefttoread, h.nconn_le, h.rset, h.wset, h.maxfd, h.opened, h.distinct⟩

theorem count_flags (p : FileFlags → Prop) [DecidablePred p] (hj : j < nfiles)
    (hflags : ∀ i ≠ j, s'.flags i = s.flags i) :
    (Nat.count (fun i => p (s'.flags i)) nfiles : ℤ) = Nat.count (fun i => p (s.flags i)) nfiles +
      ((if p (s'.flags j) then 1 else 0) - if p (s.flags j) then 1 else 0) := by
  apply count_change hj
  intro i hij
  rw [hflags i hij]

theorem WebInv.onFile (h : WebInv nfiles maxnconn s) (hj : j < nfiles)
    (hflags : ∀ i ≠ j, s'.flags i = s.flags i) (hfd : ∀ i ≠ j, s'.fd i = s.fd i)
    (hconn : s'.nlefttoconn =
      s.nlefttoconn + ((if s'.flags j = .none then 1 else 0) - if s.flags j = .none then 1 else 0))
    (hnconn : s'.nconn = s.nconn + ((if (s'.flags j).active then 1 else 0) - if (s.flags j).active then 1 else 0))
    (hread : s'.nlefttoread =
      s.nlefttoread + ((if s'.flags j ≠ .done then 1 else 0) - if s.flags j ≠ .done then 1 else 0))
    (hle : s'.nconn ≤ maxnconn)
    (hrset : FdSet nfiles (fun i => (s'.flags i).active) s'.fd s'.rset)
    (hwset : FdSet nfiles (fun i => s'.flags i = .connecting) s'.fd s'.wset)
    (hmaxfd : s.maxfd ≤ s'.maxfd) (hopened : ∀ i < nfiles, i ≠ j → (s.flags i).active → s.fd i ∈ s'.opened)
    (hself : (s'.flags j).active → (s'.fd j : ℤ) ≤ s'.maxfd ∧ s'.fd j ∈ s'.opened ∧
      ∀ i < nfiles, i ≠ j → (s.flags i).active → s.fd i ≠ s'.fd j) : WebInv nfiles maxnconn s' := by
  refine ⟨?_, ?_, ?_, hle, hrset, hwset, fun i hi hact => ?_, fun i hi hact => ?_, fun i hi k hk hact hact' hsame => ?_⟩
  · rw [hconn, h.nlefttoconn]
    exact (count_flags (· = .none) hj hflags).symm
  · rw [hnconn, h.nconn]
    exact (count_flags (·.active) hj hflags).symm
  · rw [hread, h.nlefttoread]
    exact (count_flags (· ≠ .done) hj hflags).symm
  · by_cases hij : i = j
    · rw [hij] at hact ⊢
      exact (hself hact).1
    · rw [hflags i hij] at hact
      rw [hfd i hij]
      exact (h.maxfd i hi hact).trans hmaxfd
  · by_cases hij : i = j
    · rw [hij] at hact ⊢
      exact (hself hact).2.1
    · rw [hflags i hij] at hact
      rw [hfd i hij]
      exact hopened i hi hij hact
  · by_cases hij : i = j
    · by_contra hne
      have hkj : k ≠ j := fun hkj => hne (hij.trans hkj.symm)
      rw [hflags k hkj] at hact'
      rw [hij, hfd k hkj] at hsame
      rw [hij] at hact
      exact (hself hact).2.2 k hk hkj hact' hsame.symm
    · rw [hflags i hij] at hact
      rw [hfd i hij] at hsame
      by_cases hkj : k = j
      · rw [hkj] at hact' hsame
        exact absurd hsame ((hself hact').2.2 i hi hij hact)
      · rw [hflags k hkj] at hact'
        rw [hfd k hkj] at hsame
        exact h.distinct i hi k hk hact hact' hsame

theorem le_raiseMaxfd (maxfd : ℤ) (fd : ℕ) : maxfd ≤ raiseMaxfd maxfd fd ∧ (fd : ℤ) ≤ raiseMaxfd maxfd fd := by
  unfold raiseMaxfd
  by_cases h : maxfd < fd
  · rw [if_pos h]
    omega
  · rw [if_neg h]
    omega

theorem WebInv.connected (h : WebInv nfiles maxnconn s) (hj : j < nfiles) (hnone : s.flags j = .none) {fd : ℕ}
    (hnew : fd ∉ s.opened) (hroom : s.nconn < maxnconn) (flags : FileFlags) (hact : flags.active)
    (hflags : s'.flags = Function.update s.flags j flags) (hfd : s'.fd = Function.update s.fd j fd)
    (hnconn : s'.nconn = s.nconn + 1) (hconn : s'.nlefttoconn = s.nlefttoconn - 1)
    (hread : s'.nlefttoread = s.nlefttoread) (hmaxfd : s'.maxfd = raiseMaxfd s.maxfd fd)
    (hrset : s'.rset = insert fd s.rset)
    (hwset : FdSet nfiles (fun i => s'.flags i = .connecting) s'.fd s'.wset)
    (hopened : s'.opened = insert fd s.opened) : WebInv nfiles maxnconn s' := by
  obtain ⟨hmax, hmaxj⟩ := le_raiseMaxfd s.maxfd fd
  have hself : s'.flags j = flags := by simp [hflags]
  have hother : ∀ i ≠ j, s'.flags i = s.flags i := fun i hij => by simp [hflags, hij]
  have hfdj : s'.fd j = fd := by simp [hfd]
  have hfdi : ∀ i ≠ j, s'.fd i = s.fd i := fun i hij => by simp [hfd, hij]
  have hne : flags ≠ .none ∧ flags ≠ .done := by
    constructor
    · rintro rfl
      simp [FileFlags.active] at hact
    · rintro rfl
      simp [FileFlags.active] at hact
  apply h.onFile hj hother hfdi
  · simp only [hself, hnone, hne.1, hconn]
    simp
    omega
  · have hidle : (s.flags j).active = false := by simp [hnone, FileFlags.active]
    simp [hself, hidle, hact, hnconn]
  · simp [hself, hnone, hne.2, hread]
  · omega
  · have hins : FdSet nfiles (fun i => (s'.flags i).active) s'.fd (insert (s'.fd j) s.rset) := by
      apply h.rset.insert hj
      · simp [hnone, FileFlags.active]
      · simp [hself, hact]
      · intro i hij
        rw [hother i hij]
      · exact hfdi
    rw [hfdj, ← hrset] at hins
    exact hins
  · exact hwset
  · rw [hmaxfd]
    exact hmax
  · intro i hi _ hacti
    rw [hopened]
    exact Finset.mem_insert_of_mem (h.opened i hi hacti)
  · intro _
    rw [hfdj, hmaxfd, hopened]
    refine ⟨hmaxj, Finset.mem_insert_self _ _, fun i hi _ hacti heq => ?_⟩
    exact hnew (heq ▸ h.opened i hi hacti)

theorem webInv_connect (h : WebInv nfiles maxnconn s) (hj : j < nfiles) (hnone : s.flags j = .none) {fd : ℕ}
    (hnew : fd ∉ s.opened) (hroom : s.nconn < maxnconn) (res : ConnectRes) :
    WebInv nfiles maxnconn (connectFile s j fd res) := by
  cases res with
  | error => exact h.congr s.rs s.ws .failed
  | established =>
    apply h.connected hj hnone hnew hroom .reading rfl
    all_goals try rfl
    · simp [connectFile, startConnect, writeGetCmd]
    · simp [connectFile, startConnect, writeGetCmd]
    · refine h.wset.congr (fun i => ?_) fun i hi => ?_
      · by_cases hij : i = j
        · simp [connectFile, startConnect, writeGetCmd, hij, hnone]
        · simp [connectFile, startConnect, writeGetCmd, hij]
      · have hij : i ≠ j := by
          rintro rfl
          simp [hnone] at hi
        simp [connectFile, startConnect, writeGetCmd, hij]
  | inProgress =>
    apply h.connected hj hnone hnew hroom .connecting rfl
    all_goals try rfl
    have hins : FdSet nfiles (fun i => Function.update s.flags j .connecting i = .connecting)
        (Function.update s.fd j fd) (insert (Function.update s.fd j fd j) s.wset) := by
      apply h.wset.insert hj
      · simp [hnone]
      · simp
      · intro i hij
        simp [hij]
      · intro i hij
        simp [hij]
    simpa [connectFile, startConnect] using hins

theorem webInv_finishConnect (h : WebInv nfiles maxnconn s) (hj : j < nfiles) (hconn : s.flags j = .connecting) :
    WebInv nfiles maxnconn (finishConnect s j) := by
  have hact : (s.flags j).active := by simp [hconn, FileFlags.active]
  have hmem : s.fd j ∈ s.rset := (h.rset _).mpr ⟨j, hj, hact, rfl⟩
  obtain ⟨hmax, hmaxj⟩ := le_raiseMaxfd s.maxfd (s.fd j)
  apply h.onFile hj
  · intro i hij
    simp [finishConnect, writeGetCmd, hij]
  · intro i _
    rfl
  · simp [finishConnect, writeGetCmd, hconn]
  · simp [finishConnect, writeGetCmd, hconn, FileFlags.active]
  · simp [finishConnect, writeGetCmd, hconn]
  · exact h.nconn_le
  · simp only [finishConnect, writeGetCmd, Finset.insert_eq_of_mem hmem]
    refine h.rset.congr (fun i => ?_) fun _ _ => rfl
    by_cases hij : i = j
    · simp [hij, hconn, FileFlags.active]
    · simp [hij]
  · simp only [finishConnect, writeGetCmd]
    apply h.wset.erase
    · simp
    · intro i hij
      simp [hij]
    · intro i hi hconni hsame
      exact h.distinct i hi j hj (by simp [hconni, FileFlags.active]) hact hsame
  · exact hmax
  · intro i hi _ hacti
    exact h.opened i hi hacti
  · intro _
    refine ⟨hmaxj, h.opened j hj hact, fun i hi hij hacti hsame => hij ?_⟩
    exact h.distinct i hi j hj hacti hact hsame

theorem webInv_finishRead (h : WebInv nfiles maxnconn s) (hj : j < nfiles) (hread : s.flags j = .reading) :
    WebInv nfiles maxnconn (finishRead s j) := by
  have hact : (s.flags j).active := by simp [hread, FileFlags.active]
  have hle := h.nconn_le
  apply h.onFile hj
  · intro i hij
    simp [finishRead, hij]
  · intro i _
    rfl
  · simp [finishRead, hread]
  · simp [finishRead, hread, FileFlags.active]
    omega
  · simp [finishRead, hread]
    omega
  · simp only [finishRead]
    omega
  · apply h.rset.erase
    · simp [finishRead, FileFlags.active]
    · intro i hij
      simp [finishRead, hij]
    · intro i hi hacti hsame
      exact h.distinct i hi j hj hacti hact hsame
  · refine h.wset.congr (fun i => ?_) fun _ _ => rfl
    by_cases hij : i = j
    · simp [finishRead, hij, hread]
    · simp [finishRead, hij]
  · exact le_rfl
  · intro i hi hij hacti
    simp only [finishRead, Finset.mem_erase]
    exact ⟨fun hsame => hij (h.distinct i hi j hj hacti hact hsame), h.opened i hi hacti⟩
  · simp [finishRead, FileFlags.active]

theorem webInv_scanFile (h : WebInv nfiles maxnconn s) (hj : j < nfiles) (n : ℕ) :
    WebInv nfiles maxnconn (scanFile s j n) := by
  unfold scanFile
  by_cases hconn : s.flags j = .connecting ∧ (s.fd j ∈ s.rs ∨ s.fd j ∈ s.ws)
  · rw [if_pos hconn]
    exact webInv_finishConnect h hj hconn.1
  · rw [if_neg hconn]
    by_cases hread : s.flags j = .reading ∧ s.fd j ∈ s.rs
    · rw [if_pos hread]
      by_cases hn : n = 0
      · rw [if_pos hn]
        exact webInv_finishRead h hj hread.1
      · rw [if_neg hn]
        exact h
    · rw [if_neg hread]
      exact h

/-- What holds at each place besides the bookkeeping. -/
def WebPlace (nfiles : ℕ) (maxnconn : ℤ) (s : Web) : Prop :=
  match s.pc with
  | .find => s.nconn < maxnconn ∧ 0 < s.nlefttoconn
  | .connect i => i < nfiles ∧ s.flags i = .none ∧ s.nconn < maxnconn
  | .exited => s.nlefttoread ≤ 0
  | .nothingFound => False
  | .outer | .inner | .select | .scan _ | .failed => True

theorem webPlace_findFile (h : WebInv nfiles maxnconn s) (hroom : s.nconn < maxnconn) (hleft : 0 < s.nlefttoconn) :
    WebInv nfiles maxnconn (findFile nfiles s) ∧ WebPlace nfiles maxnconn (findFile nfiles s) := by
  have hne : Nat.count (fun i => s.flags i = .none) nfiles ≠ 0 := by
    have hcount := h.nlefttoconn
    omega
  obtain ⟨k, hk, hnone⟩ := Nat.count_ne_iff_exists.mp hne
  obtain ⟨i, hi⟩ := exists_firstSlot (p := fun i => s.flags i = .none) hk hnone
  obtain ⟨hlt, hfree, -⟩ := firstSlot_eq_some hi
  simp only [findFile, hi]
  exact ⟨h.congr s.rs s.ws _, hlt, hfree, hroom⟩

theorem webPlace_turn (h : WebInv nfiles maxnconn s) (hplace : WebPlace nfiles maxnconn s)
    (ha : s.pc.Allows .turn) :
    WebInv nfiles maxnconn (turnNext nfiles maxnconn s) ∧ WebPlace nfiles maxnconn (turnNext nfiles maxnconn s) := by
  unfold turnNext
  cases hpc : s.pc with
  | outer =>
    refine ⟨h.congr s.rs s.ws _, ?_⟩
    by_cases hleft : 0 < s.nlefttoread
    · simp [WebPlace, outerTest, if_pos hleft]
    · simp only [WebPlace, outerTest, if_neg hleft]
      omega
  | inner =>
    refine ⟨h.congr s.rs s.ws _, ?_⟩
    by_cases hroom : s.nconn < maxnconn ∧ 0 < s.nlefttoconn
    · simp only [WebPlace, innerTest, if_pos hroom]
      exact hroom
    · simp [WebPlace, innerTest, if_neg hroom]
  | find =>
    simp only [WebPlace, hpc] at hplace
    exact webPlace_findFile h hplace.1 hplace.2
  | connect _ | select | scan _ | exited | nothingFound | failed => simp [hpc, WebPc.Allows] at ha

theorem webPlace_webNext (h : WebInv nfiles maxnconn s) (hplace : WebPlace nfiles maxnconn s) {a : WebAction}
    (ha : WebEnabled s a) :
    WebInv nfiles maxnconn (webNext nfiles maxnconn s a) ∧ WebPlace nfiles maxnconn (webNext nfiles maxnconn s a) := by
  obtain ⟨hallows, hkernel⟩ := ha
  cases a with
  | turn => exact webPlace_turn h hplace hallows
  | connect fd res =>
    cases hpc : s.pc with
    | connect i =>
      simp only [WebPlace, hpc] at hplace
      obtain ⟨hi, hnone, hroom⟩ := hplace
      simp only [webNext, hpc]
      refine ⟨webInv_connect h hi hnone hkernel hroom res, ?_⟩
      cases res <;> simp [WebPlace, connectFile, startConnect]
    | outer | inner | find | select | scan _ | exited | nothingFound | failed => simp [hpc, WebPc.Allows] at hallows
  | select rs ws => exact ⟨h.congr rs ws _, by simp [webNext, WebPlace]⟩
  | scan n =>
    cases hpc : s.pc with
    | scan i =>
      simp only [webNext, hpc]
      by_cases hi : i < nfiles
      · rw [if_pos hi]
        exact ⟨(webInv_scanFile h hi n).congr _ _ _, by simp [WebPlace]⟩
      · rw [if_neg hi]
        exact ⟨h.congr _ _ _, by simp [WebPlace]⟩
    | outer | inner | find | select | connect _ | exited | nothingFound | failed => simp [hpc, WebPc.Allows] at hallows
  | fail => exact ⟨h.congr _ _ _, by simp [webNext, WebPlace]⟩

theorem webInv_reachable {nargs : ℕ} (hmax : 1 ≤ maxnconn) (h : (web nargs maxnconn).Reachable s) :
    WebInv (min nargs MAXFILES) maxnconn s ∧ WebPlace (min nargs MAXFILES) maxnconn s := by
  refine TransitionSystem.invariant
    (P := fun s => WebInv (min nargs MAXFILES) maxnconn s ∧ WebPlace (min nargs MAXFILES) maxnconn s) ?_ ?_ h
  · rintro s ⟨opened, rfl⟩
    refine ⟨webInv_start nargs opened hmax, ?_⟩
    by_cases hargs : nargs < 1
    · simp only [WebPlace, webStart, if_pos hargs]
    · simp only [WebPlace, webStart, if_neg hargs]
  · rintro s s' - ⟨hinv, hplace⟩ ⟨a, ha, rfl⟩
    exact webPlace_webNext hinv hplace ha

theorem active_iff (flags : FileFlags) : flags.active ↔ flags = .connecting ∨ flags = .reading := by
  cases flags <;> simp [FileFlags.active]

/-- **The bookkeeping of the client.** At the top of both loops the counters count the files by their flags
and the sets hold the descriptors of the files that wait for them; a search for a file never fails, and the
client exits only when it has read all files. -/
theorem web_bookkeeping {nargs : ℕ} (hmax : 1 ≤ maxnconn) (h : (web nargs maxnconn).Reachable s) :
    (s.pc = .outer ∨ s.pc = .inner →
      (s.nlefttoconn = Nat.count (fun i => s.flags i = .none) (min nargs MAXFILES) ∧
        s.nconn = Nat.count (fun i => s.flags i = .connecting ∨ s.flags i = .reading) (min nargs MAXFILES) ∧
        s.nconn ≤ maxnconn ∧
        s.nlefttoread = Nat.count (fun i => s.flags i ≠ .done) (min nargs MAXFILES)) ∧
      (∀ fd, fd ∈ s.rset ↔
        ∃ i < min nargs MAXFILES, (s.flags i = .connecting ∨ s.flags i = .reading) ∧ s.fd i = fd) ∧
      (∀ fd, fd ∈ s.wset ↔ ∃ i < min nargs MAXFILES, s.flags i = .connecting ∧ s.fd i = fd) ∧
      ∀ fd ∈ s.rset ∪ s.wset, (fd : ℤ) ≤ s.maxfd) ∧
    s.pc ≠ .nothingFound ∧ (s.pc = .exited → ∀ i < min nargs MAXFILES, s.flags i = .done) := by
  obtain ⟨hinv, hplace⟩ := webInv_reachable hmax h
  have hrset : ∀ fd, fd ∈ s.rset ↔
      ∃ i < min nargs MAXFILES, (s.flags i = .connecting ∨ s.flags i = .reading) ∧ s.fd i = fd := by
    intro fd
    rw [hinv.rset fd]
    simp only [active_iff]
  refine ⟨fun _ => ⟨⟨hinv.nlefttoconn, ?_, hinv.nconn_le, hinv.nlefttoread⟩, hrset, hinv.wset, ?_⟩, ?_, ?_⟩
  · rw [hinv.nconn, count_congr fun i _ => active_iff (s.flags i)]
  · intro fd hfd
    rcases Finset.mem_union.mp hfd with hfd | hfd
    · obtain ⟨i, hi, hact, rfl⟩ := (hinv.rset fd).mp hfd
      exact hinv.maxfd i hi hact
    · obtain ⟨i, hi, hconn, rfl⟩ := (hinv.wset fd).mp hfd
      exact hinv.maxfd i hi (by simp [hconn, FileFlags.active])
  · intro hpc
    simp [WebPlace, hpc] at hplace
  · intro hpc i hi
    simp only [WebPlace, hpc] at hplace
    have hzero : Nat.count (fun i => s.flags i ≠ .done) (min nargs MAXFILES) = 0 := by
      have hcount := hinv.nlefttoread
      omega
    by_contra hnot
    exact Nat.count_iff_forall_not.mp hzero i hi hnot

end Steps

/-- Two files over one connection at a time: the first `connect` is completed later, the second at once. -/
def sampleWeb : List WebAction :=
  [.turn, .turn, .turn, .connect 3 .inProgress, .turn, .select ∅ {3}, .scan 0, .scan 0, .scan 0, .turn, .turn,
    .select {3} ∅, .scan 7, .scan 0, .scan 0, .turn, .turn, .select {3} ∅, .scan 0, .scan 0, .scan 0, .turn, .turn,
    .turn, .connect 3 .established]

theorem web_bookkeeping_sample :
    let s := sampleWeb.foldl (webNext 2 1) (webStart 2 {0, 1, 2})
    (s.pc = .inner ∧ s.flags 0 = .done ∧ s.flags 1 = .reading ∧ s.nconn = 1) ∧
    ∀ fd, fd ∈ s.rset ↔ ∃ i < 2, (s.flags i = .connecting ∨ s.flags i = .reading) ∧ s.fd i = fd := by
  intro s
  have h₀ : (web 2 1).Reachable (webStart 2 {0, 1, 2}) := TransitionSystem.reachable_init ⟨_, rfl⟩
  have h : (web 2 1).Reachable s := h₀.actions (by decide)
  have hpc : s.pc = .inner := by decide
  exact ⟨by decide, ((web_bookkeeping (by decide) h).1 (.inr hpc)).2.1⟩

end UnixNetProg.Nonblock
