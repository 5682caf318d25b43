import UnixNetProg.Lib.Countdown
import UnixNetProg.Lib.FdTable
import UnixNetProg.Lib.Slots
import UnixNetProg.Lib.Transition
import UnixNetProg.Unp

/-!
# The echo server with `poll` (`tcpcliserv/tcpservpoll01.c`)

The listening descriptor is entry 0 of `client`, the clients are behind it. A step is one call of `Poll`,
one of `Accept`, or one turn of the loop over the clients; the kernel chooses the results. Where `Poll`,
`Accept` or `Writen` fails, the process ends, and the run with it. `Poll` fills in `revents` of the entries
0 to `maxi` and of no others: `none` is a field that this round's `Poll` did not fill in, and a run that
looks at one is at `wild`.

`conns` are the open connections. No step looks at `ready`, the entries that this round's `Poll` reported,
at `polled`, the last entry that it filled in, or at `reads`, the entries that were read in this round.
-/

namespace UnixNetProg.Tcpcliserv

open Lib

/-- `POLLRDNORM`, `POLLERR`, and whether any other flag is set. -/
structure PollFlags where
  rdnorm : Bool
  err : Bool
  other : Bool
  deriving DecidableEq, Repr

def PollFlags.nonzero (flags : PollFlags) : Bool := flags.rdnorm || flags.err || flags.other

structure PollFd where
  fd : ℤ
  events : Option PollFlags
  revents : Option PollFlags
  deriving DecidableEq, Repr

/-- The results of `read`: `n > 0`, `n == 0`, and `n < 0` with or without `errno == ECONNRESET`. -/
inductive PollRead where
  | data (bytes : List Byte)
  | eof
  | reset
  | error
  deriving DecidableEq, Repr

inductive PollPc where
  | poll
  | accept
  | scan (i : ℕ)
  | quit
  | wild
  deriving DecidableEq, Repr

structure Poll01 where
  pc : PollPc
  client : ℕ → PollFd
  maxi : ℕ
  nready : ℤ
  conns : Finset ℕ
  ready : Finset ℕ
  polled : ℕ
  reads : List ℕ
  echoed : List (ℕ × List Byte)

inductive PollAction where
  | poll (revents : ℕ → PollFlags)
  | accept (connfd : ℕ)
  | check (res : PollRead)

/-- `POLLRDNORM` alone. -/
def pollIn : PollFlags := ⟨true, false, false⟩

/-- The entries that `Poll` reports. -/
def readyEntries (maxi : ℕ) (revents : ℕ → PollFlags) : Finset ℕ :=
  (Finset.range (maxi + 1)).filter fun j => (revents j).nonzero

def poll (s : Poll01) (revents : ℕ → PollFlags) : Poll01 :=
  let ready := readyEntries s.maxi revents
  { s with
    client := fun j => { s.client j with revents := if j ≤ s.maxi then some (revents j) else none }
    nready := ready.card
    ready := ready
    polled := s.maxi
    reads := []
    pc := if (revents 0).rdnorm then .accept else .scan 1 }

/-- `if (--nready <= 0)`: no more readable descriptors. -/
def PollPc.resume (nready : ℤ) (i : ℕ) : PollPc := if nready ≤ 0 then .poll else .scan i

/-- The connection gets the first free entry behind the listening one. -/
def acceptPoll (openMax : ℕ) (s : Poll01) (connfd : ℕ) : Poll01 :=
  match firstSlot (fun i => 1 ≤ i ∧ (s.client i).fd < 0) openMax with
  | none => { s with pc := .quit }
  | some i =>
    { s with
      client := Function.update s.client i { s.client i with fd := connfd, events := some pollIn }
      maxi := max s.maxi i
      conns := insert connfd s.conns
      nready := s.nready - 1
      pc := .resume (s.nready - 1) 1 }

/-- `Close(sockfd)` and `client[i].fd = -1`. -/
def closeEntry (s : Poll01) (i sockfd : ℕ) : Poll01 :=
  { s with
    client := Function.update s.client i { s.client i with fd := -1 }
    conns := s.conns.erase sockfd }

/-- The client in entry `i` is reported. -/
def readEntry (s : Poll01) (i sockfd : ℕ) (res : PollRead) : Poll01 :=
  let s := { s with reads := s.reads ++ [i] }
  match res with
  | .eof | .reset => { closeEntry s i sockfd with nready := s.nready - 1, pc := .resume (s.nready - 1) (i + 1) }
  | .data bytes =>
    { s with
      echoed := s.echoed ++ [(sockfd, bytes)]
      nready := s.nready - 1
      pc := .resume (s.nready - 1) (i + 1) }
  | .error => { s with pc := .quit }

/-- One turn of the loop over the clients. -/
def checkEntry (s : Poll01) (i : ℕ) (res : PollRead) : Poll01 :=
  if i ≤ s.maxi then
    if (s.client i).fd < 0 then { s with pc := .scan (i + 1) }
    else
      match (s.client i).revents with
      | none => { s with pc := .wild }
      | some flags =>
        if flags.rdnorm || flags.err then readEntry s i (s.client i).fd.toNat res
        else { s with pc := .scan (i + 1) }
  else { s with pc := .poll }

def PollPc.isScan : PollPc → Bool
  | .scan _ => true
  | .poll | .accept | .quit | .wild => false

theorem PollPc.exists_of_isScan {pc : PollPc} (h : pc.isScan) : ∃ i, pc = .scan i := by
  cases pc with
  | scan i => exact ⟨i, rfl⟩
  | poll | accept | quit | wild => exact nomatch h

/-- What `Poll` may report: nothing for an entry without a descriptor, and `POLLRDNORM` or `POLLERR` for
every other entry that it reports. -/
structure PollReport (s : Poll01) (revents : ℕ → PollFlags) : Prop where
  free : ∀ j ≤ s.maxi, (s.client j).fd < 0 → (revents j).nonzero = false
  flags : ∀ j ≤ s.maxi, (revents j).nonzero → (revents j).rdnorm || (revents j).err

instance (s : Poll01) (revents : ℕ → PollFlags) : Decidable (PollReport s revents) :=
  decidable_of_iff (_ ∧ _) ⟨fun h => ⟨h.1, h.2⟩, fun h => ⟨h.free, h.flags⟩⟩

/-- The system calls that can return; `base` are the other open descriptors of the process. -/
def PollEnabled (listenfd : ℕ) (base : Finset ℕ) (s : Poll01) : PollAction → Prop
  | .poll revents => s.pc = .poll ∧ PollReport s revents
  | .accept connfd => s.pc = .accept ∧ connfd ∉ insert listenfd base ∪ s.conns
  | .check _ => s.pc.isScan

instance (listenfd : ℕ) (base : Finset ℕ) (s : Poll01) : ∀ a, Decidable (PollEnabled listenfd base s a)
  | .poll _ | .accept _ => inferInstanceAs (Decidable (_ ∧ _))
  | .check _ => inferInstanceAs (Decidable (_ = true))

def pollNext (openMax : ℕ) (s : Poll01) : PollAction → Poll01
  | .poll revents => poll s revents
  | .accept connfd => acceptPoll openMax s connfd
  | .check res =>
    match s.pc with
    | .scan i => checkEntry s i res
    | _ => s

def pollStart (listenfd : ℕ) : Poll01 where
  pc := .poll
  client i := if i = 0 then ⟨listenfd, some pollIn, none⟩ else ⟨-1, none, none⟩
  maxi := 0
  nready := 0
  conns := ∅
  ready := ∅
  polled := 0
  reads := []
  echoed := []

def poll01 (openMax listenfd : ℕ) (base : Finset ℕ) : TransitionSystem Poll01 :=
  .ofActions (· = pollStart listenfd) (PollEnabled listenfd base) (pollNext openMax)

/-! ### The table -/

/-- The listening descriptor is in front, and the open connections are the other entries. -/
structure EntriesInv (listenfd : ℕ) (client : ℕ → PollFd) (maxi : ℕ) (conns : Finset ℕ) : Prop where
  entries : FdTable (fun j => (client j).fd) maxi (insert listenfd conns)
  listen : (client 0).fd = listenfd
  notMem : listenfd ∉ conns

section Entries

variable {listenfd : ℕ} {client client' : ℕ → PollFd} {maxi : ℕ} {conns : Finset ℕ} {i : ℕ}

theorem EntriesInv.mem_conns (h : EntriesInv listenfd client maxi conns) (fd : ℕ) :
    fd ∈ conns ↔ ∃ j, 1 ≤ j ∧ j ≤ maxi ∧ (client j).fd = fd := by
  constructor
  · intro hfd
    obtain ⟨j, hj⟩ := (h.entries.mem_fds fd).mp (Finset.mem_insert_of_mem hfd)
    have hle := h.entries.le_top (i := j) (by omega)
    have hj0 : j ≠ 0 := by
      intro heq
      rw [heq, h.listen] at hj
      apply h.notMem
      rw [Int.natCast_inj.mp hj]
      exact hfd
    exact ⟨j, by omega, by omega, hj⟩
  · rintro ⟨j, hj, -, hjfd⟩
    rcases Finset.mem_insert.mp (h.entries.mem_of_slot hjfd) with hl | hfd
    · have hj0 := h.entries.distinct j 0 (by omega) (by rw [hjfd, h.listen, hl])
      omega
    · exact hfd

theorem entriesInv_start (listenfd : ℕ) : EntriesInv listenfd (pollStart listenfd).client 0 ∅ := by
  have hempty : FdTable (fun _ => -1) 0 ∅ := FdTable.empty (fun _ => rfl) 0
  have hother : ∀ j ≠ 0, ((pollStart listenfd).client j).fd = -1 := by
    intro j hj
    show (if j = 0 then (⟨listenfd, some pollIn, none⟩ : PollFd) else ⟨-1, none, none⟩).fd = -1
    rw [if_neg hj]
  refine ⟨?_, rfl, Finset.notMem_empty listenfd⟩
  exact hempty.add (show (-1 : ℤ) < 0 by decide) (Finset.notMem_empty listenfd) rfl hother

theorem EntriesInv.add (h : EntriesInv listenfd client maxi conns) (hi : 1 ≤ i) (hfree : (client i).fd < 0)
    {connfd : ℕ} (hlisten : connfd ≠ listenfd) (hnew : connfd ∉ conns) (hself : (client' i).fd = connfd)
    (hne : ∀ j ≠ i, (client' j).fd = (client j).fd) :
    EntriesInv listenfd client' (max maxi i) (insert connfd conns) := by
  have hmax : ((max maxi i : ℕ) : ℤ) = max (maxi : ℤ) i := by omega
  refine ⟨?_, ?_, ?_⟩
  · rw [Finset.insert_comm, hmax]
    apply h.entries.add hfree _ hself hne
    rw [Finset.mem_insert, not_or]
    exact ⟨hlisten, hnew⟩
  · rw [hne 0 (by omega)]
    exact h.listen
  · rw [Finset.mem_insert, not_or]
    exact ⟨hlisten.symm, h.notMem⟩

theorem EntriesInv.remove (h : EntriesInv listenfd client maxi conns) (hi : 1 ≤ i) {sockfd : ℕ}
    (hfd : (client i).fd = sockfd) (hself : (client' i).fd = -1)
    (hne : ∀ j ≠ i, (client' j).fd = (client j).fd) :
    EntriesInv listenfd client' maxi (conns.erase sockfd) := by
  have hlisten : listenfd ≠ sockfd := by
    intro heq
    have hi0 := h.entries.distinct i 0 (by omega) (by rw [hfd, h.listen, heq])
    omega
  refine ⟨?_, ?_, ?_⟩
  · rw [← Finset.erase_insert_of_ne hlisten]
    exact h.entries.remove hfd hself hne
  · rw [hne 0 (by omega)]
    exact h.listen
  · exact fun hmem => h.notMem (Finset.mem_of_mem_erase hmem)

theorem EntriesInv.congr (h : EntriesInv listenfd client maxi conns)
    (hfd : ∀ j, (client' j).fd = (client j).fd) : EntriesInv listenfd client' maxi conns :=
  ⟨h.entries.congr hfd, (hfd 0).trans h.listen, h.notMem⟩

end Entries

/-! ### A round -/

/-- What `Poll` filled in. -/
structure Filled (client : ℕ → PollFd) (ready : Finset ℕ) (polled : ℕ) : Prop where
  flags : ∀ j ≤ polled, ∃ flags, (client j).revents = some flags ∧ (flags.rdnorm || flags.err ↔ j ∈ ready)
  le_polled : ∀ j ∈ ready, j ≤ polled

/-- The loop is at entry `i`: the reported entries that were not read lie ahead and have a descriptor. A
listening descriptor that is reported with an error only is never counted down, but then no entry was
appended. -/
structure Checking (client : ℕ → PollFd) (maxi : ℕ) (ready : Finset ℕ) (polled : ℕ) (reads : List ℕ)
    (nready : ℤ) (i : ℕ) : Prop where
  filled : Filled client ready polled
  count : ∃ extra, 0 ≤ extra ∧ Countdown (ready.erase 0) reads (nready - extra) ∧ (extra = 0 ∨ maxi = polled)
  ahead : ∀ j ∈ ready, j ≠ 0 → j ∉ reads → i ≤ j ∧ 0 ≤ (client j).fd
  behind : ∀ j ∈ reads, j < i

section Rounds

variable {client client' : ℕ → PollFd} {maxi polled i : ℕ} {ready : Finset ℕ} {reads : List ℕ} {nready : ℤ}

theorem Filled.congr (h : Filled client ready polled) (hrev : ∀ j, (client' j).revents = (client j).revents) :
    Filled client' ready polled := by
  refine ⟨fun j hj => ?_, h.le_polled⟩
  rw [hrev]
  exact h.flags j hj

theorem Checking.skip (h : Checking client maxi ready polled reads nready i)
    (hskip : i ∈ ready → (client i).fd < 0) : Checking client maxi ready polled reads nready (i + 1) := by
  refine ⟨h.filled, h.count, fun j hj hj0 hnew => ?_, fun j hj => Nat.lt_succ_of_lt (h.behind j hj)⟩
  obtain ⟨hle, hfd⟩ := h.ahead j hj hj0 hnew
  have hji : j ≠ i := by
    intro heq
    rw [heq] at hj hfd
    have hneg := hskip hj
    omega
  exact ⟨by omega, hfd⟩

theorem Checking.read (h : Checking client maxi ready polled reads nready i) (hi : 1 ≤ i) (hready : i ∈ ready)
    (hrev : ∀ j, (client' j).revents = (client j).revents) (hne : ∀ j ≠ i, (client' j).fd = (client j).fd) :
    Checking client' maxi ready polled (reads ++ [i]) (nready - 1) (i + 1) := by
  have hnew : i ∉ reads := fun hmem => Nat.lt_irrefl i (h.behind i hmem)
  obtain ⟨extra, hextra, hcount, hor⟩ := h.count
  refine ⟨h.filled.congr hrev, ⟨extra, hextra, ?_, hor⟩, fun j hj hj0 hnew' => ?_, fun j hj => ?_⟩
  · have htake := hcount.take (Finset.mem_erase.mpr ⟨by omega, hready⟩) hnew
    have hleft : nready - 1 - extra = nready - extra - 1 := by omega
    rw [hleft]
    exact htake
  · rw [List.mem_append, not_or, List.mem_singleton] at hnew'
    obtain ⟨hle, hfd⟩ := h.ahead j hj hj0 hnew'.1
    rw [hne j hnew'.2]
    exact ⟨by omega, hfd⟩
  · rcases List.mem_append.mp hj with hj | hj
    · exact Nat.lt_succ_of_lt (h.behind j hj)
    · rw [List.mem_singleton.mp hj]
      omega

theorem Checking.done (h : Checking client maxi ready polled reads nready i) (hle : nready ≤ 0) :
    ∀ j ∈ ready, j ≠ 0 → j ∈ reads := by
  intro j hj hj0
  obtain ⟨extra, hextra, hcount, -⟩ := h.count
  exact hcount.mem_done (by omega) (Finset.mem_erase.mpr ⟨hj0, hj⟩)

theorem Checking.finish (h : Checking client maxi ready polled reads nready i) (hpolled : polled ≤ maxi)
    (hi : maxi < i) : ∀ j ∈ ready, j ≠ 0 → j ∈ reads := by
  intro j hj hj0
  by_contra hnew
  have hle := (h.ahead j hj hj0 hnew).1
  have hle' := h.filled.le_polled j hj
  omega

/-- **While the countdown runs, the loop stays within what `Poll` filled in.** -/
theorem Checking.le_polled (h : Checking client maxi ready polled reads nready i)
    (hpos : 0 < nready ∨ maxi = polled) (hi : i ≤ maxi) : i ≤ polled := by
  by_cases hmaxi : maxi = polled
  · omega
  · -- an entry was appended, so something that is reported is still ahead
    obtain ⟨extra, hextra, hcount, hor⟩ := h.count
    rw [hor.resolve_right hmaxi, Int.sub_zero] at hcount
    obtain ⟨j, hj, hnew⟩ := hcount.exists_left (hpos.resolve_right hmaxi)
    obtain ⟨hj0, hready⟩ := Finset.mem_erase.mp hj
    have hle := (h.ahead j hready hj0 hnew).1
    have hle' := h.filled.le_polled j hready
    omega

end Rounds

/-- Where the round is. -/
def PollRound (s : Poll01) : Prop :=
  match s.pc with
  | .poll => ∀ j ∈ s.ready, j ≠ 0 → j ∈ s.reads
  | .accept => s.polled = s.maxi ∧ s.reads = [] ∧ 0 ∈ s.ready ∧ s.nready = s.ready.card ∧
      Filled s.client s.ready s.polled ∧ ∀ j ∈ s.ready, 0 ≤ (s.client j).fd
  | .scan i => 1 ≤ i ∧ (0 < s.nready ∨ s.maxi = s.polled) ∧ s.polled ≤ s.maxi ∧
      Checking s.client s.maxi s.ready s.polled s.reads s.nready i
  | .quit => True
  | .wild => False

structure PollInv (listenfd : ℕ) (s : Poll01) : Prop where
  entries : EntriesInv listenfd s.client s.maxi s.conns
  reads_nodup : s.reads.Nodup
  reads_sub : ∀ j ∈ s.reads, j ∈ s.ready ∧ j ≠ 0
  round : PollRound s

section Steps

variable {openMax listenfd : ℕ} {base : Finset ℕ} {s : Poll01} {i : ℕ}

theorem pollInv_start (listenfd : ℕ) : PollInv listenfd (pollStart listenfd) :=
  ⟨entriesInv_start listenfd, List.nodup_nil, nofun, fun j hj => absurd hj (Finset.notMem_empty j)⟩

theorem Checking.reads_spec {client : ℕ → PollFd} {maxi polled : ℕ} {ready : Finset ℕ} {reads : List ℕ}
    {nready : ℤ} (h : Checking client maxi ready polled reads nready i) :
    reads.Nodup ∧ ∀ j ∈ reads, j ∈ ready ∧ j ≠ 0 := by
  obtain ⟨extra, -, hcount, -⟩ := h.count
  refine ⟨hcount.nodup, fun j hj => ?_⟩
  obtain ⟨hj0, hready⟩ := Finset.mem_erase.mp (hcount.sub j hj)
  exact ⟨hready, hj0⟩

theorem pollRound_resume (hi : 1 ≤ i) (hpolled : s.polled ≤ s.maxi)
    (h : Checking s.client s.maxi s.ready s.polled s.reads s.nready i) (hpc : s.pc = .resume s.nready i) :
    PollRound s := by
  rw [PollRound, hpc, PollPc.resume]
  by_cases hle : s.nready ≤ 0
  · rw [if_pos hle]
    exact h.done hle
  · rw [if_neg hle]
    exact ⟨hi, .inl (by omega), hpolled, h⟩

theorem mem_readyEntries {maxi j : ℕ} {revents : ℕ → PollFlags} :
    j ∈ readyEntries maxi revents ↔ j ≤ maxi ∧ (revents j).nonzero := by
  rw [readyEntries, Finset.mem_filter, Finset.mem_range, Nat.lt_succ_iff]

theorem filled_poll {revents : ℕ → PollFlags} (hrep : PollReport s revents) :
    Filled (poll s revents).client (readyEntries s.maxi revents) s.maxi := by
  refine ⟨fun j hj => ⟨revents j, if_pos hj, ?_⟩, fun j hj => (mem_readyEntries.mp hj).1⟩
  rw [mem_readyEntries]
  constructor
  · intro hflags
    refine ⟨hj, ?_⟩
    rw [PollFlags.nonzero, hflags, Bool.true_or]
  · rintro ⟨-, hnonzero⟩
    exact hrep.flags j hj hnonzero

theorem nonneg_of_ready {revents : ℕ → PollFlags} (hrep : PollReport s revents) {j : ℕ}
    (hj : j ∈ readyEntries s.maxi revents) : 0 ≤ (s.client j).fd := by
  obtain ⟨hle, hnonzero⟩ := mem_readyEntries.mp hj
  by_contra hneg
  rw [hrep.free j hle (by omega)] at hnonzero
  exact nomatch hnonzero

theorem pollInv_poll (h : PollInv listenfd s) {revents : ℕ → PollFlags} (hrep : PollReport s revents) :
    PollInv listenfd (poll s revents) := by
  have hfilled := filled_poll hrep
  have hlive : ∀ j ∈ readyEntries s.maxi revents, 0 ≤ (s.client j).fd := fun j hj => nonneg_of_ready hrep hj
  refine ⟨h.entries.congr fun _ => rfl, List.nodup_nil, nofun, ?_⟩
  rw [PollRound, poll]
  by_cases hl : (revents 0).rdnorm
  · rw [if_pos hl]
    refine ⟨rfl, rfl, ?_, rfl, hfilled, hlive⟩
    apply mem_readyEntries.mpr
    rw [PollFlags.nonzero, hl]
    exact ⟨Nat.zero_le _, rfl⟩
  · rw [if_neg hl]
    refine ⟨Nat.le_refl 1, .inr rfl, Nat.le_refl _, hfilled, ?_, ?_, nofun⟩
    · -- an error on the listening descriptor stays in the count
      have hstart := Countdown.start ((readyEntries s.maxi revents).erase 0)
      by_cases hzero : 0 ∈ readyEntries s.maxi revents
      · refine ⟨1, by omega, ?_, .inr rfl⟩
        have hcard := Finset.card_erase_add_one hzero
        have hleft : ((readyEntries s.maxi revents).card : ℤ) - 1 =
            ((readyEntries s.maxi revents).erase 0).card := by omega
        rw [hleft]
        exact hstart
      · refine ⟨0, Int.le_refl 0, ?_, .inl rfl⟩
        rw [Finset.erase_eq_of_notMem hzero, Int.sub_zero]
        exact Countdown.start _
    · intro j hj hj0 _
      exact ⟨by omega, hlive j hj⟩

theorem pollInv_accept (h : PollInv listenfd s) (hpc : s.pc = .accept) {connfd : ℕ} (hlisten : connfd ≠ listenfd)
    (hnew : connfd ∉ s.conns) : PollInv listenfd (acceptPoll openMax s connfd) := by
  have hround := h.round
  rw [PollRound, hpc] at hround
  obtain ⟨hpolled, hreads, hzero, hnready, hfilled, hlive⟩ := hround
  unfold acceptPoll
  cases hslot : firstSlot (fun i => 1 ≤ i ∧ (s.client i).fd < 0) openMax with
  | none => exact ⟨h.entries, h.reads_nodup, h.reads_sub, trivial⟩
  | some i =>
    obtain ⟨-, ⟨hi, hfree⟩, -⟩ := firstSlot_eq_some hslot
    dsimp only
    generalize hclient : Function.update s.client i { s.client i with fd := connfd, events := some pollIn } = client'
    have hself : (client' i).fd = connfd := by rw [← hclient, Function.update_self]
    have hne : ∀ j ≠ i, client' j = s.client j := by
      intro j hj
      rw [← hclient, Function.update_of_ne hj]
    have hrev : ∀ j, (client' j).revents = (s.client j).revents := by
      intro j
      by_cases hj : j = i
      · rw [← hclient, hj, Function.update_self]
      · rw [hne j hj]
    have hentries := h.entries.add hi hfree hlisten hnew hself fun j hj => by rw [hne j hj]
    refine ⟨hentries, h.reads_nodup, h.reads_sub, pollRound_resume (Nat.le_refl 1) ?_ ?_ rfl⟩
    · show s.polled ≤ max s.maxi i
      omega
    · refine ⟨hfilled.congr hrev, ⟨0, Int.le_refl 0, ?_, .inl rfl⟩, fun j hj hj0 _ => ?_, ?_⟩
      · have hcard := Finset.card_erase_add_one hzero
        have hleft : s.nready - 1 - 0 = ((s.ready.erase 0).card : ℤ) := by omega
        show Countdown (s.ready.erase 0) s.reads (s.nready - 1 - 0)
        rw [hleft, hreads]
        exact Countdown.start _
      · have hji : j ≠ i := by
          intro heq
          have hfd := hlive j hj
          rw [heq] at hfd
          omega
        show 1 ≤ j ∧ 0 ≤ (client' j).fd
        rw [hne j hji]
        exact ⟨by omega, hlive j hj⟩
      · show ∀ j ∈ s.reads, j < 1
        rw [hreads]
        exact nofun

theorem pollInv_read (h : PollInv listenfd s) (hi : 1 ≤ i) (hpolled : s.polled ≤ s.maxi)
    (hscan : Checking s.client s.maxi s.ready s.polled s.reads s.nready i) (hready : i ∈ s.ready) {sockfd : ℕ}
    (hfd : (s.client i).fd = sockfd) (res : PollRead) : PollInv listenfd (readEntry s i sockfd res) := by
  have hdata := hscan.read hi hready (fun _ => rfl) fun _ _ => rfl
  obtain ⟨hnodup, hsub⟩ := hdata.reads_spec
  have hclosed : PollInv listenfd
      { closeEntry { s with reads := s.reads ++ [i] } i sockfd with
        nready := s.nready - 1, pc := .resume (s.nready - 1) (i + 1) } := by
    have hself : (Function.update s.client i { s.client i with fd := -1 } i).fd = -1 := by
      rw [Function.update_self]
    have hne : ∀ j ≠ i, (Function.update s.client i { s.client i with fd := -1 } j).fd = (s.client j).fd := by
      intro j hj
      rw [Function.update_of_ne hj]
    have hrev : ∀ j, (Function.update s.client i { s.client i with fd := -1 } j).revents =
        (s.client j).revents := by
      intro j
      by_cases hj : j = i
      · rw [hj, Function.update_self]
      · rw [Function.update_of_ne hj]
    have hread := hscan.read hi hready hrev hne
    exact ⟨h.entries.remove hi hfd hself hne, hnodup, hsub, pollRound_resume (by omega) hpolled hread rfl⟩
  cases res with
  | eof => exact hclosed
  | reset => exact hclosed
  | data bytes => exact ⟨h.entries, hnodup, hsub, pollRound_resume (by omega) hpolled hdata rfl⟩
  | error => exact ⟨h.entries, hnodup, hsub, trivial⟩

theorem pollInv_check (h : PollInv listenfd s) (hpc : s.pc = .scan i) (res : PollRead) :
    PollInv listenfd (checkEntry s i res) := by
  have hround := h.round
  rw [PollRound, hpc] at hround
  obtain ⟨hi, hpos, hpolled, hscan⟩ := hround
  unfold checkEntry
  by_cases hle : i ≤ s.maxi
  · rw [if_pos hle]
    by_cases hneg : (s.client i).fd < 0
    · rw [if_pos hneg]
      exact ⟨h.entries, h.reads_nodup, h.reads_sub, by omega, hpos, hpolled, hscan.skip fun _ => hneg⟩
    · rw [if_neg hneg]
      obtain ⟨flags, hrev, hready⟩ := hscan.filled.flags i (hscan.le_polled hpos hle)
      rw [hrev]
      dsimp only
      by_cases hflags : flags.rdnorm || flags.err
      · rw [if_pos hflags]
        exact pollInv_read h hi hpolled hscan (hready.mp hflags) (Int.toNat_of_nonneg (by omega)).symm res
      · rw [if_neg hflags]
        refine ⟨h.entries, h.reads_nodup, h.reads_sub, by omega, hpos, hpolled, hscan.skip fun hmem => ?_⟩
        exact absurd (hready.mpr hmem) hflags
  · rw [if_neg hle]
    exact ⟨h.entries, h.reads_nodup, h.reads_sub, hscan.finish hpolled (by omega)⟩

theorem pollInv_reachable (h : (poll01 openMax listenfd base).Reachable s) : PollInv listenfd s := by
  refine TransitionSystem.invariant ?_ ?_ h
  · intro s hs
    rw [hs]
    exact pollInv_start listenfd
  · intro s s' _ hinv hstep
    obtain ⟨a, ha, rfl⟩ := hstep
    cases a with
    | poll revents => exact pollInv_poll hinv ha.2
    | accept connfd =>
      obtain ⟨hpc, hnew⟩ := ha
      rw [Finset.mem_union, Finset.mem_insert, not_or, not_or] at hnew
      exact pollInv_accept hinv hpc hnew.1.1 hnew.2
    | check res =>
      obtain ⟨i, hpc⟩ := PollPc.exists_of_isScan ha
      rw [pollNext, hpc]
      exact pollInv_check hinv hpc res

/-- **The entries are the open connections, and a round reads what was reported.** At the top of the loop
entry 0 is the listening descriptor, the open connections are just the entries 1 to `maxi` that hold a
descriptor, no two entries hold the same one, and no entry above `maxi` holds any. In a round no entry is
read twice and only reported ones are read; when the round is over, each reported client has been read;
and no `revents` is looked at that this round's `Poll` did not fill in. -/
theorem poll_books (openMax listenfd : ℕ) (base : Finset ℕ) {s : Poll01}
    (h : (poll01 openMax listenfd base).Reachable s) :
    (s.pc = .poll →
      (s.client 0).fd = listenfd ∧
      (∀ j k, 0 ≤ (s.client j).fd → (s.client j).fd = (s.client k).fd → j = k) ∧
      (∀ fd : ℕ, fd ∈ s.conns ↔ ∃ j, 1 ≤ j ∧ j ≤ s.maxi ∧ (s.client j).fd = fd) ∧
      ∀ j, s.maxi < j → (s.client j).fd = -1) ∧
    s.reads.Nodup ∧
    (∀ j ∈ s.reads, j ∈ s.ready ∧ j ≠ 0) ∧
    (s.pc = .poll → ∀ j ∈ s.ready, j ≠ 0 → j ∈ s.reads) ∧
    s.pc ≠ .wild := by
  have hinv := pollInv_reachable h
  have hround := hinv.round
  rw [PollRound] at hround
  refine ⟨fun _ => ⟨hinv.entries.listen, hinv.entries.entries.distinct, hinv.entries.mem_conns, fun j hj => ?_⟩,
    hinv.reads_nodup, hinv.reads_sub, fun hpc => ?_, fun hpc => ?_⟩
  · exact hinv.entries.entries.above j (by omega)
  · rw [hpc] at hround
    exact hround
  · rw [hpc] at hround
    exact hround

end Steps

/-- What `Poll` reports when just the entries `js` are readable. -/
def readableAt (js : List ℕ) (j : ℕ) : PollFlags := ⟨decide (j ∈ js), false, false⟩

/-- A client connects; then it is readable when a second one connects, whose entry is appended. -/
def samplePolls : List PollAction :=
  [.poll (readableAt [0]), .accept 4, .poll (readableAt [0, 1]), .accept 5, .check (.data [97])]

theorem poll_books_sample :
    let s := samplePolls.foldl (pollNext 8) (pollStart 3)
    (s.pc = .poll ∧ s.maxi = 2 ∧ (s.client 2).revents = none ∧ s.reads = [1] ∧ s.echoed = [(4, [97])]) ∧
    ∀ fd : ℕ, fd ∈ s.conns ↔ ∃ j, 1 ≤ j ∧ j ≤ s.maxi ∧ (s.client j).fd = fd := by
  intro s
  have h₀ : (poll01 8 3 {0, 1, 2}).Reachable (pollStart 3) := TransitionSystem.reachable_init rfl
  have h : (poll01 8 3 {0, 1, 2}).Reachable s := h₀.actions (by decide)
  have hpc : s.pc = .poll := by decide
  exact ⟨by decide, ((poll_books 8 3 {0, 1, 2} h).1 hpc).2.2.1⟩

end UnixNetProg.Tcpcliserv
