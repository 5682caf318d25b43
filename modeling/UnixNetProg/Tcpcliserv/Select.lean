import UnixNetProg.Lib.Countdown
import UnixNetProg.Lib.FdTable
import UnixNetProg.Lib.Slots
import UnixNetProg.Lib.Transition
import UnixNetProg.Unp

/-!
# The echo server with `select` (`tcpcliserv/tcpservselect01.c`)

The clients are kept three times: in `client`, in `allset`, and in the bounds `maxi` and `maxfd`. A step
is one call of `Select`, one of `Accept`, or one turn of the loop over `client`. The kernel chooses what
`Select` reports, the descriptor that `Accept` returns and what `Read` gives. Where `Select`, `Accept` or
`Writen` fails, the process ends, and the run with it.

`FD_SETSIZE` is the system's. The macros are only defined for descriptors below it: after an `FD_SET` of
a larger one the run is at `wild`, where nothing is said about it any more. No step looks at `fdArgs`,
the descriptors that were passed to the macros, or at `reads` and `accepted`, the calls of this round.
-/

namespace UnixNetProg.Tcpcliserv

open Lib

inductive SelectPc where
  | select
  | accept
  | scan (i : ℕ)
  | quit
  | wild
  deriving DecidableEq, Repr

def SelectPc.isScan : SelectPc → Bool
  | .scan _ => true
  | .select | .accept | .quit | .wild => false

theorem SelectPc.exists_of_isScan {pc : SelectPc} (h : pc.isScan) : ∃ i, pc = .scan i := by
  cases pc with
  | scan i => exact ⟨i, rfl⟩
  | select | accept | quit | wild => exact nomatch h

/-- The clients, and the open descriptors of the process. -/
structure Table where
  client : ℕ → ℤ
  maxi : ℤ
  maxfd : ℕ
  allset : Finset ℕ
  opened : Finset ℕ

structure Select01 where
  pc : SelectPc
  tab : Table
  rset : Finset ℕ
  nready : ℤ
  fdArgs : Finset ℕ
  reads : List ℕ
  accepted : Option ℕ
  echoed : List (ℕ × List Byte)

inductive SelectAction where
  | select (rset : Finset ℕ)
  | accept (connfd : ℕ)
  | check (res : ReadRes)

/-- The descriptor is saved in slot `i`. -/
def Table.add (tab : Table) (i connfd : ℕ) : Table where
  client := Function.update tab.client i connfd
  maxi := max tab.maxi i
  maxfd := max tab.maxfd connfd
  allset := insert connfd tab.allset
  opened := insert connfd tab.opened

/-- The descriptor of slot `i` is closed. -/
def Table.remove (tab : Table) (i sockfd : ℕ) : Table :=
  { tab with
    client := Function.update tab.client i (-1)
    allset := tab.allset.erase sockfd
    opened := tab.opened.erase sockfd }

section Server

variable (fdSetsize listenfd : ℕ)

def select (s : Select01) (rset : Finset ℕ) : Select01 :=
  { s with
    rset := rset
    nready := rset.card
    fdArgs := insert listenfd s.fdArgs
    reads := []
    accepted := none
    pc := if listenfd ∈ rset then .accept else .scan 0 }

/-- `if (--nready <= 0)`: no more readable descriptors. -/
def resume (nready : ℤ) (i : ℕ) : SelectPc := if nready ≤ 0 then .select else .scan i

def accept (s : Select01) (connfd : ℕ) : Select01 :=
  match firstSlot (fun i => s.tab.client i < 0) fdSetsize with
  | none => { s with accepted := some connfd, pc := .quit }
  | some i =>
    if connfd < fdSetsize then
      { s with
        tab := s.tab.add i connfd
        fdArgs := insert connfd s.fdArgs
        accepted := some connfd
        nready := s.nready - 1
        pc := resume (s.nready - 1) 0 }
    else { s with fdArgs := insert connfd s.fdArgs, accepted := some connfd, pc := .wild }

/-- The client in slot `i` is readable. -/
def readClient (s : Select01) (i sockfd : ℕ) (res : ReadRes) : Select01 :=
  match res with
  | .eof =>
    { s with
      tab := s.tab.remove i sockfd
      reads := s.reads ++ [sockfd]
      nready := s.nready - 1
      pc := resume (s.nready - 1) (i + 1) }
  | .data bytes =>
    { s with
      echoed := s.echoed ++ [(sockfd, bytes)]
      reads := s.reads ++ [sockfd]
      nready := s.nready - 1
      pc := resume (s.nready - 1) (i + 1) }
  | .wouldBlock | .error => { s with reads := s.reads ++ [sockfd], pc := .quit }

/-- One turn of the loop over the clients. -/
def checkClient (s : Select01) (i : ℕ) (res : ReadRes) : Select01 :=
  if i ≤ s.tab.maxi then
    if s.tab.client i < 0 then { s with pc := .scan (i + 1) }
    else
      let sockfd := (s.tab.client i).toNat
      let s := { s with fdArgs := insert sockfd s.fdArgs }
      if sockfd ∈ s.rset then readClient s i sockfd res else { s with pc := .scan (i + 1) }
  else { s with pc := .select }

/-- The system calls that can return. -/
def SelectEnabled (s : Select01) : SelectAction → Prop
  | .select rset => s.pc = .select ∧ rset ⊆ s.tab.allset ∧ rset.Nonempty
  | .accept connfd => s.pc = .accept ∧ connfd ∉ s.tab.opened
  | .check res => res.Valid MAXLINE ∧ s.pc.isScan

instance (s : Select01) : ∀ a, Decidable (SelectEnabled s a)
  | .select _ => inferInstanceAs (Decidable (_ ∧ _ ∧ _))
  | .accept _ => inferInstanceAs (Decidable (_ ∧ _))
  | .check _ => inferInstanceAs (Decidable (_ ∧ _))

def selectNext (s : Select01) : SelectAction → Select01
  | .select rset => select listenfd s rset
  | .accept connfd => accept fdSetsize s connfd
  | .check res =>
    match s.pc with
    | .scan i => checkClient s i res
    | _ => s

/-- The listening descriptor is open besides those of `base`. -/
def selectStart (base : Finset ℕ) : Select01 where
  pc := if listenfd < fdSetsize then .select else .wild
  tab := ⟨fun _ => -1, -1, listenfd, {listenfd}, insert listenfd base⟩
  rset := ∅
  nready := 0
  fdArgs := {listenfd}
  reads := []
  accepted := none
  echoed := []

def select01 (base : Finset ℕ) : TransitionSystem Select01 :=
  .ofActions (· = selectStart fdSetsize listenfd base) SelectEnabled (selectNext fdSetsize listenfd)

end Server

/-! ### The table -/

/-- `client`, `allset`, `maxi` and `maxfd` describe the same clients. -/
structure TableInv (fdSetsize listenfd : ℕ) (tab : Table) : Prop where
  clients : FdTable tab.client tab.maxi (tab.allset.erase listenfd)
  listen : listenfd ∈ tab.allset
  maxi_lt : tab.maxi < fdSetsize
  le_maxfd : ∀ fd ∈ tab.allset, fd ≤ tab.maxfd
  opened : tab.allset ⊆ tab.opened

section TableInv

variable {fdSetsize listenfd : ℕ} {tab : Table} {i : ℕ}

theorem TableInv.lt_of_nonneg (h : TableInv fdSetsize listenfd tab) (hi : 0 ≤ tab.client i) : i < fdSetsize := by
  have hle := h.clients.le_top hi
  have hmaxi := h.maxi_lt
  omega

theorem TableInv.mem_allset (h : TableInv fdSetsize listenfd tab) (fd : ℕ) :
    fd ∈ tab.allset ↔ fd = listenfd ∨ ∃ j < fdSetsize, tab.client j = fd := by
  constructor
  · intro hfd
    by_cases hl : fd = listenfd
    · exact .inl hl
    · obtain ⟨j, hj⟩ := (h.clients.mem_fds fd).mp (Finset.mem_erase.mpr ⟨hl, hfd⟩)
      exact .inr ⟨j, h.lt_of_nonneg (by omega), hj⟩
  · rintro (hl | ⟨j, -, hj⟩)
    · rw [hl]
      exact h.listen
    · exact Finset.mem_of_mem_erase (h.clients.mem_of_slot hj)

theorem TableInv.ne_listen (h : TableInv fdSetsize listenfd tab) (j : ℕ) : tab.client j ≠ listenfd := by
  intro hj
  exact (Finset.mem_erase.mp (h.clients.mem_of_slot hj)).1 rfl

theorem tableInv_start (fdSetsize listenfd : ℕ) (base : Finset ℕ) :
    TableInv fdSetsize listenfd ⟨fun _ => -1, -1, listenfd, {listenfd}, insert listenfd base⟩ := by
  refine ⟨?_, Finset.mem_singleton_self listenfd, ?_, fun fd hfd => ?_, ?_⟩
  · show FdTable (fun _ => -1) (-1) (({listenfd} : Finset ℕ).erase listenfd)
    rw [Finset.erase_singleton]
    exact FdTable.empty (fun _ => rfl) (-1)
  · show (-1 : ℤ) < fdSetsize
    omega
  · rw [Finset.mem_singleton.mp hfd]
  · exact Finset.singleton_subset_iff.mpr (Finset.mem_insert_self _ _)

theorem TableInv.add (h : TableInv fdSetsize listenfd tab) {connfd : ℕ} (hlt : i < fdSetsize)
    (hfree : tab.client i < 0) (hnew : connfd ∉ tab.opened) :
    TableInv fdSetsize listenfd (tab.add i connfd) := by
  have hnotin : connfd ∉ tab.allset := fun hmem => hnew (h.opened hmem)
  have hlisten : connfd ≠ listenfd := by
    intro heq
    exact hnotin (heq ▸ h.listen)
  refine ⟨?_, Finset.mem_insert_of_mem h.listen, ?_, fun fd hfd => ?_, ?_⟩
  · show FdTable (tab.add i connfd).client (max tab.maxi i) ((insert connfd tab.allset).erase listenfd)
    rw [Finset.erase_insert_of_ne hlisten]
    apply h.clients.add hfree
    · exact fun hmem => hnotin (Finset.mem_of_mem_erase hmem)
    · exact Function.update_self ..
    · exact fun j hj => Function.update_of_ne hj _ _
  · have hmaxi := h.maxi_lt
    show max tab.maxi (i : ℤ) < fdSetsize
    omega
  · show fd ≤ max tab.maxfd connfd
    rcases Finset.mem_insert.mp hfd with hfd | hfd
    · omega
    · have hle := h.le_maxfd fd hfd
      omega
  · exact Finset.insert_subset_insert connfd h.opened

theorem TableInv.remove (h : TableInv fdSetsize listenfd tab) {sockfd : ℕ} (hi : tab.client i = sockfd) :
    TableInv fdSetsize listenfd (tab.remove i sockfd) := by
  have hlisten : listenfd ≠ sockfd := by
    intro heq
    apply h.ne_listen i
    rw [hi, heq]
  refine ⟨?_, Finset.mem_erase.mpr ⟨hlisten, h.listen⟩, h.maxi_lt, fun fd hfd => ?_, ?_⟩
  · show FdTable (tab.remove i sockfd).client tab.maxi ((tab.allset.erase sockfd).erase listenfd)
    rw [Finset.erase_right_comm]
    apply h.clients.remove hi
    · exact Function.update_self ..
    · exact fun j hj => Function.update_of_ne hj _ _
  · exact h.le_maxfd fd (Finset.mem_of_mem_erase hfd)
  · exact Finset.erase_subset_erase sockfd h.opened

end TableInv

/-! ### A round -/

/-- The loop is at slot `i`: what is due and not read lies ahead, what was read lies behind. -/
structure Scanning (listenfd : ℕ) (tab : Table) (rset : Finset ℕ) (reads : List ℕ) (nready : ℤ) (i : ℕ) :
    Prop where
  count : Countdown (rset.erase listenfd) reads nready
  ahead : ∀ fd ∈ rset, fd ≠ listenfd → fd ∉ reads → ∃ j ≥ i, tab.client j = fd
  behind : ∀ fd ∈ reads, ∀ j ≥ i, tab.client j ≠ fd

def Round (listenfd : ℕ) (s : Select01) : Prop :=
  match s.pc with
  | .select => ∀ fd ∈ s.rset, fd ≠ listenfd → fd ∈ s.reads
  | .accept => s.reads = [] ∧ listenfd ∈ s.rset ∧ s.rset ⊆ s.tab.allset ∧ s.nready = s.rset.card
  | .scan i => Scanning listenfd s.tab s.rset s.reads s.nready i
  | .quit | .wild => True

structure SelectInv (fdSetsize listenfd : ℕ) (s : Select01) : Prop where
  table : TableInv fdSetsize listenfd s.tab
  reads_nodup : s.reads.Nodup
  reads_sub : ∀ fd ∈ s.reads, fd ∈ s.rset ∧ fd ≠ listenfd
  accepted_new : ∀ connfd, s.accepted = some connfd → connfd ∉ s.rset
  round : Round listenfd s

section Rounds

variable {fdSetsize listenfd : ℕ} {tab : Table} {rset : Finset ℕ} {reads : List ℕ} {nready : ℤ} {i : ℕ}

theorem Scanning.reads_sub (h : Scanning listenfd tab rset reads nready i) :
    ∀ fd ∈ reads, fd ∈ rset ∧ fd ≠ listenfd := by
  intro fd hfd
  obtain ⟨hne, hmem⟩ := Finset.mem_erase.mp (h.count.sub fd hfd)
  exact ⟨hmem, hne⟩

theorem Scanning.start (h : TableInv fdSetsize listenfd tab)
    (hahead : ∀ fd ∈ rset, fd ≠ listenfd → fd ∈ tab.allset)
    (hnready : nready = (rset.erase listenfd).card) : Scanning listenfd tab rset [] nready 0 := by
  refine ⟨?_, fun fd hfd hne _ => ?_, nofun⟩
  · rw [hnready]
    exact Countdown.start _
  · rcases (h.mem_allset fd).mp (hahead fd hfd hne) with heq | ⟨j, -, hj⟩
    · exact absurd heq hne
    · exact ⟨j, Nat.zero_le j, hj⟩

theorem Scanning.skip (h : Scanning listenfd tab rset reads nready i)
    (hskip : ∀ fd ∈ rset, tab.client i ≠ fd) : Scanning listenfd tab rset reads nready (i + 1) := by
  refine ⟨h.count, fun fd hfd hne hnew => ?_, fun fd hfd j hj => h.behind fd hfd j (by omega)⟩
  obtain ⟨j, hj, hjfd⟩ := h.ahead fd hfd hne hnew
  have hji : j ≠ i := by
    intro heq
    rw [heq] at hjfd
    exact hskip fd hfd hjfd
  exact ⟨j, by omega, hjfd⟩

theorem Scanning.read (h : Scanning listenfd tab rset reads nready i) (htab : TableInv fdSetsize listenfd tab)
    {sockfd : ℕ} (hi : tab.client i = sockfd) (hset : sockfd ∈ rset) {tab' : Table}
    (htab' : ∀ j ≠ i, tab'.client j = tab.client j) :
    Scanning listenfd tab' rset (reads ++ [sockfd]) (nready - 1) (i + 1) := by
  have hnew : sockfd ∉ reads := fun hmem => h.behind sockfd hmem i (Nat.le_refl i) hi
  have hlisten : sockfd ≠ listenfd := by
    intro heq
    apply htab.ne_listen i
    rw [hi, heq]
  refine ⟨h.count.take (Finset.mem_erase.mpr ⟨hlisten, hset⟩) hnew, fun fd hfd hne hnew' => ?_, fun fd hfd j hj => ?_⟩
  · rw [List.mem_append, not_or, List.mem_singleton] at hnew'
    obtain ⟨j, hj, hjfd⟩ := h.ahead fd hfd hne hnew'.1
    have hji : j ≠ i := by
      intro heq
      rw [heq, hi] at hjfd
      omega
    exact ⟨j, by omega, (htab' j hji).trans hjfd⟩
  · have hji : j ≠ i := by omega
    rw [htab' j hji]
    rcases List.mem_append.mp hfd with hfd | hfd
    · exact h.behind fd hfd j (by omega)
    · rw [List.mem_singleton.mp hfd]
      intro hjfd
      exact hji (htab.clients.distinct j i (by omega) (hjfd.trans hi.symm))

theorem Scanning.finish (h : Scanning listenfd tab rset reads nready i) (htab : TableInv fdSetsize listenfd tab)
    (hi : tab.maxi < i) : ∀ fd ∈ rset, fd ≠ listenfd → fd ∈ reads := by
  intro fd hfd hne
  by_contra hnew
  obtain ⟨j, hj, hjfd⟩ := h.ahead fd hfd hne hnew
  have hfree := htab.clients.above j (by omega)
  omega

/-- The countdown goes to the top of the loop only when all that is due has been read. -/
theorem round_resume {s : Select01} (h : Scanning listenfd s.tab s.rset s.reads s.nready i)
    (hpc : s.pc = resume s.nready i) : Round listenfd s := by
  rw [Round, hpc, resume]
  by_cases hle : s.nready ≤ 0
  · rw [if_pos hle]
    intro fd hfd hne
    exact h.count.mem_done hle (Finset.mem_erase.mpr ⟨hne, hfd⟩)
  · rw [if_neg hle]
    exact h

end Rounds

section Steps

variable {fdSetsize listenfd : ℕ} {base : Finset ℕ} {s : Select01} {i : ℕ}

theorem selectInv_start (fdSetsize listenfd : ℕ) (base : Finset ℕ) :
    SelectInv fdSetsize listenfd (selectStart fdSetsize listenfd base) := by
  refine ⟨tableInv_start fdSetsize listenfd base, List.nodup_nil, nofun, nofun, ?_⟩
  rw [Round, selectStart]
  by_cases hlt : listenfd < fdSetsize
  · simp [hlt]
  · simp [hlt]

theorem selectInv_select (h : SelectInv fdSetsize listenfd s) {rset : Finset ℕ} (hsub : rset ⊆ s.tab.allset) :
    SelectInv fdSetsize listenfd (select listenfd s rset) := by
  refine ⟨h.table, List.nodup_nil, nofun, nofun, ?_⟩
  rw [Round, select]
  by_cases hl : listenfd ∈ rset
  · rw [if_pos hl]
    exact ⟨rfl, hl, hsub, rfl⟩
  · rw [if_neg hl]
    apply Scanning.start h.table
    · intro fd hfd _
      exact hsub hfd
    · rw [Finset.erase_eq_of_notMem hl]

theorem selectInv_accept (h : SelectInv fdSetsize listenfd s) (hpc : s.pc = .accept) {connfd : ℕ}
    (hnew : connfd ∉ s.tab.opened) : SelectInv fdSetsize listenfd (accept fdSetsize s connfd) := by
  have hround := h.round
  rw [Round, hpc] at hround
  obtain ⟨hreads, hl, hsub, hnready⟩ := hround
  have haccepted : ∀ fd, some connfd = some fd → fd ∉ s.rset := by
    intro fd heq hmem
    rw [← Option.some.inj heq] at hmem
    exact hnew (h.table.opened (hsub hmem))
  unfold accept
  cases hslot : firstSlot (fun i => s.tab.client i < 0) fdSetsize with
  | none => exact ⟨h.table, h.reads_nodup, h.reads_sub, haccepted, trivial⟩
  | some i =>
    obtain ⟨hlt, hfree, -⟩ := firstSlot_eq_some hslot
    dsimp only
    by_cases hfd : connfd < fdSetsize
    · rw [if_pos hfd]
      refine ⟨h.table.add hlt hfree hnew, h.reads_nodup, h.reads_sub, haccepted, ?_⟩
      apply round_resume (i := 0) _ rfl
      show Scanning listenfd (s.tab.add i connfd) s.rset s.reads (s.nready - 1) 0
      rw [hreads]
      apply Scanning.start (h.table.add hlt hfree hnew)
      · intro fd hmem _
        exact Finset.mem_insert_of_mem (hsub hmem)
      · have hcard := Finset.card_erase_add_one hl
        omega
    · rw [if_neg hfd]
      exact ⟨h.table, h.reads_nodup, h.reads_sub, haccepted, trivial⟩

/-- What a turn of the loop can do. -/
inductive CheckStep (s : Select01) (i : ℕ) (res : ReadRes) : Select01 → Prop where
  | finish (hlt : s.tab.maxi < i) : CheckStep s i res { s with pc := .select }
  | free (hneg : s.tab.client i < 0) : CheckStep s i res { s with pc := .scan (i + 1) }
  | quiet (sockfd : ℕ) (hsock : s.tab.client i = sockfd) (hset : sockfd ∉ s.rset) :
    CheckStep s i res { s with fdArgs := insert sockfd s.fdArgs, pc := .scan (i + 1) }
  | read (sockfd : ℕ) (hsock : s.tab.client i = sockfd) (hset : sockfd ∈ s.rset) :
    CheckStep s i res (readClient { s with fdArgs := insert sockfd s.fdArgs } i sockfd res)

theorem checkClient_step (s : Select01) (i : ℕ) (res : ReadRes) : CheckStep s i res (checkClient s i res) := by
  unfold checkClient
  by_cases hle : i ≤ s.tab.maxi
  · rw [if_pos hle]
    by_cases hneg : s.tab.client i < 0
    · rw [if_pos hneg]
      exact .free hneg
    · rw [if_neg hneg]
      have hsock : s.tab.client i = (s.tab.client i).toNat := (Int.toNat_of_nonneg (by omega)).symm
      dsimp only
      by_cases hset : (s.tab.client i).toNat ∈ s.rset
      · rw [if_pos hset]
        exact .read _ hsock hset
      · rw [if_neg hset]
        exact .quiet _ hsock hset
  · rw [if_neg hle]
    exact .finish (by omega)

theorem selectInv_check (h : SelectInv fdSetsize listenfd s) (hpc : s.pc = .scan i) (res : ReadRes) :
    SelectInv fdSetsize listenfd (checkClient s i res) := by
  have hscan := h.round
  rw [Round, hpc] at hscan
  change Scanning listenfd s.tab s.rset s.reads s.nready i at hscan
  have hstep := checkClient_step s i res
  generalize checkClient s i res = s' at hstep ⊢
  cases hstep with
  | finish hlt => exact ⟨h.table, h.reads_nodup, h.reads_sub, h.accepted_new, hscan.finish h.table hlt⟩
  | free hneg =>
    refine ⟨h.table, h.reads_nodup, h.reads_sub, h.accepted_new, hscan.skip fun fd _ heq => ?_⟩
    omega
  | quiet sockfd hsock hset =>
    refine ⟨h.table, h.reads_nodup, h.reads_sub, h.accepted_new, hscan.skip fun fd hfd heq => ?_⟩
    obtain rfl : fd = sockfd := by omega
    exact hset hfd
  | read sockfd hsock hset =>
    have hread := hscan.read h.table hsock hset fun _ _ => rfl
    cases res with
    | eof =>
      have hremove : ∀ j ≠ i, (s.tab.remove i sockfd).client j = s.tab.client j :=
        fun j hj => Function.update_of_ne hj _ _
      have hclosed := hscan.read h.table hsock hset hremove
      exact ⟨h.table.remove hsock, hclosed.count.nodup, hclosed.reads_sub, h.accepted_new, round_resume hclosed rfl⟩
    | data bytes =>
      exact ⟨h.table, hread.count.nodup, hread.reads_sub, h.accepted_new, round_resume hread rfl⟩
    | wouldBlock | error => exact ⟨h.table, hread.count.nodup, hread.reads_sub, h.accepted_new, trivial⟩

theorem selectInv_step (h : SelectInv fdSetsize listenfd s) {a : SelectAction} (ha : SelectEnabled s a) :
    SelectInv fdSetsize listenfd (selectNext fdSetsize listenfd s a) := by
  cases a with
  | select rset => exact selectInv_select h ha.2.1
  | accept connfd => exact selectInv_accept h ha.1 ha.2
  | check res =>
    obtain ⟨i, hpc⟩ := SelectPc.exists_of_isScan ha.2
    rw [selectNext, hpc]
    exact selectInv_check h hpc res

theorem selectInv_reachable (h : (select01 fdSetsize listenfd base).Reachable s) :
    SelectInv fdSetsize listenfd s := by
  refine TransitionSystem.invariant ?_ ?_ h
  · intro s hs
    rw [hs]
    exact selectInv_start fdSetsize listenfd base
  · intro s s' _ hinv hstep
    obtain ⟨a, ha, rfl⟩ := hstep
    exact selectInv_step hinv ha

/-- **The three tables agree, and a round reads what is ready.** At the top of the loop `allset` is the
listening descriptor and the clients, which are distinct, and `maxi` and `maxfd` bound them. In a round
no descriptor is read twice, only those in `rset` are read, and never the connection accepted in it; when
the round is over, each client in `rset` has been read. -/
theorem select_books (fdSetsize listenfd : ℕ) (base : Finset ℕ) {s : Select01}
    (h : (select01 fdSetsize listenfd base).Reachable s) :
    (s.pc = .select →
      (∀ fd : ℕ, fd ∈ s.tab.allset ↔ fd = listenfd ∨ ∃ j < fdSetsize, s.tab.client j = fd) ∧
      (∀ j k, 0 ≤ s.tab.client j → s.tab.client j = s.tab.client k → j = k) ∧
      (∀ j, s.tab.client j ≠ listenfd) ∧
      (∀ j : ℕ, s.tab.maxi < j → s.tab.client j = -1) ∧
      ∀ fd ∈ s.tab.allset, fd ≤ s.tab.maxfd) ∧
    s.reads.Nodup ∧
    (∀ fd ∈ s.reads, fd ∈ s.rset ∧ fd ≠ listenfd) ∧
    (∀ connfd, s.accepted = some connfd → connfd ∉ s.reads) ∧
    (s.pc = .select → ∀ fd ∈ s.rset, fd ≠ listenfd → fd ∈ s.reads) := by
  have hinv := selectInv_reachable h
  have htab := hinv.table
  refine ⟨fun _ => ?_, hinv.reads_nodup, hinv.reads_sub, fun connfd hacc hmem => ?_, fun hpc => ?_⟩
  · exact ⟨htab.mem_allset, htab.clients.distinct, htab.ne_listen, htab.clients.above, htab.le_maxfd⟩
  · exact hinv.accepted_new connfd hacc (hinv.reads_sub connfd hmem).1
  · have hround := hinv.round
    rw [Round, hpc] at hround
    exact hround

end Steps

/-- Two clients connect; in the next round both are ready, the first of them has closed, and a third
connects. -/
def sampleRounds : List SelectAction :=
  [.select {3}, .accept 4, .select {3}, .accept 5, .select {3, 4, 5}, .accept 6, .check .eof, .check (.data [97])]

theorem select_books_sample :
    let s := sampleRounds.foldl (selectNext 8 3) (selectStart 8 3 {0, 1, 2})
    (s.pc = .select ∧ s.reads = [4, 5] ∧ s.tab.allset = {3, 5, 6} ∧ s.echoed = [(5, [97])]) ∧
    (∀ j k, 0 ≤ s.tab.client j → s.tab.client j = s.tab.client k → j = k) := by
  intro s
  have h₀ : (select01 8 3 {0, 1, 2}).Reachable (selectStart 8 3 {0, 1, 2}) := TransitionSystem.reachable_init rfl
  have h : (select01 8 3 {0, 1, 2}).Reachable s := h₀.actions (by decide)
  have hpc : s.pc = .select := by decide
  exact ⟨by decide, ((select_books 8 3 {0, 1, 2} h).1 hpc).2.1⟩

end UnixNetProg.Tcpcliserv
