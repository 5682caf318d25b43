import UnixNetProg.Tcpcliserv.Select

/-!
# Descriptors and `FD_SETSIZE` in `tcpcliserv/tcpservselect01.c`

The server quits when no slot of `client` is free, and there are `FD_SETSIZE` slots. The macros need
descriptors below `FD_SETSIZE`, of which the three standard descriptors and `listenfd` take four; so the
last four clients that the slots allow for get descriptors that are too large. `Accept` returns the
lowest unused descriptor, as the kernel does.
-/

namespace UnixNetProg.Tcpcliserv

open Lib

/-- The connected clients. -/
def Table.connected (listenfd : ℕ) (tab : Table) : Finset ℕ := tab.allset.erase listenfd

/-- `Accept` returns the lowest unused descriptor. -/
def LowestEnabled (s : Select01) : SelectAction → Prop
  | .accept connfd => s.pc = .accept ∧ LowestFree s.tab.opened connfd
  | .select rset => SelectEnabled s (.select rset)
  | .check res => SelectEnabled s (.check res)

instance (s : Select01) : ∀ a, Decidable (LowestEnabled s a)
  | .accept _ => inferInstanceAs (Decidable (_ ∧ _))
  | .select rset => inferInstanceAs (Decidable (SelectEnabled s (.select rset)))
  | .check res => inferInstanceAs (Decidable (SelectEnabled s (.check res)))

/-- Standard input, output and error, besides `listenfd`. -/
def stdFds : Finset ℕ := {0, 1, 2}

def select01Lowest (fdSetsize listenfd : ℕ) : TransitionSystem Select01 :=
  .ofActions (· = selectStart fdSetsize listenfd stdFds) LowestEnabled (selectNext fdSetsize listenfd)

/-- Fewer than `FD_SETSIZE - 4` clients are connected when a connection is accepted. -/
def Room (fdSetsize listenfd : ℕ) (s : Select01) : SelectAction → Prop
  | .accept _ => (s.tab.connected listenfd).card + 4 < fdSetsize
  | .select _ | .check _ => True

instance (fdSetsize listenfd : ℕ) (s : Select01) : ∀ a, Decidable (Room fdSetsize listenfd s a)
  | .accept _ => inferInstanceAs (Decidable (_ < _))
  | .select _ | .check _ => inferInstanceAs (Decidable True)

/-- The runs in which there is room for each client. -/
def select01Room (fdSetsize listenfd : ℕ) : TransitionSystem Select01 :=
  .ofActions (· = selectStart fdSetsize listenfd stdFds)
    (fun s a => LowestEnabled s a ∧ Room fdSetsize listenfd s a) (selectNext fdSetsize listenfd)

/-- What is open, and what the macros have seen. -/
structure BoundInv (fdSetsize listenfd : ℕ) (s : Select01) : Prop where
  books : SelectInv fdSetsize listenfd s
  opened : s.tab.opened = stdFds ∪ s.tab.allset
  disjoint : Disjoint stdFds s.tab.allset
  allset_lt : ∀ fd ∈ s.tab.allset, fd < fdSetsize
  args_lt : ∀ fd ∈ s.fdArgs, fd < fdSetsize

section Bound

variable {fdSetsize listenfd : ℕ} {s : Select01}

theorem BoundInv.mem_listen (h : BoundInv fdSetsize listenfd s) : listenfd ∈ s.tab.allset :=
  h.books.table.listen

theorem BoundInv.card_opened (h : BoundInv fdSetsize listenfd s) :
    s.tab.opened.card = (s.tab.connected listenfd).card + 4 := by
  have hstd : stdFds.card = 3 := by decide
  have hlisten := Finset.card_erase_add_one h.mem_listen
  rw [h.opened, Finset.card_union_of_disjoint h.disjoint, hstd, Table.connected]
  omega

theorem BoundInv.opened_lt (h : BoundInv fdSetsize listenfd s) (hlisten : 2 < listenfd) :
    ∀ fd ∈ s.tab.opened, fd < fdSetsize := by
  intro fd hfd
  rw [h.opened] at hfd
  rcases Finset.mem_union.mp hfd with hfd | hfd
  · have hlt := h.allset_lt listenfd h.mem_listen
    have hstd : ∀ fd ∈ stdFds, fd ≤ 2 := by decide
    have hle := hstd fd hfd
    omega
  · exact h.allset_lt fd hfd

theorem BoundInv.lt_iff (h : BoundInv fdSetsize listenfd s) (hlisten : 2 < listenfd) {connfd : ℕ}
    (hfd : LowestFree s.tab.opened connfd) :
    connfd < fdSetsize ↔ (s.tab.connected listenfd).card + 4 < fdSetsize := by
  rw [← h.card_opened]
  constructor
  · exact hfd.card_lt_of_lt (h.opened_lt hlisten)
  · exact hfd.lt_of_card_lt

theorem boundInv_start (hlisten : 2 < listenfd) (hlt : listenfd < fdSetsize) :
    BoundInv fdSetsize listenfd (selectStart fdSetsize listenfd stdFds) := by
  refine ⟨selectInv_start fdSetsize listenfd stdFds, ?_, ?_, ?_, ?_⟩
  · show insert listenfd stdFds = stdFds ∪ {listenfd}
    rw [Finset.union_comm]
    rfl
  · apply Finset.disjoint_singleton_right.mpr
    intro hmem
    have hstd : ∀ fd ∈ stdFds, fd ≤ 2 := by decide
    have hle := hstd listenfd hmem
    omega
  · intro fd hfd
    rw [Finset.mem_singleton.mp hfd]
    exact hlt
  · intro fd hfd
    rw [Finset.mem_singleton.mp hfd]
    exact hlt

theorem forall_mem_insert_lt {fds : Finset ℕ} {fd : ℕ} (hfd : fd < fdSetsize) (h : ∀ fd ∈ fds, fd < fdSetsize) :
    ∀ fd' ∈ insert fd fds, fd' < fdSetsize := by
  intro fd' hmem
  rcases Finset.mem_insert.mp hmem with heq | hmem
  · rw [heq]
    exact hfd
  · exact h fd' hmem

theorem boundInv_accept (h : BoundInv fdSetsize listenfd s) (hpc : s.pc = .accept) {connfd : ℕ}
    (hfd : LowestFree s.tab.opened connfd) (hlt : connfd < fdSetsize) :
    BoundInv fdSetsize listenfd (accept fdSetsize s connfd) := by
  have hbooks := selectInv_accept h.books hpc hfd.1
  unfold accept at hbooks ⊢
  cases hslot : firstSlot (fun i => s.tab.client i < 0) fdSetsize with
  | none =>
    rw [hslot] at hbooks
    exact ⟨hbooks, h.opened, h.disjoint, h.allset_lt, h.args_lt⟩
  | some i =>
    rw [hslot] at hbooks
    dsimp only at hbooks ⊢
    rw [if_pos hlt] at hbooks ⊢
    refine ⟨hbooks, ?_, ?_, ?_, ?_⟩
    · show insert connfd s.tab.opened = stdFds ∪ insert connfd s.tab.allset
      rw [h.opened, Finset.union_insert]
    · apply Finset.disjoint_insert_right.mpr
      refine ⟨fun hmem => hfd.1 ?_, h.disjoint⟩
      rw [h.opened]
      exact Finset.mem_union_left _ hmem
    · exact forall_mem_insert_lt hlt h.allset_lt
    · exact forall_mem_insert_lt hlt h.args_lt

theorem boundInv_check (h : BoundInv fdSetsize listenfd s) {i : ℕ} (hpc : s.pc = .scan i) (res : ReadRes) :
    BoundInv fdSetsize listenfd (checkClient s i res) := by
  have hbooks := selectInv_check h.books hpc res
  have hstep := checkClient_step s i res
  -- a client is in `allset`, and so in range
  have hclient : ∀ sockfd : ℕ, s.tab.client i = sockfd → sockfd ∈ s.tab.allset :=
    fun sockfd hsock => Finset.mem_of_mem_erase (h.books.table.clients.mem_of_slot hsock)
  have hargs : ∀ sockfd : ℕ, s.tab.client i = sockfd → ∀ fd ∈ insert sockfd s.fdArgs, fd < fdSetsize :=
    fun sockfd hsock => forall_mem_insert_lt (h.allset_lt sockfd (hclient sockfd hsock)) h.args_lt
  generalize checkClient s i res = s' at hbooks hstep ⊢
  cases hstep with
  | finish | free => exact ⟨hbooks, h.opened, h.disjoint, h.allset_lt, h.args_lt⟩
  | quiet sockfd hsock => exact ⟨hbooks, h.opened, h.disjoint, h.allset_lt, hargs sockfd hsock⟩
  | read sockfd hsock =>
    cases res with
    | eof =>
      refine ⟨hbooks, ?_, ?_, ?_, hargs sockfd hsock⟩
      · show s.tab.opened.erase sockfd = stdFds ∪ s.tab.allset.erase sockfd
        have hnotin : sockfd ∉ stdFds :=
          fun hstd => Finset.disjoint_left.mp h.disjoint hstd (hclient sockfd hsock)
        rw [h.opened, Finset.erase_union_distrib, Finset.erase_eq_of_notMem hnotin]
      · exact h.disjoint.mono_right (Finset.erase_subset _ _)
      · exact fun fd hfd => h.allset_lt fd (Finset.mem_of_mem_erase hfd)
    | data | wouldBlock | error => exact ⟨hbooks, h.opened, h.disjoint, h.allset_lt, hargs sockfd hsock⟩

theorem boundInv_step (h : BoundInv fdSetsize listenfd s) (hlisten : 2 < listenfd) {a : SelectAction}
    (ha : LowestEnabled s a) (hroom : Room fdSetsize listenfd s a) :
    BoundInv fdSetsize listenfd (selectNext fdSetsize listenfd s a) := by
  cases a with
  | select rset =>
    have hlt := h.allset_lt listenfd h.mem_listen
    exact ⟨selectInv_step h.books ha, h.opened, h.disjoint, h.allset_lt, forall_mem_insert_lt hlt h.args_lt⟩
  | accept connfd => exact boundInv_accept h ha.1 ha.2 ((h.lt_iff hlisten ha.2).mpr hroom)
  | check res =>
    obtain ⟨i, hpc⟩ := SelectPc.exists_of_isScan ha.2
    rw [selectNext, hpc]
    exact boundInv_check h hpc res

theorem boundInv_reachable (hlisten : 2 < listenfd) (hlt : listenfd < fdSetsize)
    (h : (select01Room fdSetsize listenfd).Reachable s) : BoundInv fdSetsize listenfd s := by
  refine TransitionSystem.invariant ?_ ?_ h
  · intro s hs
    rw [hs]
    exact boundInv_start hlisten hlt
  · intro s s' _ hinv hstep
    obtain ⟨a, ⟨ha, hroom⟩, rfl⟩ := hstep
    exact boundInv_step hinv hlisten ha hroom

theorem exists_free_slot (h : BoundInv fdSetsize listenfd s) (hlisten : 2 < listenfd) :
    ∃ i, firstSlot (fun i => s.tab.client i < 0) fdSetsize = some i := by
  by_contra hnone
  have hfull : ∀ i < fdSetsize, ¬ s.tab.client i < 0 := by
    intro i hi hneg
    exact hnone (exists_firstSlot hi hneg)
  -- all slots hold clients, which are distinct and leave no room for `listenfd`
  have hmaps : ∀ i ∈ Finset.range fdSetsize, (s.tab.client i).toNat ∈ s.tab.connected listenfd := by
    intro i hi
    have hnonneg := hfull i (Finset.mem_range.mp hi)
    exact h.books.table.clients.mem_of_slot (i := i) (by omega)
  have hinj : ∀ i ∈ Finset.range fdSetsize, ∀ j ∈ Finset.range fdSetsize,
      (s.tab.client i).toNat = (s.tab.client j).toNat → i = j := by
    intro i hi j hj heq
    have hi' := hfull i (Finset.mem_range.mp hi)
    have hj' := hfull j (Finset.mem_range.mp hj)
    exact h.books.table.clients.distinct i j (by omega) (by omega)
  have hcard := Finset.card_le_card_of_injOn _ hmaps hinj
  have hopened : s.tab.opened ⊆ Finset.range fdSetsize :=
    fun fd hfd => Finset.mem_range.mpr (h.opened_lt hlisten fd hfd)
  have hle := Finset.card_le_card hopened
  have hcount := h.card_opened
  rw [Finset.card_range] at hcard hle
  omega

theorem mem_fdArgs_accept (h : BoundInv fdSetsize listenfd s) (hlisten : 2 < listenfd) (connfd : ℕ) :
    connfd ∈ (accept fdSetsize s connfd).fdArgs := by
  obtain ⟨i, hi⟩ := exists_free_slot h hlisten
  rw [accept, hi]
  dsimp only
  by_cases hfd : connfd < fdSetsize
  · rw [if_pos hfd]
    exact Finset.mem_insert_self _ _
  · rw [if_neg hfd]
    exact Finset.mem_insert_self _ _

/-- **When the descriptors stay below `FD_SETSIZE`.** In every run in which each connection is accepted
while fewer than `FD_SETSIZE - 4` clients are connected, the macros only get descriptors below
`FD_SETSIZE`; and the next accepted connection keeps it so just when there is room for it: the test for
too many clients does not stop it. -/
theorem select_in_range (hlisten : 2 < listenfd) (hlt : listenfd < fdSetsize)
    (h : (select01Room fdSetsize listenfd).Reachable s) :
    (∀ fd ∈ s.fdArgs, fd < fdSetsize) ∧
    ∀ connfd, LowestEnabled s (.accept connfd) →
      ((∀ fd ∈ (selectNext fdSetsize listenfd s (.accept connfd)).fdArgs, fd < fdSetsize) ↔
        (s.tab.connected listenfd).card + 4 < fdSetsize) := by
  have hinv := boundInv_reachable hlisten hlt h
  refine ⟨hinv.args_lt, fun connfd ha => ⟨fun hargs => ?_, fun hroom => ?_⟩⟩
  · rw [← hinv.lt_iff hlisten ha.2]
    exact hargs connfd (mem_fdArgs_accept hinv hlisten connfd)
  · exact (boundInv_step hinv hlisten ha hroom).args_lt

/-- Four clients fill a set of eight descriptors; a fifth can still connect, as descriptor 8. -/
theorem select_in_range_sample :
    let acts : List SelectAction :=
      [.select {3}, .accept 4, .select {3}, .accept 5, .select {3}, .accept 6, .select {3}, .accept 7, .select {3}]
    let s := acts.foldl (selectNext 8 3) (selectStart 8 3 stdFds)
    (∀ fd ∈ s.fdArgs, fd < 8) ∧ ¬ ∀ fd ∈ (selectNext 8 3 s (.accept 8)).fdArgs, fd < 8 := by
  intro acts s
  have h₀ : (select01Room 8 3).Reachable (selectStart 8 3 stdFds) := TransitionSystem.reachable_init rfl
  have h : (select01Room 8 3).Reachable s := h₀.actions (by decide)
  obtain ⟨hargs, hiff⟩ := select_in_range (by decide) (by decide) h
  refine ⟨hargs, fun hnext => ?_⟩
  have hroom := (hiff 8 (by decide)).mp hnext
  exact absurd hroom (by decide)

theorem connect_client (h : (select01Room fdSetsize 3).Reachable s) (hpc : s.pc = .select) {k : ℕ}
    (hopened : s.tab.opened = Finset.range (k + 4)) (hk : k + 4 < fdSetsize) :
    ∃ s', (select01Room fdSetsize 3).Reachable s' ∧ s'.pc = .select ∧
      s'.tab.opened = Finset.range (k + 1 + 4) := by
  have hinv : BoundInv fdSetsize 3 s := boundInv_reachable (by decide) (by omega) h
  have hsel : SelectEnabled s (.select {3}) := by
    refine ⟨hpc, Finset.singleton_subset_iff.mpr hinv.mem_listen, Finset.singleton_nonempty 3⟩
  have h₁ := h.action (a := SelectAction.select {3}) ⟨hsel, trivial⟩
  generalize hs₁ : selectNext fdSetsize 3 s (.select {3}) = s₁ at h₁
  have hinv₁ : BoundInv fdSetsize 3 s₁ := boundInv_reachable (by decide) (by omega) h₁
  have hpc₁ : s₁.pc = .accept := by
    rw [← hs₁]
    rfl
  have hnready₁ : s₁.nready = 1 := by
    rw [← hs₁]
    rfl
  have hopened₁ : s₁.tab.opened = Finset.range (k + 4) := by
    rw [← hs₁]
    exact hopened
  have hfree : LowestFree s₁.tab.opened (k + 4) := by
    rw [hopened₁]
    exact ⟨Finset.notMem_range_self, fun m hm => Finset.mem_range.mpr hm⟩
  have hroom : (s₁.tab.connected 3).card + 4 < fdSetsize := by
    rw [← hinv₁.card_opened, hopened₁, Finset.card_range]
    exact hk
  have h₂ := h₁.action (a := SelectAction.accept (k + 4)) ⟨⟨hpc₁, hfree⟩, hroom⟩
  obtain ⟨i, hi⟩ := exists_free_slot hinv₁ (by decide)
  refine ⟨_, h₂, ?_, ?_⟩
  · show (accept fdSetsize s₁ (k + 4)).pc = .select
    rw [accept, hi]
    dsimp only
    rw [if_pos hk, hnready₁]
    rfl
  · show (accept fdSetsize s₁ (k + 4)).tab.opened = _
    rw [accept, hi]
    dsimp only
    rw [if_pos hk]
    show insert (k + 4) s₁.tab.opened = _
    rw [hopened₁, ← Finset.range_add_one]

theorem connect_clients (hlt : 3 < fdSetsize) (k : ℕ) (hk : k + 4 ≤ fdSetsize) :
    ∃ s, (select01Room fdSetsize 3).Reachable s ∧ s.pc = .select ∧ s.tab.opened = Finset.range (k + 4) := by
  induction k with
  | zero =>
    refine ⟨selectStart fdSetsize 3 stdFds, TransitionSystem.reachable_init rfl, ?_, ?_⟩
    · exact if_pos hlt
    · show insert 3 stdFds = Finset.range 4
      decide
  | succ k ih =>
    obtain ⟨s, h, hpc, hopened⟩ := ih (by omega)
    exact connect_client h hpc hopened (by omega)

theorem exists_out_of_range (hlt : 3 < fdSetsize) :
    ∃ s, (select01Lowest fdSetsize 3).Reachable s ∧ fdSetsize ∈ s.fdArgs := by
  obtain ⟨s, h, hpc, hopened⟩ := connect_clients hlt (fdSetsize - 4) (by omega)
  have hinv := boundInv_reachable (by decide) hlt h
  have hsel : SelectEnabled s (.select {3}) :=
    ⟨hpc, Finset.singleton_subset_iff.mpr hinv.mem_listen, Finset.singleton_nonempty 3⟩
  have h₁ := h.action (a := SelectAction.select {3}) ⟨hsel, trivial⟩
  have hinv₁ := boundInv_reachable (by decide) hlt h₁
  have hfree : LowestFree s.tab.opened fdSetsize := by
    have hrange : fdSetsize - 4 + 4 = fdSetsize := by omega
    rw [hopened, hrange]
    exact ⟨Finset.notMem_range_self, fun m hm => Finset.mem_range.mpr hm⟩
  have h₂ := (h₁.mono fun _ _ ha => ha.1).action (a := SelectAction.accept fdSetsize) ⟨rfl, hfree⟩
  exact ⟨_, h₂, mem_fdArgs_accept hinv₁ (by decide) fdSetsize⟩

end Bound

/-- With 1024 descriptors in a set, the server accepts 1020 clients and then passes 1024 to `FD_SET`. -/
theorem select_out_of_range :
    ¬ ∀ s, (select01Lowest 1024 3).Reachable s → ∀ fd ∈ s.fdArgs, fd < 1024 := by
  intro hall
  obtain ⟨s, h, hmem⟩ := exists_out_of_range (show 3 < 1024 by decide)
  exact Nat.lt_irrefl 1024 (hall s h 1024 hmem)

end UnixNetProg.Tcpcliserv
