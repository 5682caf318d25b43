import Mathlib.Data.List.Nodup
import Mathlib.Logic.Function.Basic
import UnixNetProg.Lib.Slots
import UnixNetProg.Lib.Transition

/-!
# The preforked server that passes descriptors (`server/serv05.c`, `server/child05.c`)

The parent accepts each connection and passes it over a stream pipe to a child that is free; the child
serves it and writes one byte back. The processes share no memory, so a step is one system call of one
process together with the assignments around it; a call that would block is not enabled. No child dies.

Connections are numbered as they arrive. No step looks at `accepted`, at `handed`, the children that the
accepted connections went to, or at `served`.
-/

namespace UnixNetProg.Server

open Lib

/-- The descriptors that the parent selects on. -/
inductive Fd where
  | listen
  | pipe (i : ℕ)
  deriving DecidableEq, Repr

/-- The next system call of the parent; `quit` is after `err_quit("no available children")`. -/
inductive ParentPc where
  | select
  | accept
  | writeFd (connfd : ℕ)
  | close (connfd : ℕ)
  | scan (i : ℕ)
  | quit
  deriving DecidableEq, Repr

/-- The next system call of a child: `Read_fd`, those of `web_child` and `Close`, or `Write`. -/
inductive ChildPc where
  | readFd
  | webChild (connfd : ℕ)
  | write
  deriving DecidableEq, Repr

/-- `child_status` and `child_count`; the descriptors on the pipe to the child and the bytes on the pipe
back; and the child. -/
structure Child where
  status : ℤ
  count : ℕ
  passed : List ℕ
  told : ℕ
  pc : ChildPc
  served : List ℕ
  deriving DecidableEq, Repr

/-- The child is marked as busy and the descriptor is written to its pipe. -/
def Child.pass (ch : Child) (connfd : ℕ) : Child :=
  { ch with status := 1, count := ch.count + 1, passed := ch.passed ++ [connfd] }

/-- A byte is read from the pipe of the child, and it is marked as available. -/
def Child.report (ch : Child) : Child := { ch with status := 0, told := ch.told - 1 }

structure Serv where
  pc : ParentPc
  navail : ℤ
  rset : List Fd
  nsel : ℤ
  child : ℕ → Child
  backlog : List ℕ
  arrived : ℕ
  accepted : List ℕ
  handed : List (ℕ × ℕ)

/-- A step of the parent, a step of a child, a new connection, or one that the client gives up before it
is accepted. -/
inductive ServAction where
  | parent
  | child (i : ℕ)
  | arrive
  | reset (connfd : ℕ)

def Serv.setChild (s : Serv) (i : ℕ) (ch : Child) : Serv :=
  { s with child := Function.update s.child i ch }

/-! ### The parent -/

def masterset (n : ℕ) : List Fd := .listen :: (List.range n).map .pipe

def Serv.readable (s : Serv) : Fd → Bool
  | .listen => !s.backlog.isEmpty
  | .pipe i => decide (0 < (s.child i).told)

/-- What `Select` returns in `rset`. -/
def Serv.selected (n : ℕ) (s : Serv) : List Fd :=
  let rset := if s.navail ≤ 0 then (masterset n).erase .listen else masterset n
  rset.filter s.readable

def select (n : ℕ) (s : Serv) : Serv :=
  let rset := s.selected n
  { s with
    rset := rset
    nsel := rset.length
    pc := if .listen ∈ rset then .accept else .scan 0 }

def accept (s : Serv) : Serv :=
  match s.backlog with
  | [] => s
  | connfd :: backlog =>
    { s with backlog := backlog, accepted := s.accepted ++ [connfd], pc := .writeFd connfd }

/-- The first available child is marked as busy and gets the descriptor. -/
def passConnection (n : ℕ) (s : Serv) (connfd : ℕ) : Serv :=
  match firstSlot (fun i => (s.child i).status = 0) n with
  | none => { s with pc := .quit }
  | some i =>
    { s with navail := s.navail - 1, handed := s.handed ++ [(connfd, i)], pc := .close connfd }.setChild i
      ((s.child i).pass connfd)

/-- At 0 the parent is all done with the `select` results. -/
def resume (nsel : ℤ) (i : ℕ) : ParentPc := if nsel = 0 then .select else .scan i

/-- `Close(connfd)` and `--nsel`. -/
def closePassed (s : Serv) : Serv := { s with nsel := s.nsel - 1, pc := resume (s.nsel - 1) 0 }

/-- One turn of the loop that finds newly available children. -/
def scanChild (n : ℕ) (s : Serv) (i : ℕ) : Serv :=
  if i < n then
    if .pipe i ∈ s.rset then
      { s with
        navail := s.navail + 1
        nsel := s.nsel - 1
        pc := resume (s.nsel - 1) (i + 1) }.setChild i (s.child i).report
    else { s with pc := .scan (i + 1) }
  else { s with pc := .select }

def parentNext (n : ℕ) (s : Serv) : Serv :=
  match s.pc with
  | .select => select n s
  | .accept => accept s
  | .writeFd connfd => passConnection n s connfd
  | .close _ => closePassed s
  | .scan i => scanChild n s i
  | .quit => s

/-- The parent does not block in its next system call. -/
def ParentEnabled (n : ℕ) (s : Serv) : ParentPc → Prop
  | .select => s.selected n ≠ []
  | .accept => s.backlog ≠ []
  | .scan i => i < n → .pipe i ∈ s.rset → 0 < (s.child i).told
  | .writeFd _ | .close _ => True
  | .quit => False

instance (n : ℕ) (s : Serv) : ∀ pc, Decidable (ParentEnabled n s pc)
  | .select | .accept => inferInstanceAs (Decidable (_ ≠ _))
  | .scan _ => inferInstanceAs (Decidable (_ → _ → _))
  | .writeFd _ | .close _ => inferInstanceAs (Decidable True)
  | .quit => inferInstanceAs (Decidable False)

/-! ### The children -/

def childMain (ch : Child) : Child :=
  match ch.pc with
  | .readFd =>
    match ch.passed with
    | [] => ch
    | connfd :: passed => { ch with passed := passed, pc := .webChild connfd }
  | .webChild connfd => { ch with served := ch.served ++ [connfd], pc := .write }
  | .write => { ch with told := ch.told + 1, pc := .readFd }

def ChildEnabled (ch : Child) : Prop := ch.pc = .readFd → ch.passed ≠ []

instance (ch : Child) : Decidable (ChildEnabled ch) := inferInstanceAs (Decidable (_ → _))

/-! ### The system -/

def ServEnabled (n : ℕ) (s : Serv) : ServAction → Prop
  | .parent => ParentEnabled n s s.pc
  | .child i => i < n ∧ ChildEnabled (s.child i)
  | .arrive => True
  | .reset connfd => connfd ∈ s.backlog

instance (n : ℕ) (s : Serv) : ∀ a, Decidable (ServEnabled n s a)
  | .parent => inferInstanceAs (Decidable (ParentEnabled n s s.pc))
  | .child _ => inferInstanceAs (Decidable (_ ∧ _))
  | .arrive => inferInstanceAs (Decidable True)
  | .reset _ => inferInstanceAs (Decidable (_ ∈ _))

def servNext (n : ℕ) (s : Serv) : ServAction → Serv
  | .parent => parentNext n s
  | .child i => s.setChild i (childMain (s.child i))
  | .arrive => { s with backlog := s.backlog ++ [s.arrived], arrived := s.arrived + 1 }
  | .reset connfd => { s with backlog := s.backlog.erase connfd }

/-- All children are made. -/
def servStart (n : ℕ) : Serv where
  pc := .select
  navail := n
  rset := []
  nsel := 0
  child _ := ⟨0, 0, [], 0, .readFd, []⟩
  backlog := []
  arrived := 0
  accepted := []
  handed := []

def serv05 (n : ℕ) : TransitionSystem Serv := .ofActions (· = servStart n) (ServEnabled n) (servNext n)

/-! ### The invariant -/

/-- The child waits for a descriptor, and nothing is on the pipe in either direction. -/
def Child.Idle (ch : Child) : Prop := ch.pc = .readFd ∧ ch.passed = [] ∧ ch.told = 0

/-- The connections that the child has: the one it serves, and those on the pipe to it. -/
def Child.has (ch : Child) : List ℕ :=
  match ch.pc with
  | .webChild connfd => connfd :: ch.passed
  | .readFd | .write => ch.passed

/-- A child is free, or one connection is on its way to it, with it, or finished and not yet reported. -/
inductive Child.Stage : Child → Prop where
  | free (count : ℕ) (served : List ℕ) : Stage ⟨0, count, [], 0, .readFd, served⟩
  | passed (connfd count : ℕ) (served : List ℕ) : Stage ⟨1, count, [connfd], 0, .readFd, served⟩
  | serving (connfd count : ℕ) (served : List ℕ) : Stage ⟨1, count, [], 0, .webChild connfd, served⟩
  | finished (count : ℕ) (served : List ℕ) : Stage ⟨1, count, [], 0, .write, served⟩
  | told (count : ℕ) (served : List ℕ) : Stage ⟨1, count, [], 1, .readFd, served⟩

namespace Child.Stage

variable {ch : Child}

theorem status_iff (h : ch.Stage) : ch.status = 0 ↔ ch.Idle := by
  cases h <;> simp [Idle]

theorem length_has (h : ch.Stage) : ch.has.length ≤ 1 := by
  cases h <;> simp [has]

theorem childMain (h : ch.Stage) (hen : ChildEnabled ch) :
    (Server.childMain ch).Stage ∧ (Server.childMain ch).status = ch.status ∧
      (Server.childMain ch).served ++ (Server.childMain ch).has = ch.served ++ ch.has := by
  cases h with
  | free => exact absurd rfl (hen rfl)
  | passed connfd count served => exact ⟨.serving connfd count served, rfl, rfl⟩
  | serving connfd count served =>
    refine ⟨.finished count (served ++ [connfd]), rfl, ?_⟩
    exact List.append_nil _
  | finished count served => exact ⟨.told count served, rfl, rfl⟩
  | told => exact absurd rfl (hen rfl)

theorem pass (h : ch.Stage) (hfree : ch.status = 0) (connfd : ℕ) :
    (ch.pass connfd).Stage ∧ (ch.pass connfd).has = ch.has ++ [connfd] := by
  cases h with
  | free count served => exact ⟨.passed connfd (count + 1) served, rfl⟩
  | passed | serving | finished | told => exact nomatch hfree

theorem report (h : ch.Stage) (htold : 0 < ch.told) :
    ch.status ≠ 0 ∧ ch.report.Stage ∧ ch.report.has = ch.has := by
  cases h with
  | told count served => exact ⟨Int.one_ne_zero, .free count served, rfl⟩
  | free | passed | serving | finished => exact absurd htold (Nat.lt_irrefl 0)

end Child.Stage

/-- The connection that was accepted and not yet passed on. -/
def ParentPc.holds : ParentPc → List ℕ
  | .writeFd connfd => [connfd]
  | .select | .accept | .close _ | .scan _ | .quit => []

/-- The connections that were handed to a child. -/
def Serv.handedTo (s : Serv) (i : ℕ) : List ℕ := (s.handed.filter fun e => e.2 = i).map Prod.fst

structure ServInv (n : ℕ) (s : Serv) : Prop where
  navail : s.navail = Nat.count (fun i => (s.child i).status = 0) n
  stage : ∀ i, (s.child i).Stage
  ready : s.pc = .accept ∨ s.pc.holds ≠ [] → 0 < s.navail
  running : s.pc ≠ .quit
  accepted : s.accepted = s.handed.map Prod.fst ++ s.pc.holds
  nodup : (s.accepted ++ s.backlog).Nodup
  fresh : ∀ connfd ∈ s.accepted ++ s.backlog, connfd < s.arrived
  split : ∀ i, s.handedTo i = (s.child i).served ++ (s.child i).has

section Steps

variable {n : ℕ} {s : Serv}

theorem servInv_start (n : ℕ) : ServInv n (servStart n) := by
  have hcount : Nat.count (fun _ => (0 : ℤ) = 0) n = n := Nat.count_of_forall fun _ _ => rfl
  refine ⟨?_, fun _ => .free 0 [], ?_, ?_, rfl, List.nodup_nil, nofun, fun _ => rfl⟩
  · exact congrArg Int.ofNat hcount.symm
  · rintro (h | h)
    · exact nomatch h
    · exact absurd rfl h
  · exact ParentPc.noConfusion

theorem ServInv.goto (h : ServInv n s) {pc : ParentPc} (hpc : s.pc.holds = []) (hholds : pc.holds = [])
    (hready : pc = .accept → 0 < s.navail) (hquit : pc ≠ .quit) (rset : List Fd) (nsel : ℤ) :
    ServInv n { s with pc := pc, rset := rset, nsel := nsel } := by
  refine ⟨h.navail, h.stage, ?_, hquit, ?_, h.nodup, h.fresh, h.split⟩
  · rintro (hacc | hne)
    · exact hready hacc
    · exact absurd hholds hne
  · have haccepted := h.accepted
    rw [hpc] at haccepted
    show s.accepted = s.handed.map Prod.fst ++ pc.holds
    rw [hholds]
    exact haccepted

theorem resume_spec (nsel : ℤ) (i : ℕ) :
    (resume nsel i).holds = [] ∧ resume nsel i ≠ .accept ∧ resume nsel i ≠ .quit := by
  unfold resume
  by_cases hn : nsel = 0
  · rw [if_pos hn]
    exact ⟨rfl, ParentPc.noConfusion, ParentPc.noConfusion⟩
  · rw [if_neg hn]
    exact ⟨rfl, ParentPc.noConfusion, ParentPc.noConfusion⟩

theorem listen_notMem_selected (h : s.navail ≤ 0) : Fd.listen ∉ s.selected n := by
  rw [Serv.selected, if_pos h]
  intro hmem
  have herase := (List.mem_filter.mp hmem).1
  simp [masterset] at herase

theorem select_pc (n : ℕ) (s : Serv) :
    (select n s).pc = .accept ∧ .listen ∈ s.selected n ∨ (select n s).pc = .scan 0 := by
  by_cases hl : .listen ∈ s.selected n
  · exact .inl ⟨if_pos hl, hl⟩
  · exact .inr (if_neg hl)

theorem servInv_select (h : ServInv n s) (hpc : s.pc = .select) : ServInv n (select n s) := by
  have hholds : s.pc.holds = [] := by
    rw [hpc]
    rfl
  apply h.goto hholds
  · show (select n s).pc.holds = []
    rcases select_pc n s with ⟨hacc, -⟩ | hscan
    · rw [hacc]
      rfl
    · rw [hscan]
      rfl
  · intro hacc
    change (select n s).pc = .accept at hacc
    rcases select_pc n s with ⟨-, hmem⟩ | hscan
    · by_contra hle
      exact listen_notMem_selected (by omega) hmem
    · exact nomatch hscan.symm.trans hacc
  · intro hquit
    change (select n s).pc = .quit at hquit
    rcases select_pc n s with ⟨hacc, -⟩ | hscan
    · exact nomatch hacc.symm.trans hquit
    · exact nomatch hscan.symm.trans hquit

theorem servInv_accept (h : ServInv n s) (hpc : s.pc = .accept) : ServInv n (accept s) := by
  have haccepted := h.accepted
  have hnodup := h.nodup
  have hfresh := h.fresh
  unfold accept
  cases hb : s.backlog with
  | nil => exact h
  | cons connfd backlog =>
    have hassoc : s.accepted ++ connfd :: backlog = s.accepted ++ [connfd] ++ backlog := by simp
    rw [hb, hassoc] at hnodup hfresh
    rw [hpc] at haccepted
    refine ⟨h.navail, h.stage, fun _ => h.ready (.inl hpc), ParentPc.noConfusion, ?_, hnodup, hfresh, h.split⟩
    show s.accepted ++ [connfd] = s.handed.map Prod.fst ++ [connfd]
    rw [haccepted]
    exact congrArg (· ++ [connfd]) (List.append_nil _)

/-- While the parent holds a connection, a child is available. -/
theorem exists_available (h : ServInv n s) {connfd : ℕ} (hpc : s.pc = .writeFd connfd) :
    ∃ i, firstSlot (fun i => (s.child i).status = 0) n = some i := by
  have hpos : 0 < s.navail := by
    apply h.ready
    rw [hpc]
    exact .inr (List.cons_ne_nil _ _)
  have hcount : Nat.count (fun i => (s.child i).status = 0) n ≠ 0 := by
    have hnavail := h.navail
    omega
  obtain ⟨i, hi, hfree⟩ := Nat.count_ne_iff_exists.mp hcount
  exact exists_firstSlot hi hfree

theorem handedTo_concat (s : Serv) (connfd i j : ℕ) :
    ((s.handed ++ [(connfd, i)]).filter fun e => e.2 = j).map Prod.fst =
      s.handedTo j ++ if i = j then [connfd] else [] := by
  rw [List.filter_append, List.map_append, Serv.handedTo]
  by_cases hij : i = j
  · simp [hij]
  · simp [hij]

theorem stage_update (h : ServInv n s) {i : ℕ} {ch : Child} (hch : ch.Stage) (j : ℕ) :
    (Function.update s.child i ch j).Stage := by
  by_cases hj : j = i
  · rw [hj, Function.update_self]
    exact hch
  · rw [Function.update_of_ne hj]
    exact h.stage j

theorem servInv_passConnection (h : ServInv n s) {connfd : ℕ} (hpc : s.pc = .writeFd connfd) :
    ServInv n (passConnection n s connfd) := by
  obtain ⟨i, hi⟩ := exists_available h hpc
  obtain ⟨hlt, hfree, -⟩ := firstSlot_eq_some hi
  obtain ⟨hstage, hhas⟩ := (h.stage i).pass hfree connfd
  have haccepted := h.accepted
  rw [hpc] at haccepted
  unfold passConnection
  rw [hi]
  refine ⟨?_, stage_update h hstage, ?_, ParentPc.noConfusion, ?_, h.nodup, h.fresh, fun j => ?_⟩
  · -- one child fewer is available
    show s.navail - 1 =
      (Nat.count (fun j => (Function.update s.child i ((s.child i).pass connfd) j).status = 0) n : ℤ)
    have hcount : Nat.count (fun j => (s.child j).status = 0) n =
        Nat.count (fun j => (Function.update s.child i ((s.child i).pass connfd) j).status = 0) n + 1 := by
      apply count_succ_of_ne hlt
      · rw [Function.update_self]
        exact Int.one_ne_zero
      · exact hfree
      · intro j hj
        rw [Function.update_of_ne hj]
    rw [h.navail, hcount]
    omega
  · rintro (hacc | hne)
    · exact nomatch hacc
    · exact absurd rfl hne
  · show s.accepted = (s.handed ++ [(connfd, i)]).map Prod.fst ++ []
    rw [haccepted, List.append_nil, List.map_append]
    rfl
  · show ((s.handed ++ [(connfd, i)]).filter fun e => e.2 = j).map Prod.fst =
      (Function.update s.child i _ j).served ++ (Function.update s.child i _ j).has
    rw [handedTo_concat, h.split j]
    by_cases hj : j = i
    · rw [hj, Function.update_self, if_pos rfl, hhas, List.append_assoc]
      rfl
    · rw [Function.update_of_ne hj, if_neg fun heq => hj heq.symm, List.append_nil]

theorem servInv_closePassed (h : ServInv n s) {connfd : ℕ} (hpc : s.pc = .close connfd) :
    ServInv n (closePassed s) := by
  obtain ⟨hholds, hacc, hquit⟩ := resume_spec (s.nsel - 1) 0
  refine h.goto ?_ hholds (fun heq => absurd heq hacc) hquit s.rset (s.nsel - 1)
  rw [hpc]
  rfl

theorem split_update (h : ServInv n s) {i : ℕ} {ch : Child}
    (hch : ch.served ++ ch.has = (s.child i).served ++ (s.child i).has) (j : ℕ) :
    s.handedTo j = (Function.update s.child i ch j).served ++ (Function.update s.child i ch j).has := by
  rw [h.split j]
  by_cases hj : j = i
  · rw [hj, Function.update_self, hch]
  · rw [Function.update_of_ne hj]

theorem servInv_scanChild (h : ServInv n s) {i : ℕ} (hpc : s.pc = .scan i)
    (htold : i < n → .pipe i ∈ s.rset → 0 < (s.child i).told) : ServInv n (scanChild n s i) := by
  have hholds : s.pc.holds = [] := by
    rw [hpc]
    rfl
  unfold scanChild
  by_cases hlt : i < n
  · rw [if_pos hlt]
    by_cases hset : .pipe i ∈ s.rset
    · rw [if_pos hset]
      obtain ⟨hbusy, hstage, hhas⟩ := (h.stage i).report (htold hlt hset)
      have hserved : (s.child i).report.served = (s.child i).served := rfl
      -- the child first, then the jump
      have hrep : ServInv n
          ({ s with navail := s.navail + 1 }.setChild i (s.child i).report) := by
        refine ⟨?_, stage_update h hstage, ?_, h.running, h.accepted, h.nodup, h.fresh, split_update h ?_⟩
        · show s.navail + 1 =
            (Nat.count (fun j => (Function.update s.child i (s.child i).report j).status = 0) n : ℤ)
          have hcount : Nat.count (fun j => (Function.update s.child i (s.child i).report j).status = 0) n =
              Nat.count (fun j => (s.child j).status = 0) n + 1 := by
            apply count_succ_of_ne hlt hbusy
            · rw [Function.update_self]
              rfl
            · intro j hj
              rw [Function.update_of_ne hj]
          rw [h.navail, hcount]
          omega
        · intro hready
          have hpos := h.ready hready
          show 0 < s.navail + 1
          omega
        · rw [hserved, hhas]
      obtain ⟨hholds', hacc, hquit⟩ := resume_spec (s.nsel - 1) (i + 1)
      exact hrep.goto hholds hholds' (fun heq => absurd heq hacc) hquit s.rset (s.nsel - 1)
    · rw [if_neg hset]
      exact h.goto hholds rfl ParentPc.noConfusion ParentPc.noConfusion s.rset s.nsel
  · rw [if_neg hlt]
    exact h.goto hholds rfl ParentPc.noConfusion ParentPc.noConfusion s.rset s.nsel

theorem servInv_parent (h : ServInv n s) (hen : ParentEnabled n s s.pc) : ServInv n (parentNext n s) := by
  unfold parentNext
  cases hpc : s.pc with
  | select => exact servInv_select h hpc
  | accept => exact servInv_accept h hpc
  | writeFd connfd => exact servInv_passConnection h hpc
  | close connfd => exact servInv_closePassed h hpc
  | scan i =>
    rw [hpc] at hen
    exact servInv_scanChild h hpc hen
  | quit => exact absurd hpc h.running

theorem servInv_child (h : ServInv n s) {i : ℕ} (hen : ChildEnabled (s.child i)) :
    ServInv n (s.setChild i (childMain (s.child i))) := by
  obtain ⟨hstage, hstatus, hhas⟩ := (h.stage i).childMain hen
  refine ⟨?_, stage_update h hstage, h.ready, h.running, h.accepted, h.nodup, h.fresh, split_update h hhas⟩
  show s.navail = (Nat.count (fun j => (Function.update s.child i (childMain (s.child i)) j).status = 0) n : ℤ)
  have hcount : Nat.count (fun j => (s.child j).status = 0) n =
      Nat.count (fun j => (Function.update s.child i (childMain (s.child i)) j).status = 0) n := by
    apply count_congr
    intro j _
    by_cases hj : j = i
    · rw [hj, Function.update_self, hstatus]
    · rw [Function.update_of_ne hj]
  rw [h.navail, hcount]

theorem servInv_arrive (h : ServInv n s) :
    ServInv n { s with backlog := s.backlog ++ [s.arrived], arrived := s.arrived + 1 } := by
  refine ⟨h.navail, h.stage, h.ready, h.running, h.accepted, ?_, ?_, h.split⟩
  · show (s.accepted ++ (s.backlog ++ [s.arrived])).Nodup
    rw [← List.append_assoc, ← List.concat_eq_append]
    apply List.Nodup.concat _ h.nodup
    intro hmem
    have hlt := h.fresh _ hmem
    omega
  · intro connfd hmem
    change connfd ∈ s.accepted ++ (s.backlog ++ [s.arrived]) at hmem
    show connfd < s.arrived + 1
    rw [← List.append_assoc] at hmem
    rcases List.mem_append.mp hmem with hmem | hmem
    · have hlt := h.fresh connfd hmem
      omega
    · rw [List.mem_singleton.mp hmem]
      omega

theorem servInv_reset (h : ServInv n s) (connfd : ℕ) :
    ServInv n { s with backlog := s.backlog.erase connfd } := by
  have hsub : List.Sublist (s.accepted ++ s.backlog.erase connfd) (s.accepted ++ s.backlog) :=
    (List.append_sublist_append_left _).mpr List.erase_sublist
  exact ⟨h.navail, h.stage, h.ready, h.running, h.accepted, hsub.nodup h.nodup,
    fun connfd' hmem => h.fresh connfd' (hsub.subset hmem), h.split⟩

theorem servInv_reachable (h : (serv05 n).Reachable s) : ServInv n s := by
  refine TransitionSystem.invariant ?_ ?_ h
  · intro s hs
    rw [hs]
    exact servInv_start n
  · intro s s' _ hinv hstep
    obtain ⟨a, ha, rfl⟩ := hstep
    cases a with
    | parent => exact servInv_parent hinv ha
    | child i => exact servInv_child hinv ha.2
    | arrive => exact servInv_arrive hinv
    | reset connfd => exact servInv_reset hinv connfd

theorem accept_handed (s : Serv) : (accept s).handed = s.handed := by
  unfold accept
  cases s.backlog with
  | nil => rfl
  | cons connfd backlog => rfl

theorem scanChild_handed (n : ℕ) (s : Serv) (i : ℕ) : (scanChild n s i).handed = s.handed := by
  unfold scanChild
  by_cases hlt : i < n
  · rw [if_pos hlt]
    by_cases hset : .pipe i ∈ s.rset
    · rw [if_pos hset]
      rfl
    · rw [if_neg hset]
  · rw [if_neg hlt]

theorem handed_step (h : ServInv n s) {s' : Serv} (hstep : (serv05 n).step s s') :
    s'.handed = s.handed ∨ ∃ connfd, s.pc = .writeFd connfd ∧
      ∃ i < n, (s.child i).Idle ∧ s'.handed = s.handed ++ [(connfd, i)] := by
  obtain ⟨a, ha, rfl⟩ := hstep
  cases a with
  | child i => exact .inl rfl
  | arrive => exact .inl rfl
  | reset connfd => exact .inl rfl
  | parent =>
    simp only [servNext, parentNext]
    cases hpc : s.pc with
    | select => exact .inl rfl
    | accept => exact .inl (accept_handed s)
    | writeFd connfd =>
      right
      obtain ⟨i, hi⟩ := exists_available h hpc
      obtain ⟨hlt, hfree, -⟩ := firstSlot_eq_some hi
      refine ⟨connfd, rfl, i, hlt, (h.stage i).status_iff.mp hfree, ?_⟩
      show (passConnection n s connfd).handed = _
      rw [passConnection, hi]
      rfl
    | close connfd => exact .inl rfl
    | scan i => exact .inl (scanChild_handed n s i)
    | quit => exact .inl rfl

/-- **The parent's books are right.** In every reachable state, for any number of children, `navail`
counts the children whose status is 0, and these are the children that are idle with nothing on their
pipes. So the parent never quits for lack of a child; the accepted connections, each once and in order,
are those handed to a child and the one that the parent holds; a child is idle when it is handed one; and
what a child was handed is what it has served and at most one connection that it has. -/
theorem serv05_books (n : ℕ) {s : Serv} (h : (serv05 n).Reachable s) :
    s.navail = Nat.count (fun i => (s.child i).status = 0) n ∧
    (∀ i, (s.child i).status = 0 ↔ (s.child i).Idle) ∧
    s.pc ≠ .quit ∧
    (s.accepted.Nodup ∧ s.accepted = s.handed.map Prod.fst ++ s.pc.holds) ∧
    (∀ s', (serv05 n).step s s' → s'.handed = s.handed ∨ ∃ connfd, s.pc = .writeFd connfd ∧
      ∃ i < n, (s.child i).Idle ∧ s'.handed = s.handed ++ [(connfd, i)]) ∧
    ∀ i, s.handedTo i = (s.child i).served ++ (s.child i).has ∧ (s.child i).has.length ≤ 1 := by
  have hinv := servInv_reachable h
  refine ⟨hinv.navail, fun i => (hinv.stage i).status_iff, hinv.running, ⟨?_, hinv.accepted⟩, ?_, ?_⟩
  · exact (List.nodup_append.mp hinv.nodup).1
  · exact fun s' hstep => handed_step hinv hstep
  · exact fun i => ⟨hinv.split i, (hinv.stage i).length_has⟩

end Steps

/-- Two connections for one child: the second waits until the child has reported. -/
def sampleSteps : List ServAction :=
  [.arrive, .arrive, .parent, .parent, .parent, .parent, .child 0, .child 0, .child 0, .parent, .parent,
    .parent, .parent, .parent, .child 0]

theorem serv05_books_sample :
    let s := sampleSteps.foldl (servNext 1) (servStart 1)
    (s.accepted = [0, 1] ∧ s.handed = [(0, 0), (1, 0)] ∧ (s.child 0).served = [0] ∧ (s.child 0).has = [1]) ∧
    s.navail = Nat.count (fun i => (s.child i).status = 0) 1 ∧ ∀ i, (s.child i).has.length ≤ 1 := by
  intro s
  have h₀ : (serv05 1).Reachable (servStart 1) := TransitionSystem.reachable_init rfl
  have h : (serv05 1).Reachable s := h₀.actions (by decide)
  obtain ⟨hnavail, -, -, -, -, hhas⟩ := serv05_books 1 h
  exact ⟨by decide, hnavail, fun i => (hhas i).2⟩

end UnixNetProg.Server
