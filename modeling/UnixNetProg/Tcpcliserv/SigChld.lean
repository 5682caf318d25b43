import Mathlib.Data.List.Perm.Basic
import Mathlib.Data.Fintype.EquivFin
import UnixNetProg.Lib.Transition

/-!
# Terminated children (`tcpcliserv/sigchldwait.c`, `tcpcliserv/sigchldwaitpid.c`)

The parent of the concurrent server (`tcpserv03.c` and `tcpserv04.c`) forks a child for each connection, and `sig_chld`
runs wherever a child's end interrupts it. The signal is not queued: what comes while it is pending is merged with it.
The first handler calls `wait` once, the second calls `waitpid` until nothing is left to be waited for. That a child
which is stopped sends the signal too is left out.

`exited` and `merged` are history: the children in the order of their ends, and the ends that came while the signal was
pending already.
-/

namespace UnixNetProg.Tcpcliserv

open Lib TransitionSystem

inductive ParentPc where
  | accept
  | fork
  | close
  deriving DecidableEq

def ParentPc.rank : ParentPc → ℕ
  | .accept => 0
  | .fork => 8
  | .close => 1

/-- The points of `sig_chld`: before the call, and with its result (`none` for -1) before the `printf`. -/
inductive Handler where
  | wait
  | printf (pid : Option ℕ)
  deriving DecidableEq

structure Parent where
  pc : ParentPc
  handler : Option Handler
  running : List ℕ
  zombies : List ℕ
  pending : Bool
  terminated : List (Option ℕ)
  exited : List ℕ
  merged : ℕ

inductive ParentAct where
  | accept
  | fork (pid : ℕ)
  | close
  | exit (pid : ℕ)
  | sigChld
  | wait (pid : Option ℕ)
  | printf

namespace Parent

def init : Parent := ⟨.accept, none, [], [], false, [], [], 0⟩

/-- `waitpid` says whether the handler is the one that calls it. The call finds any of the zombies; without one
`waitpid` returns, and `wait` blocks unless there are no children at all. -/
def enabled (waitpid : Bool) (s : Parent) : ParentAct → Prop
  | .accept => s.pc = .accept ∧ s.handler = none
  | .fork pid => s.pc = .fork ∧ s.handler = none ∧ pid ∉ s.running ∧ pid ∉ s.zombies
  | .close => s.pc = .close ∧ s.handler = none
  | .exit pid => pid ∈ s.running
  | .sigChld => s.pending = true ∧ s.handler = none
  | .wait (some pid) => s.handler = some .wait ∧ pid ∈ s.zombies
  | .wait none => s.handler = some .wait ∧ s.zombies = [] ∧ (waitpid = true ∨ s.running = [])
  | .printf => ∃ pid, s.handler = some (.printf pid)

def printf (waitpid : Bool) (s : Parent) : Parent :=
  match s.handler with
  | some (.printf pid) =>
    { s with handler := if waitpid then some .wait else none, terminated := s.terminated ++ [pid] }
  | _ => s

def next (waitpid : Bool) (s : Parent) : ParentAct → Parent
  | .accept => { s with pc := .fork }
  | .fork pid => { s with pc := .close, running := s.running ++ [pid] }
  | .close => { s with pc := .accept }
  | .exit pid =>
    { s with running := s.running.erase pid, zombies := s.zombies ++ [pid], pending := true,
             exited := s.exited ++ [pid], merged := s.merged + s.pending.toNat }
  | .sigChld => { s with handler := some .wait, pending := false }
  | .wait (some pid) => { s with handler := some (.printf (some pid)), zombies := s.zombies.erase pid }
  | .wait none => { s with handler := if waitpid then none else some (.printf none) }
  | .printf => s.printf waitpid

def system (waitpid : Bool) : TransitionSystem Parent := ofActions (· = init) (enabled waitpid) (next waitpid)

/-- `tcpserv03.c` with `sigchldwait.c`. -/
def sigChldWait : TransitionSystem Parent := system false

/-- `tcpserv04.c` with `sigchldwaitpid.c`. -/
def sigChldWaitpid : TransitionSystem Parent := system true

/-- From any state of a run on, with no more connections. -/
def quiet (waitpid : Bool) : TransitionSystem Parent :=
  onward (· = init) (enabled waitpid) (next waitpid) (· ≠ .accept)

/-- The child that `printf` is about to name. -/
def printing (s : Parent) : List (Option ℕ) :=
  match s.handler with
  | some (.printf pid) => [pid]
  | _ => []

def inWait (s : Parent) : Bool := s.handler = some .wait

/-- Every child that has ended is named once or still there. With `wait` each signal reaps one child, with `waitpid`
none is left behind by the handler. -/
structure Inv (waitpid : Bool) (s : Parent) : Prop where
  perm : (s.terminated ++ s.printing ++ s.zombies.map some).Perm (s.exited.map some)
  wait : waitpid = false → s.zombies.length = s.pending.toNat + s.inWait.toNat + s.merged
  waitpid : waitpid = true → s.zombies ≠ [] → s.pending = true ∨ s.handler ≠ none

variable {waitpid : Bool} {s : Parent}

theorem inv_exit (h : s.Inv waitpid) (pid : ℕ) : (s.next waitpid (.exit pid)).Inv waitpid := by
  refine ⟨?_, fun hw => ?_, fun _ _ => .inl rfl⟩
  · show (s.terminated ++ s.printing ++ (s.zombies ++ [pid]).map some).Perm ((s.exited ++ [pid]).map some)
    rw [List.map_append, List.map_append, ← List.append_assoc]
    exact h.perm.append_right _
  · have hlength := h.wait hw
    show (s.zombies ++ [pid]).length = true.toNat + s.inWait.toNat + (s.merged + s.pending.toNat)
    rw [List.length_append, List.length_singleton, Bool.toNat_true, hlength]
    omega

theorem Inv.zombies_ne_nil (h : s.Inv false) (hw : s.handler = some .wait) : s.zombies ≠ [] := by
  intro hnil
  have hlength := h.wait rfl
  rw [hnil, inWait, decide_eq_true hw, Bool.toNat_true, List.length_nil] at hlength
  omega

theorem inv_wait {pid : ℕ} (h : s.Inv waitpid) (hw : s.handler = some .wait) (hmem : pid ∈ s.zombies) :
    (s.next waitpid (.wait (some pid))).Inv waitpid := by
  obtain ⟨hperm, hwait, -⟩ := h
  obtain ⟨pc, handler, running, zombies, pending, terminated, exited, merged⟩ := s
  subst hw
  refine ⟨?_, fun hfalse => ?_, fun _ _ => .inr (by simp [next])⟩
  · refine List.Perm.trans ?_ hperm
    have hone : (pid :: zombies.erase pid).Perm zombies := (List.perm_cons_erase hmem).symm
    simpa [next, printing] using (hone.map some).append_left terminated
  · have hlength : zombies.length = pending.toNat + true.toNat + merged := hwait hfalse
    have hpos := List.length_pos_of_mem hmem
    show (zombies.erase pid).length = pending.toNat + false.toNat + merged
    rw [List.length_erase_of_mem hmem, hlength, Bool.toNat_true, Bool.toNat_false]
    omega

theorem inv_printf (h : s.Inv waitpid) (ha : ∃ pid, s.handler = some (.printf pid)) :
    (s.printf waitpid).Inv waitpid := by
  obtain ⟨pid, hpid⟩ := ha
  obtain ⟨hperm, hwait, -⟩ := h
  obtain ⟨pc, handler, running, zombies, pending, terminated, exited, merged⟩ := s
  subst hpid
  cases waitpid with
  | true => exact ⟨by simpa [printf, printing] using hperm, (fun h => by cases h), fun _ _ => .inr (by simp [printf])⟩
  | false => exact ⟨by simpa [printf, printing] using hperm, fun _ => hwait rfl, (fun h => by cases h)⟩

theorem inv_next {a : ParentAct} (h : s.Inv waitpid) (ha : s.enabled waitpid a) : (s.next waitpid a).Inv waitpid := by
  cases a with
  | accept | fork | close => exact ⟨h.perm, h.wait, h.waitpid⟩
  | exit pid => exact inv_exit h pid
  | sigChld =>
    obtain ⟨hpending, hnone⟩ := ha
    obtain ⟨hperm, hwait, -⟩ := h
    obtain ⟨pc, handler, running, zombies, pending, terminated, exited, merged⟩ := s
    subst hpending hnone
    exact ⟨hperm, fun hw => by simpa [next, inWait] using hwait hw, fun _ _ => .inr (by simp [next])⟩
  | wait pid =>
    cases pid with
    | some pid => exact inv_wait h ha.1 ha.2
    | none =>
      obtain ⟨hw, hnil, -⟩ := ha
      cases waitpid with
      | true =>
        refine ⟨?_, fun h => (by cases h), fun _ hne => absurd hnil hne⟩
        have hperm := h.perm
        rw [printing, hw] at hperm
        exact hperm
      | false => exact absurd hnil (h.zombies_ne_nil hw)
  | printf => exact inv_printf h ha

theorem inv_reachable (hr : (system waitpid).Reachable s) : s.Inv waitpid := by
  refine invariant ?_ ?_ hr
  · rintro s rfl
    exact ⟨.refl _, fun _ => rfl, fun _ hne => absurd rfl hne⟩
  · rintro s s' - h ⟨a, ha, rfl⟩
    exact inv_next h ha

/-! ### The last child -/

def handlerRank : Option Handler → ℕ
  | none => 0
  | some .wait => 1
  | some (.printf _) => 3

def work (s : Parent) : ℕ :=
  6 * s.running.length + 3 * s.zombies.length + 2 * s.pending.toNat + handlerRank s.handler + s.pc.rank

theorem work_next {a : ParentAct} (h : s.Inv waitpid) (ha : s.enabled waitpid a) (hquiet : a ≠ .accept) :
    (s.next waitpid a).work < s.work := by
  have hwait : waitpid = false → s.handler = some .wait → s.zombies ≠ [] := by
    rintro rfl
    exact h.zombies_ne_nil
  obtain ⟨pc, handler, running, zombies, pending, terminated, exited, merged⟩ := s
  cases a with
  | accept => exact absurd rfl hquiet
  | fork pid =>
    obtain rfl : pc = .fork := ha.1
    simp only [next, work, ParentPc.rank, List.length_append, List.length_singleton]
    omega
  | close =>
    obtain rfl : pc = .close := ha.1
    simp only [next, work, ParentPc.rank]
    omega
  | exit pid =>
    have hlength := List.length_erase_of_mem (show pid ∈ running from ha)
    have hpos := List.length_pos_of_mem (show pid ∈ running from ha)
    simp only [next, work, List.length_append, List.length_singleton, Bool.toNat_true]
    omega
  | sigChld =>
    obtain ⟨rfl, rfl⟩ : pending = true ∧ handler = none := ha
    simp only [next, work, handlerRank, Bool.toNat_true, Bool.toNat_false]
    omega
  | wait pid =>
    cases pid with
    | some pid =>
      obtain ⟨rfl, hmem⟩ : handler = some .wait ∧ pid ∈ zombies := ha
      have hlength := List.length_erase_of_mem hmem
      have hpos := List.length_pos_of_mem hmem
      simp only [next, work, handlerRank]
      omega
    | none =>
      obtain ⟨rfl, hnil, -⟩ : handler = some .wait ∧ zombies = [] ∧ _ := ha
      cases waitpid with
      | true =>
        simp only [next, work, handlerRank, if_true]
        omega
      | false => exact absurd hnil (hwait rfl rfl)
  | printf =>
    obtain ⟨pid, rfl⟩ : ∃ pid, handler = some (.printf pid) := ha
    cases waitpid <;> simp only [next, printf, work, handlerRank, if_true, Bool.false_eq_true, if_false] <;> omega

theorem rest_of_last (hlast : ∀ a, s.enabled waitpid a → a = .accept) :
    s.running = [] ∧ s.pending = false ∧ s.handler = none := by
  have hrunning : s.running = [] := by
    refine List.eq_nil_iff_forall_not_mem.mpr fun pid hmem => ?_
    exact absurd (hlast (.exit pid) hmem) (by simp)
  have hhandler : s.handler = none := by
    cases hw : s.handler with
    | none => rfl
    | some r =>
      cases r with
      | printf pid => exact absurd (hlast .printf ⟨pid, hw⟩) (by simp)
      | wait =>
        by_cases hnil : s.zombies = []
        · exact absurd (hlast (.wait none) ⟨hw, hnil, .inr hrunning⟩) (by simp)
        · obtain ⟨pid, hmem⟩ := List.exists_mem_of_ne_nil _ hnil
          exact absurd (hlast (.wait (some pid)) ⟨hw, hmem⟩) (by simp)
  refine ⟨hrunning, ?_, hhandler⟩
  by_contra hpending
  exact absurd (hlast .sigChld ⟨by simpa using hpending, hhandler⟩) (by simp)

theorem quiet_ends (waitpid : Bool) : (quiet waitpid).Ends fun s =>
    s.Inv waitpid ∧ s.running = [] ∧ s.pending = false ∧ s.handler = none := by
  refine onward_ends work ?_ ?_
  · intro s a hr ha hquiet
    exact work_next (inv_reachable hr) ha hquiet
  · intro s hr hstop
    by_contra hnone
    refine hstop ⟨inv_reachable hr, rest_of_last (fun a (ha : s.enabled waitpid a) => ?_)⟩
    by_contra hquiet
    exact hnone ⟨a, ha, hquiet⟩

/-! ### What is left behind -/

theorem exists_separate (k : ℕ) : ∃ terminated exited,
    sigChldWait.Reachable ⟨.accept, none, [], [], false, terminated, exited, 0⟩ ∧
      terminated.length = k ∧ exited.length = k := by
  induction k with
  | zero => exact ⟨[], [], reachable_init rfl, rfl, rfl⟩
  | succ k ih =>
    obtain ⟨terminated, exited, hr, hterminated, hexited⟩ := ih
    have hfork := (hr.action (a := ParentAct.accept) ⟨rfl, rfl⟩).action (a := ParentAct.fork 0)
      ⟨rfl, rfl, List.not_mem_nil, List.not_mem_nil⟩
    have hexit := (hfork.action (a := ParentAct.close) ⟨rfl, rfl⟩).action (a := ParentAct.exit 0)
      (by simp [enabled, next])
    have hwait := (hexit.action (a := ParentAct.sigChld) ⟨rfl, rfl⟩).action (a := ParentAct.wait (some 0))
      (by simp [enabled, next])
    have hprintf := hwait.action (a := ParentAct.printf) ⟨some 0, rfl⟩
    exact ⟨terminated ++ [some 0], exited ++ [0], hprintf, by simp [hterminated], by simp [hexited]⟩

theorem exists_forked {terminated : List (Option ℕ)} {exited : List ℕ} (m : ℕ)
    (hr : sigChldWait.Reachable ⟨.accept, none, [], [], false, terminated, exited, 0⟩) :
    ∃ running, sigChldWait.Reachable ⟨.accept, none, running, [], false, terminated, exited, 0⟩ ∧
      running.length = m := by
  induction m with
  | zero => exact ⟨[], hr, rfl⟩
  | succ m ih =>
    obtain ⟨running, hm, hlength⟩ := ih
    obtain ⟨pid, hfresh⟩ := Infinite.exists_notMem_finset running.toFinset
    rw [List.mem_toFinset] at hfresh
    have hfork := (hm.action (a := ParentAct.accept) ⟨rfl, rfl⟩).action (a := ParentAct.fork pid)
      ⟨rfl, rfl, hfresh, List.not_mem_nil⟩
    exact ⟨running ++ [pid], hfork.action (a := ParentAct.close) ⟨rfl, rfl⟩, by simp [hlength]⟩

theorem exists_merged {terminated : List (Option ℕ)} (running : List ℕ) {zombies exited : List ℕ} {merged : ℕ}
    (hr : sigChldWait.Reachable ⟨.accept, none, running, zombies, true, terminated, exited, merged⟩) :
    ∃ zombies' exited' merged',
      sigChldWait.Reachable ⟨.accept, none, [], zombies', true, terminated, exited', merged'⟩ ∧
      zombies'.length = zombies.length + running.length ∧ exited'.length = exited.length + running.length := by
  induction running generalizing zombies exited merged with
  | nil => exact ⟨zombies, exited, merged, hr, rfl, rfl⟩
  | cons pid running ih =>
    have hexit : sigChldWait.Reachable (next false _ (.exit pid)) := hr.action (by simp [enabled])
    have hnext : sigChldWait.Reachable
        ⟨.accept, none, running, zombies ++ [pid], true, terminated, exited ++ [pid], merged + 1⟩ := by
      simpa [next] using hexit
    obtain ⟨zombies', exited', merged', hr', hzombies, hexited⟩ := ih hnext
    refine ⟨zombies', exited', merged', hr', ?_, ?_⟩
    · rw [hzombies, List.length_append, List.length_singleton, List.length_cons]
      omega
    · rw [hexited, List.length_append, List.length_singleton, List.length_cons]
      omega

/-- The handler of `sigchldwait.c` can leave any number of zombies, as long as it has reaped one child. -/
theorem exists_left {r n : ℕ} (hr : 1 ≤ r) (hn : r ≤ n) : ∃ s : Parent, sigChldWait.Reachable s ∧
    s.running = [] ∧ s.pending = false ∧ s.handler = none ∧
    s.exited.length = n ∧ s.terminated.length = r ∧ s.zombies.length = n - r := by
  obtain ⟨terminated, exited, hseparate, hterminated, hexited⟩ := exists_separate (r - 1)
  obtain ⟨running, hforked, hrunning⟩ := exists_forked (n - (r - 1)) hseparate
  cases running with
  | nil =>
    rw [List.length_nil] at hrunning
    omega
  | cons pid running =>
    rw [List.length_cons] at hrunning
    have hexit : sigChldWait.Reachable (next false _ (.exit pid)) := hforked.action (by simp [enabled])
    have hfirst : sigChldWait.Reachable ⟨.accept, none, running, [pid], true, terminated, exited ++ [pid], 0⟩ := by
      simpa [next] using hexit
    obtain ⟨zombies, exited', merged, hall, hzombies, hexited'⟩ := exists_merged running hfirst
    rw [List.length_singleton] at hzombies
    rw [List.length_append, List.length_singleton] at hexited'
    cases zombies with
    | nil =>
      rw [List.length_nil] at hzombies
      omega
    | cons z zombies =>
      rw [List.length_cons] at hzombies
      have hwait := (hall.action (a := ParentAct.sigChld) ⟨rfl, rfl⟩).action (a := ParentAct.wait (some z))
        (by simp [enabled, next])
      have hprintf := hwait.action (a := ParentAct.printf) ⟨some z, rfl⟩
      refine ⟨_, hprintf, rfl, rfl, rfl, ?_, ?_, ?_⟩
      · show exited'.length = n
        omega
      · show (terminated ++ [some z]).length = r
        rw [List.length_append, List.length_singleton]
        omega
      · show ((z :: zombies).erase z).length = n - r
        rw [List.erase_cons_head]
        omega

/-- **The handler with `waitpid` leaves no zombies.** Where the signal is handled and not pending, every child that
has ended is named on the terminal exactly once. From every state, when no more connections are accepted, every run
comes to such a state with all children ended. -/
theorem sigChldWaitpid_reaps :
    (∀ s : Parent, sigChldWaitpid.Reachable s →
      (s.terminated ++ s.printing ++ s.zombies.map some).Perm (s.exited.map some) ∧
      (s.handler = none → s.pending = false → s.zombies = [])) ∧
    (quiet true).Ends fun s => s.running = [] ∧ s.zombies = [] ∧ s.terminated.Perm (s.exited.map some) := by
  have hclean : ∀ {s : Parent}, s.Inv true → s.handler = none → s.pending = false → s.zombies = [] := by
    intro s h hhandler hpending
    by_contra hne
    rcases h.waitpid rfl hne with htrue | hin
    · exact absurd (hpending.symm.trans htrue) (by decide)
    · exact hin hhandler
  refine ⟨fun s hr => ⟨(inv_reachable hr).perm, hclean (inv_reachable hr)⟩, ?_⟩
  refine ⟨(quiet_ends true).finite, fun s hr hlast => ?_⟩
  obtain ⟨h, hrunning, hpending, hhandler⟩ := (quiet_ends true).last s hr hlast
  have hzombies := hclean h hhandler hpending
  have hperm := h.perm
  rw [hzombies, printing, hhandler, List.append_nil, List.map_nil, List.append_nil] at hperm
  exact ⟨hrunning, hzombies, hperm⟩

/-- **The handler with `wait` leaves the merged ones.** It never blocks the parent, and it leaves as many zombies as
there were ends whose signal was merged with a pending one: of `n` children, any number from 1 on can be all that are
reaped. -/
theorem sigChldWait_leaves :
    (∀ s : Parent, sigChldWait.Reachable s →
      (s.terminated ++ s.printing ++ s.zombies.map some).Perm (s.exited.map some) ∧
      (s.handler = some .wait → s.zombies ≠ []) ∧
      (s.handler = none → s.pending = false → s.zombies.length = s.merged)) ∧
    (quiet false).Ends (fun s => s.running = [] ∧ s.zombies.length = s.merged) ∧
    ∀ r n, 1 ≤ r → r ≤ n → ∃ s : Parent, sigChldWait.Reachable s ∧ s.running = [] ∧ s.pending = false ∧
      s.handler = none ∧ s.exited.length = n ∧ s.terminated.length = r ∧ s.zombies.length = n - r := by
  have hleft : ∀ {s : Parent}, s.Inv false → s.handler = none → s.pending = false → s.zombies.length = s.merged := by
    intro s h hhandler hpending
    have hlength := h.wait rfl
    rwa [inWait, hhandler, hpending, decide_eq_false (by simp), Bool.toNat_false, Nat.add_zero, Nat.zero_add] at hlength
  refine ⟨fun s hr => ?_, ⟨(quiet_ends false).finite, fun s hr hlast => ?_⟩, fun r n => exists_left⟩
  · have h : s.Inv false := inv_reachable hr
    exact ⟨h.perm, h.zombies_ne_nil, hleft h⟩
  · obtain ⟨h, hrunning, hpending, hhandler⟩ := (quiet_ends false).last s hr hlast
    exact ⟨hrunning, hleft h hhandler hpending⟩

end Parent

end UnixNetProg.Tcpcliserv
