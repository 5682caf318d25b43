import UnixNetProg.Lib.Transition
import UnixNetProg.Libc
import UnixNetProg.Tcpcliserv.StrEcho

/-!
# The echo client in two processes (`nonblock/strclifork.c`) and in two threads (`threads/strclithread.c`)

The parent copies the standard input to the socket, the child copies the socket to the standard output. With threads,
`copyto` does the first and `str_cli` the second. They differ in the end: the child kills the parent, which waits in
`pause`, while `str_cli` returns. Neither side of the client waits for the other, so that the directions of the
connection cannot both stay full.
-/

namespace UnixNetProg.Nonblock

open Lib TransitionSystem Tcpcliserv

/-- The points of the parent, or of `copyto`, whose end is `waits` too. -/
inductive ParentPc where
  | fgets
  | writen (left : List Byte)
  | waits
  | killed
  deriving DecidableEq

/-- The points of the child, or of `str_cli` in the main thread. -/
inductive ChildPc where
  | readline
  | fputs
  | kill
  | done
  deriving DecidableEq

structure TwoCli extends Reader where
  parent : ParentPc
  child : ChildPc
  fp : List Byte
  stdout : List Byte

inductive TwoAct where
  | parent (k : ℕ)
  | child (k : ℕ)
  | server (k : ℕ)

def ParentPc.left : ParentPc → List Byte
  | .writen left => left
  | .fgets | .waits | .killed => []

def ParentPc.rank : ParentPc → ℕ
  | .fgets => 1
  | .writen _ | .waits | .killed => 0

def ChildPc.rank : ChildPc → ℕ
  | .readline => 2
  | .fputs | .kill => 1
  | .done => 0

namespace TwoCli

def init (input : List Byte) : TwoCli := ⟨⟨[], [], .start⟩, .fgets, .readline, input, []⟩

/-- A process can take its next step with a count of `k`, which is 0 but for `read` and `write`. -/
def parentEnabled (caps : Caps) (s : TwoCli) (k : ℕ) : Prop :=
  match s.parent with
  | .fgets => k = 0
  | .writen left => s.conn.canWrite caps left k
  | .waits | .killed => False

def childEnabled (s : TwoCli) (k : ℕ) : Prop :=
  match s.child with
  | .readline => s.toReader.enabled k
  | .fputs | .kill => k = 0
  | .done => False

def parentNext (s : TwoCli) (k : ℕ) : TwoCli :=
  match s.parent with
  | .fgets =>
    match fgets MAXLINE s.fp with
    | none => { s with parent := .waits, conn := s.conn.shutdown }
    | some (line, rest) =>
      { s with parent := if stringOf line = [] then .fgets else .writen (stringOf line), fp := rest }
  | .writen left =>
    { s with parent := if left.drop k = [] then .fgets else .writen (left.drop k), conn := s.conn.write (left.take k) }
  | .waits | .killed => s

/-- `forks` tells the child of `strclifork.c` from the main thread of `strclithread.c`. -/
def childNext (forks : Bool) (s : TwoCli) (k : ℕ) : TwoCli :=
  match s.child with
  | .readline =>
    { s with
      toReader := s.toReader.next k
      child := match s.toReader.res with
        | .more => .readline
        | .line => .fputs
        | .eof => if forks then .kill else .done }
  | .fputs => { s with child := .readline, recvline := [], stdout := s.stdout ++ stringOf s.recvline }
  | .kill => { s with parent := .killed, child := .done }
  | .done => s

def enabled (caps : Caps) (s : TwoCli) : TwoAct → Prop
  | .parent k => s.parentEnabled caps k
  | .child k => s.childEnabled k
  | .server k => s.conn.serverEnabled caps k

def next (forks : Bool) (s : TwoCli) : TwoAct → TwoCli
  | .parent k => s.parentNext k
  | .child k => s.childNext forks k
  | .server k => { s with conn := s.conn.serverNext k }

def system (forks : Bool) (caps : Caps) (input : List Byte) : TransitionSystem TwoCli :=
  ofActions (· = init input) (enabled caps) (next forks)

/-- All that has been read from the standard input and not been written, from the end of the way to its beginning. -/
def onTheWay (s : TwoCli) : List Byte := s.toReader.way ++ s.parent.left

structure Inv (forks : Bool) (caps : Caps) (input : List Byte) (s : TwoCli) : Prop where
  conserved : s.stdout ++ s.onTheWay ++ (sendlines s.fp).flatten = (sendlines input).flatten
  conn : s.conn.Inv caps
  left : ∀ left, s.parent = .writen left → left ≠ []
  fin : s.conn.finToServer = true ↔ s.parent = .waits ∨ s.parent = .killed
  read : s.conn.finToServer = true → s.fp = []
  fputs : s.child = .fputs → s.recvline ≠ []
  last : s.child = .kill ∨ s.child = .done → s.onTheWay = [] ∧ s.conn.finToServer = true
  kill : s.child = .kill → forks = true
  killed : s.parent = .killed ↔ forks = true ∧ s.child = .done

variable {forks : Bool} {caps : Caps} {input : List Byte} {s : TwoCli} {k : ℕ}

theorem inv_init (forks : Bool) (caps : Caps) (input : List Byte) : (init input).Inv forks caps input := by
  refine ⟨rfl, Conn.inv_start caps, ?_, ?_, ?_, ?_, ?_, ?_, ?_⟩ <;> simp [init, Conn.start]

theorem inv_server (h : s.Inv forks caps input) (ha : s.conn.serverEnabled caps k) :
    (s.next forks (.server k)).Inv forks caps input := by
  obtain ⟨hconserved, hconn, hleft, hfin, hread, hfputs, hlast, hkill, hkilled⟩ := h
  have hway : (s.next forks (.server k)).onTheWay = s.onTheWay := by
    simp only [onTheWay, Reader.way, next, Conn.inFlight_serverNext]
  have hend : (s.conn.serverNext k).finToServer = s.conn.finToServer := Conn.finToServer_serverNext
  refine ⟨?_, Conn.inv_serverNext hconn ha, hleft, ?_, ?_, hfputs, ?_, hkill, hkilled⟩
  · rw [hway]
    exact hconserved
  · exact (iff_of_eq (congrArg (· = true) hend)).trans hfin
  · exact fun hclosed => hread (hend.symm.trans hclosed)
  · exact fun hchild => ⟨hway.trans (hlast hchild).1, hend.trans (hlast hchild).2⟩

theorem inv_fgets (h : s.Inv forks caps input) (hpc : s.parent = .fgets) : (s.parentNext k).Inv forks caps input := by
  obtain ⟨hconserved, hconn, hleft, hfin, hread, hfputs, hlast, hkill, hkilled⟩ := h
  obtain ⟨⟨readBuf, recvline, conn⟩, parent, child, fp, stdout⟩ := s
  subst hpc
  have hopen : conn.finToServer ≠ true := fun htrue => by simpa using hfin.mp htrue
  have hrunning : ¬ (child = .kill ∨ child = .done) := fun hchild => hopen (hlast hchild).2
  cases hline : fgets MAXLINE fp with
  | none =>
    simp only [parentNext, hline]
    have hnil : fp = [] := fgets_eq_none_iff.mp hline
    refine ⟨hconserved, Conn.inv_shutdown hconn, by simp, by simp [Conn.shutdown], fun _ => hnil, hfputs, ?_, hkill, ?_⟩
    · exact fun hchild => absurd hchild hrunning
    · simpa using hkilled
  | some p =>
    obtain ⟨line, rest⟩ := p
    simp only [parentNext, hline]
    rw [sendlines_of_some hline] at hconserved
    by_cases hempty : stringOf line = []
    · rw [if_pos hempty]
      refine ⟨?_, hconn, by simp, hfin, fun htrue => absurd htrue hopen, hfputs, hlast, hkill, hkilled⟩
      rw [← hconserved, hempty]
      rfl
    · rw [if_neg hempty]
      refine ⟨?_, hconn, fun left hl => ParentPc.writen.inj hl ▸ hempty, ?_, fun htrue => absurd htrue hopen, hfputs,
        fun hchild => absurd hchild hrunning, hkill, ?_⟩
      · rw [← hconserved]
        simp [onTheWay, Reader.way, ParentPc.left]
      · exact ⟨fun htrue => absurd htrue hopen, by simp⟩
      · simpa using hkilled

theorem inv_writen (h : s.Inv forks caps input) {left : List Byte} (hpc : s.parent = .writen left)
    (ha : s.parentEnabled caps k) : (s.parentNext k).Inv forks caps input := by
  obtain ⟨hconserved, hconn, hleft, hfin, hread, hfputs, hlast, hkill, hkilled⟩ := h
  obtain ⟨⟨readBuf, recvline, conn⟩, parent, child, fp, stdout⟩ := s
  subst hpc
  have hopen : conn.finToServer ≠ true := fun htrue => by simpa using hfin.mp htrue
  have hrunning : ¬ (child = .kill ∨ child = .done) := fun hchild => hopen (hlast hchild).2
  have hwrite := Conn.inv_writen hconn (by simpa using hopen) ha
  have hway : recvline ++ readBuf ++ (conn.write (left.take k)).inFlight ++ left.drop k =
      onTheWay ⟨⟨readBuf, recvline, conn⟩, .writen left, child, fp, stdout⟩ := by
    rw [List.append_assoc, Conn.inFlight_writen, ← List.append_assoc]
    rfl
  rw [← hway] at hconserved
  by_cases hend : left.drop k = []
  · rw [hend] at hconserved
    simp only [parentNext, if_pos hend]
    exact ⟨hconserved, hwrite, by simp, ⟨fun htrue => absurd htrue hopen, by simp⟩, fun htrue => absurd htrue hopen,
      hfputs, fun hchild => absurd hchild hrunning, hkill, by simpa using hkilled⟩
  · simp only [parentNext, if_neg hend]
    exact ⟨hconserved, hwrite, fun l hl => ParentPc.writen.inj hl ▸ hend, ⟨fun htrue => absurd htrue hopen, by simp⟩,
      fun htrue => absurd htrue hopen, hfputs, fun hchild => absurd hchild hrunning, hkill, by simpa using hkilled⟩

theorem zero_notMem_stringOf (buf : List Byte) : 0 ∉ stringOf buf := by
  intro hmem
  have hne := List.mem_takeWhile_imp hmem
  simp at hne

theorem zero_notMem_sendlines (input : List Byte) : 0 ∉ (sendlines input).flatten := by
  induction hn : input.length using Nat.strong_induction_on generalizing input with
  | _ n ih =>
    cases hline : fgets MAXLINE input with
    | none => simp [sendlines_of_none hline]
    | some p =>
      have hlt := length_lt_of_fgets (by decide) hline
      rw [sendlines_of_some hline, List.flatten_cons, List.mem_append, not_or]
      exact ⟨zero_notMem_stringOf p.1, ih _ (hn ▸ hlt) p.2 rfl⟩

theorem stringOf_recvline (h : s.Inv forks caps input) : stringOf s.recvline = s.recvline := by
  refine stringOf_of_not_mem fun hmem => zero_notMem_sendlines input ?_
  rw [← h.conserved, onTheWay, Reader.way]
  simp [hmem]

theorem inFlight_of_fin (h : s.Inv forks caps input) (hfin : s.conn.finToClient = true) :
    s.conn.inFlight = s.conn.toClient ∧ s.conn.finToServer = true := by
  have hdone := h.conn.fin.mp hfin
  obtain ⟨hnil, hclosed⟩ := h.conn.done hdone
  refine ⟨?_, hclosed⟩
  rw [Conn.inFlight, hdone, hnil]
  simp [EchoPc.left]

/-- `Readline` keeps the bytes; it returns 0 when all of them have been read. -/
theorem inv_readline (h : s.Inv forks caps input) (hpc : s.child = .readline) (ha : s.childEnabled k) :
    (s.childNext forks k).Inv forks caps input := by
  have hempty := inFlight_of_fin h
  obtain ⟨hconserved, hconn, hleft, hfin, hread, hfputs, hlast, hkill, hkilled⟩ := h
  obtain ⟨reader, parent, child, fp, stdout⟩ := s
  subst hpc
  have ha' : reader.enabled k := ha
  have hconn' := Reader.inv_next hconn ha'
  have hfin' := Reader.finToServer_next ha'
  have hrun : parent ≠ .killed := fun hp => by simpa using hkilled.mp hp
  have hopen : (reader.next k).conn.finToServer = true ↔ parent = .waits ∨ parent = .killed :=
    (iff_of_eq (congrArg (· = true) hfin')).trans hfin
  have hread' : (reader.next k).conn.finToServer = true → fp = [] := fun hclosed => hread (hfin'.symm.trans hclosed)
  have hkept : stdout ++ ((reader.next k).way ++ parent.left) ++ (sendlines fp).flatten =
      (sendlines input).flatten := by
    rw [Reader.way_next ha']
    exact hconserved
  rcases Reader.next_cases ha' with ⟨c, rest, -, hnext, hres⟩ | ⟨-, -, -, -, hres⟩ | ⟨hbuf, hnil, hclosed, hnext, hres⟩
  · by_cases hline : c = 10 ∨ reader.recvline.length + 1 = MAXLINE - 1
    all_goals simp only [childNext, hres, hline, if_true, if_false]
    · exact ⟨hkept, hconn', hleft, hopen, hread', by simp [hnext], by simp, by simp, by simpa using hrun⟩
    · exact ⟨hkept, hconn', hleft, hopen, hread', by simp, by simp, by simp, by simpa using hrun⟩
  · simp only [childNext, hres]
    exact ⟨hkept, hconn', hleft, hopen, hread', by simp, by simp, by simp, by simpa using hrun⟩
  · obtain ⟨hflight, hsent⟩ := hempty hclosed
    have hwaits : parent = .waits := (hfin.mp hsent).resolve_right hrun
    subst hwaits
    simp only [childNext, hres, hnext]
    by_cases hpart : reader.recvline = []
    · have hnone : onTheWay ⟨reader, .waits, .readline, fp, stdout⟩ = [] := by
        rw [onTheWay, Reader.way, hpart, hbuf, hflight, hnil]
        rfl
      rw [if_pos hpart]
      cases forks with
      | true =>
        exact ⟨hconserved, hconn, hleft, hfin, hread, by simp, fun _ => ⟨hnone, hsent⟩, by simp, by simp⟩
      | false =>
        exact ⟨hconserved, hconn, hleft, hfin, hread, by simp, fun _ => ⟨hnone, hsent⟩, by simp, by simp⟩
    · rw [if_neg hpart]
      exact ⟨hconserved, hconn, hleft, hfin, hread, fun _ => hpart, by simp, by simp, by simp⟩

theorem inv_fputs (h : s.Inv forks caps input) (hpc : s.child = .fputs) :
    (s.childNext forks k).Inv forks caps input := by
  have hall := stringOf_recvline h
  obtain ⟨hconserved, hconn, hleft, hfin, hread, hfputs, hlast, hkill, hkilled⟩ := h
  obtain ⟨⟨readBuf, recvline, conn⟩, parent, child, fp, stdout⟩ := s
  subst hpc
  have hrun : parent ≠ .killed := fun hp => by simpa using hkilled.mp hp
  simp only [childNext]
  refine ⟨?_, hconn, hleft, hfin, hread, by simp, by simp, by simp, by simpa using hrun⟩
  dsimp only at hall
  rw [← hconserved, hall]
  simp [onTheWay, Reader.way]

theorem inv_kill (h : s.Inv forks caps input) (hpc : s.child = .kill) : (s.childNext forks k).Inv forks caps input := by
  obtain ⟨hconserved, hconn, hleft, hfin, hread, hfputs, hlast, hkill, hkilled⟩ := h
  obtain ⟨⟨readBuf, recvline, conn⟩, parent, child, fp, stdout⟩ := s
  subst hpc
  obtain ⟨hnone, hclosed⟩ := hlast (.inl rfl)
  have hforks : forks = true := hkill rfl
  have hrun : parent ≠ .killed := fun hp => by simpa using hkilled.mp hp
  have hwaits : parent = .waits := (hfin.mp hclosed).resolve_right hrun
  subst hwaits
  simp only [childNext]
  refine ⟨hconserved, hconn, by simp, ?_, hread, by simp, fun _ => ⟨hnone, hclosed⟩, by simp, by simp [hforks]⟩
  exact ⟨fun _ => .inr rfl, fun _ => hclosed⟩

theorem inv_next {a : TwoAct} (h : s.Inv forks caps input) (ha : s.enabled caps a) :
    (s.next forks a).Inv forks caps input := by
  cases a with
  | parent k =>
    cases hpc : s.parent with
    | fgets => exact inv_fgets h hpc
    | writen left => exact inv_writen h hpc ha
    | waits | killed =>
      have hfalse : s.parentEnabled caps k := ha
      rw [parentEnabled, hpc] at hfalse
      exact absurd hfalse id
  | child k =>
    cases hpc : s.child with
    | readline => exact inv_readline h hpc ha
    | fputs => exact inv_fputs h hpc
    | kill => exact inv_kill h hpc
    | done =>
      have hfalse : s.childEnabled k := ha
      rw [childEnabled, hpc] at hfalse
      exact absurd hfalse id
  | server k => exact inv_server h ha

theorem inv_reachable (hr : (system forks caps input).Reachable s) : s.Inv forks caps input := by
  refine invariant ?_ ?_ hr
  · rintro s rfl
    exact inv_init forks caps input
  · rintro s s' - h ⟨a, ha, rfl⟩
    exact inv_next h ha

/-! ### Every run ends -/

/-- The bytes with the ways that they have still to go. -/
def work (s : TwoCli) : ℕ :=
  20 * s.fp.length + 16 * s.parent.left.length + s.conn.work + 3 * s.readBuf.length + 2 * s.recvline.length +
    s.parent.rank + s.child.rank

theorem work_parent (ha : s.parentEnabled caps k) : (s.parentNext k).work < s.work := by
  obtain ⟨⟨readBuf, recvline, conn⟩, parent, child, fp, stdout⟩ := s
  cases parent with
  | fgets =>
    cases hline : fgets MAXLINE fp with
    | none =>
      simp only [parentNext, hline, work, ParentPc.left, ParentPc.rank, Conn.shutdown, Conn.work]
      omega
    | some p =>
      obtain ⟨line, rest⟩ := p
      have hpos := length_lt_of_fgets (by decide) hline
      have hlength := length_of_fgets hline
      by_cases hempty : stringOf line = []
      · simp only [parentNext, hline, if_pos hempty, work, ParentPc.left, ParentPc.rank]
        omega
      · simp only [parentNext, hline, if_neg hempty, work, ParentPc.left, ParentPc.rank, List.length_nil]
        omega
  | writen left =>
    have hpos : 0 < k := ha.1
    have hwrite := Conn.work_writen (c := conn) ha
    by_cases hend : left.drop k = []
    · rw [hend, List.length_nil] at hwrite
      simp only [parentNext, if_pos hend, work, ParentPc.left, ParentPc.rank, List.length_nil]
      omega
    · simp only [parentNext, if_neg hend, work, ParentPc.left, ParentPc.rank]
      omega
  | waits | killed => exact absurd ha id

theorem work_child (h : s.Inv forks caps input) (ha : s.childEnabled k) : (s.childNext forks k).work < s.work := by
  have hfputs := h.fputs
  obtain ⟨⟨readBuf, recvline, conn⟩, parent, child, fp, stdout⟩ := s
  cases child with
  | readline =>
    rcases Reader.next_cases ha with
      ⟨c, rest, hbuf, hnext, hres⟩ | ⟨hbuf, hpos, hk, hnext, hres⟩ | ⟨-, -, -, hnext, hres⟩
    · have hlength : readBuf.length = rest.length + 1 := congrArg List.length hbuf
      simp only [childNext, hnext, hres, work, List.length_append, List.length_singleton]
      split_ifs <;> simp only [ChildPc.rank] <;> omega
    · have hread := Conn.work_read hk
      have hlength : readBuf.length = 0 := congrArg List.length hbuf
      simp only [childNext, hnext, hres, work, List.length_take]
      simp only at hread hk
      omega
    · simp only [childNext, hnext, hres, work]
      split_ifs <;> simp only [ChildPc.rank] <;> omega
  | fputs =>
    have hpos : 0 < recvline.length := List.length_pos_iff.mpr (hfputs rfl)
    simp only [childNext, work, ChildPc.rank, List.length_nil]
    omega
  | kill =>
    simp only [childNext, work, ChildPc.rank, ParentPc.rank, ParentPc.left, List.length_nil]
    omega
  | done => exact absurd ha id

theorem work_next {a : TwoAct} (h : s.Inv forks caps input) (ha : s.enabled caps a) :
    (s.next forks a).work < s.work := by
  cases a with
  | parent k => exact work_parent ha
  | child k => exact work_child h ha
  | server k =>
    have hserver := Conn.work_serverNext ha
    simp only [next, work]
    omega

theorem parent_waits (h : s.Inv forks caps input) (hwait : ∀ k, ¬ s.parentEnabled caps k) :
    s.conn.toServer.length = caps.toServer ∨ s.conn.finToServer = true := by
  have hfin := h.fin
  have hleft := h.left
  have hconn := h.conn
  obtain ⟨⟨readBuf, recvline, conn⟩, parent, child, fp, stdout⟩ := s
  cases parent with
  | fgets => exact absurd rfl (hwait 0)
  | writen left =>
    exact .inl (Conn.full_of_waits hconn (hleft left rfl) hwait)
  | waits => exact .inr (hfin.mpr (.inl rfl))
  | killed => exact .inr (hfin.mpr (.inr rfl))

theorem child_waits (hwait : ∀ k, ¬ s.childEnabled k) :
    s.child = .done ∨ s.conn.toClient = [] ∧ s.conn.finToClient = false := by
  obtain ⟨⟨readBuf, recvline, conn⟩, parent, child, fp, stdout⟩ := s
  cases child with
  | readline =>
    obtain ⟨-, hnil, hopen⟩ := Reader.waits hwait
    exact .inr ⟨hnil, hopen⟩
  | fputs | kill => exact absurd rfl (hwait 0)
  | done => exact .inl rfl

/-- As the child reads all that comes back, the server and the parent get on. -/
theorem done_of_last (h : s.Inv forks caps input) (hlast : ∀ a, ¬ s.enabled caps a) : s.child = .done := by
  have hservpos := caps.toServer_pos
  have hclipos := caps.toClient_pos
  refine (child_waits fun k => hlast (.child k)).resolve_right ?_
  rintro ⟨hnil, hopen⟩
  have hparent := parent_waits h fun k => hlast (.parent k)
  rcases Conn.server_waits h.conn fun k => hlast (.server k) with hdone | ⟨-, htoServer, hfin⟩ | ⟨-, hroom⟩
  · rw [h.conn.fin.mpr hdone] at hopen
    cases hopen
  · rcases hparent with hfull | hclosed
    · rw [htoServer, List.length_nil] at hfull
      omega
    · rw [hclosed] at hfin
      cases hfin
  · rw [hnil, List.length_nil] at hroom
    omega

theorem stdout_of_done (h : s.Inv forks caps input) (hdone : s.child = .done) :
    s.stdout = (sendlines input).flatten := by
  obtain ⟨hnone, hclosed⟩ := h.last (.inr hdone)
  have hconserved := h.conserved
  rw [hnone, h.read hclosed, sendlines_of_none rfl] at hconserved
  simpa using hconserved

theorem system_ends (forks : Bool) (caps : Caps) (input : List Byte) :
    (system forks caps input).Ends fun s =>
      s.stdout = (sendlines input).flatten ∧ s.child = .done ∧ s.parent = if forks then .killed else .waits := by
  refine Ends.of_measure work ?_ fun s hr hlast => ?_
  · rintro s s' hr ⟨a, ha, rfl⟩
    exact work_next (inv_reachable hr) ha
  · have h := inv_reachable hr
    have hdone := done_of_last h fun a ha => hlast (s.next forks a) ⟨a, ha, rfl⟩
    refine ⟨stdout_of_done h hdone, hdone, ?_⟩
    have hclosed := (h.last (.inr hdone)).2
    cases forks with
    | true => exact h.killed.mpr ⟨rfl, hdone⟩
    | false =>
      refine (h.fin.mp hclosed).resolve_right fun hkilled => ?_
      cases (h.killed.mp hkilled).1

end TwoCli

/-- `strclifork.c`: the parent and the child. -/
def strCliFork := TwoCli.system true

/-- `strclithread.c`: `copyto` and the main thread. -/
def strCliThread := TwoCli.system false

/-- **The echo of the clients that read while they write.** What is on the standard output is always the beginning of
what was sent, and no `kill` comes before the parent has sent all of the input and its FIN. Every run ends, however
little the connection holds: with all of it on the standard output, and in `strclifork.c` with the parent killed while
it waits in `pause`. -/
theorem two_echo (caps : Caps) (input : List Byte) :
    (∀ forks, ∀ s : TwoCli, (TwoCli.system forks caps input).Reachable s →
      s.stdout <+: (sendlines input).flatten ∧
      (s.child = .kill ∨ s.parent = .killed → s.fp = [] ∧ s.conn.finToServer = true)) ∧
    ((strCliFork caps input).Ends fun s =>
      s.stdout = (sendlines input).flatten ∧ s.child = .done ∧ s.parent = .killed) ∧
    (strCliThread caps input).Ends fun s =>
      s.stdout = (sendlines input).flatten ∧ s.child = .done ∧ s.parent = .waits := by
  refine ⟨fun forks s hr => ?_, TwoCli.system_ends true caps input, TwoCli.system_ends false caps input⟩
  have h := TwoCli.inv_reachable hr
  refine ⟨⟨_, (List.append_assoc _ _ _).symm.trans h.conserved⟩, fun hend => ?_⟩
  have hclosed : s.conn.finToServer = true := by
    rcases hend with hkill | hkilled
    · exact (h.last (.inl hkill)).2
    · exact h.fin.mpr (.inr hkilled)
  exact ⟨h.read hclosed, hclosed⟩

end UnixNetProg.Nonblock
