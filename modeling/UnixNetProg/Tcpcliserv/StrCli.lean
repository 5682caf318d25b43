import UnixNetProg.Lib.Transition
import UnixNetProg.Libc
import UnixNetProg.Tcpcliserv.StrEcho

/-!
# The line echo client (`lib/str_cli.c`) on the echo server

`str_cli` sends a line and then reads one with `Readline` before it reads the next from its input, so that only one
line is on the connection at a time. It sends the string that `Fgets` leaves, which has no newline when the input ends
without one or has a 0 in the line. What comes back is then no line for `Readline`, which waits for the rest.
-/

namespace UnixNetProg.Tcpcliserv

open Lib TransitionSystem

/-- The points of `str_cli`; `done` is behind its return, where the process exits and closes the connection, and
`quit` is the call of `err_quit`. -/
inductive StrCliPc where
  | fgets
  | writen (left : List Byte)
  | readline
  | fputs
  | done
  | quit
  deriving DecidableEq

structure StrCli extends Reader where
  pc : StrCliPc
  fp : List Byte
  sendline : List Byte
  stdout : List Byte

inductive StrCliAct where
  | client (k : ℕ)
  | server (k : ℕ)

/-- `Readline` returns with this in its buffer of `MAXLINE` bytes. -/
def Complete (line : List Byte) : Prop := 10 ∈ line ∨ line.length = MAXLINE - 1

instance (line : List Byte) : Decidable (Complete line) := inferInstanceAs (Decidable (_ ∨ _))

def StrCliPc.left : StrCliPc → List Byte
  | .writen left => left
  | _ => []

def StrCliPc.rank : StrCliPc → ℕ
  | .fputs => 2
  | .fgets => 1
  | .writen _ | .readline | .done | .quit => 0

namespace StrCli

def init (input : List Byte) : StrCli := ⟨⟨[], [], .start⟩, .fgets, input, [], []⟩

/-- The client can take its next step with a count of `k`, which is 0 but for `read` and `write`. -/
def clientEnabled (caps : Caps) (s : StrCli) (k : ℕ) : Prop :=
  match s.pc with
  | .fgets | .fputs => k = 0
  | .writen left => s.conn.canWrite caps left k
  | .readline => s.toReader.enabled k
  | .done | .quit => False

def clientNext (s : StrCli) (k : ℕ) : StrCli :=
  match s.pc with
  | .fgets =>
    match fgets MAXLINE s.fp with
    | none => { s with pc := .done, conn := s.conn.shutdown }
    | some (line, rest) =>
      { s with pc := if stringOf line = [] then .readline else .writen (stringOf line), fp := rest, sendline := line,
               recvline := [] }
  | .writen left =>
    { s with pc := if left.drop k = [] then .readline else .writen (left.drop k), conn := s.conn.write (left.take k) }
  | .readline =>
    { s with
      toReader := s.toReader.next k
      pc := match s.toReader.res with
        | .more => .readline
        | .line => .fputs
        | .eof => .quit }
  | .fputs => { s with pc := .fgets, stdout := s.stdout ++ stringOf s.recvline }
  | .done | .quit => s

def enabled (caps : Caps) (s : StrCli) : StrCliAct → Prop
  | .client k => s.clientEnabled caps k
  | .server k => s.conn.serverEnabled caps k

def next (s : StrCli) : StrCliAct → StrCli
  | .client k => s.clientNext k
  | .server k => { s with conn := s.conn.serverNext k }

def system (caps : Caps) (input : List Byte) : TransitionSystem StrCli := ofActions (· = init input) (enabled caps) next

/-- The line that has been read and not been written yet. -/
def current (s : StrCli) : Option CString :=
  match s.pc with
  | .writen _ | .readline | .fputs => some (stringOf s.sendline)
  | .fgets | .done | .quit => none

/-- The bytes of that line where they are, from the end of the way to its beginning. -/
def onTheWay (s : StrCli) : List Byte := s.toReader.way ++ s.pc.left

/-- `before` are the lines that have come back. -/
structure Inv (caps : Caps) (input : List Byte) (before : List CString) (s : StrCli) : Prop where
  conn : s.conn.Inv caps
  complete : ∀ line ∈ before, Complete line
  stdout : s.stdout = before.flatten
  lines : sendlines input = before ++ s.current.toList ++ sendlines s.fp
  way : ∀ line, s.current = some line → s.onTheWay = line
  idle : s.current = none → s.readBuf = [] ∧ s.conn.inFlight = []
  sendline : s.sendline.length ≤ MAXLINE - 1 ∧ ∀ p q, s.sendline = p ++ 10 :: q → q = []
  writen : ∀ left, s.pc = .writen left → left ≠ [] ∧ s.recvline = [] ∧ s.readBuf = []
  readline : s.pc = .readline → ¬ Complete s.recvline
  fputs : s.pc = .fputs → Complete s.recvline ∧ s.readBuf = [] ∧ s.conn.inFlight = []
  fin : s.conn.finToServer = true ↔ s.pc = .done
  done : s.pc = .done → s.fp = []
  quit : s.pc ≠ .quit

variable {caps : Caps} {input : List Byte} {before : List CString} {s : StrCli} {k : ℕ}

theorem inv_init (caps : Caps) (input : List Byte) : (init input).Inv caps input [] := by
  refine ⟨Conn.inv_start caps, by simp, rfl, rfl, ?_, ?_, ?_, ?_, ?_, ?_, ?_, ?_, ?_⟩ <;>
    simp [init, current, Conn.start, Conn.inFlight, EchoPc.left]

theorem inv_server (h : s.Inv caps input before) (ha : s.conn.serverEnabled caps k) :
    (s.next (.server k)).Inv caps input before := by
  obtain ⟨hconn, hcomplete, hstdout, hlines, hway, hidle, hsendline, hwriten, hreadline, hfputs, hfin, hdone,
    hquit⟩ := h
  have hbytes := Conn.inFlight_serverNext (c := s.conn) (k := k)
  refine ⟨Conn.inv_serverNext hconn ha, hcomplete, hstdout, hlines, fun line hline => ?_, fun hnone => ?_, hsendline,
    hwriten, hreadline, fun hpc => ?_, ?_, hdone, hquit⟩
  · rw [← hway line hline, onTheWay, onTheWay, Reader.way, Reader.way]
    simp only [next, hbytes]
  · exact ⟨(hidle hnone).1, hbytes.trans (hidle hnone).2⟩
  · exact ⟨(hfputs hpc).1, (hfputs hpc).2.1, hbytes.trans (hfputs hpc).2.2⟩
  · exact (iff_of_eq (congrArg (· = true) Conn.finToServer_serverNext)).trans hfin

theorem inv_fgets (h : s.Inv caps input before) (hpc : s.pc = .fgets) : (s.clientNext k).Inv caps input before := by
  obtain ⟨hconn, hcomplete, hstdout, hlines, hway, hidle, hsendline, hwriten, hreadline, hfputs, hfin, hdone,
    hquit⟩ := h
  obtain ⟨⟨readBuf, recvline, conn⟩, pc, fp, sendline, stdout⟩ := s
  subst hpc
  obtain ⟨hbuf, hflight⟩ : readBuf = [] ∧ conn.inFlight = [] := hidle rfl
  have hopen : conn.finToServer ≠ true := fun htrue => by cases hfin.mp htrue
  cases hline : fgets MAXLINE fp with
  | none =>
    simp only [clientNext, hline]
    have hnil : fp = [] := fgets_eq_none_iff.mp hline
    exact ⟨Conn.inv_shutdown hconn, hcomplete, hstdout, hlines, by simp [current], fun _ => ⟨hbuf, hflight⟩, hsendline,
      by simp, by simp, by simp, by simp [Conn.shutdown], fun _ => hnil, by simp⟩
  | some p =>
    obtain ⟨line, rest⟩ := p
    have hsent : sendlines input = before ++ [stringOf line] ++ sendlines rest := by
      rw [hlines, sendlines_of_some hline]
      simp [current]
    by_cases hempty : stringOf line = []
    · simp only [clientNext, hline, if_pos hempty]
      refine ⟨hconn, hcomplete, hstdout, hsent, ?_, by simp [current], line_of_fgets hline, by simp, ?_, by simp, ?_,
        by simp, by simp⟩
      · simp [current, onTheWay, Reader.way, StrCliPc.left, hbuf, hflight, hempty]
      · simp [Complete, MAXLINE]
      · exact ⟨fun htrue => absurd htrue hopen, by simp⟩
    · simp only [clientNext, hline, if_neg hempty]
      refine ⟨hconn, hcomplete, hstdout, hsent, ?_, by simp [current], line_of_fgets hline, ?_, by simp, by simp, ?_,
        by simp, by simp⟩
      · simp [current, onTheWay, Reader.way, StrCliPc.left, hbuf, hflight]
      · exact fun left hleft => ⟨StrCliPc.writen.inj hleft ▸ hempty, rfl, hbuf⟩
      · exact ⟨fun htrue => absurd htrue hopen, by simp⟩

theorem inv_writen (h : s.Inv caps input before) {left : List Byte} (hpc : s.pc = .writen left)
    (ha : s.clientEnabled caps k) : (s.clientNext k).Inv caps input before := by
  obtain ⟨hconn, hcomplete, hstdout, hlines, hway, hidle, hsendline, hwriten, hreadline, hfputs, hfin, hdone,
    hquit⟩ := h
  obtain ⟨⟨readBuf, recvline, conn⟩, pc, fp, sendline, stdout⟩ := s
  subst hpc
  obtain ⟨-, rfl, rfl⟩ : left ≠ [] ∧ recvline = [] ∧ readBuf = [] := hwriten left rfl
  have hopen : conn.finToServer ≠ true := fun htrue => by cases hfin.mp htrue
  have hwrite := Conn.inv_writen hconn (by simpa using hopen) ha
  have hline : (conn.write (left.take k)).inFlight ++ left.drop k = stringOf sendline :=
    (Conn.inFlight_writen conn left k).trans (hway _ rfl)
  by_cases hlast : left.drop k = []
  · rw [hlast] at hline
    simp only [clientNext, if_pos hlast]
    refine ⟨hwrite, hcomplete, hstdout, hlines, fun line hcurrent => ?_, by simp [current], hsendline, by simp, ?_,
      by simp, ?_, by simp, by simp⟩
    · exact hline.trans (Option.some.inj hcurrent)
    · simp [Complete, MAXLINE]
    · exact ⟨fun htrue => absurd htrue hopen, by simp⟩
  · simp only [clientNext, if_neg hlast]
    refine ⟨hwrite, hcomplete, hstdout, hlines, fun line hcurrent => ?_, by simp [current], hsendline, ?_, by simp,
      by simp, ?_, by simp, by simp⟩
    · exact hline.trans (Option.some.inj hcurrent)
    · exact fun left' hleft => ⟨StrCliPc.writen.inj hleft ▸ hlast, rfl, rfl⟩
    · exact ⟨fun htrue => absurd htrue hopen, by simp⟩

theorem inv_fputs (h : s.Inv caps input before) (hpc : s.pc = .fputs) :
    (s.clientNext k).Inv caps input (before ++ [stringOf s.sendline]) := by
  obtain ⟨hconn, hcomplete, hstdout, hlines, hway, hidle, hsendline, hwriten, hreadline, hfputs, hfin, hdone,
    hquit⟩ := h
  obtain ⟨⟨readBuf, recvline, conn⟩, pc, fp, sendline, stdout⟩ := s
  subst hpc
  obtain ⟨hfull, rfl, hflight⟩ : Complete recvline ∧ readBuf = [] ∧ conn.inFlight = [] := hfputs rfl
  obtain rfl : recvline = stringOf sendline := by
    have hbytes := hway _ rfl
    simpa [onTheWay, Reader.way, hflight, StrCliPc.left] using hbytes
  have hopen : conn.finToServer ≠ true := fun htrue => by cases hfin.mp htrue
  have hsent : sendlines input = before ++ [stringOf sendline] ++ [] ++ sendlines fp := by
    rw [hlines, List.append_nil]
    rfl
  refine ⟨hconn, fun line hline => ?_, ?_, hsent, by simp [current, clientNext], fun _ => ⟨rfl, hflight⟩, hsendline,
    by simp [clientNext], by simp [clientNext], by simp [clientNext], ?_, by simp [clientNext], by simp [clientNext]⟩
  · rcases List.mem_append.mp hline with hline | hline
    · exact hcomplete line hline
    · rw [List.mem_singleton.mp hline]
      exact hfull
  · rw [List.flatten_append, List.flatten_singleton, ← hstdout]
    exact congrArg (stdout ++ ·) (stringOf_stringOf sendline)
  · exact ⟨fun htrue => absurd htrue hopen, by simp [clientNext]⟩

/-- What has come back up to a newline, or up to the size of the buffer, is the whole line. -/
theorem eq_nil_of_complete {sendline got rest : List Byte} {c : Byte}
    (hsendline : sendline.length ≤ MAXLINE - 1 ∧ ∀ p q, sendline = p ++ 10 :: q → q = [])
    (hline : stringOf sendline = got ++ c :: rest) (hlast : c = 10 ∨ got.length + 1 = MAXLINE - 1) : rest = [] := by
  obtain ⟨tail, htail⟩ := stringOf_prefix_self sendline
  rcases hlast with rfl | hfull
  · have hnil := hsendline.2 got (rest ++ tail) (by rw [← htail, hline, List.append_assoc, List.cons_append])
    exact (List.append_eq_nil_iff.mp hnil).1
  · have hlength := congrArg List.length htail
    have hle := hsendline.1
    rw [hline] at hlength
    simp only [List.length_append, List.length_cons] at hlength
    exact List.length_eq_zero_iff.mp (by omega)

theorem not_finToClient (h : s.Inv caps input before) (hpc : s.pc ≠ .done) : s.conn.finToClient ≠ true := by
  intro hfin
  exact hpc (h.fin.mp (h.conn.done (h.conn.fin.mp hfin)).2)

theorem inv_readByte (h : s.Inv caps input before) (hpc : s.pc = .readline) {c : Byte} {rest : List Byte}
    (hbuf : s.readBuf = c :: rest) : (s.clientNext k).Inv caps input before := by
  obtain ⟨hconn, hcomplete, hstdout, hlines, hway, hidle, hsendline, hwriten, hreadline, hfputs, hfin, hdone,
    hquit⟩ := h
  obtain ⟨⟨readBuf, recvline, conn⟩, pc, fp, sendline, stdout⟩ := s
  subst hpc hbuf
  have hopen : conn.finToServer ≠ true := fun htrue => by cases hfin.mp htrue
  have hline : stringOf sendline = recvline ++ c :: (rest ++ conn.inFlight) := by
    rw [← hway _ rfl]
    simp [onTheWay, Reader.way, StrCliPc.left]
  have hnot : ¬ Complete recvline := hreadline rfl
  by_cases hlast : c = 10 ∨ recvline.length + 1 = MAXLINE - 1
  · obtain ⟨rfl, hflight⟩ := List.append_eq_nil_iff.mp (eq_nil_of_complete hsendline hline hlast)
    simp only [clientNext, Reader.next, Reader.res, if_pos hlast]
    refine ⟨hconn, hcomplete, hstdout, hlines, fun line hcurrent => ?_, by simp [current], hsendline, by simp, by simp,
      fun _ => ⟨?_, rfl, hflight⟩, ?_, by simp, by simp⟩
    · rw [← Option.some.inj hcurrent, hline]
      simp [onTheWay, Reader.way, StrCliPc.left]
    · exact hlast.imp (by rintro rfl; simp) (by simp)
    · exact ⟨fun htrue => absurd htrue hopen, by simp⟩
  · simp only [clientNext, Reader.next, Reader.res, if_neg hlast]
    refine ⟨hconn, hcomplete, hstdout, hlines, fun line hcurrent => ?_, by simp [current], hsendline, by simp,
      fun _ => ?_, by simp, ?_, by simp, by simp⟩
    · rw [← Option.some.inj hcurrent, hline]
      simp [onTheWay, Reader.way, StrCliPc.left]
    · rw [not_or] at hlast
      rw [Complete, not_or] at hnot ⊢
      refine ⟨?_, by simpa using hlast.2⟩
      rw [List.mem_append, List.mem_singleton, not_or]
      exact ⟨hnot.1, Ne.symm hlast.1⟩
    · exact ⟨fun htrue => absurd htrue hopen, by simp⟩

theorem inv_readline (h : s.Inv caps input before) (hpc : s.pc = .readline) (ha : s.clientEnabled caps k) :
    (s.clientNext k).Inv caps input before := by
  have ha' : s.toReader.enabled k := by rwa [clientEnabled, hpc] at ha
  rcases Reader.next_cases ha' with ⟨c, rest, hbuf, -⟩ | ⟨-, -, -, hnext, hres⟩ | ⟨-, -, hclosed, -⟩
  · exact inv_readByte h hpc hbuf
  · have hrun : s.clientNext k = { s with toReader := s.toReader.next k } := by
      simp only [clientNext, hpc, hres]
    have hline : (s.toReader.next k).recvline = s.recvline := by rw [hnext]
    rw [hrun]
    refine ⟨Reader.inv_next h.conn ha', h.complete, h.stdout, h.lines, fun line hcurrent => ?_,
      fun hnone => ?_, h.sendline, fun left hleft => ?_, fun _ => ?_, fun hfputs => ?_, ?_, h.done, h.quit⟩
    · rw [onTheWay, Reader.way_next ha']
      exact h.way line hcurrent
    · simp [current, hpc] at hnone
    · cases hpc.symm.trans hleft
    · exact hline ▸ h.readline hpc
    · cases hpc.symm.trans hfputs
    · exact (iff_of_eq (congrArg (· = true) (Reader.finToServer_next ha'))).trans h.fin
  · exact absurd hclosed (not_finToClient h (by simp [hpc]))

theorem inv_client (h : s.Inv caps input before) (ha : s.clientEnabled caps k) :
    ∃ before', (s.clientNext k).Inv caps input before' := by
  cases hpc : s.pc with
  | fgets => exact ⟨before, inv_fgets h hpc⟩
  | writen left => exact ⟨before, inv_writen h hpc ha⟩
  | readline => exact ⟨before, inv_readline h hpc ha⟩
  | fputs => exact ⟨_, inv_fputs h hpc⟩
  | done | quit =>
    rw [clientEnabled, hpc] at ha
    exact absurd ha id

theorem inv_reachable (hr : (system caps input).Reachable s) : ∃ before, s.Inv caps input before := by
  refine invariant (P := fun s => ∃ before, s.Inv caps input before) ?_ ?_ hr
  · rintro s rfl
    exact ⟨[], inv_init caps input⟩
  · rintro s s' - ⟨before, h⟩ ⟨a, ha, rfl⟩
    cases a with
    | client k => exact inv_client h ha
    | server k => exact ⟨before, inv_server h ha⟩

/-! ### Every run ends -/

/-- The bytes with the ways that they have still to go. -/
def work (s : StrCli) : ℕ :=
  20 * s.fp.length + 16 * s.pc.left.length + s.conn.work + 3 * s.readBuf.length + s.pc.rank

theorem work_client (h : s.Inv caps input before) (ha : s.clientEnabled caps k) : (s.clientNext k).work < s.work := by
  have hclosed := not_finToClient h
  obtain ⟨⟨readBuf, recvline, conn⟩, pc, fp, sendline, stdout⟩ := s
  cases pc with
  | fgets =>
    cases hline : fgets MAXLINE fp with
    | none => simp [clientNext, hline, work, StrCliPc.left, StrCliPc.rank, Conn.shutdown, Conn.work]
    | some p =>
      obtain ⟨line, rest⟩ := p
      have hpos := length_lt_of_fgets (by decide) hline
      have hlength := length_of_fgets hline
      by_cases hempty : stringOf line = []
      · simp only [clientNext, hline, if_pos hempty, work, StrCliPc.left, StrCliPc.rank]
        omega
      · simp only [clientNext, hline, if_neg hempty, work, StrCliPc.left, StrCliPc.rank, List.length_nil]
        omega
  | writen left =>
    have hpos : 0 < k := ha.1
    have hwrite := Conn.work_writen (c := conn) ha
    by_cases hlast : left.drop k = []
    · rw [hlast, List.length_nil] at hwrite
      simp only [clientNext, if_pos hlast, work, StrCliPc.left, StrCliPc.rank, List.length_nil]
      omega
    · simp only [clientNext, if_neg hlast, work, StrCliPc.left, StrCliPc.rank]
      omega
  | readline =>
    rcases Reader.next_cases ha with ⟨c, rest, hbuf, hnext, hres⟩ | ⟨hbuf, hpos, hk, hnext, hres⟩ | ⟨-, -, hfin, -⟩
    · have hlength : readBuf.length = rest.length + 1 := congrArg List.length hbuf
      simp only [clientNext, hnext, hres, work, StrCliPc.left]
      split_ifs <;> simp only [StrCliPc.rank] <;> omega
    · have hread := Conn.work_read hk
      have hlength : readBuf.length = 0 := congrArg List.length hbuf
      simp only [clientNext, hnext, hres, work, StrCliPc.left, List.length_take]
      simp only at hread hk
      omega
    · exact absurd hfin (hclosed (by simp))
  | fputs =>
    simp only [clientNext, work, StrCliPc.left, StrCliPc.rank]
    omega
  | done | quit => exact absurd ha id

theorem work_next {a : StrCliAct} (h : s.Inv caps input before) (ha : s.enabled caps a) : (s.next a).work < s.work := by
  cases a with
  | client k => exact work_client h ha
  | server k =>
    have hserver := Conn.work_serverNext ha
    simp only [next, work]
    omega

theorem client_waits (h : s.Inv caps input before) (hwait : ∀ k, ¬ s.clientEnabled caps k) :
    s.pc = .done ∨ s.pc.left ≠ [] ∧ s.conn.toServer.length = caps.toServer ∨
      s.pc = .readline ∧ s.readBuf = [] ∧ s.conn.toClient = [] := by
  have hquit := h.quit
  have hconn := h.conn
  have hwriten := h.writen
  obtain ⟨⟨readBuf, recvline, conn⟩, pc, fp, sendline, stdout⟩ := s
  cases pc with
  | fgets | fputs => exact absurd rfl (hwait 0)
  | writen left =>
    have hne := (hwriten left rfl).1
    exact .inr (.inl ⟨hne, Conn.full_of_waits hconn hne hwait⟩)
  | readline =>
    obtain ⟨hbuf, hnil, -⟩ := Reader.waits hwait
    exact .inr (.inr ⟨rfl, hbuf, hnil⟩)
  | done => exact .inl rfl
  | quit => exact absurd rfl hquit

theorem length_onTheWay (h : s.Inv caps input before) (hleft : s.pc.left ≠ []) :
    s.onTheWay.length < MAXLINE := by
  have hpc : ∃ left, s.pc = .writen left := by
    cases hpc : s.pc with
    | writen left => exact ⟨left, rfl⟩
    | _ => simp [hpc, StrCliPc.left] at hleft
  obtain ⟨left, hpc⟩ := hpc
  have hway := h.way (stringOf s.sendline) (by rw [current, hpc])
  have hstring := (stringOf_prefix_self s.sendline).length_le
  have hle := h.sendline.1
  have hmax : MAXLINE = 4096 := rfl
  rw [hway]
  omega

theorem last_cases (h : s.Inv caps input before) (hcaps : MAXLINE ≤ caps.toServer + caps.toClient + 2)
    (hlast : ∀ a, ¬ s.enabled caps a) :
    s.pc = .done ∨ s.pc = .readline ∧ s.readBuf = [] ∧ s.conn.inFlight = [] := by
  have hserver := Conn.server_waits h.conn fun k => hlast (.server k)
  have hservpos := caps.toServer_pos
  have hclipos := caps.toClient_pos
  rcases client_waits h fun k => hlast (.client k) with hdone | ⟨hleft, hfull⟩ | ⟨hpc, hbuf, hnil⟩
  · exact .inl hdone
  · exfalso
    rcases hserver with hdone | ⟨-, hnil, -⟩ | ⟨hsrv, hroom⟩
    · rw [(h.conn.done hdone).1, List.length_nil] at hfull
      omega
    · rw [hnil, List.length_nil] at hfull
      omega
    · have hlength := length_onTheWay h hleft
      have hcli := List.length_pos_iff.mpr hleft
      have hsrvpos := List.length_pos_iff.mpr hsrv
      simp only [onTheWay, Reader.way, Conn.inFlight, List.length_append] at hlength
      omega
  · refine .inr ⟨hpc, hbuf, ?_⟩
    rcases hserver with hdone | ⟨hread, htoServer, -⟩ | ⟨-, hroom⟩
    · exact absurd (h.conn.fin.mpr hdone) (not_finToClient h (by simp [hpc]))
    · rw [Conn.inFlight, hnil, hread, htoServer]
      rfl
    · rw [hnil, List.length_nil] at hroom
      omega

/-- `str_cli` has written the lines up to the first that does not come back as one, and it has returned if there is
none. -/
def Echoed (input : List Byte) (s : StrCli) : Prop :=
  s.stdout = ((sendlines input).takeWhile fun line => decide (Complete line)).flatten ∧
    (s.pc = .done ∧ (∀ line ∈ sendlines input, Complete line) ∨
      s.pc = .readline ∧ ∃ line ∈ sendlines input, ¬ Complete line)

theorem echoed_of_last (h : s.Inv caps input before) (hcaps : MAXLINE ≤ caps.toServer + caps.toClient + 2)
    (hlast : ∀ a, ¬ s.enabled caps a) : s.Echoed input := by
  have hbefore : ∀ line ∈ before, decide (Complete line) = true :=
    fun line hline => decide_eq_true (h.complete line hline)
  have hlines := h.lines
  rcases last_cases h hcaps hlast with hpc | ⟨hpc, hbuf, hflight⟩
  · have hnil : sendlines s.fp = [] := by
      rw [h.done hpc]
      exact sendlines_of_none rfl
    rw [current, hpc, hnil, List.append_nil, Option.toList_none, List.append_nil] at hlines
    refine ⟨?_, .inl ⟨hpc, fun line hline => h.complete line (hlines ▸ hline)⟩⟩
    rw [hlines, List.takeWhile_eq_self_iff.mpr hbefore, h.stdout]
  · have hcurrent : s.current = some (stringOf s.sendline) := by rw [current, hpc]
    have hway := h.way _ hcurrent
    rw [onTheWay, Reader.way, hbuf, hflight, hpc] at hway
    have hnot : ¬ Complete (stringOf s.sendline) := by
      rw [← hway]
      simpa [StrCliPc.left] using h.readline hpc
    rw [hcurrent, Option.toList_some, List.append_assoc] at hlines
    refine ⟨?_, .inr ⟨hpc, stringOf s.sendline, by simp [hlines], hnot⟩⟩
    rw [hlines, List.takeWhile_append_of_pos hbefore, List.singleton_append,
      List.takeWhile_cons_of_neg (by simpa using hnot), List.append_nil, h.stdout]

/-- **The line echo.** The standard output holds whole lines of the input in their order, and `err_quit` is never
called. When a line fits into the connection, every run ends, and all of them in the same way: `str_cli` returns with
all of the lines written if each comes back with a newline or fills the buffer of `Readline`, and otherwise it waits
in `Readline` for ever, with the lines in front of the first other one written. -/
theorem strCli_lines (caps : Caps) (input : List Byte) :
    (∀ s : StrCli, (system caps input).Reachable s → s.pc ≠ .quit ∧
      ∃ before after, sendlines input = before ++ after ∧ s.stdout = before.flatten) ∧
    (MAXLINE ≤ caps.toServer + caps.toClient + 2 → (system caps input).Ends (Echoed input)) := by
  refine ⟨fun s hr => ?_, fun hcaps => Ends.of_measure work ?_ ?_⟩
  · obtain ⟨before, h⟩ := inv_reachable hr
    exact ⟨h.quit, before, _, h.lines.trans (List.append_assoc _ _ _), h.stdout⟩
  · rintro s s' hr ⟨a, ha, rfl⟩
    obtain ⟨before, h⟩ := inv_reachable hr
    exact work_next h ha
  · intro s hr hlast
    obtain ⟨before, h⟩ := inv_reachable hr
    exact echoed_of_last h hcaps fun a ha => hlast (s.next a) ⟨a, ha, rfl⟩

end StrCli

end UnixNetProg.Tcpcliserv
