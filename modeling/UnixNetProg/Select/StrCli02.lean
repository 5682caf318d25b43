import UnixNetProg.Lib.Transition
import UnixNetProg.Tcpcliserv.StrEcho

/-!
# The client with `select` and `shutdown` (`select/strcliselect02.c`) on the echo server

`str_cli` reads what is there from the standard input and from the socket, and writes all of what it has read before it
selects again. Each `read` takes any part of what is there. So the client waits in `Writen` while the two directions of
the connection are full, and does not read from the socket meanwhile.
-/

namespace UnixNetProg.Select

open Lib TransitionSystem Tcpcliserv

/-- The points of `str_cli`: behind `select` the two tests, where `rstdin` is what is set for the standard input. `Read`
from the socket is one step with the `Write` to the standard output. `quit` is the call of `err_quit`. -/
inductive CliPc where
  | select
  | socket (rstdin : Bool)
  | stdin
  | writen (left : List Byte)
  | done
  | quit
  deriving DecidableEq

/-- `stdin` are the bytes that are still to be read from the standard input. -/
structure StrCli where
  pc : CliPc
  stdin : List Byte
  stdineof : Bool
  stdout : List Byte
  conn : Conn
  deriving DecidableEq

/-- A return from `select`, with the standard input ready or not, and the calls with the number of bytes. -/
inductive CliAct where
  | select (rstdin : Bool)
  | client (k : ℕ)
  | server (k : ℕ)
  deriving DecidableEq

def CliPc.left : CliPc → List Byte
  | .writen left => left
  | _ => []

/-- The standard input is still to be read, or what has been read from it to be written. -/
def CliPc.input : CliPc → Bool
  | .socket rstdin => rstdin
  | .stdin | .writen _ => true
  | .select | .done | .quit => false

def CliPc.rank : CliPc → ℕ
  | .select => 2
  | .socket _ | .stdin => 1
  | .writen _ | .done | .quit => 0

namespace StrCli

def init (input : List Byte) : StrCli := ⟨.select, input, false, [], .start⟩

/-- A `read` of the end of the input has the count 0. -/
def clientEnabled (caps : Caps) (s : StrCli) (k : ℕ) : Prop :=
  match s.pc with
  | .socket _ =>
    if s.conn.toClient = [] then s.conn.finToClient = true ∧ k = 0
    else 0 < k ∧ k ≤ MAXLINE ∧ k ≤ s.conn.toClient.length
  | .stdin => if s.stdin = [] then k = 0 else 0 < k ∧ k ≤ MAXLINE ∧ k ≤ s.stdin.length
  | .writen left => s.conn.canWrite caps left k
  | .select | .done | .quit => False

def clientNext (s : StrCli) (k : ℕ) : StrCli :=
  match s.pc with
  | .socket rstdin =>
    if s.conn.toClient = [] then { s with pc := if s.stdineof then .done else .quit }
    else { s with pc := if rstdin then .stdin else .select, stdout := s.stdout ++ s.conn.toClient.take k,
                  conn := s.conn.read k }
  | .stdin =>
    if s.stdin = [] then { s with pc := .select, stdineof := true, conn := s.conn.shutdown }
    else { s with pc := .writen (s.stdin.take k), stdin := s.stdin.drop k }
  | .writen left =>
    { s with pc := if left.drop k = [] then .select else .writen (left.drop k), conn := s.conn.write (left.take k) }
  | .select | .done | .quit => s

/-- `select` is asked for the standard input until its end. -/
def enabled (caps : Caps) (s : StrCli) : CliAct → Prop
  | .select rstdin =>
    s.pc = .select ∧ (rstdin = true → s.stdineof = false) ∧ (rstdin = true ∨ s.conn.readable)
  | .client k => s.clientEnabled caps k
  | .server k => s.conn.serverEnabled caps k

def next (s : StrCli) : CliAct → StrCli
  | .select rstdin => { s with pc := if s.conn.readable then .socket rstdin else .stdin }
  | .client k => s.clientNext k
  | .server k => { s with conn := s.conn.serverNext k }

def system (caps : Caps) (input : List Byte) : TransitionSystem StrCli := ofActions (· = init input) (enabled caps) next

/-- Neither the client nor the server can go on, and the client has not returned. -/
def Deadlock (caps : Caps) (s : StrCli) : Prop := s.pc ≠ .done ∧ ∀ a, ¬ enabled caps s a

structure Inv (caps : Caps) (input : List Byte) (s : StrCli) : Prop where
  conserved : s.stdout ++ s.conn.inFlight ++ s.pc.left ++ s.stdin = input
  conn : s.conn.Inv caps
  fin : s.conn.finToServer = s.stdineof
  eof : s.stdineof = true → s.stdin = [] ∧ s.pc.input = false
  left : ∀ left, s.pc = .writen left → left ≠ []
  ready : ∀ rstdin, s.pc = .socket rstdin → s.conn.readable
  done : s.pc = .done → s.conn.toClient = [] ∧ s.conn.finToClient = true
  quit : s.pc ≠ .quit

variable {caps : Caps} {input : List Byte} {s : StrCli} {k : ℕ}

theorem inv_init (caps : Caps) (input : List Byte) : (init input).Inv caps input := by
  refine ⟨rfl, Conn.inv_start caps, rfl, ?_, ?_, ?_, ?_, ?_⟩ <;> simp [init]

theorem inv_server (h : s.Inv caps input) (ha : s.conn.serverEnabled caps k) : (s.next (.server k)).Inv caps input := by
  obtain ⟨hconserved, hconn, hfin, heof, hleft, hready, hdone, hquit⟩ := h
  refine ⟨?_, Conn.inv_serverNext hconn ha, Conn.finToServer_serverNext.trans hfin, heof, hleft, ?_, ?_, hquit⟩
  · show s.stdout ++ (s.conn.serverNext k).inFlight ++ s.pc.left ++ s.stdin = input
    rw [Conn.inFlight_serverNext]
    exact hconserved
  · exact fun rstdin hpc => Conn.readable_serverNext (hready rstdin hpc)
  · exact fun hpc => absurd ha (Conn.not_serverEnabled hconn (hdone hpc).2)

theorem inv_socket (h : s.Inv caps input) {rstdin : Bool} (hpc : s.pc = .socket rstdin) (ha : s.clientEnabled caps k) :
    (s.clientNext k).Inv caps input := by
  obtain ⟨hconserved, hconn, hfin, heof, hleft, hready, hdone, hquit⟩ := h
  obtain ⟨pc, stdin, stdineof, stdout, conn⟩ := s
  subst hpc
  by_cases hnil : conn.toClient = []
  · obtain ⟨hfinc, -⟩ : conn.finToClient = true ∧ k = 0 := by simpa [clientEnabled, hnil] using ha
    have hstdineof : stdineof = true := hfin.symm.trans (hconn.done (hconn.fin.mp hfinc)).2
    simp only [clientNext, if_pos hnil, hstdineof, if_true]
    exact ⟨hconserved, hconn, hfin.trans hstdineof, fun _ => ⟨(heof hstdineof).1, rfl⟩, by simp, by simp,
      fun _ => ⟨hnil, hfinc⟩, by simp⟩
  · simp only [clientNext, if_neg hnil]
    have hread := Conn.inFlight_read (c := conn) (k := k)
    refine ⟨?_, Conn.inv_read hconn k, hfin, fun hend => ?_, ?_, ?_, ?_, ?_⟩
    · rw [← hconserved, ← hread]
      cases rstdin <;> simp [CliPc.left]
    · obtain ⟨hstdin, hinput⟩ := heof hend
      obtain rfl : rstdin = false := hinput
      exact ⟨hstdin, rfl⟩
    all_goals cases rstdin <;> simp

theorem inv_stdin (h : s.Inv caps input) (hpc : s.pc = .stdin) (ha : s.clientEnabled caps k) :
    (s.clientNext k).Inv caps input := by
  obtain ⟨hconserved, hconn, hfin, heof, hleft, hready, hdone, hquit⟩ := h
  obtain ⟨pc, stdin, stdineof, stdout, conn⟩ := s
  subst hpc
  by_cases hnil : stdin = []
  · simp only [clientNext, if_pos hnil]
    exact ⟨hconserved, Conn.inv_shutdown hconn, rfl, fun _ => ⟨hnil, rfl⟩, by simp, by simp, by simp, by simp⟩
  · obtain ⟨hpos, -, hk⟩ : 0 < k ∧ k ≤ MAXLINE ∧ k ≤ stdin.length := by simpa [clientEnabled, hnil] using ha
    have htake : stdin.take k ≠ [] := by simp [hnil, Nat.ne_of_gt hpos]
    simp only [clientNext, if_neg hnil]
    refine ⟨?_, hconn, hfin, fun hend => ?_, fun l hl => CliPc.writen.inj hl ▸ htake, by simp, by simp, by simp⟩
    · rw [← hconserved]
      simp [CliPc.left]
    · exact absurd (heof hend).1 hnil

theorem inv_writen (h : s.Inv caps input) {left : List Byte} (hpc : s.pc = .writen left) (ha : s.clientEnabled caps k) :
    (s.clientNext k).Inv caps input := by
  obtain ⟨hconserved, hconn, hfin, heof, hleft, hready, hdone, hquit⟩ := h
  obtain ⟨pc, stdin, stdineof, stdout, conn⟩ := s
  subst hpc
  have hopen : stdineof = false := by
    by_contra hend
    exact absurd (heof (by simpa using hend)).2 (by simp [CliPc.input])
  have hwrite := Conn.inv_writen hconn (hfin.trans hopen) ha
  have hbytes := Conn.inFlight_writen conn left k
  have hkept : stdout ++ (conn.write (left.take k)).inFlight ++ left.drop k ++ stdin = input := by
    rw [List.append_assoc stdout, hbytes, ← List.append_assoc stdout]
    exact hconserved
  by_cases hlast : left.drop k = []
  · rw [hlast] at hkept
    simp only [clientNext, if_pos hlast]
    exact ⟨hkept, hwrite, hfin, fun hend => absurd (hend.symm.trans hopen) (by decide), by simp, by simp, by simp,
      by simp⟩
  · simp only [clientNext, if_neg hlast]
    exact ⟨hkept, hwrite, hfin, fun hend => absurd (hend.symm.trans hopen) (by decide),
      fun l hl => CliPc.writen.inj hl ▸ hlast, by simp, by simp, by simp⟩

theorem inv_select (h : s.Inv caps input) {rstdin : Bool} (ha : s.enabled caps (.select rstdin)) :
    (s.next (.select rstdin)).Inv caps input := by
  obtain ⟨hpc, hopen, hsome⟩ := ha
  obtain ⟨hconserved, hconn, hfin, heof, hleft, hready, hdone, hquit⟩ := h
  obtain ⟨pc, stdin, stdineof, stdout, conn⟩ := s
  obtain rfl : pc = .select := hpc
  by_cases hreadable : conn.readable
  · simp only [next, if_pos hreadable]
    refine ⟨hconserved, hconn, hfin, fun hend => ⟨(heof hend).1, ?_⟩, by simp, fun _ _ => hreadable, by simp, by simp⟩
    by_contra htrue
    have hfalse : stdineof = false := hopen (by simpa [CliPc.input] using htrue)
    exact absurd (hend.symm.trans hfalse) (by decide)
  · simp only [next, if_neg hreadable]
    have hfalse : stdineof = false := hopen (hsome.resolve_right hreadable)
    exact ⟨hconserved, hconn, hfin, fun hend => absurd (hend.symm.trans hfalse) (by decide), by simp, by simp, by simp,
      by simp⟩

theorem inv_next {a : CliAct} (h : s.Inv caps input) (ha : s.enabled caps a) : (s.next a).Inv caps input := by
  cases a with
  | select rstdin => exact inv_select h ha
  | server k => exact inv_server h ha
  | client k =>
    cases hpc : s.pc with
    | socket rstdin => exact inv_socket h hpc ha
    | stdin => exact inv_stdin h hpc ha
    | writen left => exact inv_writen h hpc ha
    | select | done | quit =>
      have hfalse : s.clientEnabled caps k := ha
      rw [clientEnabled, hpc] at hfalse
      exact absurd hfalse id

theorem inv_reachable (hr : (system caps input).Reachable s) : s.Inv caps input := by
  refine invariant ?_ ?_ hr
  · rintro s rfl
    exact inv_init caps input
  · rintro s s' - h ⟨a, ha, rfl⟩
    exact inv_next h ha

/-! ### Every run ends -/

/-- The bytes with the ways that they have still to go, and the end of the standard input. -/
def work (s : StrCli) : ℕ :=
  20 * s.stdin.length + 16 * s.pc.left.length + s.conn.work + 3 * (!s.stdineof).toNat + s.pc.rank

theorem work_client (h : s.Inv caps input) (ha : s.clientEnabled caps k) : (s.clientNext k).work < s.work := by
  have heof := h.eof
  obtain ⟨pc, stdin, stdineof, stdout, conn⟩ := s
  cases pc with
  | socket rstdin =>
    by_cases hnil : conn.toClient = []
    · cases stdineof <;> simp [clientNext, hnil, work, CliPc.left, CliPc.rank]
    · obtain ⟨hpos, -, hk⟩ : 0 < k ∧ k ≤ MAXLINE ∧ k ≤ conn.toClient.length := by
        simpa [clientEnabled, hnil] using ha
      have hread := Conn.work_read hk
      simp only [clientNext, if_neg hnil, work]
      cases rstdin <;>
        simp only [CliPc.left, CliPc.rank, List.length_nil, if_true, Bool.false_eq_true, if_false] <;> omega
  | stdin =>
    by_cases hnil : stdin = []
    · have hopen : stdineof = false := by
        by_contra hend
        exact absurd (heof (by simpa using hend)).2 (by simp [CliPc.input])
      simp only [clientNext, if_pos hnil, work, CliPc.left, CliPc.rank, Conn.shutdown, Conn.work, hopen, Bool.not_true,
        Bool.not_false, Bool.toNat_true, Bool.toNat_false]
      omega
    · obtain ⟨hpos, -, hk⟩ : 0 < k ∧ k ≤ MAXLINE ∧ k ≤ stdin.length := by simpa [clientEnabled, hnil] using ha
      simp only [clientNext, if_neg hnil, work, CliPc.left, CliPc.rank, List.length_take, List.length_drop,
        List.length_nil]
      omega
  | writen left =>
    have hpos : 0 < k := ha.1
    have hwrite := Conn.work_writen (c := conn) ha
    by_cases hlast : left.drop k = []
    · rw [hlast, List.length_nil] at hwrite
      simp only [clientNext, if_pos hlast, work, CliPc.left, CliPc.rank, List.length_nil]
      omega
    · simp only [clientNext, if_neg hlast, work, CliPc.left, CliPc.rank]
      omega
  | select | done | quit => exact absurd ha id

theorem work_next {a : CliAct} (h : s.Inv caps input) (ha : s.enabled caps a) : (s.next a).work < s.work := by
  cases a with
  | select rstdin =>
    have hpc : s.pc = .select := ha.1
    obtain ⟨pc, stdin, stdineof, stdout, conn⟩ := s
    subst hpc
    by_cases hreadable : conn.readable
    · simp only [next, if_pos hreadable, work, CliPc.left, CliPc.rank]
      omega
    · simp only [next, if_neg hreadable, work, CliPc.left, CliPc.rank]
      omega
  | client k => exact work_client h ha
  | server k =>
    have hserver := Conn.work_serverNext ha
    simp only [next, work]
    omega

theorem client_waits (h : s.Inv caps input) (hdead : s.Deadlock caps) :
    s.pc.left ≠ [] ∧ s.conn.toServer.length = caps.toServer ∨ s.stdineof = true ∧ ¬ s.conn.readable := by
  obtain ⟨-, hconn, -, -, hleft, hready, -, hquit⟩ := h
  obtain ⟨hpc, hwait⟩ := hdead
  have hclient : ∀ k, ¬ s.clientEnabled caps k := fun k => hwait (.client k)
  obtain ⟨pc, stdin, stdineof, stdout, conn⟩ := s
  cases pc with
  | select =>
    refine .inr ⟨?_, fun hreadable => hwait (.select false) ⟨rfl, by simp, .inr hreadable⟩⟩
    by_contra hend
    exact hwait (.select true) ⟨rfl, fun _ => by simpa using hend, .inl rfl⟩
  | socket rstdin =>
    cases htoClient : conn.toClient with
    | nil =>
      have hfin : conn.finToClient = true := (hready rstdin rfl).resolve_left fun hne => hne htoClient
      exact absurd (by simpa [clientEnabled, htoClient] using hfin) (hclient 0)
    | cons b rest => exact absurd (by simp [clientEnabled, htoClient, MAXLINE]) (hclient 1)
  | stdin =>
    cases stdin with
    | nil => exact absurd (by simp [clientEnabled]) (hclient 0)
    | cons b rest => exact absurd (by simp [clientEnabled, MAXLINE]) (hclient 1)
  | writen left =>
    have hne := hleft left rfl
    exact .inl ⟨hne, Conn.full_of_waits hconn hne hclient⟩
  | done => exact absurd rfl hpc
  | quit => exact absurd rfl hquit

/-- In a deadlock both directions are full, and both sides have something to write. -/
theorem deadlock_full (h : s.Inv caps input) (hdead : s.Deadlock caps) :
    s.conn.toServer.length = caps.toServer ∧ s.conn.toClient.length = caps.toClient ∧ s.pc.left ≠ [] ∧
      s.conn.server.left ≠ [] := by
  have hserver := Conn.server_waits h.conn fun k ha => hdead.2 (.server k) ha
  have hclient := client_waits h hdead
  have hservpos := caps.toServer_pos
  have hclipos := caps.toClient_pos
  rcases hclient with ⟨hleft, hfull⟩ | ⟨hend, hnot⟩
  · rcases hserver with hdone | ⟨-, hnil, -⟩ | ⟨hsrv, hroom⟩
    · rw [(h.conn.done hdone).1, List.length_nil] at hfull
      omega
    · rw [hnil, List.length_nil] at hfull
      omega
    · exact ⟨hfull, hroom, hleft, hsrv⟩
  · rcases hserver with hdone | ⟨-, -, hopen⟩ | ⟨-, hroom⟩
    · exact absurd (.inr (h.conn.fin.mpr hdone)) hnot
    · exact absurd (hopen.symm.trans (h.fin.trans hend)) (by decide)
    · refine absurd (.inl fun hnil => ?_) hnot
      rw [hnil, List.length_nil] at hroom
      omega

theorem deadlock_length (h : s.Inv caps input) (hdead : s.Deadlock caps) :
    caps.toServer + caps.toClient + 2 ≤ input.length := by
  obtain ⟨htoServer, htoClient, hleft, hsrv⟩ := deadlock_full h hdead
  have hcli := List.length_pos_iff.mpr hleft
  have hserver := List.length_pos_iff.mpr hsrv
  rw [← h.conserved]
  simp only [Conn.inFlight, List.length_append]
  omega

theorem stdout_of_done (h : s.Inv caps input) (hpc : s.pc = .done) : s.stdout = input := by
  obtain ⟨htoClient, hfin⟩ := h.done hpc
  have hserver : s.conn.server = .done := h.conn.fin.mp hfin
  obtain ⟨htoServer, hfins⟩ := h.conn.done hserver
  have hstdin : s.stdin = [] := (h.eof (h.fin.symm.trans hfins)).1
  have hconserved := h.conserved
  rw [Conn.inFlight, htoClient, hserver, htoServer, hpc, hstdin] at hconserved
  simpa [EchoPc.left, CliPc.left] using hconserved

theorem system_ends (caps : Caps) (input : List Byte) :
    (system caps input).Ends fun s => s.pc = .done ∧ s.stdout = input ∨ s.Deadlock caps := by
  refine Ends.of_measure work ?_ ?_
  · rintro s s' hr ⟨a, ha, rfl⟩
    exact work_next (inv_reachable hr) ha
  · intro s hr hlast
    by_cases hpc : s.pc = .done
    · exact .inl ⟨hpc, stdout_of_done (inv_reachable hr) hpc⟩
    · exact .inr ⟨hpc, fun a ha => hlast (s.next a) ⟨a, ha, rfl⟩⟩

/-! ### A run into a deadlock -/

theorem exists_filled {i : ℕ} (hi : i ≤ caps.toServer) (hlength : i ≤ input.length) :
    (system caps input).Reachable ⟨.select, input.drop i, false, [], ⟨input.take i, false, .read, [], false⟩⟩ := by
  induction i with
  | zero => exact reachable_init rfl
  | succ i ih =>
    obtain ⟨b, rest, hdrop⟩ := List.exists_cons_of_length_pos (l := input.drop i) (by rw [List.length_drop]; omega)
    have hr := ih (by omega) (by omega)
    have hrest : input.drop (i + 1) = rest := by rw [← List.drop_drop, hdrop, List.drop_one, List.tail_cons]
    have htake : input.take (i + 1) = input.take i ++ [b] := by
      rw [List.take_add, hdrop]
      rfl
    rw [hdrop] at hr
    rw [hrest, htake]
    have hacts : Enables (enabled caps) next
        (⟨.select, b :: rest, false, [], ⟨input.take i, false, .read, [], false⟩⟩ : StrCli)
        [.select true, .client 1, .client 1] := by
      refine ⟨⟨rfl, by simp, by simp⟩, ?_, ?_, trivial⟩
      · simp [enabled, clientEnabled, next, Conn.readable, MAXLINE]
      · simp [enabled, clientEnabled, clientNext, next, Conn.readable, Conn.canWrite]
        omega
    have hrun : (system caps input).Reachable _ := hr.actions hacts
    simpa [next, clientNext, Conn.readable, Conn.write] using hrun

theorem exists_raised {stdin stdout toServer toClient : List Byte}
    (hr : (system caps input).Reachable ⟨.select, stdin, false, stdout, ⟨toServer, false, .read, toClient, false⟩⟩)
    (hfull : toServer.length = caps.toServer) (hroom : toClient.length < caps.toClient) (hstdin : 2 ≤ stdin.length) :
    ∃ stdin' stdout' toServer' toClient', (system caps input).Reachable
        ⟨.select, stdin', false, stdout', ⟨toServer', false, .read, toClient', false⟩⟩ ∧
      toServer'.length = caps.toServer ∧ toClient'.length = toClient.length + 1 ∧ stdin.length ≤ stdin'.length + 2 := by
  have hpos := caps.toServer_pos
  obtain ⟨x, y, rest, rfl⟩ : ∃ x y rest, stdin = x :: y :: rest := by
    obtain ⟨x, l, rfl⟩ := List.exists_cons_of_length_pos (l := stdin) (by omega)
    rw [List.length_cons] at hstdin
    obtain ⟨y, rest, rfl⟩ := List.exists_cons_of_length_pos (l := l) (by omega)
    exact ⟨x, y, rest, rfl⟩
  obtain ⟨a, ts, rfl⟩ := List.exists_cons_of_length_pos (l := toServer) (by omega)
  rw [List.length_cons] at hfull
  cases toClient with
  | nil =>
    have hacts : Enables (enabled caps) next
        (⟨.select, x :: y :: rest, false, stdout, ⟨a :: ts, false, .read, [], false⟩⟩ : StrCli)
        [.select true, .client 1, .server 1, .server 1, .client 1] := by
      have hclient := caps.toClient_pos
      refine ⟨⟨rfl, by simp, by simp⟩, ?_, ?_, ?_, ?_, trivial⟩
      · simp [enabled, clientEnabled, next, Conn.readable, MAXLINE]
      · simp [enabled, clientNext, next, Conn.readable, Conn.serverEnabled, MAXLINE]
      · simp [enabled, clientNext, next, Conn.readable, Conn.serverEnabled, Conn.serverNext]
        omega
      · simp [enabled, clientEnabled, clientNext, next, Conn.readable, Conn.canWrite, Conn.serverNext]
        omega
    have hrun : (system caps input).Reachable _ := hr.actions hacts
    refine ⟨y :: rest, stdout, ts ++ [x], [a], ?_, by simpa using hfull, rfl, by simp⟩
    simpa [next, clientNext, Conn.readable, Conn.serverNext, Conn.write] using hrun
  | cons b tc =>
    obtain ⟨a', ts', hts⟩ := List.exists_cons_of_length_pos (l := ts ++ [x]) (by simp)
    have hlength : ts'.length + 1 = caps.toServer := by
      rw [← hfull, ← List.length_cons (a := a'), ← hts, List.length_append, List.length_singleton]
    rw [List.length_cons] at hroom
    have hacts : Enables (enabled caps) next
        (⟨.select, x :: y :: rest, false, stdout, ⟨a :: ts, false, .read, b :: tc, false⟩⟩ : StrCli)
        [.select true, .client 1, .client 2, .server 1, .server 1, .client 1, .server 1, .server 1, .client 1] := by
      refine ⟨⟨rfl, by simp, by simp⟩, ?_, ?_, ?_, ?_, ?_, ?_, ?_, ?_, trivial⟩
      · simp [enabled, clientEnabled, next, Conn.readable, MAXLINE]
      · simp [enabled, clientEnabled, clientNext, next, Conn.readable, MAXLINE]
      · simp [enabled, clientNext, next, Conn.readable, Conn.serverEnabled, Conn.read, MAXLINE]
      · simp [enabled, clientNext, next, Conn.readable, Conn.serverEnabled, Conn.serverNext, Conn.read]
        omega
      · simp [enabled, clientEnabled, clientNext, next, Conn.readable, Conn.canWrite, Conn.serverNext, Conn.read]
        omega
      · simp [enabled, clientNext, next, Conn.readable, Conn.serverEnabled, Conn.serverNext, Conn.read, Conn.write, hts,
          MAXLINE]
      · simp [enabled, clientNext, next, Conn.readable, Conn.serverEnabled, Conn.serverNext, Conn.read, Conn.write, hts]
        omega
      · simp [enabled, clientEnabled, clientNext, next, Conn.readable, Conn.canWrite, Conn.serverNext, Conn.read,
          Conn.write, hts]
        omega
    have hrun : (system caps input).Reachable _ := hr.actions hacts
    refine ⟨rest, stdout ++ [b], ts' ++ [y], tc ++ [a, a'], ?_, by simpa using hlength, by simp, by simp⟩
    simpa [next, clientNext, Conn.readable, Conn.serverNext, Conn.read, Conn.write, hts] using hrun

theorem exists_deadlock_of_full {stdin stdout toServer toClient : List Byte}
    (hr : (system caps input).Reachable ⟨.select, stdin, false, stdout, ⟨toServer, false, .read, toClient, false⟩⟩)
    (hfull : toServer.length = caps.toServer) (hfull' : toClient.length = caps.toClient) (hstdin : 3 ≤ stdin.length) :
    ∃ s : StrCli, (system caps input).Reachable s ∧ s.Deadlock caps := by
  have hpos := caps.toServer_pos
  have hpos' := caps.toClient_pos
  obtain ⟨x, y, z, rest, rfl⟩ : ∃ x y z rest, stdin = x :: y :: z :: rest := by
    obtain ⟨x, l, rfl⟩ := List.exists_cons_of_length_pos (l := stdin) (by omega)
    rw [List.length_cons] at hstdin
    obtain ⟨y, m, rfl⟩ := List.exists_cons_of_length_pos (l := l) (by omega)
    rw [List.length_cons] at hstdin
    obtain ⟨z, rest, rfl⟩ := List.exists_cons_of_length_pos (l := m) (by omega)
    exact ⟨x, y, z, rest, rfl⟩
  obtain ⟨a, ts, rfl⟩ := List.exists_cons_of_length_pos (l := toServer) (by omega)
  obtain ⟨b, tc, rfl⟩ := List.exists_cons_of_length_pos (l := toClient) (by omega)
  obtain ⟨a', ts', hts⟩ := List.exists_cons_of_length_pos (l := ts ++ [x]) (by simp)
  rw [List.length_cons] at hfull hfull'
  have hlength : ts'.length + 1 = caps.toServer := by
    rw [← hfull, ← List.length_cons (a := a'), ← hts, List.length_append, List.length_singleton]
  have hacts : Enables (enabled caps) next
      (⟨.select, x :: y :: z :: rest, false, stdout, ⟨a :: ts, false, .read, b :: tc, false⟩⟩ : StrCli)
      [.select true, .client 1, .client 3, .server 1, .server 1, .client 1, .server 1, .client 1] := by
    refine ⟨⟨rfl, by simp, by simp⟩, ?_, ?_, ?_, ?_, ?_, ?_, ?_, trivial⟩
    · simp [enabled, clientEnabled, next, Conn.readable, MAXLINE]
    · simp [enabled, clientEnabled, clientNext, next, Conn.readable, MAXLINE]
    · simp [enabled, clientNext, next, Conn.readable, Conn.serverEnabled, Conn.read, MAXLINE]
    · simp [enabled, clientNext, next, Conn.readable, Conn.serverEnabled, Conn.serverNext, Conn.read]
      omega
    · simp [enabled, clientEnabled, clientNext, next, Conn.readable, Conn.canWrite, Conn.serverNext, Conn.read]
      omega
    · simp [enabled, clientNext, next, Conn.readable, Conn.serverEnabled, Conn.serverNext, Conn.read, Conn.write, hts,
        MAXLINE]
    · simp [enabled, clientEnabled, clientNext, next, Conn.readable, Conn.canWrite, Conn.serverNext, Conn.read,
        Conn.write, hts]
      omega
  have hrun : (system caps input).Reachable _ := hr.actions hacts
  have hlast : (system caps input).Reachable
      ⟨.writen [z], rest, false, stdout ++ [b], ⟨ts' ++ [y], false, .writen [a'], tc ++ [a], false⟩⟩ := by
    simpa [next, clientNext, Conn.readable, Conn.serverNext, Conn.read, Conn.write, hts] using hrun
  refine ⟨_, hlast, by simp, fun act => ?_⟩
  cases act with
  | select rstdin => simp [enabled]
  | client k =>
    simp only [enabled, clientEnabled, Conn.canWrite, List.length_append, List.length_singleton]
    omega
  | server k =>
    simp only [enabled, Conn.serverEnabled, List.length_append, List.length_singleton]
    omega

theorem exists_full {j : ℕ} (hj : j ≤ caps.toClient) (hlength : caps.toServer + 2 * j ≤ input.length) :
    ∃ stdin stdout toServer toClient, (system caps input).Reachable
        ⟨.select, stdin, false, stdout, ⟨toServer, false, .read, toClient, false⟩⟩ ∧
      toServer.length = caps.toServer ∧ toClient.length = j ∧ input.length ≤ stdin.length + caps.toServer + 2 * j := by
  induction j with
  | zero =>
    have hfill : caps.toServer ≤ input.length := by omega
    refine ⟨_, _, _, _, exists_filled (Nat.le_refl caps.toServer) hfill, ?_, rfl, ?_⟩
    · rw [List.length_take, Nat.min_eq_left hfill]
    · rw [List.length_drop]
      omega
  | succ j ih =>
    obtain ⟨stdin, stdout, toServer, toClient, hr, hfull, hlen, hrest⟩ := ih (by omega) (by omega)
    obtain ⟨stdin', stdout', toServer', toClient', hr', hfull', hlen', hrest'⟩ :=
      exists_raised hr hfull (by omega) (by omega)
    exact ⟨stdin', stdout', toServer', toClient', hr', hfull', by omega, by omega⟩

theorem exists_deadlock (hlength : caps.toServer + 2 * caps.toClient + 3 ≤ input.length) :
    ∃ s : StrCli, (system caps input).Reachable s ∧ s.Deadlock caps := by
  obtain ⟨stdin, stdout, toServer, toClient, hr, hfull, hfull', hrest⟩ :=
    exists_full (Nat.le_refl caps.toClient) (show caps.toServer + 2 * caps.toClient ≤ input.length by omega)
  exact exists_deadlock_of_full hr hfull hfull' (by omega)

/-- **The echo of a client that does not read while it writes.** The bytes that arrive on the standard output are the
input in its order, `err_quit` is never called, and every run ends: with all of the input written, or in a deadlock,
where both directions are full and both sides have something to write. An input that fits into the two directions and
one more byte always gets through; a longer one can end in a deadlock, however much the two directions hold. -/
theorem strCli_echo (caps : Caps) (input : List Byte) :
    (∀ s : StrCli, (system caps input).Reachable s →
      s.stdout ++ s.conn.inFlight ++ s.pc.left ++ s.stdin = input ∧ s.pc ≠ .quit ∧
      (s.pc = .done → s.stdout = input)) ∧
    ((system caps input).Ends fun s => s.pc = .done ∧ s.stdout = input ∨ s.Deadlock caps) ∧
    (∀ s : StrCli, (system caps input).Reachable s → s.Deadlock caps →
      s.conn.toServer.length = caps.toServer ∧ s.conn.toClient.length = caps.toClient ∧ s.pc.left ≠ [] ∧
        s.conn.server.left ≠ []) ∧
    (input.length ≤ caps.toServer + caps.toClient + 1 →
      ∀ s : StrCli, (system caps input).Reachable s → ¬ s.Deadlock caps) ∧
    (caps.toServer + 2 * caps.toClient + 3 ≤ input.length →
      ∃ s : StrCli, (system caps input).Reachable s ∧ s.Deadlock caps) := by
  refine ⟨fun s hr => ?_, system_ends caps input, fun s hr => deadlock_full (inv_reachable hr),
    fun hshort s hr hdead => ?_, exists_deadlock⟩
  · have h := inv_reachable hr
    exact ⟨h.conserved, h.quit, stdout_of_done h⟩
  · have hlong := deadlock_length (inv_reachable hr) hdead
    omega

end StrCli

end UnixNetProg.Select
