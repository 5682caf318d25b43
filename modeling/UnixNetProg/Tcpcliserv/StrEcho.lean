import Mathlib.Data.List.Basic
import UnixNetProg.Unp

/-!
# The echo server on one connection (`lib/str_echo.c`)

The bytes of a connection are in two queues, of which each stands for a send buffer, the network and a receive buffer
and holds a limited number of bytes. `str_echo` reads what is there, at most `MAXLINE` bytes, and writes it back. A
`write` takes what there is room for, and waits while there is none; a `read` takes any part of what is there. The
clients are in modules of their own; what they have in common, `Writen` and `Readline`, is here.
-/

namespace UnixNetProg.Tcpcliserv

/-- The bytes that the two directions hold. -/
structure Caps where
  toServer : ℕ
  toClient : ℕ
  toServer_pos : 0 < toServer
  toClient_pos : 0 < toClient

/-- `left` are the bytes that `Writen` has still to write; at the end the child exits, which closes the connection. -/
inductive EchoPc where
  | read
  | writen (left : List Byte)
  | done
  deriving DecidableEq

/-- A connection with its server. -/
structure Conn where
  toServer : List Byte
  finToServer : Bool
  server : EchoPc
  toClient : List Byte
  finToClient : Bool
  deriving DecidableEq

def EchoPc.left : EchoPc → List Byte
  | .writen left => left
  | .read | .done => []

def EchoPc.rank : EchoPc → ℕ
  | .read => 1
  | .writen _ | .done => 0

namespace Conn

def start : Conn := ⟨[], false, .read, [], false⟩

/-- The server can take its next step with a count of `k`, which is 0 for the end of the input. -/
def serverEnabled (caps : Caps) (c : Conn) (k : ℕ) : Prop :=
  match c.server with
  | .read => if c.toServer = [] then c.finToServer = true ∧ k = 0 else 0 < k ∧ k ≤ MAXLINE ∧ k ≤ c.toServer.length
  | .writen left => 0 < k ∧ k ≤ left.length ∧ c.toClient.length + k ≤ caps.toClient
  | .done => False

def serverNext (c : Conn) (k : ℕ) : Conn :=
  match c.server with
  | .read =>
    if c.toServer = [] then { c with server := .done, finToClient := true }
    else { c with server := .writen (c.toServer.take k), toServer := c.toServer.drop k }
  | .writen left =>
    { c with server := if left.drop k = [] then .read else .writen (left.drop k),
             toClient := c.toClient ++ left.take k }
  | .done => c

/-- The `write` of the client with what there is room for, its `read`, and its `shutdown`. -/
def write (c : Conn) (bytes : List Byte) : Conn := { c with toServer := c.toServer ++ bytes }

def read (c : Conn) (k : ℕ) : Conn := { c with toClient := c.toClient.drop k }

def shutdown (c : Conn) : Conn := { c with finToServer := true }

/-- The socket of the client is readable. -/
def readable (c : Conn) : Prop := c.toClient ≠ [] ∨ c.finToClient = true

instance (c : Conn) : Decidable c.readable := inferInstanceAs (Decidable (_ ∨ _))

/-- All that has been sent and not been received, in its order. -/
def inFlight (c : Conn) : List Byte := c.toClient ++ c.server.left ++ c.toServer

structure Inv (caps : Caps) (c : Conn) : Prop where
  toServer : c.toServer.length ≤ caps.toServer
  toClient : c.toClient.length ≤ caps.toClient
  left : ∀ left, c.server = .writen left → left ≠ []
  fin : c.finToClient = true ↔ c.server = .done
  done : c.server = .done → c.toServer = [] ∧ c.finToServer = true

variable {caps : Caps} {c : Conn} {k : ℕ}

theorem inv_start (caps : Caps) : start.Inv caps := by
  constructor <;> simp [start]

theorem inv_serverNext (h : c.Inv caps) (ha : c.serverEnabled caps k) : (c.serverNext k).Inv caps := by
  obtain ⟨hserver, hclient, hleft, hfin, hdone⟩ := h
  obtain ⟨toServer, finToServer, server, toClient, finToClient⟩ := c
  cases server with
  | read =>
    by_cases hnil : toServer = []
    · obtain ⟨hfins, -⟩ : finToServer = true ∧ k = 0 := by simpa [serverEnabled, hnil] using ha
      constructor <;> simp_all [serverNext]
    · obtain ⟨hpos, -, hk⟩ : 0 < k ∧ k ≤ MAXLINE ∧ k ≤ toServer.length := by simpa [serverEnabled, hnil] using ha
      have hlength : (toServer.drop k).length ≤ caps.toServer := by
        rw [List.length_drop]
        exact Nat.le_trans (Nat.sub_le _ _) hserver
      have htake : toServer.take k ≠ [] := by simp [hnil, Nat.ne_of_gt hpos]
      simp only [serverNext, if_neg hnil]
      exact ⟨hlength, hclient, fun l hl => EchoPc.writen.inj hl ▸ htake, by simpa using hfin, by simp⟩
  | writen left =>
    obtain ⟨hpos, hk, hroom⟩ : 0 < k ∧ k ≤ left.length ∧ toClient.length + k ≤ caps.toClient := ha
    have hlength : (toClient ++ left.take k).length ≤ caps.toClient := by
      rw [List.length_append, List.length_take, Nat.min_eq_left hk]
      exact hroom
    by_cases hlast : left.drop k = []
    · simp only [serverNext, if_pos hlast]
      exact ⟨hserver, hlength, by simp, by simpa using hfin, by simp⟩
    · simp only [serverNext, if_neg hlast]
      exact ⟨hserver, hlength, fun l hl => EchoPc.writen.inj hl ▸ hlast, by simpa using hfin, by simp⟩
  | done => exact absurd ha id

theorem inFlight_serverNext : (c.serverNext k).inFlight = c.inFlight := by
  obtain ⟨toServer, finToServer, server, toClient, finToClient⟩ := c
  cases server with
  | read =>
    by_cases hnil : toServer = []
    · simp [serverNext, inFlight, EchoPc.left, hnil]
    · simp [serverNext, inFlight, EchoPc.left, hnil]
  | writen left =>
    by_cases hlast : left.drop k = []
    · have hall : left.take k = left := List.take_of_length_le (List.drop_eq_nil_iff.mp hlast)
      simp [serverNext, inFlight, EchoPc.left, hlast, hall]
    · simp [serverNext, inFlight, EchoPc.left, hlast]
  | done => rfl

theorem readable_serverNext (h : c.readable) : (c.serverNext k).readable := by
  obtain ⟨toServer, finToServer, server, toClient, finToClient⟩ := c
  cases server with
  | read =>
    by_cases hnil : toServer = []
    · exact .inr (by simp [serverNext, hnil])
    · exact h.imp (by simp [serverNext, hnil]) (by simp [serverNext, hnil])
  | writen left => exact h.imp (fun hne => by simp_all [serverNext]) id
  | done => exact h

theorem not_serverEnabled (h : c.Inv caps) (hfin : c.finToClient = true) : ¬ c.serverEnabled caps k := by
  rw [serverEnabled, h.fin.mp hfin]
  exact id

theorem finToServer_serverNext : (c.serverNext k).finToServer = c.finToServer := by
  obtain ⟨toServer, finToServer, server, toClient, finToClient⟩ := c
  cases server with
  | read => by_cases hnil : toServer = [] <;> simp [serverNext, hnil]
  | writen left | done => rfl

/-- What the server has still to do with the bytes that it is sent. -/
def work (c : Conn) : ℕ :=
  12 * c.toServer.length + 8 * c.server.left.length + 4 * c.toClient.length + c.server.rank

theorem work_serverNext (ha : c.serverEnabled caps k) : (c.serverNext k).work < c.work := by
  obtain ⟨toServer, finToServer, server, toClient, finToClient⟩ := c
  cases server with
  | read =>
    by_cases hnil : toServer = []
    · simp [serverNext, work, EchoPc.left, EchoPc.rank, hnil]
    · obtain ⟨hpos, -, hk⟩ : 0 < k ∧ k ≤ MAXLINE ∧ k ≤ toServer.length := by simpa [serverEnabled, hnil] using ha
      simp only [serverNext, if_neg hnil, work, EchoPc.left, List.length_take, List.length_drop, List.length_nil,
        EchoPc.rank]
      omega
  | writen left =>
    obtain ⟨hpos, hk, hroom⟩ : 0 < k ∧ k ≤ left.length ∧ toClient.length + k ≤ caps.toClient := ha
    by_cases hlast : left.drop k = []
    · simp only [serverNext, if_pos hlast, work, EchoPc.left, List.length_append, List.length_take, List.length_nil,
        EchoPc.rank]
      omega
    · simp only [serverNext, if_neg hlast, work, EchoPc.left, List.length_append, List.length_take, List.length_drop,
        EchoPc.rank]
      omega
  | done => exact absurd ha id

theorem server_waits (h : c.Inv caps) (hwait : ∀ k, ¬ c.serverEnabled caps k) :
    c.server = .done ∨ c.server = .read ∧ c.toServer = [] ∧ c.finToServer = false ∨
      c.server.left ≠ [] ∧ c.toClient.length = caps.toClient := by
  obtain ⟨-, hclient, hleft, -, -⟩ := h
  obtain ⟨toServer, finToServer, server, toClient, finToClient⟩ := c
  cases server with
  | read =>
    cases toServer with
    | nil =>
      refine .inr (.inl ⟨rfl, rfl, ?_⟩)
      by_contra hfin
      refine hwait 0 ?_
      simpa [serverEnabled] using hfin
    | cons b rest =>
      refine absurd ?_ (hwait 1)
      simp [serverEnabled, MAXLINE]
  | writen left =>
    have hne := hleft left rfl
    refine .inr (.inr ⟨hne, ?_⟩)
    by_contra hroom
    refine hwait 1 ⟨Nat.one_pos, List.length_pos_iff.mpr hne, ?_⟩
    have hle : toClient.length ≤ caps.toClient := hclient
    have hlt : toClient.length < caps.toClient := Nat.lt_of_le_of_ne hle hroom
    exact hlt
  | done => exact .inl rfl

/-! ### The client's side -/

theorem inv_write (h : c.Inv caps) {bytes : List Byte} (hfin : c.finToServer = false)
    (hroom : c.toServer.length + bytes.length ≤ caps.toServer) : (c.write bytes).Inv caps := by
  refine ⟨?_, h.toClient, h.left, h.fin, fun hdone => ?_⟩
  · rw [write, List.length_append]
    exact hroom
  · exact absurd ((h.done hdone).2.symm.trans hfin) (by decide)

theorem inv_read (h : c.Inv caps) (k : ℕ) : (c.read k).Inv caps := by
  refine ⟨h.toServer, ?_, h.left, h.fin, h.done⟩
  rw [read, List.length_drop]
  exact Nat.le_trans (Nat.sub_le _ _) h.toClient

theorem inv_shutdown (h : c.Inv caps) : c.shutdown.Inv caps :=
  ⟨h.toServer, h.toClient, h.left, h.fin, fun hdone => ⟨(h.done hdone).1, rfl⟩⟩

theorem work_write (bytes : List Byte) : (c.write bytes).work = c.work + 12 * bytes.length := by
  simp only [write, work, List.length_append]
  omega

theorem work_read (hk : k ≤ c.toClient.length) : (c.read k).work + 4 * k = c.work := by
  simp only [read, work, List.length_drop]
  omega

theorem inFlight_write (bytes : List Byte) : (c.write bytes).inFlight = c.inFlight ++ bytes := by
  simp [write, inFlight]

theorem inFlight_read : c.toClient.take k ++ (c.read k).inFlight = c.inFlight := by
  simp [read, inFlight, ← List.append_assoc]

/-! ### `Writen` -/

/-- `Writen` can write `k` of the bytes that it has left. -/
def canWrite (caps : Caps) (c : Conn) (left : List Byte) (k : ℕ) : Prop :=
  0 < k ∧ k ≤ left.length ∧ c.toServer.length + k ≤ caps.toServer

variable {left : List Byte}

theorem inv_writen (h : c.Inv caps) (hfin : c.finToServer = false) (ha : c.canWrite caps left k) :
    (c.write (left.take k)).Inv caps := by
  obtain ⟨-, hk, hroom⟩ := ha
  refine inv_write h hfin ?_
  rw [List.length_take, Nat.min_eq_left hk]
  exact hroom

theorem inFlight_writen (c : Conn) (left : List Byte) (k : ℕ) :
    (c.write (left.take k)).inFlight ++ left.drop k = c.inFlight ++ left := by
  rw [inFlight_write, List.append_assoc, List.take_append_drop]

theorem work_writen (ha : c.canWrite caps left k) :
    (c.write (left.take k)).work + 16 * (left.drop k).length + 4 * k = c.work + 16 * left.length := by
  obtain ⟨-, hk, -⟩ := ha
  rw [work_write, List.length_take, Nat.min_eq_left hk, List.length_drop]
  omega

theorem full_of_waits (h : c.Inv caps) (hne : left ≠ []) (hwait : ∀ k, ¬ c.canWrite caps left k) :
    c.toServer.length = caps.toServer := by
  by_contra hroom
  exact hwait 1 ⟨Nat.one_pos, List.length_pos_iff.mpr hne, Nat.lt_of_le_of_ne h.toServer hroom⟩

end Conn

/-! ### `Readline` -/

/-- `readBuf` is what `my_read` has still in hand, `recvline` what `readline` has stored. -/
structure Reader where
  readBuf : List Byte
  recvline : List Byte
  conn : Conn

/-- `readline` goes on, returns with a line, or returns 0. -/
inductive ReadlineRes where
  | more
  | line
  | eof

namespace Reader

/-- The next step can be taken with a count of `k`, which is 0 but for the `read` of `my_read`. -/
def enabled (r : Reader) (k : ℕ) : Prop :=
  if r.readBuf ≠ [] then k = 0
  else if r.conn.toClient = [] then r.conn.finToClient = true ∧ k = 0
  else 0 < k ∧ k ≤ MAXLINE ∧ k ≤ r.conn.toClient.length

/-- `my_read` hands over a byte, or reads from the connection. -/
def next (r : Reader) (k : ℕ) : Reader :=
  match r.readBuf with
  | c :: rest => { r with readBuf := rest, recvline := r.recvline ++ [c] }
  | [] => if r.conn.toClient = [] then r else { r with readBuf := r.conn.toClient.take k, conn := r.conn.read k }

def res (r : Reader) : ReadlineRes :=
  match r.readBuf with
  | c :: _ => if c = 10 ∨ r.recvline.length + 1 = MAXLINE - 1 then .line else .more
  | [] => if r.conn.toClient = [] then if r.recvline = [] then .eof else .line else .more

/-- All that has been sent and not been taken from `recvline`, in its order. -/
def way (r : Reader) : List Byte := r.recvline ++ r.readBuf ++ r.conn.inFlight

variable {r : Reader} {caps : Caps} {k : ℕ}

/-- A step takes a byte from the buffer, fills the buffer, or finds the end of the connection. -/
theorem next_cases (ha : r.enabled k) :
    (∃ c rest, r.readBuf = c :: rest ∧ r.next k = ⟨rest, r.recvline ++ [c], r.conn⟩ ∧
      r.res = if c = 10 ∨ r.recvline.length + 1 = MAXLINE - 1 then .line else .more) ∨
    (r.readBuf = [] ∧ 0 < k ∧ k ≤ r.conn.toClient.length ∧
      r.next k = ⟨r.conn.toClient.take k, r.recvline, r.conn.read k⟩ ∧ r.res = .more) ∨
    r.readBuf = [] ∧ r.conn.toClient = [] ∧ r.conn.finToClient = true ∧ r.next k = r ∧
      r.res = if r.recvline = [] then .eof else .line := by
  obtain ⟨readBuf, recvline, conn⟩ := r
  cases readBuf with
  | cons c rest => exact .inl ⟨c, rest, rfl, rfl, rfl⟩
  | nil =>
    by_cases hnil : conn.toClient = []
    · obtain ⟨hfin, -⟩ : conn.finToClient = true ∧ k = 0 := by simpa [enabled, hnil] using ha
      exact .inr (.inr ⟨rfl, hnil, hfin, if_pos hnil, if_pos hnil⟩)
    · obtain ⟨hpos, -, hk⟩ : 0 < k ∧ k ≤ MAXLINE ∧ k ≤ conn.toClient.length := by simpa [enabled, hnil] using ha
      exact .inr (.inl ⟨rfl, hpos, hk, if_neg hnil, if_neg hnil⟩)

theorem way_next (ha : r.enabled k) : (r.next k).way = r.way := by
  rcases next_cases ha with ⟨c, rest, hbuf, hnext, -⟩ | ⟨hbuf, -, -, hnext, -⟩ | ⟨-, -, -, hnext, -⟩
  · simp [way, hnext, hbuf]
  · simp [way, hnext, hbuf, Conn.inFlight_read]
  · rw [hnext]

theorem inv_next (h : r.conn.Inv caps) (ha : r.enabled k) : (r.next k).conn.Inv caps := by
  rcases next_cases ha with ⟨c, rest, -, hnext, -⟩ | ⟨-, -, -, hnext, -⟩ | ⟨-, -, -, hnext, -⟩ <;> rw [hnext]
  · exact h
  · exact Conn.inv_read h k
  · exact h

theorem finToServer_next (ha : r.enabled k) : (r.next k).conn.finToServer = r.conn.finToServer := by
  rcases next_cases ha with ⟨c, rest, -, hnext, -⟩ | ⟨-, -, -, hnext, -⟩ | ⟨-, -, -, hnext, -⟩ <;> rw [hnext]
  rfl

theorem waits (hwait : ∀ k, ¬ r.enabled k) :
    r.readBuf = [] ∧ r.conn.toClient = [] ∧ r.conn.finToClient = false := by
  obtain ⟨readBuf, recvline, conn⟩ := r
  cases readBuf with
  | cons c rest => exact absurd (by simp [enabled]) (hwait 0)
  | nil =>
    cases htoClient : conn.toClient with
    | cons b rest => exact absurd (by simp [enabled, htoClient, MAXLINE]) (hwait 1)
    | nil =>
      refine ⟨rfl, rfl, ?_⟩
      by_contra hfin
      exact hwait 0 (by simpa [enabled, htoClient] using hfin)

end Reader

end UnixNetProg.Tcpcliserv
