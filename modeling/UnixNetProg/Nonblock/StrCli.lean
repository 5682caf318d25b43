import Mathlib.Data.Finset.Basic
import UnixNetProg.Lib.Memory
import UnixNetProg.Lib.Transition
import UnixNetProg.Unp

/-!
# The nonblocking `str_cli` (`nonblock/strclinonb.c`)

One buffer in each direction: `to[tooptr .. toiptr)` holds what was read from standard input and not
yet written to the socket, `fr[froptr .. friptr)` what was read from the socket and not yet written
to standard output. The arrays are `toBuf` and `frBuf`, the pointers offsets into them.

A turn of the loop is five steps: `select`, then one for each descriptor test (`nonb2`, `nonb3`). A
step that makes a system call is a function of the state and of the result of the call (`stdinRead`,
`sockRead`, `stdoutWrite`, `sockWrite`), and `Step` lets the kernel answer in any valid way. The
history of the calls is kept in `calls`; the code never looks at it. A wrapper that fails
(`Select`, `Shutdown`) ends the process, so a run that stops there is a run of this system cut short.
-/

namespace UnixNetProg.Nonblock

open Lib

/-- The connected socket. Standard input and output are open, so `socket` returned neither of them. -/
structure SockFd where
  fd : ℕ
  ne_stdin : fd ≠ STDIN_FILENO
  ne_stdout : fd ≠ STDOUT_FILENO

/-- Where the loop stands: at its top, or before one of the four `FD_ISSET` tests. -/
inductive Pc where
  | top
  | stdinRead
  | sockRead
  | stdoutWrite
  | sockWrite
  | returned
  | errQuit (msg : String)
  | errSys (msg : String)
  deriving DecidableEq, Repr

structure State where
  pc : Pc
  toBuf : Memory Byte
  toiptr : ℕ
  tooptr : ℕ
  frBuf : Memory Byte
  friptr : ℕ
  froptr : ℕ
  stdineof : Bool
  rset : Finset ℕ
  wset : Finset ℕ
  calls : List Call

/-- The state at the top of the first turn; the two arrays are not initialized. -/
def start (toBuf frBuf : Memory Byte) : State where
  pc := .top
  toBuf := toBuf
  toiptr := 0
  tooptr := 0
  frBuf := frBuf
  friptr := 0
  froptr := 0
  stdineof := false
  rset := ∅
  wset := ∅
  calls := []

variable (sockfd : SockFd)

/-- The read set that the top of the loop builds. -/
def selectRset (s : State) : Finset ℕ :=
  (if s.stdineof = false ∧ s.toiptr < MAXLINE then {STDIN_FILENO} else ∅) ∪
    (if s.friptr < MAXLINE then {sockfd.fd} else ∅)

/-- The write set that the top of the loop builds. -/
def selectWset (s : State) : Finset ℕ :=
  (if s.tooptr ≠ s.toiptr then {sockfd.fd} else ∅) ∪
    (if s.froptr ≠ s.friptr then {STDOUT_FILENO} else ∅)

/-- Lines 43 to 61, after `read(STDIN_FILENO, toiptr, &to[MAXLINE] - toiptr)` returned `res`. -/
def stdinRead (s : State) (res : ReadRes) : State :=
  let s := { s with pc := .sockRead, calls := s.calls ++ [.read STDIN_FILENO (MAXLINE - s.toiptr) res] }
  match res with
  | .wouldBlock => s
  | .error => { s with pc := .errSys "read error on stdin" }
  | .eof =>
    let s := { s with stdineof := true }
    if s.tooptr = s.toiptr then { s with calls := s.calls ++ [.shutdown sockfd.fd] } else s
  | .data bytes =>
    { s with
      toBuf := s.toBuf.store s.toiptr bytes
      toiptr := s.toiptr + bytes.length
      wset := insert sockfd.fd s.wset }

/-- Lines 65 to 85, after `read(sockfd, friptr, &fr[MAXLINE] - friptr)` returned `res`. -/
def sockRead (s : State) (res : ReadRes) : State :=
  let s := { s with pc := .stdoutWrite, calls := s.calls ++ [.read sockfd.fd (MAXLINE - s.friptr) res] }
  match res with
  | .wouldBlock => s
  | .error => { s with pc := .errSys "read error on socket" }
  | .eof =>
    if s.stdineof then { s with pc := .returned }
    else { s with pc := .errQuit "str_cli: server terminated prematurely" }
  | .data bytes =>
    { s with
      frBuf := s.frBuf.store s.friptr bytes
      friptr := s.friptr + bytes.length
      wset := insert STDOUT_FILENO s.wset }

/-- Lines 90 to 102, after `write(STDOUT_FILENO, froptr, friptr - froptr)` returned `res`. -/
def stdoutWrite (s : State) (res : WriteRes) : State :=
  let s := { s with
    pc := .sockWrite
    calls := s.calls ++ [.write STDOUT_FILENO (s.frBuf.slice s.froptr s.friptr) res] }
  match res with
  | .wouldBlock => s
  | .error => { s with pc := .errSys "write error to stdout" }
  | .accepted nwritten =>
    let s := { s with froptr := s.froptr + nwritten }
    if s.froptr = s.friptr then { s with froptr := 0, friptr := 0 } else s

/-- Lines 106 to 121, after `write(sockfd, tooptr, toiptr - tooptr)` returned `res`. -/
def sockWrite (s : State) (res : WriteRes) : State :=
  let s := { s with
    pc := .top
    calls := s.calls ++ [.write sockfd.fd (s.toBuf.slice s.tooptr s.toiptr) res] }
  match res with
  | .wouldBlock => s
  | .error => { s with pc := .errSys "write error to socket" }
  | .accepted nwritten =>
    let s := { s with tooptr := s.tooptr + nwritten }
    if s.tooptr = s.toiptr then
      let s := { s with toiptr := 0, tooptr := 0 }
      if s.stdineof then { s with calls := s.calls ++ [.shutdown sockfd.fd] } else s
    else s

/-- One step of the loop. `select` may report any part of the sets it was given. -/
inductive Step : State → State → Prop where
  | select {s : State} (rset wset : Finset ℕ) (hpc : s.pc = .top) (hr : rset ⊆ selectRset sockfd s)
      (hw : wset ⊆ selectWset sockfd s) :
      Step s { s with pc := .stdinRead, rset := rset, wset := wset }
  | stdinReady {s : State} (res : ReadRes) (hpc : s.pc = .stdinRead) (hset : STDIN_FILENO ∈ s.rset)
      (hres : res.Valid (MAXLINE - s.toiptr)) : Step s (stdinRead sockfd s res)
  | stdinIdle {s : State} (hpc : s.pc = .stdinRead) (hset : STDIN_FILENO ∉ s.rset) :
      Step s { s with pc := .sockRead }
  | sockReady {s : State} (res : ReadRes) (hpc : s.pc = .sockRead) (hset : sockfd.fd ∈ s.rset)
      (hres : res.Valid (MAXLINE - s.friptr)) : Step s (sockRead sockfd s res)
  | sockIdle {s : State} (hpc : s.pc = .sockRead) (hset : sockfd.fd ∉ s.rset) :
      Step s { s with pc := .stdoutWrite }
  | stdoutReady {s : State} (res : WriteRes) (hpc : s.pc = .stdoutWrite)
      (hset : STDOUT_FILENO ∈ s.wset) (hn : 0 < s.friptr - s.froptr)
      (hres : res.Valid (s.friptr - s.froptr)) : Step s (stdoutWrite s res)
  | stdoutIdle {s : State} (hpc : s.pc = .stdoutWrite)
      (hset : ¬ (STDOUT_FILENO ∈ s.wset ∧ 0 < s.friptr - s.froptr)) :
      Step s { s with pc := .sockWrite }
  | sockWriteReady {s : State} (res : WriteRes) (hpc : s.pc = .sockWrite)
      (hset : sockfd.fd ∈ s.wset) (hn : 0 < s.toiptr - s.tooptr)
      (hres : res.Valid (s.toiptr - s.tooptr)) : Step s (sockWrite sockfd s res)
  | sockWriteIdle {s : State} (hpc : s.pc = .sockWrite)
      (hset : ¬ (sockfd.fd ∈ s.wset ∧ 0 < s.toiptr - s.tooptr)) : Step s { s with pc := .top }

def strCli : TransitionSystem State where
  init s := ∃ toBuf frBuf, s = start toBuf frBuf
  step := Step sockfd

end UnixNetProg.Nonblock
