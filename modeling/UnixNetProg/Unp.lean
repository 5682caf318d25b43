import Mathlib.Data.Int.Notation
import Mathlib.Data.List.Basic
import Mathlib.Tactic.Common

/-!
# `unp.h` and the kernel interface

The constants of `unp.h` and of the system headers that it includes, and the system calls on descriptors
as the programs see them: a call, the result the kernel gave, and the bytes that a history of calls moved
in and out of one descriptor.
-/

namespace UnixNetProg

abbrev Byte := UInt8

/-- Maximum text line length. -/
def MAXLINE : ℕ := 4096

def AF_UNSPEC : ℤ := 0
def AF_LOCAL : ℤ := 1
def AF_INET : ℤ := 2
def AF_INET6 : ℤ := 10

def IPPROTO_UDP : Byte := 17

/-- `sizeof(struct ip)`. -/
def sizeofIp : ℕ := 20

/-- Loose and strict source route, of the IPv4 options. -/
def IPOPT_LSRR : Byte := 131
def IPOPT_SSRR : Byte := 137

/-- The flags of an interface, in the width of the variable that holds them. -/
def IFF_UP {n : ℕ} : BitVec n := 1
def IFF_BROADCAST {n : ℕ} : BitVec n := 2
def IFF_POINTOPOINT {n : ℕ} : BitVec n := 16

def IFI_HADDR : ℕ := 8

structure Timeval where
  tvSec : ℤ
  tvUsec : ℤ
  deriving DecidableEq, Repr

def STDIN_FILENO : ℕ := 0
def STDOUT_FILENO : ℕ := 1

/-- The results of `read`: `n > 0`, `n == 0`, and `n < 0` with or without `errno == EWOULDBLOCK`. -/
inductive ReadRes where
  | data (bytes : List Byte)
  | eof
  | wouldBlock
  | error
  deriving DecidableEq, Repr

/-- A `read` that was asked for `len` bytes stores between 1 and `len` of them. -/
def ReadRes.Valid (len : ℕ) : ReadRes → Prop
  | .data bytes => 0 < bytes.length ∧ bytes.length ≤ len
  | _ => True

instance (len : ℕ) : (res : ReadRes) → Decidable (res.Valid len)
  | .data bytes => inferInstanceAs (Decidable (0 < bytes.length ∧ bytes.length ≤ len))
  | .eof | .wouldBlock | .error => .isTrue trivial

/-- The results of `write`: `nwritten >= 0`, and `nwritten < 0` with or without
`errno == EWOULDBLOCK`. -/
inductive WriteRes where
  | accepted (nwritten : ℕ)
  | wouldBlock
  | error
  deriving DecidableEq, Repr

/-- A `write` that was offered `len` bytes accepts at most `len` of them. -/
def WriteRes.Valid (len : ℕ) : WriteRes → Prop
  | .accepted nwritten => nwritten ≤ len
  | _ => True

instance (len : ℕ) : (res : WriteRes) → Decidable (res.Valid len)
  | .accepted nwritten => inferInstanceAs (Decidable (nwritten ≤ len))
  | .wouldBlock | .error => .isTrue trivial

/-- A system call with its result; `write` carries the bytes it was offered. -/
inductive Call where
  | read (fd len : ℕ) (res : ReadRes)
  | write (fd : ℕ) (buf : List Byte) (res : WriteRes)
  | shutdown (fd : ℕ)
  deriving DecidableEq, Repr

/-- The bytes one call took from `fd`. -/
def Call.bytesFrom (fd : ℕ) : Call → List Byte
  | .read fd' _ (.data bytes) => if fd' = fd then bytes else []
  | _ => []

/-- The bytes one call handed over to `fd`. -/
def Call.bytesTo (fd : ℕ) : Call → List Byte
  | .write fd' buf (.accepted nwritten) => if fd' = fd then buf.take nwritten else []
  | _ => []

def readFrom (fd : ℕ) (calls : List Call) : List Byte := calls.flatMap (Call.bytesFrom fd)

def writtenTo (fd : ℕ) (calls : List Call) : List Byte := calls.flatMap (Call.bytesTo fd)

@[simp] theorem readFrom_nil (fd : ℕ) : readFrom fd [] = [] := rfl

@[simp] theorem writtenTo_nil (fd : ℕ) : writtenTo fd [] = [] := rfl

@[simp] theorem readFrom_append (fd : ℕ) (l l' : List Call) :
    readFrom fd (l ++ l') = readFrom fd l ++ readFrom fd l' := by
  simp [readFrom]

@[simp] theorem writtenTo_append (fd : ℕ) (l l' : List Call) :
    writtenTo fd (l ++ l') = writtenTo fd l ++ writtenTo fd l' := by
  simp [writtenTo]

@[simp] theorem readFrom_singleton (fd : ℕ) (c : Call) : readFrom fd [c] = c.bytesFrom fd := by
  simp [readFrom]

@[simp] theorem writtenTo_singleton (fd : ℕ) (c : Call) : writtenTo fd [c] = c.bytesTo fd := by
  simp [writtenTo]

end UnixNetProg
