import Mathlib.Algebra.Order.Floor.Ring
import Mathlib.Data.Rat.Floor
import UnixNetProg.Unp

/-!
# The retransmission timer (`lib/rtt.c`, `lib/unprtt.h`)

The `float` members are read as exact rationals. A call of `Gettimeofday` is an argument: the caller
says what the clock shows.
-/

namespace UnixNetProg.Rtt

/-- Min and max retransmit timeout value, in seconds. -/
def RTT_RXTMIN : ℚ := 2
def RTT_RXTMAX : ℚ := 60

/-- Max number of times to retransmit. -/
def RTT_MAXNREXMT : ℕ := 3

/-- What `gettimeofday` stores. -/
structure TimeOfDay extends Timeval where
  usec_nonneg : 0 ≤ tvUsec
  usec_lt : tvUsec < 1000000
  deriving DecidableEq

/-- The clock in whole milliseconds. -/
def TimeOfDay.ms (tv : TimeOfDay) : ℤ := tv.tvSec * 1000 + tv.tvUsec / 1000

structure RttInfo where
  rttRtt : ℚ
  rttSrtt : ℚ
  rttRttvar : ℚ
  rttRto : ℚ
  rttNrexmt : ℕ
  rttBase : BitVec 32
  deriving DecidableEq

/-- `RTT_RTOCALC`: smoothed RTT plus four times the deviation. -/
def rttRtocalc (srtt rttvar : ℚ) : ℚ := srtt + 4 * rttvar

def rttMinmax (rto : ℚ) : ℚ :=
  if rto < RTT_RXTMIN then RTT_RXTMIN else if rto > RTT_RXTMAX then RTT_RXTMAX else rto

def rttInit (ptr : RttInfo) (now : TimeOfDay) : RttInfo :=
  { ptr with
    rttBase := BitVec.ofInt 32 now.tvSec
    rttRtt := 0
    rttSrtt := 0
    rttRttvar := 3 / 4
    rttRto := rttMinmax (rttRtocalc 0 (3 / 4)) }

/-- The current timestamp: milliseconds since `rtt_init` was called, as a 32-bit integer. -/
def rttTs (ptr : RttInfo) (now : TimeOfDay) : BitVec 32 :=
  BitVec.ofInt 32 ((now.tvSec - ptr.rttBase.toNat) * 1000 + now.tvUsec / 1000)

def rttNewpack (ptr : RttInfo) : RttInfo := { ptr with rttNrexmt := 0 }

/-- Conversion of a `float` to `int`: towards zero. -/
def toInt (q : ℚ) : ℤ := if q < 0 then ⌈q⌉ else ⌊q⌋

/-- The value for `alarm`. -/
def rttStart (ptr : RttInfo) : ℤ := toInt (ptr.rttRto + 1 / 2)

/-- A response was received: update the estimators of the RTT and of its mean deviation. -/
def rttStop (ptr : RttInfo) (ms : BitVec 32) : RttInfo :=
  let rtt : ℚ := ms.toNat / 1000
  let delta := rtt - ptr.rttSrtt
  let srtt := ptr.rttSrtt + delta / 8
  let delta' := if delta < 0 then -delta else delta
  let rttvar := ptr.rttRttvar + (delta' - ptr.rttRttvar) / 4
  { ptr with
    rttRtt := rtt
    rttSrtt := srtt
    rttRttvar := rttvar
    rttRto := rttMinmax (rttRtocalc srtt rttvar) }

/-- A timeout has occurred; the second component is the return value -1, to give up. -/
def rttTimeout (ptr : RttInfo) : RttInfo × Bool :=
  ({ ptr with rttRto := ptr.rttRto * 2, rttNrexmt := ptr.rttNrexmt + 1 },
    decide (RTT_MAXNREXMT < ptr.rttNrexmt + 1))

theorem rttTs_sub_rttTs (ptr : RttInfo) (now past : TimeOfDay) :
    rttTs ptr now - rttTs ptr past = BitVec.ofInt 32 (now.ms - past.ms) := by
  rw [rttTs, rttTs, BitVec.sub_eq_add_neg, ← BitVec.ofInt_neg, ← BitVec.ofInt_add]
  congr 1
  unfold TimeOfDay.ms
  ring

end UnixNetProg.Rtt
