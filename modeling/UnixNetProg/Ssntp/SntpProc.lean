import UnixNetProg.Lib.Double
import UnixNetProg.Lib.Endian
import UnixNetProg.Libc

/-!
# The clock difference (`ssntp/sntp_proc.c`)

The seconds of a timestamp are counted from 1900 modulo `2 ^ 32`, its fraction is converted with a `double`, and the
difference ends in a `uint32_t` that is printed as an `int`. Lengths are those of LP64.
-/

namespace UnixNetProg.Ssntp

open Lib

def JAN_1970 : ℕ := 2208988800
def VERSION_MASK : ℕ := 0x38
def MODE_MASK : ℕ := 0x07
def MODE_CLIENT : ℕ := 3
def MODE_SERVER : ℕ := 4
def MODE_BROADCAST : ℕ := 5

/-- `sizeof(struct ntpdata)`; `xmt` is at offset 40. -/
def sizeofNtpdata : ℤ := 48

/-- What is printed; `usec` is the value for `%d`. -/
inductive SntpOutput where
  | tooSmall (n : ℤ)
  | client (version mode stratum : ℕ)
  | difference (version mode stratum : ℕ) (usec : ℤ)
  deriving DecidableEq, Repr

/-- `useci = usecf * 1000000.0` for a fraction. -/
def fractionUsec (fraction : ℕ) : ℕ :=
  let usecf := double fraction
  let usecf := double (usecf / 4294967296)
  ⌊double (usecf * 1000000)⌋.toNat % 2 ^ 32

def sntpProc (buf : Memory Byte) (n : ℤ) (now : Timeval) : SntpOutput :=
  if n < sizeofNtpdata then .tooSmall n
  else
    let status := (buf 0).toNat
    let version := (status &&& VERSION_MASK) >>> 3
    let mode := status &&& MODE_MASK
    let stratum := (buf 1).toNat
    if mode = MODE_CLIENT then .client version mode stratum
    else
      let nsec : ℕ := toSize ((buf.load32 .big 40 : ℤ) - JAN_1970) % 2 ^ 32
      let useci := fractionUsec (buf.load32 .big 44)
      let diff : Timeval := ⟨now.tvSec - nsec, now.tvUsec - useci⟩
      let diff : Timeval := if diff.tvUsec < 0 then ⟨diff.tvSec - 1, diff.tvUsec + 1000000⟩ else diff
      .difference version mode stratum (toInt32 (toSize (diff.tvSec * 1000000 + diff.tvUsec)))

/-! ### The two clocks -/

/-- The transmit timestamp in microseconds since 1970. -/
def transmitUsec (buf : Memory Byte) : ℤ :=
  ((buf.load32 .big 40 : ℤ) - JAN_1970) % 2 ^ 32 * 1000000 + (buf.load32 .big 44 : ℤ) * 1000000 / 2 ^ 32

def toUsec (t : Timeval) : ℤ := t.tvSec * 1000000 + t.tvUsec

/-! ### The conversions -/

theorem fractionUsec_eq {fraction : ℕ} (h : fraction < 2 ^ 32) :
    fractionUsec fraction = fraction * 1000000 / 2 ^ 32 := by
  have hbits : ∀ m : ℕ, m < 2 ^ 53 → |(m : ℤ)| < 2 ^ 53 := by
    intro m hm
    rw [abs_of_nonneg (Int.natCast_nonneg m)]
    exact_mod_cast hm
  have hexact : ∀ m : ℕ, m < 2 ^ 53 → double ((m : ℚ) / 4294967296) = m / 4294967296 := by
    intro m hm
    have hpow : (m : ℚ) / 4294967296 = (m : ℤ) * 2 ^ (-32 : ℤ) := by
      rw [zpow_neg, ← div_eq_mul_inv]
      norm_num
    rw [hpow]
    exact double_of_bits (hbits m hm)
  have hwhole : double fraction = fraction := by
    have hint := double_intCast (hbits fraction (by omega))
    rw [Int.cast_natCast] at hint
    exact hint
  have hmul : (fraction : ℚ) / 4294967296 * 1000000 = (fraction * 1000000 : ℕ) / 4294967296 := by
    push_cast
    ring
  have hfloor : ⌊((fraction * 1000000 : ℕ) : ℚ) / 4294967296⌋ = ((fraction * 1000000 : ℕ) : ℤ) / 4294967296 :=
    Rat.floor_natCast_div_natCast (fraction * 1000000) 4294967296
  simp only [fractionUsec]
  rw [hwhole, hexact fraction (by omega), hmul, hexact _ (by omega), hfloor]
  omega

section Difference

variable {buf : Memory Byte} {n : ℤ} {now : Timeval}

theorem difference_eq (hn : sizeofNtpdata ≤ n) (hmode : (buf 0).toNat &&& MODE_MASK ≠ MODE_CLIENT) :
    sntpProc buf n now = .difference (((buf 0).toNat &&& VERSION_MASK) >>> 3) ((buf 0).toNat &&& MODE_MASK)
      (buf 1).toNat (toInt32 (toSize (toUsec now - transmitUsec buf))) := by
  have hfrac := Memory.load32_lt .big buf 44
  simp only [sntpProc]
  rw [if_neg (by omega), if_neg hmode, fractionUsec_eq hfrac, transmitUsec, toUsec]
  have hsec : ((toSize ((buf.load32 .big 40 : ℤ) - JAN_1970) % 2 ^ 32 : ℕ) : ℤ) =
      ((buf.load32 .big 40 : ℤ) - JAN_1970) % 2 ^ 32 := by
    rw [toSize]
    omega
  rw [hsec]
  generalize ((buf.load32 .big 40 : ℤ) - JAN_1970) % 2 ^ 32 = sec
  split_ifs with hborrow
  · congr 3
    push_cast
    ring
  · congr 3
    push_cast
    ring

theorem toInt32_toSize_iff (x : ℤ) : toInt32 (toSize x) = x ↔ -2 ^ 31 ≤ x ∧ x < 2 ^ 31 := by
  constructor
  · intro h
    rw [← h, toInt32]
    exact ⟨BitVec.le_toInt _, BitVec.toInt_lt⟩
  · exact fun h => toInt32_toSize h.1 h.2

/-- **The clock difference** is printed exactly if an `int` can hold it. -/
theorem clock_difference_iff (buf : Memory Byte) (now : Timeval) (hn : sizeofNtpdata ≤ n)
    (hmode : (buf 0).toNat &&& MODE_MASK = MODE_SERVER ∨ (buf 0).toNat &&& MODE_MASK = MODE_BROADCAST) :
    (∃ version mode stratum, sntpProc buf n now =
        .difference version mode stratum (toUsec now - transmitUsec buf)) ↔
      -2 ^ 31 ≤ toUsec now - transmitUsec buf ∧ toUsec now - transmitUsec buf < 2 ^ 31 := by
  have hclient : (buf 0).toNat &&& MODE_MASK ≠ MODE_CLIENT := by
    rcases hmode with hmode | hmode
    · rw [hmode]
      decide
    · rw [hmode]
      decide
  rw [difference_eq hn hclient, ← toInt32_toSize_iff]
  constructor
  · rintro ⟨version, mode, stratum, h⟩
    exact (SntpOutput.difference.inj h).2.2.2
  · intro h
    exact ⟨_, _, _, congrArg _ h⟩

/-- A packet of a server at 1970-01-01 00:00:00. -/
def epochPacket : Memory Byte := Memory.store (Memory.store (fun _ => 0) 0 [4]) 40 [0x83, 0xaa, 0x7e, 0x80]

theorem clock_difference_iff_sample :
    ∃ version mode stratum, sntpProc epochPacket 48 ⟨2147, 250000⟩ = .difference version mode stratum 2147250000 :=
  (clock_difference_iff epochPacket ⟨2147, 250000⟩ (by decide) (.inl (by decide +kernel))).mpr (by decide +kernel)

/-- A clock that is 2148 seconds ahead. -/
theorem clock_difference_wraps : ¬ ∃ version mode stratum, sntpProc epochPacket 48 ⟨2148, 0⟩ =
    .difference version mode stratum (toUsec ⟨2148, 0⟩ - transmitUsec epochPacket) := by
  rintro ⟨version, mode, stratum, h⟩
  rw [difference_eq (by decide) (by decide +kernel)] at h
  exact absurd (SntpOutput.difference.inj h).2.2.2 (by decide +kernel)

end Difference

end UnixNetProg.Ssntp
