import Mathlib.Data.List.TakeWhile
import Mathlib.Data.Nat.Digits.Lemmas
import Mathlib.Tactic.Common
import UnixNetProg.Unp

/-!
# The C library functions the programs use on strings and numbers

A C string is the list of its bytes before the terminating 0, in the C locale. `htons` is that of a
little-endian host (the x86_64 of `config.h`).
-/

namespace UnixNetProg

abbrev CString := List Byte

/-- A string literal of the source. -/
def cstr (s : String) : CString := s.toList.map fun c => UInt8.ofNat c.toNat

def isdigit (c : Byte) : Bool := 48 ≤ c && c ≤ 57

def isxdigit (c : Byte) : Bool := isdigit c || (97 ≤ c && c ≤ 102) || (65 ≤ c && c ≤ 70)

def isspace (c : Byte) : Bool := c == 32 || (9 ≤ c && c ≤ 13)

/-- `s[0]`, which is 0 for the empty string. -/
def firstByte (s : CString) : Byte := s.headD 0

/-- The value of the decimal digits at the front of a string. -/
def digitsValue (s : CString) : ℕ :=
  (s.takeWhile isdigit).foldl (fun n c => 10 * n + (c.toNat - 48)) 0

/-- `strtol(s, NULL, 10)` with a 64-bit `long`: out of range values are clamped. -/
def strtol (s : CString) : ℤ :=
  match s.dropWhile isspace with
  | 45 :: t => max (-(2 ^ 63)) (-(digitsValue t : ℤ))
  | 43 :: t => min (2 ^ 63 - 1) (digitsValue t)
  | t => min (2 ^ 63 - 1) (digitsValue t)

/-- `atoi(s)` is `(int) strtol(s, NULL, 10)`. -/
def atoi (s : CString) : ℤ := (BitVec.ofInt 32 (strtol s)).toInt

/-- The value of a hexadecimal digit. -/
def hexDigit (c : Byte) : ℕ :=
  if isdigit c then c.toNat - 48 else if 97 ≤ c then c.toNat - 87 else c.toNat - 55

def isdigitIn (base : ℕ) (c : Byte) : Bool := isxdigit c && decide (hexDigit c < base)

/-- The base that `strtoul` finds with base 0, and the digits with what follows them. -/
def baseOf (s : CString) : ℕ × CString :=
  match s with
  | 48 :: x :: c :: t => if (x = 120 ∨ x = 88) ∧ isxdigit c then (16, c :: t) else (8, s)
  | 48 :: _ => (8, s)
  | _ => (10, s)

/-- `strtoul(s, &ep, 0)` with a 64-bit `unsigned long`: the number and the string at `ep`; `none` when there is no
number. A number that is too large is clamped, and a minus sign negates in the unsigned type. -/
def strtoul (s : CString) : Option (ℕ × CString) :=
  let t := s.dropWhile isspace
  let neg := firstByte t = 45
  let u := if firstByte t = 45 ∨ firstByte t = 43 then t.tail else t
  let base := (baseOf u).1
  let digits := (baseOf u).2.takeWhile (isdigitIn base)
  let ep := (baseOf u).2.dropWhile (isdigitIn base)
  let n := digits.foldl (fun n c => base * n + hexDigit c) 0
  if digits = [] then none
  else if 2 ^ 64 ≤ n then some (2 ^ 64 - 1, ep)
  else some (if neg then (2 ^ 64 - n) % 2 ^ 64 else n, ep)

/-- `sscanf(s, "%2x", &c)`, and the low byte of `c`: white space is skipped and does not count, a sign does. The
two characters `0x` are the beginning of a number and not a number. -/
def sscanf2x (s : CString) : Option Byte :=
  match (s.dropWhile isspace).take 2 with
  | [a, b] =>
    if a = 43 then if isxdigit b then some (UInt8.ofNat (hexDigit b)) else none
    else if a = 45 then if isxdigit b then some (0 - UInt8.ofNat (hexDigit b)) else none
    else if ¬ isxdigit a then none
    else if isxdigit b then some (UInt8.ofNat (16 * hexDigit a + hexDigit b))
    else if a = 48 ∧ (b = 120 ∨ b = 88) then none
    else some (UInt8.ofNat (hexDigit a))
  | [a] => if isxdigit a then some (UInt8.ofNat (hexDigit a)) else none
  | _ => none

def INT_MAX : ℕ := 2147483647

/-- A `size_t` or an `unsigned long` in an `int`. -/
def toInt32 (n : ℕ) : ℤ := (BitVec.ofNat 32 n).toInt

/-- An `int` in a `size_t`. -/
def toSize (n : ℤ) : ℕ := (n % 2 ^ 64).toNat

/-- `%d` of a number that is not negative. -/
def decimal (n : ℕ) : CString :=
  if n = 0 then [48] else (Nat.digits 10 n).reverse.map fun d => UInt8.ofNat (48 + d)

/-- `%x`. -/
def hexadecimal (n : ℕ) : CString :=
  if n = 0 then [48]
  else (Nat.digits 16 n).reverse.map fun d => UInt8.ofNat (if d < 10 then 48 + d else 87 + d)

/-- A conversion with the flag `0` and a field width. -/
def zeroPad (width : ℕ) (s : CString) : CString := List.replicate (width - s.length) 48 ++ s

/-- `%d.%d.%d.%d`. -/
def dottedQuad (a b c d : Byte) : CString :=
  decimal a.toNat ++ cstr "." ++ decimal b.toNat ++ cstr "." ++ decimal c.toNat ++ cstr "." ++ decimal d.toNat

/-- What `snprintf(buf, size, "%s", s)` leaves in `buf`, for `size > 0`. -/
def snprintf (size : ℕ) (s : CString) : CString := s.take (size - 1)

/-- The string in a buffer: the bytes before the first 0. -/
def stringOf (buf : List Byte) : CString := buf.takeWhile (· != 0)

/-- `strncmp(s, t, n) == 0`. -/
def strncmp (s t : List Byte) (n : ℕ) : Bool := stringOf (s.take n) = stringOf (t.take n)

/-- The number of bytes `fgets` takes: up to and including a newline, but at most `n`. -/
def lineLen : ℕ → List Byte → ℕ
  | 0, _ => 0
  | _ + 1, [] => 0
  | n + 1, c :: t => if c = 10 then 1 else lineLen n t + 1

/-- `fgets(ptr, size, fp)`: the bytes stored before the 0, and the rest of the input; `none` is NULL. -/
def fgets (size : ℕ) (fp : List Byte) : Option (List Byte × List Byte) :=
  if fp = [] then none
  else some (fp.take (lineLen (size - 1) fp), fp.drop (lineLen (size - 1) fp))

/-- The two bytes of a 16-bit number swapped. -/
def swapBytes (n : ℕ) : ℕ := n % 256 * 256 + n / 256

def htons (n : BitVec 16) : BitVec 16 := BitVec.ofNat 16 (swapBytes n.toNat)

def ntohs (n : BitVec 16) : BitVec 16 := htons n

theorem toNat_htons (n : BitVec 16) : (htons n).toNat = swapBytes n.toNat := by
  rw [htons, BitVec.toNat_ofNat]
  refine Nat.mod_eq_of_lt ?_
  have hlt := n.isLt
  unfold swapBytes
  omega

theorem htons_ntohs (n : BitVec 16) : htons (ntohs n) = n := by
  apply BitVec.eq_of_toNat_eq
  rw [ntohs, toNat_htons, toNat_htons]
  have hlt := n.isLt
  unfold swapBytes
  omega

theorem toInt32_toSize {n : ℤ} (hlo : -2 ^ 31 ≤ n) (hhi : n < 2 ^ 31) : toInt32 (toSize n) = n := by
  have hmod : n % 2 ^ 64 % (2 ^ 32 : ℕ) = n % (2 ^ 32 : ℕ) := Int.emod_emod_of_dvd n (by decide)
  rw [toInt32, BitVec.toInt_ofNat', toSize, Int.toNat_of_nonneg (Int.emod_nonneg n (by decide)), ← Int.emod_bmod,
    hmod, Int.emod_bmod]
  exact Int.bmod_eq_of_le (by omega) (by omega)

/-! ### Numerals -/

theorem digitChar_spec {d : ℕ} (hd : d < 10) :
    isdigit (UInt8.ofNat (48 + d)) = true ∧ (UInt8.ofNat (48 + d)).toNat - 48 = d := by
  have h256 : (UInt8.ofNat (48 + d)).toNat = 48 + d := by
    rw [UInt8.toNat_ofNat']
    omega
  refine ⟨?_, by omega⟩
  simp only [isdigit, Bool.and_eq_true, decide_eq_true_eq, UInt8.le_iff_toNat_le, h256]
  exact ⟨by simp, by simp; omega⟩

theorem foldl_digits (l : List ℕ) (hl : ∀ d ∈ l, d < 10) :
    (l.reverse.map fun d => UInt8.ofNat (48 + d)).foldl (fun n c => 10 * n + (c.toNat - 48)) 0 =
      Nat.ofDigits 10 l := by
  induction l with
  | nil => rfl
  | cons d l ih =>
    simp only [List.reverse_cons, List.map_append, List.foldl_append, List.map_cons, List.map_nil,
      List.foldl_cons, List.foldl_nil, Nat.ofDigits_cons]
    rw [ih fun x hx => hl x (List.mem_cons_of_mem _ hx), (digitChar_spec (hl d (by simp))).2]
    exact Nat.add_comm _ _

theorem decimal_isdigit (n : ℕ) : ∀ c ∈ decimal n, isdigit c = true := by
  intro c hc
  unfold decimal at hc
  split_ifs at hc with h0
  · rw [List.mem_singleton.mp hc]
    decide
  · simp only [List.mem_map, List.mem_reverse] at hc
    obtain ⟨d, hd, rfl⟩ := hc
    exact (digitChar_spec (Nat.digits_lt_base (by decide) hd)).1

theorem digitsValue_decimal (n : ℕ) : digitsValue (decimal n) = n := by
  unfold digitsValue
  rw [List.takeWhile_eq_self_iff.mpr (decimal_isdigit n)]
  unfold decimal
  split_ifs with h0
  · rw [h0]
    rfl
  · rw [foldl_digits _ fun d hd => Nat.digits_lt_base (by decide) hd]
    exact Nat.ofDigits_digits 10 n

theorem decimal_ne_nil (n : ℕ) : decimal n ≠ [] := by
  unfold decimal
  split_ifs with h0
  · simp
  · simpa [Nat.digits_eq_nil_iff_eq_zero] using h0

theorem decimal_length {n k : ℕ} (hk : 0 < k) (hn : n < 10 ^ k) : (decimal n).length ≤ k := by
  unfold decimal
  split_ifs with h0
  · exact hk
  · rw [List.length_map, List.length_reverse]
    exact (Nat.digits_length_le_iff (by decide) n).mpr hn

theorem length_dottedQuad_le (a b c d : Byte) : (dottedQuad a b c d).length ≤ 15 := by
  have hbyte : ∀ x : Byte, (decimal x.toNat).length ≤ 3 := by
    intro x
    have hx := x.toNat_lt
    exact decimal_length (by decide) (by omega)
  have ha := hbyte a
  have hb := hbyte b
  have hc := hbyte c
  have hd := hbyte d
  have hdot : (cstr ".").length = 1 := rfl
  simp only [dottedQuad, List.length_append, hdot]
  omega

theorem isdigit_firstByte_decimal (n : ℕ) : isdigit (firstByte (decimal n)) = true := by
  cases hd : decimal n with
  | nil => exact absurd hd (decimal_ne_nil n)
  | cons c t =>
    have hc := decimal_isdigit n c (by rw [hd]; simp)
    exact hc

theorem isspace_of_isdigit {c : Byte} (hc : isdigit c = true) : isspace c = false := by
  simp only [isdigit, Bool.and_eq_true, decide_eq_true_eq, UInt8.le_iff_toNat_le] at hc
  have h48 : 48 ≤ c.toNat := hc.1
  have hne : c ≠ 32 := by
    rintro rfl
    exact absurd h48 (by decide)
  have hgt : ¬ c ≤ 13 := by
    rw [UInt8.le_iff_toNat_le]
    show ¬ c.toNat ≤ 13
    omega
  simp [isspace, hne, hgt]

theorem strtol_of_isdigit {s : CString} (hs : isdigit (firstByte s) = true) :
    strtol s = min (2 ^ 63 - 1) (digitsValue s : ℤ) := by
  cases s with
  | nil => exact absurd hs (by decide)
  | cons c t =>
    have hc : isdigit c = true := hs
    unfold strtol
    rw [List.dropWhile_cons_of_neg (by simp [isspace_of_isdigit hc])]
    split
    · rename_i heq
      rw [(List.cons.inj heq).1] at hc
      exact absurd hc (by decide)
    · rename_i heq
      rw [(List.cons.inj heq).1] at hc
      exact absurd hc (by decide)
    · rfl

theorem atoi_of_isdigit {s : CString} (hs : isdigit (firstByte s) = true) (hlt : digitsValue s < 2 ^ 31) :
    atoi s = digitsValue s := by
  rw [atoi, strtol_of_isdigit hs, min_eq_right (by omega), BitVec.toInt_ofInt]
  exact Int.bmod_eq_of_le (by omega) (by omega)

theorem atoi_decimal {n : ℕ} (hn : n < 2 ^ 31) : atoi (decimal n) = n := by
  rw [atoi_of_isdigit (isdigit_firstByte_decimal n) (by rw [digitsValue_decimal]; exact hn), digitsValue_decimal]

/-! ### Lines -/

theorem lineLen_of_not_mem {l : List Byte} (hl : 10 ∉ l) (n : ℕ) : lineLen n l = min n l.length := by
  induction l generalizing n with
  | nil => cases n <;> simp [lineLen]
  | cons c t ih =>
    rw [List.mem_cons, not_or] at hl
    cases n with
    | zero => simp [lineLen]
    | succ n =>
      rw [lineLen, if_neg (Ne.symm hl.1), ih hl.2, List.length_cons]
      omega

theorem fgets_eq_none_iff {size : ℕ} {fp : List Byte} : fgets size fp = none ↔ fp = [] := by
  by_cases h : fp = []
  · simp [fgets, h]
  · simp [fgets, h]

theorem fgets_of_not_mem {size : ℕ} {fp : List Byte} (hne : fp ≠ []) (hfp : 10 ∉ fp)
    (hlen : fp.length < size) : fgets size fp = some (fp, []) := by
  have hline : lineLen (size - 1) fp = fp.length := by
    rw [lineLen_of_not_mem hfp]
    omega
  rw [fgets, if_neg hne, hline, List.take_length, List.drop_length]

theorem length_lt_of_fgets {size : ℕ} {fp line rest : List Byte} (hsize : 2 ≤ size)
    (h : fgets size fp = some (line, rest)) : rest.length < fp.length := by
  unfold fgets at h
  split_ifs at h with hne
  obtain ⟨-, rfl⟩ := Prod.mk.inj (Option.some.inj h)
  obtain ⟨n, hn⟩ : ∃ n, size - 1 = n + 1 := ⟨size - 2, by omega⟩
  cases fp with
  | nil => exact absurd rfl hne
  | cons c t =>
    have hpos : 0 < lineLen (n + 1) (c :: t) := by
      rw [lineLen]
      split_ifs <;> omega
    rw [hn, List.length_drop, List.length_cons]
    omega

/-- The strings that successive calls of `Fgets` leave in `sendline`. -/
def sendlines (fp : List Byte) : List CString :=
  match _h : fgets MAXLINE fp with
  | none => []
  | some (line, rest) => stringOf line :: sendlines rest
termination_by fp.length
decreasing_by exact length_lt_of_fgets (by decide) _h

theorem sendlines_of_none {fp : List Byte} (h : fgets MAXLINE fp = none) : sendlines fp = [] := by
  rw [sendlines]
  split
  · rfl
  · rename_i hsome
    exact nomatch h.symm.trans hsome

theorem sendlines_of_some {fp line rest : List Byte} (h : fgets MAXLINE fp = some (line, rest)) :
    sendlines fp = stringOf line :: sendlines rest := by
  rw [sendlines]
  split
  · rename_i hnone
    exact nomatch h.symm.trans hnone
  · rename_i hsome
    obtain ⟨rfl, rfl⟩ := Prod.mk.inj (Option.some.inj (h.symm.trans hsome))
    rfl

theorem append_of_fgets {size : ℕ} {fp line rest : List Byte} (h : fgets size fp = some (line, rest)) :
    line ++ rest = fp := by
  unfold fgets at h
  split_ifs at h with hne
  obtain ⟨rfl, rfl⟩ := Prod.mk.inj (Option.some.inj h)
  exact List.take_append_drop _ _

theorem take_lineLen (n : ℕ) (fp : List Byte) :
    lineLen n fp ≤ n ∧ ∀ p q, fp.take (lineLen n fp) = p ++ 10 :: q → q = [] := by
  induction fp generalizing n with
  | nil => cases n <;> simp [lineLen]
  | cons c t ih =>
    cases n with
    | zero => simp [lineLen]
    | succ n =>
      obtain ⟨hle, hlast⟩ := ih n
      rw [lineLen]
      split_ifs with hc
      · refine ⟨by omega, fun p q h => ?_⟩
        cases p with
        | nil => exact (List.cons.inj h).2.symm
        | cons d p => exact absurd (List.cons.inj h).2 (by simp)
      · refine ⟨by omega, fun p q h => ?_⟩
        rw [List.take_succ_cons] at h
        cases p with
        | nil => exact absurd (List.cons.inj h).1 hc
        | cons d p => exact hlast p q (List.cons.inj h).2

theorem line_of_fgets {size : ℕ} {fp line rest : List Byte} (h : fgets size fp = some (line, rest)) :
    line.length ≤ size - 1 ∧ ∀ p q, line = p ++ 10 :: q → q = [] := by
  unfold fgets at h
  split_ifs at h with hne
  obtain ⟨rfl, -⟩ := Prod.mk.inj (Option.some.inj h)
  obtain ⟨hle, hlast⟩ := take_lineLen (size - 1) fp
  refine ⟨?_, hlast⟩
  rw [List.length_take]
  exact (Nat.min_le_left _ _).trans hle

theorem stringOf_of_not_mem {buf : List Byte} (h : 0 ∉ buf) : stringOf buf = buf := by
  refine List.takeWhile_eq_self_iff.mpr fun c hc => ?_
  rw [bne_iff_ne]
  rintro rfl
  exact h hc

theorem stringOf_prefix_self (buf : List Byte) : stringOf buf <+: buf := List.takeWhile_prefix _

theorem length_of_fgets {size : ℕ} {fp line rest : List Byte} (h : fgets size fp = some (line, rest)) :
    (stringOf line).length + rest.length ≤ fp.length := by
  have hstring := (stringOf_prefix_self line).length_le
  rw [← append_of_fgets h, List.length_append]
  omega

theorem stringOf_stringOf (buf : List Byte) : stringOf (stringOf buf) = stringOf buf := by
  refine stringOf_of_not_mem fun h => ?_
  have hne := List.mem_takeWhile_imp h
  exact absurd hne (by decide)

theorem stringOf_append_zero (xs ys : List Byte) : stringOf (xs ++ 0 :: ys) = stringOf xs := by
  rw [stringOf, stringOf, List.takeWhile_append]
  split_ifs with hall
  · rw [List.takeWhile_cons_of_neg (by decide), List.append_nil]
    exact ((List.takeWhile_prefix _).eq_of_length hall).symm
  · rfl

end UnixNetProg
