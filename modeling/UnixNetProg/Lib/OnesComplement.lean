import Mathlib.Algebra.BigOperators.Group.List.Basic
import Mathlib.Data.Nat.ModEq
import Mathlib.Tactic.Common
import UnixNetProg.Lib.Endian

/-!
# Sums of 16-bit words in ones' complement

The bytes of a buffer taken as 16-bit words of a host's byte order, an odd byte at the end padded with 0,
and their sum with end-around carry. Such a sum is the sum of the words modulo 65535, with 65535 and not 0
for a sum that is not 0 (`onesSum_eq`). The words of the other byte order are 256 times as large modulo
65535, so a sum that is a multiple of 65535 is one in both byte orders (`sum_wordsOf_big_modEq_zero`).
-/

namespace UnixNetProg.Lib

/-- The words of a buffer. -/
def wordsOf (e : Endian) : List UInt8 → List ℕ
  | [] => []
  | [b] => [word16 e b 0]
  | b₀ :: b₁ :: rest => word16 e b₀ b₁ :: wordsOf e rest

/-- Addition with end-around carry. -/
def onesAdd (a b : ℕ) : ℕ := (a + b) % 65536 + (a + b) / 65536

def onesSum (ws : List ℕ) : ℕ := ws.foldl onesAdd 0

/-- The 16-bit number that is congruent to `n` modulo 65535, and 0 only for 0. -/
def onesRep (n : ℕ) : ℕ := if n = 0 then 0 else (n - 1) % 65535 + 1

theorem onesRep_le (n : ℕ) : onesRep n ≤ 65535 := by
  unfold onesRep
  by_cases h : n = 0
  · simp [h]
  · rw [if_neg h]
    omega

theorem onesRep_modEq (n : ℕ) : onesRep n ≡ n [MOD 65535] := by
  unfold onesRep
  by_cases h : n = 0
  · simp [h, Nat.ModEq]
  · rw [if_neg h, Nat.ModEq]
    omega

theorem onesRep_of_eq {n q r : ℕ} (hr : 0 < r) (hle : r ≤ 65535) (hn : n = 65535 * q + r) : onesRep n = r := by
  have hpred : n - 1 = 65535 * q + (r - 1) := by omega
  rw [onesRep, if_neg (by omega), hpred, Nat.mul_add_mod, Nat.mod_eq_of_lt (by omega)]
  omega

/-- Two folds of a 32-bit sum carry all of its high bits round. -/
theorem fold_fold_eq {n : ℕ} (hn : n < 2 ^ 32) :
    (n / 65536 + n % 65536 + (n / 65536 + n % 65536) / 65536) % 65536 = onesRep n := by
  have hdiv : n / 65536 < 65536 := by omega
  have hmod : n % 65536 < 65536 := Nat.mod_lt _ (by decide)
  have hsplit : n = 65536 * (n / 65536) + n % 65536 := (Nat.div_add_mod n 65536).symm
  generalize n / 65536 = hi at hdiv hsplit ⊢
  generalize n % 65536 = lo at hmod hsplit ⊢
  by_cases hzero : hi + lo = 0
  · have hn0 : n = 0 := by omega
    simp [hzero, hn0, onesRep]
  · by_cases hcarry : hi + lo < 65536
    · rw [onesRep_of_eq (q := hi) (r := hi + lo) (by omega) (by omega) (by omega)]
      omega
    · have hone : (hi + lo) / 65536 = 1 := by omega
      rw [onesRep_of_eq (q := hi + 1) (r := hi + lo - 65535) (by omega) (by omega) (by omega), hone]
      omega

theorem onesAdd_onesRep (m : ℕ) {w : ℕ} (hw : w ≤ 65535) : onesAdd (onesRep m) w = onesRep (m + w) := by
  have hle := onesRep_le m
  unfold onesAdd
  unfold onesRep at hle ⊢
  by_cases hm : m = 0
  · by_cases hw0 : w = 0
    · simp [hm, hw0]
    · rw [if_pos hm, if_neg (by omega)]
      omega
  · rw [if_neg hm, if_neg (by omega)]
    omega

theorem foldl_onesAdd {ws : List ℕ} (hws : ∀ w ∈ ws, w ≤ 65535) (m : ℕ) :
    ws.foldl onesAdd (onesRep m) = onesRep (m + ws.sum) := by
  induction ws generalizing m with
  | nil => simp
  | cons w ws ih =>
    have hw := hws w (by simp)
    rw [List.foldl_cons, onesAdd_onesRep m hw, ih fun x hx => hws x (by simp [hx]), List.sum_cons, Nat.add_assoc]

theorem onesSum_eq {ws : List ℕ} (hws : ∀ w ∈ ws, w ≤ 65535) : onesSum ws = onesRep ws.sum := by
  have h := foldl_onesAdd hws 0
  rw [Nat.zero_add] at h
  exact h

theorem onesRep_eq_iff {n : ℕ} : onesRep n = 65535 ↔ 0 < n ∧ n ≡ 0 [MOD 65535] := by
  unfold onesRep Nat.ModEq
  by_cases h : n = 0
  · simp [h]
  · rw [if_neg h]
    omega

/-! ### Bytes and words -/

theorem le_of_mem_wordsOf {e : Endian} {bytes : List UInt8} : ∀ w ∈ wordsOf e bytes, w ≤ 65535 := by
  induction bytes using wordsOf.induct with
  | case1 => simp [wordsOf]
  | case2 b =>
    intro w hw
    simp only [wordsOf, List.mem_singleton] at hw
    rw [hw]
    exact word16_le e b 0
  | case3 b₀ b₁ rest ih =>
    intro w hw
    rw [wordsOf, List.mem_cons] at hw
    rcases hw with rfl | hw
    · exact word16_le e b₀ b₁
    · exact ih w hw

theorem sum_wordsOf_append (e : Endian) {l l' : List UInt8} (hl : l.length % 2 = 0) :
    (wordsOf e (l ++ l')).sum = (wordsOf e l).sum + (wordsOf e l').sum := by
  induction l using wordsOf.induct with
  | case1 => simp [wordsOf]
  | case2 b => simp at hl
  | case3 b₀ b₁ rest ih =>
    have hrest : rest.length % 2 = 0 := by
      simp only [List.length_cons] at hl
      omega
    simp only [List.cons_append, wordsOf, List.sum_cons]
    rw [ih hrest, Nat.add_assoc]

theorem sum_wordsOf_le (e : Endian) (bytes : List UInt8) :
    2 * (wordsOf e bytes).sum ≤ 65535 * (bytes.length + 1) := by
  induction bytes using wordsOf.induct with
  | case1 => simp [wordsOf]
  | case2 b =>
    have h := word16_le e b 0
    simp only [wordsOf, List.sum_singleton, List.length_singleton]
    omega
  | case3 b₀ b₁ rest ih =>
    have h := word16_le e b₀ b₁
    simp only [wordsOf, List.sum_cons, List.length_cons]
    omega

theorem sum_wordsOf_big_modEq (bytes : List UInt8) :
    (wordsOf .big bytes).sum ≡ 256 * (wordsOf .little bytes).sum [MOD 65535] := by
  induction bytes using wordsOf.induct with
  | case1 => simp [wordsOf, Nat.ModEq]
  | case2 b => simp [wordsOf, word16, Nat.ModEq]
  | case3 b₀ b₁ rest ih =>
    have hword : word16 .big b₀ b₁ ≡ 256 * word16 .little b₀ b₁ [MOD 65535] := by
      simp only [word16, Nat.ModEq]
      omega
    simp only [wordsOf, List.sum_cons, Nat.mul_add]
    exact hword.add ih

theorem sum_wordsOf_big_modEq_zero {e : Endian} {bytes : List UInt8}
    (h : (wordsOf e bytes).sum ≡ 0 [MOD 65535]) : (wordsOf .big bytes).sum ≡ 0 [MOD 65535] := by
  cases e with
  | little =>
    have hmul := h.mul_left 256
    exact (sum_wordsOf_big_modEq bytes).trans hmul
  | big => exact h

theorem sum_wordsOf_bytes16 (e : Endian) {n : ℕ} (hn : n < 65536) : (wordsOf e (bytes16 e n)).sum = n := by
  obtain ⟨b₀, b₁, hbytes, hword⟩ := exists_bytes16 e n
  rw [hbytes, wordsOf, wordsOf, List.sum_singleton, hword, Nat.mod_eq_of_lt hn]

/-! ### The complement of the sum -/

theorem onesRep_eq_zero_iff {n : ℕ} : onesRep n = 0 ↔ n = 0 := by
  unfold onesRep
  by_cases h : n = 0
  · simp [h]
  · rw [if_neg h]
    omega

theorem onesRep_add_compl (n : ℕ) : onesRep (n + (65535 - onesRep n)) = 65535 := by
  have hle := onesRep_le n
  have hmod := onesRep_modEq n
  have hzero := onesRep_eq_zero_iff (n := n)
  rw [onesRep_eq_iff]
  unfold Nat.ModEq at hmod ⊢
  omega

theorem sum_wordsOf_field (e : Endian) {pre post : List UInt8} (hpre : pre.length % 2 = 0) {n : ℕ} (hn : n < 65536) :
    (wordsOf e (pre ++ bytes16 e n ++ post)).sum = (wordsOf e (pre ++ [0, 0] ++ post)).sum + n := by
  have hfield : (wordsOf e [0, 0]).sum = 0 := by cases e <;> rfl
  rw [List.append_assoc, List.append_assoc, sum_wordsOf_append e hpre, sum_wordsOf_append e hpre,
    sum_wordsOf_append e (l := bytes16 e n) (by simp), sum_wordsOf_append e (l := [0, 0]) rfl,
    sum_wordsOf_bytes16 e hn, hfield]
  omega

theorem sum_wordsOf_big_eq_zero (bytes : List UInt8) :
    (wordsOf .big bytes).sum = 0 ↔ (wordsOf .little bytes).sum = 0 := by
  induction bytes using wordsOf.induct with
  | case1 => simp [wordsOf]
  | case2 b =>
    simp only [wordsOf, List.sum_singleton, word16]
    omega
  | case3 b₀ b₁ rest ih =>
    simp only [wordsOf, List.sum_cons, word16]
    omega

/-- The complement of the sum has the same bytes in both byte orders. -/
theorem bytes16_compl (bytes : List UInt8) :
    bytes16 .little (65535 - onesRep (wordsOf .little bytes).sum) =
      bytes16 .big (65535 - onesRep (wordsOf .big bytes).sum) := by
  have hswap := ((onesRep_modEq _).trans (sum_wordsOf_big_modEq bytes)).trans
    ((onesRep_modEq (wordsOf .little bytes).sum).mul_left 256).symm
  have hle := onesRep_le (wordsOf .little bytes).sum
  have hle' := onesRep_le (wordsOf .big bytes).sum
  have hzero : onesRep (wordsOf .big bytes).sum = 0 ↔ onesRep (wordsOf .little bytes).sum = 0 := by
    rw [onesRep_eq_zero_iff, onesRep_eq_zero_iff]
    exact sum_wordsOf_big_eq_zero bytes
  generalize onesRep (wordsOf .little bytes).sum = x at hswap hle hzero ⊢
  generalize onesRep (wordsOf .big bytes).sum = y at hswap hle' hzero ⊢
  unfold Nat.ModEq at hswap
  -- the two bytes of the one complement are those of the other, in the other order
  obtain ⟨a, b, ha, hb, hx⟩ : ∃ a b, a < 256 ∧ b < 256 ∧ 65535 - x = 256 * a + b :=
    ⟨(65535 - x) / 256, (65535 - x) % 256, by omega, by omega, by omega⟩
  have hy : 65535 - y = 256 * b + a := by omega
  clear hswap hzero
  have hdiv : (256 * a + b) / 256 = a := by omega
  have hdiv' : (256 * b + a) / 256 = b := by omega
  have hlow : UInt8.ofNat (256 * a + b) = UInt8.ofNat b := by
    apply UInt8.toNat_inj.mp
    simp only [UInt8.toNat_ofNat']
    omega
  have hhigh : UInt8.ofNat (256 * b + a) = UInt8.ofNat a := by
    apply UInt8.toNat_inj.mp
    simp only [UInt8.toNat_ofNat']
    omega
  simp only [bytes16, hx, hy, hdiv, hdiv', hlow, hhigh]

end UnixNetProg.Lib
