import Mathlib.Data.Nat.Digits.Lemmas
import Mathlib.Tactic.Common

/-!
# Numerals

A numeral is a list of digits, the most significant one first; `digit` gives the value of each. A scanner has
read some of them when it comes to the next, so `numeral n ds` goes on from the number `n`.
-/

namespace UnixNetProg.Lib

variable {α : Type} {base base' : ℕ} {digit digit' : α → ℕ}

def numeral (base : ℕ) (digit : α → ℕ) (n : ℕ) (ds : List α) : ℕ := ds.foldl (fun n c => base * n + digit c) n

@[simp] theorem numeral_nil (n : ℕ) : numeral base digit n [] = n := rfl

@[simp] theorem numeral_cons (n : ℕ) (c : α) (ds : List α) :
    numeral base digit n (c :: ds) = numeral base digit (base * n + digit c) ds := rfl

theorem numeral_append (n : ℕ) (ds es : List α) :
    numeral base digit n (ds ++ es) = numeral base digit (numeral base digit n ds) es := List.foldl_append

theorem numeral_concat (n : ℕ) (ds : List α) (c : α) :
    numeral base digit n (ds ++ [c]) = base * numeral base digit n ds + digit c := numeral_append n ds [c]

theorem le_numeral (hbase : 0 < base) (n : ℕ) (ds : List α) : n ≤ numeral base digit n ds := by
  induction ds generalizing n with
  | nil => exact le_refl n
  | cons c ds ih =>
    have hle : n ≤ base * n := Nat.le_mul_of_pos_left n hbase
    exact le_trans (Nat.le_add_right_of_le hle) (ih _)

theorem numeral_le_append (hbase : 0 < base) (digit : α → ℕ) (n : ℕ) (ds es : List α) :
    numeral base digit n ds ≤ numeral base digit n (ds ++ es) := by
  rw [numeral_append]
  exact le_numeral hbase _ es

theorem numeral_lt_pow (hbase : base ≤ base') {ds : List α} (hdigit : ∀ c ∈ ds, digit c < base ∧ digit' c = digit c)
    {k : ℕ} (h : numeral base digit 0 ds < base ^ k) : numeral base' digit' 0 ds < base' ^ k := by
  induction ds using List.reverseRecOn generalizing k with
  | nil =>
    cases k with
    | zero => simp
    | succ k =>
      have hc : 0 < base ^ (k + 1) := h
      exact lt_of_lt_of_le hc (Nat.pow_le_pow_left hbase _)
  | append_singleton ds c ih =>
    obtain ⟨hlt, heq⟩ := hdigit c (by simp)
    have hih := fun k => ih (k := k) fun c hc => hdigit c (by simp [hc])
    rw [numeral_concat] at h ⊢
    rw [heq]
    cases k with
    | zero =>
      -- the number is 0, and so are all digits
      rw [pow_zero] at h
      have hzero : base * numeral base digit 0 ds = 0 := by omega
      have hds : numeral base digit 0 ds = 0 := (Nat.mul_eq_zero.mp hzero).resolve_left (by omega)
      have hsmall := hih 0 (by rw [hds]; exact Nat.one_pos)
      rw [pow_zero, Nat.lt_one_iff] at hsmall ⊢
      rw [hsmall]
      omega
    | succ k =>
      rw [pow_succ] at h ⊢
      have hds : numeral base digit 0 ds < base ^ k := by
        by_contra hge
        have hmul := Nat.mul_le_mul_left base (Nat.le_of_not_lt hge)
        rw [Nat.mul_comm base (base ^ k)] at hmul
        omega
      have hmul := Nat.mul_le_mul_left base' (Nat.succ_le_of_lt (hih k hds))
      rw [Nat.mul_comm base' (base' ^ k), Nat.mul_succ] at hmul
      omega

theorem numeral_digits (hbase : 1 < base) {char : ℕ → α} (hchar : ∀ d < base, digit (char d) = d) (n : ℕ) :
    numeral base digit 0 ((Nat.digits base n).reverse.map char) = n := by
  have hofDigits : ∀ l : List ℕ, (∀ d ∈ l, d < base) →
      numeral base digit 0 (l.reverse.map char) = Nat.ofDigits base l := by
    intro l hl
    induction l with
    | nil => rfl
    | cons d l ih =>
      rw [List.reverse_cons, List.map_append, List.map_singleton, numeral_concat,
        ih fun x hx => hl x (List.mem_cons_of_mem d hx), hchar d (hl d List.mem_cons_self), Nat.ofDigits_cons,
        Nat.add_comm]
  rw [hofDigits _ fun d hd => Nat.digits_lt_base hbase hd, Nat.ofDigits_digits]

end UnixNetProg.Lib
