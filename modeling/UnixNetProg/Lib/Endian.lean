import Mathlib.Algebra.Ring.Nat
import Mathlib.Tactic.Common
import UnixNetProg.Lib.Memory

/-!
# Numbers in memory

The bytes of 16-bit and 32-bit numbers in the two byte orders, and fields of a memory that hold them.
-/

namespace UnixNetProg.Lib

inductive Endian where
  | little
  | big
  deriving DecidableEq, Repr

/-- The 16-bit word in two bytes of memory. -/
def word16 : Endian → UInt8 → UInt8 → ℕ
  | .little, b₀, b₁ => b₀.toNat + 256 * b₁.toNat
  | .big, b₀, b₁ => 256 * b₀.toNat + b₁.toNat

/-- The two bytes of memory that hold a 16-bit word. -/
def bytes16 : Endian → ℕ → List UInt8
  | .little, n => [UInt8.ofNat n, UInt8.ofNat (n / 256)]
  | .big, n => [UInt8.ofNat (n / 256), UInt8.ofNat n]

/-- The four bytes of memory that hold a 32-bit word. -/
def bytes32 : Endian → ℕ → List UInt8
  | .little, n => bytes16 .little n ++ bytes16 .little (n / 65536)
  | .big, n => bytes16 .big (n / 65536) ++ bytes16 .big n

theorem word16_le (e : Endian) (b₀ b₁ : UInt8) : word16 e b₀ b₁ ≤ 65535 := by
  have h₀ := b₀.toNat_lt
  have h₁ := b₁.toNat_lt
  cases e with
  | little =>
    simp only [word16]
    omega
  | big =>
    simp only [word16]
    omega

@[simp] theorem length_bytes16 (e : Endian) (n : ℕ) : (bytes16 e n).length = 2 := by
  cases e <;> rfl

@[simp] theorem length_bytes32 (e : Endian) (n : ℕ) : (bytes32 e n).length = 4 := by
  cases e <;> rfl

theorem exists_bytes16 (e : Endian) (n : ℕ) :
    ∃ b₀ b₁, bytes16 e n = [b₀, b₁] ∧ word16 e b₀ b₁ = n % 65536 := by
  cases e with
  | little =>
    refine ⟨_, _, rfl, ?_⟩
    simp only [word16, UInt8.toNat_ofNat']
    omega
  | big =>
    refine ⟨_, _, rfl, ?_⟩
    simp only [word16, UInt8.toNat_ofNat']
    omega

namespace Memory

/-- The 16-bit field at `p`. -/
def load16 (e : Endian) (m : Memory UInt8) (p : ℕ) : ℕ := word16 e (m p) (m (p + 1))

/-- The 32-bit field at `p`. -/
def load32 (e : Endian) (m : Memory UInt8) (p : ℕ) : ℕ :=
  match e with
  | .little => m.load16 .little p + 2 ^ 16 * m.load16 .little (p + 2)
  | .big => 2 ^ 16 * m.load16 .big p + m.load16 .big (p + 2)

/-- The 64-bit field at `p`. -/
def load64 (e : Endian) (m : Memory UInt8) (p : ℕ) : ℕ :=
  match e with
  | .little => m.load32 .little p + 2 ^ 32 * m.load32 .little (p + 4)
  | .big => 2 ^ 32 * m.load32 .big p + m.load32 .big (p + 4)

theorem store_of_notMem {α : Type} (m : Memory α) {i k : ℕ} {xs : List α} (h : k < i ∨ i + xs.length ≤ k) :
    m.store i xs k = m k := by
  rw [store, dif_neg (by omega)]

theorem load16_store (e : Endian) (m : Memory UInt8) (p n : ℕ) :
    (m.store p (bytes16 e n)).load16 e p = n % 65536 := by
  obtain ⟨b₀, b₁, hbytes, hword⟩ := exists_bytes16 e n
  rw [← hword, hbytes]
  simp [load16, store]

theorem load16_congr (e : Endian) {m m' : Memory UInt8} {p : ℕ} (h : m' p = m p) (h' : m' (p + 1) = m (p + 1)) :
    m'.load16 e p = m.load16 e p := by
  rw [load16, load16, h, h']

theorem load32_congr (e : Endian) {m m' : Memory UInt8} {p : ℕ} (h : ∀ k < 4, m' (p + k) = m (p + k)) :
    m'.load32 e p = m.load32 e p := by
  have hlo : m'.load16 e p = m.load16 e p := load16_congr e (h 0 (by decide)) (h 1 (by decide))
  have hhi : m'.load16 e (p + 2) = m.load16 e (p + 2) := load16_congr e (h 2 (by decide)) (h 3 (by decide))
  cases e with
  | little => simp only [load32, hlo, hhi]
  | big => simp only [load32, hlo, hhi]

theorem load64_congr (e : Endian) {m m' : Memory UInt8} {p : ℕ} (h : ∀ k < 8, m' (p + k) = m (p + k)) :
    m'.load64 e p = m.load64 e p := by
  have hlo : m'.load32 e p = m.load32 e p := load32_congr e fun k hk => h k (by omega)
  have hhi : m'.load32 e (p + 4) = m.load32 e (p + 4) := load32_congr e fun k hk => by
    rw [Nat.add_assoc]
    exact h (4 + k) (by omega)
  cases e with
  | little => simp only [load64, hlo, hhi]
  | big => simp only [load64, hlo, hhi]

theorem load32_lt (e : Endian) (m : Memory UInt8) (p : ℕ) : m.load32 e p < 2 ^ 32 := by
  have hlo := word16_le e (m p) (m (p + 1))
  have hhi := word16_le e (m (p + 2)) (m (p + 2 + 1))
  cases e with
  | little =>
    simp only [load32, load16]
    omega
  | big =>
    simp only [load32, load16]
    omega

theorem load16_store_of_disjoint (e : Endian) (m : Memory UInt8) {i p : ℕ} {xs : List UInt8}
    (h : p + 2 ≤ i ∨ i + xs.length ≤ p) : (m.store i xs).load16 e p = m.load16 e p := by
  apply load16_congr e
  · exact m.store_of_notMem (by omega)
  · exact m.store_of_notMem (by omega)

end Memory

end UnixNetProg.Lib
