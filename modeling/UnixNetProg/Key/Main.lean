import UnixNetProg.Key.Add
import UnixNetProg.Libc

/-!
# The command line of `key/add.c`

`main` checks its five arguments and calls `sadb_add`. The number of bits goes through `strtoul` into an `int`,
and the key is read in steps of two characters, each with an `sscanf` that has its own notion of what two
characters are.
-/

namespace UnixNetProg.Key

open Lib

/-- The calls of `err_quit`, in the order of the source. -/
inductive AddQuit where
  | unknownSrc
  | unknownDst
  | families
  | algorithm
  | bits
  | notEnough
  | invalidDigit
  | tooMany
  deriving DecidableEq, Repr

/-- `argv[1]` to `argv[5]`, the first three with what `getaddrinfo` and `getsaalgbyname` find for them. -/
structure CommandLine where
  src : Option Sockaddr
  dst : Option Sockaddr
  alg : ℤ
  bits : CString
  key : CString

/-- The arguments that `sadb_add` is called with, where it is reached. -/
structure AddArgs where
  src : Sockaddr
  dst : Sockaddr
  alg : ℤ
  keybits : ℤ
  keydata : List Byte

/-- `argv[4]` as a number of bits. -/
def parseBits (s : CString) : Option ℤ :=
  match strtoul s with
  | none => none
  | some (n, ep) => if ep ≠ [] ∨ (toInt32 n).tmod 8 ≠ 0 then none else some (toInt32 n)

/-- The key without the `0x` in front of it. -/
def keyString (s : CString) : CString :=
  match s with
  | 48 :: x :: t => if x = 120 ∨ x = 88 then t else s
  | _ => s

/-- The loop over the key, with the number of rounds that are left. -/
def keyLoop : ℕ → CString → ℤ → Except AddQuit (List Byte)
  | 0, _, len => if 0 < len then .error .tooMany else .ok []
  | n + 1, p, len =>
    if len < 2 then .error .notEnough
    else
      match sscanf2x p with
      | none => .error .invalidDigit
      | some c => (keyLoop n (p.drop 2) (len - 2)).map (c :: ·)

/-- The rounds of `for (i = 0; i < keybits; i += 8)`. -/
def rounds (keybits : ℤ) : ℕ := ((keybits + 7) / 8).toNat

def parseKey (keybits : ℤ) (s : CString) : Except AddQuit (List Byte) :=
  keyLoop (rounds keybits) (keyString s) (toInt32 (keyString s).length)

def main (c : CommandLine) : Except AddQuit AddArgs :=
  match c.src, c.dst with
  | none, _ => .error .unknownSrc
  | some _, none => .error .unknownDst
  | some src, some dst =>
    if src.family ≠ dst.family then .error .families
    else if c.alg < 0 then .error .algorithm
    else
      match parseBits c.bits with
      | none => .error .bits
      | some keybits => (parseKey keybits c.key).map fun keydata => ⟨src, dst, c.alg, keybits, keydata⟩

/-! ### The key -/

/-- A string of `n` pairs of hexadecimal digits. -/
def HexKey (n : ℕ) (s : CString) : Prop := s.length = 2 * n ∧ ∀ c ∈ s, isxdigit c

/-- The values of the pairs. -/
def pairBytes : CString → List Byte
  | a :: b :: s => UInt8.ofNat (16 * hexDigit a + hexDigit b) :: pairBytes s
  | _ => []

/-- The length that the loop takes: `len` is an `int`, and may be negative for a long string. -/
def LenOk (n : ℕ) (len : ℤ) : Prop := len = 2 * n ∨ n = 0 ∧ len < 0

/-- Two characters forward at a time, there is something to read. -/
def AllScan (n : ℕ) (s : CString) : Prop := ∀ i < n, sscanf2x (s.drop (2 * i)) ≠ none

theorem keyLoop_ok_iff (n : ℕ) (s : CString) (len : ℤ) :
    (∃ keydata, keyLoop n s len = .ok keydata) ↔ LenOk n len ∧ AllScan n s := by
  induction n generalizing s len with
  | zero =>
    rw [keyLoop]
    have hscan : AllScan 0 s := fun i hi => absurd hi (Nat.not_lt_zero i)
    split_ifs with hlen
    · refine ⟨fun ⟨_, h⟩ => (by cases h), fun ⟨h, _⟩ => ?_⟩
      unfold LenOk at h
      omega
    · refine ⟨fun _ => ⟨?_, hscan⟩, fun _ => ⟨[], rfl⟩⟩
      unfold LenOk
      omega
  | succ n ih =>
    have hshift : AllScan (n + 1) s ↔ sscanf2x s ≠ none ∧ AllScan n (s.drop 2) := by
      constructor
      · intro h
        refine ⟨h 0 (Nat.succ_pos n), fun i hi => ?_⟩
        have := h (i + 1) (Nat.succ_lt_succ hi)
        rw [List.drop_drop]
        rwa [Nat.mul_succ, Nat.add_comm] at this
      · rintro ⟨h0, h⟩ i hi
        cases i with
        | zero => exact h0
        | succ i =>
          have := h i (Nat.lt_of_succ_lt_succ hi)
          rw [List.drop_drop] at this
          rwa [Nat.mul_succ, Nat.add_comm]
    rw [hshift, keyLoop]
    by_cases hlen : len < 2
    · rw [if_pos hlen]
      refine ⟨fun ⟨_, h⟩ => (by cases h), fun ⟨h, _⟩ => ?_⟩
      unfold LenOk at h
      omega
    · rw [if_neg hlen]
      cases hscan : sscanf2x s with
      | none => exact ⟨fun ⟨_, h⟩ => (by cases h), fun ⟨_, h, _⟩ => absurd rfl h⟩
      | some c =>
        have hlens : LenOk n (len - 2) ↔ LenOk (n + 1) len := by
          unfold LenOk
          omega
        rw [← hlens]
        have hmap : (∃ keydata, (keyLoop n (s.drop 2) (len - 2)).map (c :: ·) = .ok keydata) ↔
            ∃ keydata, keyLoop n (s.drop 2) (len - 2) = .ok keydata := by
          cases keyLoop n (s.drop 2) (len - 2) with
          | error e => exact ⟨fun ⟨_, h⟩ => (by cases h), fun ⟨_, h⟩ => (by cases h)⟩
          | ok rest => exact ⟨fun _ => ⟨_, rfl⟩, fun _ => ⟨_, rfl⟩⟩
        rw [hmap, ih]
        exact ⟨fun ⟨hl, ha⟩ => ⟨hl, nofun, ha⟩, fun ⟨hl, _, ha⟩ => ⟨hl, ha⟩⟩

theorem toNat_of_isxdigit {c : Byte} (h : isxdigit c) : 48 ≤ c.toNat := by
  simp only [isxdigit, isdigit, Bool.or_eq_true, Bool.and_eq_true, decide_eq_true_eq, UInt8.le_iff_toNat_le,
    UInt8.reduceToNat] at h
  omega

theorem isxdigit_plain {c : Byte} (h : isxdigit c) : isspace c = false ∧ c ≠ 43 ∧ c ≠ 45 := by
  have hge := toNat_of_isxdigit h
  refine ⟨?_, ?_, ?_⟩
  · simp only [isspace, Bool.or_eq_false_iff, beq_eq_false_iff_ne, Bool.and_eq_false_iff, decide_eq_false_iff_not,
      UInt8.le_iff_toNat_le, UInt8.reduceToNat]
    refine ⟨?_, .inr (by omega)⟩
    rintro rfl
    exact absurd hge (by decide)
  · rintro rfl
    exact absurd hge (by decide)
  · rintro rfl
    exact absurd hge (by decide)

theorem sscanf2x_pair {a b : Byte} (ha : isxdigit a) (hb : isxdigit b) (s : CString) :
    sscanf2x (a :: b :: s) = some (UInt8.ofNat (16 * hexDigit a + hexDigit b)) := by
  obtain ⟨hspace, hplus, hminus⟩ := isxdigit_plain ha
  have hfield : ((a :: b :: s).dropWhile isspace).take 2 = [a, b] := by
    rw [List.dropWhile_cons_of_neg (by rw [hspace]; decide)]
    rfl
  rw [sscanf2x, hfield]
  dsimp only
  rw [if_neg hplus, if_neg hminus, if_neg (not_not_intro ha), if_pos hb]

theorem keyLoop_hex {n : ℕ} {s : CString} (h : HexKey n s) : keyLoop n s (2 * n) = .ok (pairBytes s) := by
  obtain ⟨hlen, hdigits⟩ := h
  induction n generalizing s with
  | zero =>
    obtain rfl := List.length_eq_zero_iff.mp hlen
    rfl
  | succ n ih =>
    match s, hlen, hdigits with
    | a :: b :: s, hlen, hdigits =>
      rw [List.length_cons, List.length_cons] at hlen
      have ha := hdigits a List.mem_cons_self
      have hb := hdigits b (List.mem_cons_of_mem _ List.mem_cons_self)
      have hrest := ih (s := s) (by omega) fun c hc => hdigits c (List.mem_cons_of_mem _ (List.mem_cons_of_mem _ hc))
      have hnat : ((n + 1 : ℕ) : ℤ) * 2 - 2 = n * 2 := by omega
      rw [keyLoop, if_neg (by omega), sscanf2x_pair ha hb]
      dsimp only
      rw [Int.mul_comm 2, hnat, Int.mul_comm]
      show (keyLoop n s (2 * n)).map _ = _
      rw [hrest]
      rfl

/-! ### What `main` accepts -/

theorem toInt32_of_lt {n : ℕ} (h : n < 2 ^ 31) : toInt32 n = n := by
  rw [toInt32, BitVec.toInt_ofNat']
  exact Int.bmod_eq_of_le (by omega) (by omega)

theorem toInt32_bounds (n : ℕ) : -2 ^ 31 ≤ toInt32 n ∧ toInt32 n < 2 ^ 31 :=
  ⟨BitVec.le_toInt _, BitVec.toInt_lt⟩

theorem parseBits_spec {s : CString} {keybits : ℤ} (h : parseBits s = some keybits) :
    keybits % 8 = 0 ∧ -2 ^ 31 ≤ keybits ∧ keybits < 2 ^ 31 := by
  unfold parseBits at h
  cases hn : strtoul s with
  | none =>
    rw [hn] at h
    cases h
  | some r =>
    obtain ⟨n, ep⟩ := r
    rw [hn] at h
    dsimp only at h
    split_ifs at h with hbad
    obtain rfl := Option.some.inj h
    have hmod := not_not.mp (not_or.mp hbad).2
    exact ⟨Int.emod_eq_zero_of_dvd (Int.dvd_of_tmod_eq_zero hmod), toInt32_bounds n⟩

/-- The arguments before the key are accepted. -/
structure Checked (c : CommandLine) (src dst : Sockaddr) (keybits : ℤ) : Prop where
  foundSrc : c.src = some src
  foundDst : c.dst = some dst
  sameFamily : src.family = dst.family
  knownAlg : 0 ≤ c.alg
  bits : parseBits c.bits = some keybits

theorem main_eq {c : CommandLine} {src dst : Sockaddr} {keybits : ℤ} (h : Checked c src dst keybits) :
    main c = (parseKey keybits c.key).map fun keydata => ⟨src, dst, c.alg, keybits, keydata⟩ := by
  rw [main, h.foundSrc, h.foundDst]
  dsimp only
  rw [if_neg (not_not_intro h.sameFamily), if_neg (Int.not_lt.mpr h.knownAlg), h.bits]

theorem checked_of_main {c : CommandLine} {a : AddArgs} (h : main c = .ok a) : Checked c a.src a.dst a.keybits := by
  unfold main at h
  cases hsrc : c.src with
  | none =>
    rw [hsrc] at h
    cases h
  | some src =>
    cases hdst : c.dst with
    | none =>
      rw [hsrc, hdst] at h
      cases h
    | some dst =>
      rw [hsrc, hdst] at h
      dsimp only at h
      split_ifs at h with hfamily halg
      cases hbits : parseBits c.bits with
      | none =>
        rw [hbits] at h
        cases h
      | some keybits =>
        rw [hbits] at h
        dsimp only at h
        cases hkey : parseKey keybits c.key with
        | error e =>
          rw [hkey] at h
          cases h
        | ok keydata =>
          rw [hkey] at h
          obtain rfl := Except.ok.inj h
          exact ⟨hsrc, hdst, not_not.mp hfamily, Int.not_lt.mp halg, hbits⟩

/-- What the key argument should do: `sadb_add` is reached with just the keys of so many hexadecimal digits, and
gets the bytes that they stand for. -/
def ParsesKey (c : CommandLine) (n : ℕ) : Prop :=
  ((∃ a, main c = .ok a) ↔ HexKey n (keyString c.key)) ∧
    ∀ a, main c = .ok a → a.keydata = pairBytes (keyString c.key)

section Key

variable {c : CommandLine} {src dst : Sockaddr} {keybits : ℤ}

theorem rounds_eq (h8 : keybits % 8 = 0) : rounds keybits = (keybits / 8).toNat := by
  rw [rounds]
  congr 1
  omega

theorem main_ok_iff (hc : Checked c src dst keybits) :
    (∃ a, main c = .ok a) ↔
      LenOk (keybits / 8).toNat (toInt32 (keyString c.key).length) ∧ AllScan (keybits / 8).toNat (keyString c.key) := by
  rw [main_eq hc, ← keyLoop_ok_iff, ← rounds_eq (parseBits_spec hc.bits).1, ← parseKey]
  cases parseKey keybits c.key with
  | error e => exact ⟨fun ⟨_, h⟩ => (by cases h), fun ⟨_, h⟩ => (by cases h)⟩
  | ok keydata => exact ⟨fun _ => ⟨_, rfl⟩, fun _ => ⟨_, rfl⟩⟩

theorem main_hex (hc : Checked c src dst keybits) (h0 : 0 ≤ keybits)
    (hhex : HexKey (keybits / 8).toNat (keyString c.key)) :
    main c = .ok ⟨src, dst, c.alg, keybits, pairBytes (keyString c.key)⟩ := by
  obtain ⟨h8, -, hmax⟩ := parseBits_spec hc.bits
  have hlen : toInt32 (keyString c.key).length = 2 * (keybits / 8).toNat := by
    rw [toInt32_of_lt (by rw [hhex.1]; omega), hhex.1]
    exact Int.natCast_mul 2 _
  rw [main_eq hc, parseKey, rounds_eq h8, hlen, keyLoop_hex hhex]
  rfl

end Key

/-- **The key of `key/add.c`.** A key that is not made of pairs of digits is taken, too, when its length is the
right one for an `int` and each second character begins something that `sscanf` takes for a number. Any other
key is handled as it should be. -/
theorem parsesKey_iff (c : CommandLine) (src dst : Sockaddr) (keybits : ℤ) (hc : Checked c src dst keybits)
    (h0 : 0 ≤ keybits) :
    ParsesKey c (keybits / 8).toNat ↔
      HexKey (keybits / 8).toNat (keyString c.key) ∨
        ¬ LenOk (keybits / 8).toNat (toInt32 (keyString c.key).length) ∨
        ¬ AllScan (keybits / 8).toNat (keyString c.key) := by
  have hok := main_ok_iff hc
  constructor
  · intro hright
    by_contra hcond
    rw [not_or, not_or, not_not, not_not] at hcond
    exact hcond.1 (hright.1.mp (hok.mpr hcond.2))
  · intro hcond
    by_cases hhex : HexKey (keybits / 8).toNat (keyString c.key)
    · have hmain := main_hex hc h0 hhex
      refine ⟨⟨fun _ => hhex, fun _ => ⟨_, hmain⟩⟩, fun a ha => ?_⟩
      rw [hmain] at ha
      obtain rfl := Except.ok.inj ha
      rfl
    · have hquit : ¬ ∃ a, main c = .ok a := fun h => by
        obtain ⟨hlen, hscan⟩ := hok.mp h
        exact (hcond.resolve_left hhex).elim (fun hn => hn hlen) fun hn => hn hscan
      exact ⟨⟨fun h => absurd h hquit, fun h => absurd h hhex⟩, fun a ha => absurd ⟨a, ha⟩ hquit⟩

/-- Some IPv4 address. -/
def anInet : Sockaddr := ⟨.inet, List.replicate 16 0, by decide⟩

theorem parsesKey_iff_sample :
    Checked ⟨some anInet, some anInet, 2, cstr "16", cstr "0x1f2E"⟩ anInet anInet 16 ∧
    (ParsesKey ⟨some anInet, some anInet, 2, cstr "16", cstr "0x1f2E"⟩ 2 ↔
      HexKey 2 (cstr "1f2E") ∨ ¬ LenOk 2 4 ∨ ¬ AllScan 2 (cstr "1f2E")) := by
  have hc : Checked ⟨some anInet, some anInet, 2, cstr "16", cstr "0x1f2E"⟩ anInet anInet 16 :=
    ⟨rfl, rfl, rfl, by decide, by decide⟩
  exact ⟨hc, parsesKey_iff _ anInet anInet 16 hc (by decide)⟩

/-- `8` bits and the key `1g`: it is taken for a 1. -/
theorem not_parsesKey :
    main ⟨some anInet, some anInet, 2, cstr "8", cstr "1g"⟩ = .ok ⟨anInet, anInet, 2, 8, [1]⟩ ∧
    ¬ ParsesKey ⟨some anInet, some anInet, 2, cstr "8", cstr "1g"⟩ 1 := by
  have hmain : main ⟨some anInet, some anInet, 2, cstr "8", cstr "1g"⟩ = .ok ⟨anInet, anInet, 2, 8, [1]⟩ := rfl
  refine ⟨hmain, fun hright => ?_⟩
  have hhex := (hright.1.mp ⟨_, hmain⟩).2 103 (by decide)
  exact absurd hhex (by decide)

end UnixNetProg.Key
