import UnixNetProg.Libfree.InetPton6

/-!
# `inet_ntop` for IPv6 (`libfree/inet_ntop.c`), and `inet_pton` as its inverse

The text has `::` for the first of the longest runs of zero words. A run is a part of the words, so two runs can lie
one in the other.
-/

namespace UnixNetProg.Libfree

open Lib Libgai

/-- `best` and `cur`; `none` is the base -1. -/
structure Run where
  base : ℕ
  len : ℕ
  deriving DecidableEq

/-- Copy the input (bytewise) array into a wordwise array. -/
def words (src : List Byte) : List ℕ :=
  (List.range 16).foldl
    (fun words i => words.set (i / 2) (words.getD (i / 2) 0 ||| (src.getD i 0).toNat <<< ((1 - i % 2) <<< 3)))
    (List.replicate 8 0)

def better (best : Option Run) (cur : Run) : Option Run :=
  match best with
  | none => some cur
  | some b => if b.len < cur.len then some cur else some b

/-- `better` for a `cur` that may be the base -1. -/
def betterOf (best cur : Option Run) : Option Run :=
  match cur with
  | none => best
  | some c => better best c

/-- `cur` with the zero at `i`. -/
def grown (cur : Option Run) (i : ℕ) : Run :=
  match cur with
  | none => ⟨i, 1⟩
  | some c => { c with len := c.len + 1 }

def runLoop : List ℕ → ℕ → Option Run → Option Run → Option Run
  | [], _, best, cur => betterOf best cur
  | w :: ws, i, best, cur =>
    if w = 0 then runLoop ws (i + 1) best (some (grown cur i))
    else runLoop ws (i + 1) (betterOf best cur) none

/-- Find the longest run of 0x00's for :: shorthanding. -/
def bestRun (words : List ℕ) : Option Run := (runLoop words 0 none none).filter fun best => 2 ≤ best.len

def inRun (best : Option Run) (i : ℕ) : Prop := ∃ b ∈ best, b.base ≤ i ∧ i < b.base + b.len

instance (best : Option Run) (i : ℕ) : Decidable (inRun best i) :=
  inferInstanceAs (Decidable (∃ b ∈ best, b.base ≤ i ∧ i < b.base + b.len))

/-- Is this address an encapsulated IPv4? -/
def Encapsulated (words : List ℕ) (best : Option Run) : Prop :=
  ∃ b ∈ best, b.base = 0 ∧ (b.len = 6 ∨ b.len = 5 ∧ words.getD 5 0 = 0xffff)

instance (words : List ℕ) (best : Option Run) : Decidable (Encapsulated words best) :=
  inferInstanceAs (Decidable (∃ b ∈ best, b.base = 0 ∧ (b.len = 6 ∨ b.len = 5 ∧ words.getD 5 0 = 0xffff)))

/-- Format the words from `words[i]` on behind `tmp`. -/
def formatLoop (src : List Byte) (words : List ℕ) (best : Option Run) : List ℕ → ℕ → CString → Option CString
  | [], _, tmp => some tmp
  | w :: ws, i, tmp =>
    if inRun best i then formatLoop src words best ws (i + 1) (if best.map Run.base = some i then tmp ++ [58] else tmp)
    else
      let tmp := if i ≠ 0 then tmp ++ [58] else tmp
      if i = 6 ∧ Encapsulated words best then
        (inetNtop4 (src.drop 12) (46 - tmp.length)).map fun dst => tmp ++ stringOf dst
      else formatLoop src words best ws (i + 1) (tmp ++ hexadecimal w)

/-- Format the result. -/
def formatted (src : List Byte) : Option CString :=
  (formatLoop src (words src) (bestRun (words src)) (words src) 0 []).map fun tmp =>
    -- was it a trailing run of 0x00's?
    if (bestRun (words src)).map (fun b => b.base + b.len) = some 8 then tmp ++ [58] else tmp

/-- What `inet_ntop6` stores at `dst`, with the terminating 0; `none` is the return of NULL. -/
def inetNtop6 (src : List Byte) (size : ℕ) : Option (List Byte) :=
  (formatted src).bind fun tmp => if size < (tmp ++ [0]).length then none else some (tmp ++ [0])

/-! ### The best run -/

/-- All words of the run are zero, and there is one. -/
def Run.IsRun (r : Run) (words : List ℕ) : Prop := 0 < r.len ∧ ∀ k < r.len, words[r.base + k]? = some 0

/-- Longer, or as long and not behind. -/
def Run.Beats (r q : Run) : Prop := q.len < r.len ∨ q.len = r.len ∧ r.base ≤ q.base

theorem Run.IsRun.le_length {r : Run} {words : List ℕ} (h : r.IsRun words) : r.base + r.len ≤ words.length := by
  have hlast := (List.getElem?_eq_some_iff.mp (h.2 (r.len - 1) (by have := h.1; omega))).1
  have hpos := h.1
  omega

theorem Run.IsRun.append_singleton {r : Run} {pre : List ℕ} {w : ℕ} (h : r.IsRun (pre ++ [w])) :
    r.IsRun pre ∨ r.base + r.len = pre.length + 1 ∧ w = 0 ∧ (r.len = 1 ∨ Run.IsRun ⟨r.base, r.len - 1⟩ pre) := by
  have hle := h.le_length
  rw [List.length_append, List.length_singleton] at hle
  have hfront : ∀ k < r.len, r.base + k < pre.length → pre[r.base + k]? = some 0 := by
    intro k hk hlt
    rw [← List.getElem?_append_left hlt]
    exact h.2 k hk
  by_cases hin : r.base + r.len ≤ pre.length
  · exact .inl ⟨h.1, fun k hk => hfront k hk (by omega)⟩
  · refine .inr ⟨by omega, ?_, ?_⟩
    · have hlast := h.2 (r.len - 1) (by have := h.1; omega)
      have hplace : r.base + (r.len - 1) = pre.length := by have := h.1; omega
      rw [hplace, List.getElem?_concat_length] at hlast
      exact Option.some.inj hlast
    · by_cases hone : r.len = 1
      · exact .inl hone
      · have hpos := h.1
        exact .inr ⟨show 0 < r.len - 1 by omega, fun k (hk : k < r.len - 1) =>
          hfront k (by omega) (show r.base + k < _ by omega)⟩

theorem Run.IsRun.append {r : Run} {pre : List ℕ} (h : r.IsRun pre) (ws : List ℕ) : r.IsRun (pre ++ ws) := by
  refine ⟨h.1, fun k hk => ?_⟩
  rw [List.getElem?_append_left (List.getElem?_eq_some_iff.mp (h.2 k hk)).1]
  exact h.2 k hk

/-- The loop has seen the words `pre`. -/
structure Scanned (pre : List ℕ) (best cur : Option Run) : Prop where
  sound : ∀ b ∈ best, b.IsRun pre
  current : ∀ c ∈ cur, c.IsRun pre ∧ c.base + c.len = pre.length
  order : ∀ b ∈ best, ∀ c ∈ cur, b.base ≤ c.base
  covered : ∀ q : Run, q.IsRun pre → (∃ b ∈ best, b.Beats q) ∨ ∃ c ∈ cur, c.base ≤ q.base
  atEnd : ∀ q : Run, q.IsRun pre → q.base + q.len = pre.length → ∃ c ∈ cur, c.base ≤ q.base

theorem scanned_nil : Scanned [] none none := by
  have hnone : ∀ q : Run, ¬ q.IsRun [] := by
    intro q hq
    have hle := hq.le_length
    have hpos := hq.1
    simp only [List.length_nil] at hle
    omega
  exact ⟨by simp, by simp, by simp, fun q hq => absurd hq (hnone q), fun q hq => absurd hq (hnone q)⟩

theorem Scanned.grown_isRun {pre : List ℕ} {best cur : Option Run} (h : Scanned pre best cur) :
    (grown cur pre.length).IsRun (pre ++ [0]) ∧
      (grown cur pre.length).base + (grown cur pre.length).len = (pre ++ [0]).length := by
  rw [List.length_append, List.length_singleton]
  cases cur with
  | none =>
    refine ⟨⟨Nat.one_pos, fun k hk => ?_⟩, rfl⟩
    obtain rfl : k = 0 := Nat.lt_one_iff.mp hk
    exact List.getElem?_concat_length
  | some c =>
    obtain ⟨hrun, hend⟩ := h.current c rfl
    refine ⟨⟨Nat.succ_pos _, fun k (hk : k < c.len + 1) => ?_⟩, congrArg (· + 1) hend⟩
    by_cases hlast : k = c.len
    · rw [hlast]
      show (pre ++ [0])[c.base + c.len]? = some 0
      rw [hend]
      exact List.getElem?_concat_length
    · exact (hrun.append [0]).2 k (by omega)

theorem Scanned.grown_base_le {pre : List ℕ} {best cur : Option Run} (h : Scanned pre best cur) {q : Run}
    (hq : q.IsRun (pre ++ [0])) (hend : q.base + q.len = (pre ++ [0]).length) :
    (grown cur pre.length).base ≤ q.base := by
  rw [List.length_append, List.length_singleton] at hend
  have hplace : ∀ c : Run, cur = some c → c.base ≤ pre.length := by
    rintro c rfl
    exact le_trans (Nat.le_add_right _ _) (le_of_eq (h.current c rfl).2)
  have hbase : q.len = 1 ∨ ∃ c ∈ cur, c.base ≤ q.base := by
    rcases hq.append_singleton with hq | ⟨-, -, hone | hrest⟩
    · have hle := hq.le_length
      omega
    · exact .inl hone
    · have hpos := hrest.1
      exact .inr (h.atEnd ⟨q.base, q.len - 1⟩ hrest (by dsimp only at hpos ⊢; omega))
  cases cur with
  | none =>
    rcases hbase with hone | ⟨c, hc, -⟩
    · show pre.length ≤ q.base
      omega
    · cases hc
  | some c =>
    show c.base ≤ q.base
    rcases hbase with hone | ⟨c', hc', hle⟩
    · have hle := hplace c rfl
      omega
    · cases hc'
      exact hle

theorem Scanned.zero {pre : List ℕ} {best cur : Option Run} (h : Scanned pre best cur) :
    Scanned (pre ++ [0]) best (some (grown cur pre.length)) where
  sound b hb := (h.sound b hb).append [0]
  current := by
    rintro c ⟨⟩
    exact h.grown_isRun
  order := by
    rintro b hb c ⟨⟩
    cases cur with
    | none => exact le_trans (Nat.le_add_right _ _) (h.sound b hb).le_length
    | some c => exact h.order b hb c rfl
  covered q hq := by
    by_cases hend : q.base + q.len = (pre ++ [0]).length
    · exact .inr ⟨_, rfl, h.grown_base_le hq hend⟩
    · have hpre : q.IsRun pre := hq.append_singleton.resolve_right fun hlast => hend (by simpa using hlast.1)
      refine (h.covered q hpre).imp_right ?_
      rintro ⟨c, rfl, hle⟩
      exact ⟨_, rfl, hle⟩
  atEnd q hq hend := ⟨_, rfl, h.grown_base_le hq hend⟩

theorem Scanned.betterOf {pre : List ℕ} {best cur : Option Run} (h : Scanned pre best cur) :
    (∀ b ∈ Libfree.betterOf best cur, b.IsRun pre) ∧
      ∀ q : Run, q.IsRun pre → ∃ b ∈ Libfree.betterOf best cur, b.Beats q := by
  cases cur with
  | none =>
    refine ⟨h.sound, fun q hq => (h.covered q hq).resolve_right ?_⟩
    rintro ⟨c, hc, -⟩
    cases hc
  | some c =>
    obtain ⟨hrun, hend⟩ := h.current c rfl
    -- `c` is the longest of the runs that are not in front of it
    have hcur : ∀ q : Run, q.IsRun pre → c.base ≤ q.base → c.Beats q := by
      intro q hq hle
      have hq := hq.le_length
      rw [Run.Beats]
      omega
    cases best with
    | none =>
      show (∀ b ∈ some c, b.IsRun pre) ∧ ∀ q : Run, q.IsRun pre → ∃ b ∈ some c, b.Beats q
      refine ⟨?_, fun q hq => ⟨c, rfl, ?_⟩⟩
      · rintro b ⟨⟩
        exact hrun
      · rcases h.covered q hq with ⟨b, hb, -⟩ | ⟨c', hc', hle⟩
        · cases hb
        · cases hc'
          exact hcur q hq hle
    | some b =>
      have horder := h.order b rfl c rfl
      have hbetter : Libfree.betterOf (some b) (some c) = if b.len < c.len then some c else some b := rfl
      rw [hbetter]
      split_ifs with hlt
      · refine ⟨?_, fun q hq => ⟨c, rfl, ?_⟩⟩
        · rintro b ⟨⟩
          exact hrun
        · rcases h.covered q hq with ⟨b', hb', hbeats⟩ | ⟨c', hc', hle⟩
          · cases hb'
            simp only [Run.Beats] at hbeats ⊢
            omega
          · cases hc'
            exact hcur q hq hle
      · refine ⟨h.sound, fun q hq => ⟨b, rfl, ?_⟩⟩
        rcases h.covered q hq with ⟨b', hb', hbeats⟩ | ⟨c', hc', hle⟩
        · cases hb'
          exact hbeats
        · cases hc'
          have hbeats := hcur q hq hle
          simp only [Run.Beats] at hbeats ⊢
          omega

theorem Scanned.nonzero {pre : List ℕ} {best cur : Option Run} (h : Scanned pre best cur) {w : ℕ} (hw : w ≠ 0) :
    Scanned (pre ++ [w]) (Libfree.betterOf best cur) none := by
  obtain ⟨hsound, hbeats⟩ := h.betterOf
  have hpre : ∀ q : Run, q.IsRun (pre ++ [w]) → q.IsRun pre := fun q hq =>
    hq.append_singleton.resolve_right fun hlast => hw hlast.2.1
  refine ⟨fun b hb => (hsound b hb).append [w], by simp, by simp, fun q hq => .inl (hbeats q (hpre q hq)), ?_⟩
  intro q hq hend
  have hle := (hpre q hq).le_length
  rw [List.length_append, List.length_singleton] at hend
  omega

theorem runLoop_scanned (ws : List ℕ) {pre : List ℕ} {best cur : Option Run} (h : Scanned pre best cur) :
    (∀ b ∈ runLoop ws pre.length best cur, b.IsRun (pre ++ ws)) ∧
      ∀ q : Run, q.IsRun (pre ++ ws) → ∃ b ∈ runLoop ws pre.length best cur, b.Beats q := by
  induction ws generalizing pre best cur with
  | nil =>
    rw [List.append_nil]
    exact h.betterOf
  | cons w ws ih =>
    have hassoc : pre ++ w :: ws = pre ++ [w] ++ ws := by simp
    have hlen : pre.length + 1 = (pre ++ [w]).length := by simp
    rw [runLoop, hassoc, hlen]
    split_ifs with hw
    · subst hw
      exact ih h.zero
    · exact ih (h.nonzero hw)

/-- `best` is the first of the longest runs, if that has two words. -/
theorem bestRun_eq_some_iff {words : List ℕ} {r : Run} :
    bestRun words = some r ↔ 2 ≤ r.len ∧ r.IsRun words ∧ ∀ q : Run, q.IsRun words → r.Beats q := by
  obtain ⟨hsound, hbeats⟩ := runLoop_scanned words scanned_nil
  rw [List.nil_append, List.length_nil] at hsound hbeats
  rw [bestRun, Option.filter_eq_some_iff, decide_eq_true_eq]
  constructor
  · rintro ⟨hr, hlen⟩
    refine ⟨hlen, hsound r hr, fun q hq => ?_⟩
    obtain ⟨b, hb, hbq⟩ := hbeats q hq
    rw [hr] at hb
    exact Option.some.inj hb ▸ hbq
  · rintro ⟨hlen, hrun, hmax⟩
    refine ⟨?_, hlen⟩
    obtain ⟨b, hb, hbr⟩ := hbeats r hrun
    have hrb := hmax b (hsound b hb)
    have heq : b = r := by
      cases b
      cases r
      simp only [Run.Beats] at hbr hrb
      rw [Run.mk.injEq]
      omega
    exact heq ▸ hb

/-! ### The words -/

theorem bytes16_word16 (a b : Byte) : bytes16 .big (word16 .big a b) = [a, b] := by
  have ha := a.toNat_lt
  have hb := b.toNat_lt
  rw [word16, bytes16, ofNat_eq_of_mod (x := a) (by omega), ofNat_eq_of_mod (x := b) (by omega)]

theorem words_eq (src : List Byte) :
    words src = (List.range 8).map fun j => word16 .big (src.getD (2 * j) 0) (src.getD (2 * j + 1) 0) := by
  have hword : ∀ a b : Byte, a.toNat <<< 8 ||| b.toNat = word16 .big a b := by
    intro a b
    rw [← Nat.shiftLeft_add_eq_or_of_lt (show b.toNat < 2 ^ 8 from b.toNat_lt), Nat.shiftLeft_eq,
      Nat.mul_comm]
    rfl
  simp only [words, List.range_succ, List.range_zero, List.nil_append, List.cons_append, List.foldl_cons,
    List.foldl_nil, List.replicate_succ, List.replicate_zero, List.map_cons, List.map_nil]
  simp [hword]

theorem length_words (src : List Byte) : (words src).length = 8 := by
  rw [words_eq, List.length_map, List.length_range]

theorem words_lt {src : List Byte} {w : ℕ} (h : w ∈ words src) : w < 65536 := by
  rw [words_eq] at h
  obtain ⟨j, -, rfl⟩ := List.mem_map.mp h
  have hle := word16_le .big (src.getD (2 * j) 0) (src.getD (2 * j + 1) 0)
  omega

theorem flatMap_words {src : List Byte} (h : src.length = 16) : (words src).flatMap (bytes16 .big) = src := by
  have hsrc : (List.range 16).map (src.getD · 0) = src := by
    refine List.ext_getElem (by simp [h]) fun k hk hk' => ?_
    simp [List.getElem?_eq_getElem hk']
  rw [words_eq, List.flatMap_map]
  simp only [bytes16_word16]
  exact hsrc

theorem hexChar_spec {d : ℕ} (hd : d < 16) :
    isxdigit (UInt8.ofNat (if d < 10 then 48 + d else 87 + d)) = true ∧
      hexDigit (UInt8.ofNat (if d < 10 then 48 + d else 87 + d)) = d := by
  revert d
  decide

theorem hexadecimal_isxdigit (n : ℕ) : ∀ c ∈ hexadecimal n, isxdigit c = true := by
  intro c hc
  unfold hexadecimal at hc
  split_ifs at hc with h0
  · rw [List.mem_singleton.mp hc]
    decide
  · obtain ⟨d, hd, rfl⟩ := List.mem_map.mp hc
    exact (hexChar_spec (Nat.digits_lt_base (by decide) (List.mem_reverse.mp hd))).1

theorem hexadecimal_ne_nil (n : ℕ) : hexadecimal n ≠ [] := by
  unfold hexadecimal
  split_ifs with h0
  · simp
  · simpa [Nat.digits_eq_nil_iff_eq_zero] using h0

theorem numeral_hexadecimal (n : ℕ) : numeral 16 hexDigit 0 (hexadecimal n) = n := by
  unfold hexadecimal
  split_ifs with h0
  · rw [h0]
    rfl
  · exact numeral_digits (by decide) (fun d hd => (hexChar_spec hd).2) n

theorem length_hexadecimal_le {n : ℕ} (hn : n < 65536) : (hexadecimal n).length ≤ 4 := by
  unfold hexadecimal
  split_ifs with h0
  · decide
  · rw [List.length_map, List.length_reverse]
    exact (Nat.digits_length_le_iff (by decide) n).mpr hn

/-- The group for a word. -/
def Group.ofWord (w : ℕ) : Group where
  digits := hexadecimal (w % 65536)
  ne_nil := hexadecimal_ne_nil _
  all_xdigits := hexadecimal_isxdigit _
  le := by
    rw [numeral_hexadecimal]
    omega

theorem Group.ofWord_digits {ws : List ℕ} (hws : ∀ w ∈ ws, w < 65536) :
    (ws.map Group.ofWord).map Group.digits = ws.map hexadecimal := by
  rw [List.map_map]
  refine List.map_congr_left fun w hw => ?_
  show hexadecimal (w % 65536) = hexadecimal w
  rw [Nat.mod_eq_of_lt (hws w hw)]

theorem Group.ofWord_value {ws : List ℕ} (hws : ∀ w ∈ ws, w < 65536) :
    (ws.map Group.ofWord).flatMap Group.value = ws.flatMap (bytes16 .big) := by
  rw [List.flatMap_map]
  refine List.flatMap_congr fun w hw => ?_
  show bytes16 .big (numeral 16 hexDigit 0 (hexadecimal (w % 65536))) = _
  rw [numeral_hexadecimal, Nat.mod_eq_of_lt (hws w hw)]

/-! ### The text -/

theorem intercalate_cons {sep : Byte} (x : CString) (xs : List CString) :
    [sep].intercalate (x :: xs) = x ++ xs.flatMap (sep :: ·) := by
  induction xs generalizing x with
  | nil => simp
  | cons y ys ih =>
    rw [List.intercalate_cons_cons, ih, List.flatMap_cons, List.append_assoc]
    rfl

variable {src : List Byte} {W : List ℕ} {best : Option Run}

theorem formatLoop_hex (ws rest : List ℕ) {i : ℕ} (hi : 0 < i) (tmp : CString)
    (hrun : ∀ k < ws.length, ¬ inRun best (i + k)) (henc : Encapsulated W best → i + ws.length ≤ 6) :
    formatLoop src W best (ws ++ rest) i tmp =
      formatLoop src W best rest (i + ws.length) (tmp ++ (ws.map hexadecimal).flatMap (58 :: ·)) := by
  induction ws generalizing i tmp with
  | nil => simp
  | cons w ws ih =>
    have hhere : ¬ inRun best i := hrun 0 (Nat.succ_pos _)
    have hlen : i + (w :: ws).length = i + 1 + ws.length := by
      rw [List.length_cons]
      omega
    rw [hlen] at henc ⊢
    have hnot : ¬ (i = 6 ∧ Encapsulated W best) := by
      rintro ⟨rfl, hin⟩
      have := henc hin
      omega
    rw [List.cons_append, formatLoop, if_neg hhere]
    dsimp only
    rw [if_neg hnot, if_pos (by omega), ih (i := i + 1) (Nat.succ_pos i) _ (fun k hk => ?_) henc]
    · simp
    · have hk' := hrun (k + 1) (Nat.succ_lt_succ hk)
      rw [Nat.add_assoc, Nat.add_comm 1 k]
      exact hk'

theorem formatLoop_first (ws rest : List ℕ) (hrun : ∀ k < ws.length, ¬ inRun best k)
    (henc : Encapsulated W best → ws.length ≤ 6) :
    formatLoop src W best (ws ++ rest) 0 [] =
      formatLoop src W best rest ws.length ([58].intercalate (ws.map hexadecimal)) := by
  cases ws with
  | nil => rfl
  | cons w ws =>
    have hnot : ¬ (0 = 6 ∧ Encapsulated W best) := fun h => absurd h.1 (by decide)
    rw [List.cons_append, formatLoop, if_neg (hrun 0 (Nat.succ_pos _))]
    dsimp only
    rw [if_neg hnot, if_neg (by simp), List.nil_append,
      formatLoop_hex ws rest Nat.one_pos _ (fun k hk => ?_) (fun h => ?_),
      List.map_cons, intercalate_cons, List.length_cons, Nat.add_comm]
    · rw [Nat.add_comm]
      exact hrun (k + 1) (Nat.succ_lt_succ hk)
    · have := henc h
      rw [List.length_cons] at this
      omega

theorem formatLoop_run (r : Run) (hlen : 0 < r.len) (rest : List ℕ) (tmp : CString) :
    formatLoop src W (some r) (List.replicate r.len 0 ++ rest) r.base tmp =
      formatLoop src W (some r) rest (r.base + r.len) (tmp ++ [58]) := by
  have hinside : ∀ (n i : ℕ) (tmp : CString), r.base < i → i + n ≤ r.base + r.len →
      formatLoop src W (some r) (List.replicate n 0 ++ rest) i tmp = formatLoop src W (some r) rest (i + n) tmp := by
    intro n
    induction n with
    | zero => intros; rfl
    | succ n ih =>
      intro i tmp hi hle
      have hin : inRun (some r) i := ⟨r, rfl, by omega, by omega⟩
      have hbase : ¬ Option.map Run.base (some r) = some i := fun h => by
        have := Option.some.inj h
        omega
      have hnext : i + (n + 1) = i + 1 + n := by omega
      rw [List.replicate_succ, List.cons_append, formatLoop, if_pos hin, if_neg hbase, ih _ _ (by omega) (by omega),
        hnext]
  obtain ⟨n, hn⟩ : ∃ n, r.len = n + 1 := ⟨r.len - 1, by omega⟩
  have hin : inRun (some r) r.base := ⟨r, rfl, le_refl _, by omega⟩
  have hnext : r.base + (n + 1) = r.base + 1 + n := by omega
  rw [hn, List.replicate_succ, List.cons_append, formatLoop, if_pos hin,
    if_pos (show Option.map Run.base (some r) = some r.base from rfl),
    hinside n _ _ (by omega) (by omega), hnext]

theorem Text6.text_gap {t : Text6} {right : List Group} (h : t.gap = some right) :
    t.text = [58].intercalate (t.left.map Group.digits) ++ [58] ++
      (right.map Group.digits ++ [t.last.text]).flatMap (58 :: ·) := by
  rw [text, Fields.list, h]
  dsimp only
  cases t.left with
  | nil =>
    rw [if_pos ⟨rfl, rfl⟩, List.map_nil, List.nil_append, intercalate_cons]
    rfl
  | cons g left =>
    rw [if_neg (by simp), List.map_cons, List.cons_append, intercalate_cons, intercalate_cons]
    simp

theorem Text6.text_full {t : Text6} (h : t.gap = none) :
    t.text = [58].intercalate (t.left.map Group.digits ++ [t.last.text]) := by
  rw [text, Fields.list, h, if_neg (by simp)]
  rfl

/-- How `inet_ntop6` writes an address: a gap for the best run, and short enough for `tmp[]`. -/
structure Text6.Shows (t : Text6) (src : List Byte) : Prop where
  addr : t.addr = src
  formatted : Libfree.formatted src = some t.text
  length : t.text.length ≤ 45
  gap : t.gap.isSome = (bestRun (words src)).isSome
  place : ∀ r ∈ bestRun (words src), t.front.length = 2 * r.base ∧ t.back.length = 2 * (8 - (r.base + r.len))

theorem length_flatMap_bytes16 (ws : List ℕ) : (ws.flatMap (bytes16 .big)).length = 2 * ws.length := by
  induction ws with
  | nil => rfl
  | cons w ws ih =>
    rw [List.flatMap_cons, List.length_append, ih, length_bytes16, List.length_cons]
    omega

theorem flatMap_bytes16_zeros (n : ℕ) : (List.replicate n 0).flatMap (bytes16 .big) = List.replicate (2 * n) 0 := by
  induction n with
  | zero => rfl
  | succ n ih =>
    rw [List.replicate_succ, List.flatMap_cons, ih]
    rfl

theorem length_flatMap_hexadecimal {ws : List ℕ} (hws : ∀ w ∈ ws, w < 65536) :
    ((ws.map hexadecimal).flatMap (58 :: ·)).length ≤ 5 * ws.length := by
  induction ws with
  | nil => exact Nat.zero_le _
  | cons w ws ih =>
    have hw := length_hexadecimal_le (hws w List.mem_cons_self)
    have hih := ih fun x hx => hws x (List.mem_cons_of_mem w hx)
    rw [List.map_cons, List.flatMap_cons, List.length_append, List.length_cons, List.length_cons]
    omega

theorem length_intercalate_hexadecimal {ws : List ℕ} (hws : ∀ w ∈ ws, w < 65536) :
    ([58].intercalate (ws.map hexadecimal)).length ≤ 5 * ws.length := by
  cases ws with
  | nil => exact Nat.zero_le _
  | cons w ws =>
    have hw := length_hexadecimal_le (hws w List.mem_cons_self)
    have htail := length_flatMap_hexadecimal fun x hx => hws x (List.mem_cons_of_mem w hx)
    rw [List.map_cons, intercalate_cons, List.length_append, List.length_cons]
    omega

theorem exists_shows_none (h : src.length = 16) (hbest : bestRun (words src) = none) : ∃ t : Text6, t.Shows src := by
  obtain ⟨ws, w, hwords⟩ : ∃ ws w, words src = ws ++ [w] :=
    ⟨_, _, (List.dropLast_append_getLast (List.ne_nil_of_length_pos (by rw [length_words]; decide))).symm⟩
  have hlt : ∀ x ∈ ws ++ [w], x < 65536 := fun x hx => words_lt (hwords ▸ hx)
  have hws : ∀ x ∈ ws, x < 65536 := fun x hx => hlt x (by simp [hx])
  have hw : ∀ x ∈ [w], x < 65536 := fun x hx => hlt x (by simp_all)
  have hlen : ws.length = 7 := by
    have := length_words src
    rw [hwords, List.length_append, List.length_singleton] at this
    omega
  have hdigits := Group.ofWord_digits hlt
  have hfront := Group.ofWord_value hws
  have hback := Group.ofWord_value hw
  have hbytes := flatMap_words h
  rw [hwords, List.flatMap_append, ← hfront, ← hback] at hbytes
  have hlenf := length_flatMap_bytes16 ws
  have hlenb := length_flatMap_bytes16 [w]
  rw [← hfront, hlen] at hlenf
  rw [← hback, List.length_singleton] at hlenb
  let x : Fields := ⟨ws.map .ofWord, none, .group (.ofWord w)⟩
  have hxfront : x.front = (ws.map Group.ofWord).flatMap Group.value := rfl
  have hxback : x.back = ([w].map Group.ofWord).flatMap Group.value := (List.append_nil _).symm
  have hxlen : x.front.length + x.back.length = 16 := by rw [hxfront, hxback, hlenf, hlenb]
  let t : Text6 := ⟨x, le_of_eq hxlen, fun _ => hxlen⟩
  have htext : t.text = [58].intercalate ((ws ++ [w]).map hexadecimal) := by
    rw [t.text_full rfl, ← hdigits, List.map_append, List.map_append]
    rfl
  refine ⟨t, ?_, ?_, ?_, by rw [hbest]; rfl, by simp [hbest]⟩
  · show (if x.front.length + x.back.length < 16 then _ else if (none : Option (List Group)).isSome then _ else
      x.front ++ x.back) = src
    rw [if_neg (by omega), if_neg (by simp), hxfront, hxback, hbytes]
  · have hloop : formatLoop src (ws ++ [w]) none (ws ++ [w] ++ []) 0 [] = _ :=
      formatLoop_first (ws ++ [w]) [] (by simp [inRun]) (by simp [Encapsulated])
    rw [List.append_nil] at hloop
    rw [formatted, hbest, hwords, hloop, htext, formatLoop, Option.map_some, Option.map_none, if_neg (by simp)]
  · have hle := length_intercalate_hexadecimal hlt
    rw [htext]
    rw [List.length_append, hlen, List.length_singleton] at hle
    omega

theorem Run.IsRun.split {r : Run} {W : List ℕ} (h : r.IsRun W) :
    W = W.take r.base ++ (List.replicate r.len 0 ++ W.drop (r.base + r.len)) := by
  have hrun : (W.drop r.base).take r.len = List.replicate r.len 0 := by
    refine List.ext_getElem? fun k => ?_
    by_cases hk : k < r.len
    · rw [List.getElem?_take_of_lt hk, List.getElem?_drop, h.2 k hk, List.getElem?_replicate, if_pos hk]
    · rw [List.getElem?_eq_none (by simp; omega), List.getElem?_eq_none (by simp; omega)]
  rw [← hrun, ← List.drop_drop, List.take_append_drop, List.take_append_drop]

theorem flatMap_drop_words (h : src.length = 16) {k : ℕ} (hk : k ≤ 8) :
    ((words src).drop k).flatMap (bytes16 .big) = src.drop (2 * k) := by
  have hlen := length_flatMap_bytes16 ((words src).take k)
  rw [List.length_take, length_words, Nat.min_eq_left hk] at hlen
  conv_rhs => rw [← flatMap_words h, ← List.take_append_drop k (words src), List.flatMap_append]
  rw [List.drop_left' hlen]

theorem exists_shows_some (h : src.length = 16) {r : Run} (hbest : bestRun (words src) = some r) (right : List Group)
    (last : Last)
    (hback : right.flatMap Group.value ++ last.value = ((words src).drop (r.base + r.len)).flatMap (bytes16 .big))
    (hformatted : formatted src = some ([58].intercalate (((words src).take r.base).map hexadecimal) ++ [58] ++
      (right.map Group.digits ++ [last.text]).flatMap (58 :: ·)))
    (hlength : 5 * r.base + 1 + ((right.map Group.digits ++ [last.text]).flatMap (58 :: ·)).length ≤ 45) :
    ∃ t : Text6, t.Shows src := by
  obtain ⟨htwo, hrun, -⟩ := bestRun_eq_some_iff.mp hbest
  have hle := hrun.le_length
  have hsplit := congrArg (List.flatMap (bytes16 .big)) hrun.split
  have hleft : ∀ w ∈ (words src).take r.base, w < 65536 := fun w hw => words_lt (List.mem_of_mem_take hw)
  have hfront := Group.ofWord_value hleft
  have hlenf := length_flatMap_bytes16 ((words src).take r.base)
  have hlenb := length_flatMap_bytes16 ((words src).drop (r.base + r.len))
  rw [length_words] at hle
  rw [List.length_take, length_words, Nat.min_eq_left (by omega), ← hfront] at hlenf
  rw [List.length_drop, length_words, ← hback] at hlenb
  let x : Fields := ⟨((words src).take r.base).map .ofWord, some right, last⟩
  have hxfront : x.front.length = 2 * r.base := hlenf
  have hxback : x.back.length = 2 * (8 - (r.base + r.len)) := hlenb
  let t : Text6 := ⟨x, by omega, fun hgap => by cases hgap⟩
  have htext : t.text = [58].intercalate (((words src).take r.base).map hexadecimal) ++ [58] ++
      (right.map Group.digits ++ [last.text]).flatMap (58 :: ·) := by
    rw [Text6.text_gap (show t.gap = some right from rfl), ← Group.ofWord_digits hleft]
  refine ⟨t, ?_, by rw [hformatted, htext], ?_, by rw [hbest]; rfl, ?_⟩
  · have hroom : 16 - (x.front.length + x.back.length) = 2 * r.len := by omega
    show (if x.front.length + x.back.length < 16 then
      x.front ++ List.replicate (16 - (x.front.length + x.back.length)) 0 ++ x.back else _) = src
    rw [if_pos (by omega), hroom, ← flatMap_bytes16_zeros]
    rw [flatMap_words h, List.flatMap_append, List.flatMap_append, ← hfront, ← hback, ← List.append_assoc] at hsplit
    exact hsplit.symm
  · have hlen := length_intercalate_hexadecimal hleft
    rw [List.length_take, length_words, Nat.min_eq_left (by omega)] at hlen
    rw [htext, List.length_append, List.length_append, List.length_singleton]
    omega
  · rintro r' hr'
    rw [hbest] at hr'
    obtain rfl := Option.some.inj hr'
    exact ⟨hxfront, hxback⟩

theorem exists_right {ws : List ℕ} (hws : ∀ w ∈ ws, w < 65536) :
    ∃ (right : List Group) (last : Last), right.flatMap Group.value ++ last.value = ws.flatMap (bytes16 .big) ∧
      (right.map Group.digits ++ [last.text]).flatMap (58 :: ·) =
        (ws.map hexadecimal).flatMap (58 :: ·) ++ if ws = [] then [58] else [] := by
  rcases List.eq_nil_or_concat' ws with rfl | ⟨init, w, rfl⟩
  · exact ⟨[], .empty, rfl, rfl⟩
  · have hinit : ∀ x ∈ init, x < 65536 := fun x hx => hws x (by simp [hx])
    have hdigits := Group.ofWord_digits hws
    have hvalue := Group.ofWord_value hws
    rw [List.map_append, List.flatMap_append] at hvalue
    rw [List.map_append, List.map_append] at hdigits
    refine ⟨init.map .ofWord, .group (.ofWord w), ?_, ?_⟩
    · rw [← hvalue]
      exact congrArg _ (List.append_nil _).symm
    · rw [if_neg (by simp), List.append_nil, ← hdigits]
      rfl

theorem zero_not_mem_dottedQuad (a b c d : Byte) : 0 ∉ dottedQuad a b c d := by
  intro hmem
  rcases (isdigit_or_dot_of_inetPton4 (inetPton4_dottedQuad a b c d)).2 0 hmem with hdigit | hdot
  · exact absurd hdigit (by decide)
  · exact absurd hdot (by decide)

theorem formatLoop_encapsulated {w : ℕ} {ws : List ℕ} {tmp : CString} {a b c d : Byte}
    (hrun : ¬ inRun best 6) (henc : Encapsulated W best) (hsrc : src.drop 12 = [a, b, c, d])
    (htmp : tmp.length ≤ 30) :
    formatLoop src W best (w :: ws) 6 tmp = some (tmp ++ [58] ++ dottedQuad a b c d) := by
  have hlen := length_dottedQuad_le a b c d
  have hroom : ¬ 46 - (tmp ++ [58]).length < (dottedQuad a b c d).length := by
    rw [List.length_append, List.length_singleton]
    omega
  have hntop : inetNtop4 [a, b, c, d] (46 - (tmp ++ [58]).length) = some (dottedQuad a b c d ++ [0]) := if_neg hroom
  rw [formatLoop, if_neg hrun]
  dsimp only
  rw [if_pos ⟨rfl, henc⟩, if_pos (by decide), hsrc, hntop, Option.map_some, stringOf_append_zero,
    stringOf_of_not_mem (zero_not_mem_dottedQuad a b c d)]

theorem not_inRun {r : Run} {k : ℕ} (h : k < r.base ∨ r.base + r.len ≤ k) : ¬ inRun (some r) k := by
  rintro ⟨b, ⟨⟩, hle, hlt⟩
  omega

theorem formatLoop_to_run {r : Run} (hbest : bestRun (words src) = some r)
    (henc : Encapsulated (words src) (some r) → r.base ≤ 6) :
    formatLoop src (words src) (some r) (words src) 0 [] =
      formatLoop src (words src) (some r) ((words src).drop (r.base + r.len)) (r.base + r.len)
        ([58].intercalate (((words src).take r.base).map hexadecimal) ++ [58]) := by
  obtain ⟨-, hrun, -⟩ := bestRun_eq_some_iff.mp hbest
  have hle := hrun.le_length
  have hlen : ((words src).take r.base).length = r.base := by
    rw [List.length_take]
    omega
  have hfirst : formatLoop src (words src) (some r)
      ((words src).take r.base ++ (List.replicate r.len 0 ++ (words src).drop (r.base + r.len))) 0 [] = _ :=
    formatLoop_first ((words src).take r.base) _ (fun k hk => not_inRun (.inl (hlen ▸ hk)))
      (fun h => hlen.symm ▸ henc h)
  rw [← hrun.split, hlen, formatLoop_run r hrun.1] at hfirst
  exact hfirst

theorem exists_shows_plain (h : src.length = 16) {r : Run} (hbest : bestRun (words src) = some r)
    (henc : ¬ Encapsulated (words src) (some r)) : ∃ t : Text6, t.Shows src := by
  obtain ⟨htwo, hrun, -⟩ := bestRun_eq_some_iff.mp hbest
  have hle := hrun.le_length
  rw [length_words] at hle
  have hright : ∀ w ∈ (words src).drop (r.base + r.len), w < 65536 := fun w hw => words_lt (List.mem_of_mem_drop hw)
  obtain ⟨right, last, hvalue, htext⟩ := exists_right hright
  have hlen := length_flatMap_hexadecimal hright
  rw [List.length_drop, length_words] at hlen
  have hloop : formatLoop src (words src) (some r) ((words src).drop (r.base + r.len) ++ []) (r.base + r.len)
      ([58].intercalate (((words src).take r.base).map hexadecimal) ++ [58]) = _ :=
    formatLoop_hex ((words src).drop (r.base + r.len)) [] (by omega) _
      (fun k _ => not_inRun (.inr (Nat.le_add_right _ _))) (fun h => absurd h henc)
  rw [List.append_nil] at hloop
  refine exists_shows_some h hbest right last hvalue ?_ ?_
  · rw [formatted, hbest, formatLoop_to_run hbest (fun h => absurd h henc), hloop, htext, formatLoop, Option.map_some,
      Option.map_some]
    by_cases hend : r.base + r.len = 8
    · rw [if_pos (congrArg some hend), if_pos (by rw [List.drop_eq_nil_iff, length_words, hend]), List.append_assoc]
    · rw [if_neg (fun heq => hend (Option.some.inj heq)),
        if_neg (by rw [List.drop_eq_nil_iff, length_words]; omega), List.append_nil]
  · rw [htext, List.length_append]
    split_ifs
    · rw [List.length_singleton]
      omega
    · rw [List.length_nil]
      omega

theorem exists_quad (h : src.length = 16) : ∃ (a b c d : Byte) (last : Last), src.drop 12 = [a, b, c, d] ∧
    last.text = dottedQuad a b c d ∧ last.value = ((words src).drop 6).flatMap (bytes16 .big) := by
  obtain ⟨a, b, c, d, hsrc⟩ := List.length_eq_four.mp (show (src.drop 12).length = 4 by rw [List.length_drop, h])
  refine ⟨a, b, c, d, .quad ([a, b, c, d].map Octet.ofByte) rfl, hsrc, (dottedQuad_eq a b c d).symm, ?_⟩
  rw [flatMap_drop_words h (by decide), hsrc]
  show ([a, b, c, d].map Octet.ofByte).map Octet.value = _
  simp [Octet.value_ofByte]

theorem exists_drop_words (src : List Byte) : ∃ w ws, (words src).drop 6 = w :: ws := by
  refine List.exists_cons_of_ne_nil fun hnil => ?_
  rw [List.drop_eq_nil_iff, length_words] at hnil
  exact absurd hnil (by decide)

theorem exists_shows_compatible (h : src.length = 16) {r : Run} (hbest : bestRun (words src) = some r)
    (hbase : r.base = 0) (hlen : r.len = 6) : ∃ t : Text6, t.Shows src := by
  have hend : r.base + r.len = 6 := by omega
  have henc : Encapsulated (words src) (some r) := ⟨r, rfl, hbase, .inl hlen⟩
  obtain ⟨a, b, c, d, last, hsrc, htext, hvalue⟩ := exists_quad h
  obtain ⟨w, ws, hwords⟩ := exists_drop_words src
  have hquad := length_dottedQuad_le a b c d
  have hloop := formatLoop_to_run hbest fun _ => hbase.symm ▸ Nat.zero_le 6
  rw [hend, hbase, hwords, formatLoop_encapsulated (not_inRun (.inr (le_of_eq hend))) henc hsrc (by simp)] at hloop
  refine exists_shows_some h hbest [] last ?_ ?_ ?_
  · rw [hend, hvalue]
    exact List.nil_append _
  · rw [formatted, hbest, hloop, Option.map_some, Option.map_some, hend, hbase, htext, if_neg (by decide)]
    simp
  · rw [hbase, htext]
    simp
    omega

theorem exists_shows_mapped (h : src.length = 16) {r : Run} (hbest : bestRun (words src) = some r)
    (hbase : r.base = 0) (hlen : r.len = 5) (hffff : (words src).getD 5 0 = 0xffff) : ∃ t : Text6, t.Shows src := by
  have hend : r.base + r.len = 5 := by omega
  have henc : Encapsulated (words src) (some r) := ⟨r, rfl, hbase, .inr ⟨hlen, hffff⟩⟩
  obtain ⟨a, b, c, d, last, hsrc, htext, hvalue⟩ := exists_quad h
  obtain ⟨w, ws, hwords⟩ := exists_drop_words src
  have hquad := length_dottedQuad_le a b c d
  have hdrop : (words src).drop 5 = [0xffff] ++ (words src).drop 6 := by
    have hlt : 5 < (words src).length := by rw [length_words]; decide
    rw [List.drop_eq_getElem_cons hlt, ← List.getD_eq_getElem _ 0 hlt, hffff, List.singleton_append]
  have hlt : ∀ x ∈ [0xffff], x < 65536 := by decide
  have hdigits := Group.ofWord_digits hlt
  have hgroup := Group.ofWord_value hlt
  have hfour := length_flatMap_hexadecimal hlt
  have hloop := formatLoop_to_run hbest fun _ => hbase.symm ▸ Nat.zero_le 6
  rw [hend, hbase, hdrop, formatLoop_hex [0xffff] _ (by decide) _
    (fun k _ => not_inRun (.inr (by rw [hend]; exact Nat.le_add_right 5 k))) (fun _ => le_refl 6),
    List.length_singleton, hwords,
    formatLoop_encapsulated (not_inRun (.inr (by omega))) henc hsrc (by
      rw [List.length_append]
      exact Nat.add_le_add (show _ ≤ 25 by simp) hfour)] at hloop
  refine exists_shows_some h hbest ([0xffff].map .ofWord) last ?_ ?_ ?_
  · rw [hend, hdrop, List.flatMap_append, hgroup, hvalue]
  · rw [formatted, hbest, hloop, Option.map_some, Option.map_some, hend, hbase, htext, hdigits, if_neg (by decide),
      List.flatMap_append, List.flatMap_singleton]
    simp
  · rw [hbase, htext, hdigits, List.flatMap_append, List.length_append, List.flatMap_singleton, List.length_cons]
    rw [List.length_singleton] at hfour
    omega

theorem exists_shows_encapsulated (h : src.length = 16) {r : Run} (hbest : bestRun (words src) = some r)
    (henc : Encapsulated (words src) (some r)) : ∃ t : Text6, t.Shows src := by
  obtain ⟨r', hr', hbase, hlen | ⟨hlen, hffff⟩⟩ := henc
  · obtain rfl := Option.some.inj hr'
    exact exists_shows_compatible h hbest hbase hlen
  · obtain rfl := Option.some.inj hr'
    exact exists_shows_mapped h hbest hbase hlen hffff

theorem exists_shows (h : src.length = 16) : ∃ t : Text6, t.Shows src := by
  cases hbest : bestRun (words src) with
  | none => exact exists_shows_none h hbest
  | some r =>
    by_cases henc : Encapsulated (words src) (some r)
    · exact exists_shows_encapsulated h hbest henc
    · exact exists_shows_plain h hbest henc

theorem bestRun_eq_none_iff {W : List ℕ} : bestRun W = none ↔ ∀ q : Run, q.IsRun W → q.len < 2 := by
  obtain ⟨hsound, hbeats⟩ := runLoop_scanned W scanned_nil
  rw [List.nil_append, List.length_nil] at hsound hbeats
  rw [bestRun, Option.filter_eq_none_iff]
  constructor
  · intro h q hq
    obtain ⟨b, hb, hbq⟩ := hbeats q hq
    have hshort := h b hb
    simp only [Run.Beats, decide_eq_true_eq] at hbq hshort
    omega
  · intro h b hb
    have hshort := h b (hsound b hb)
    simp only [decide_eq_true_eq]
    omega

/-- The text leaves out the first of the longest runs of two or more zero words, and nothing when there is none. -/
theorem inetNtop6_shortens (h : src.length = 16) :
    ∃ t : Text6, (∀ size, t.text.length < size → inetNtop6 src size = some (t.text ++ [0])) ∧ t.addr = src ∧
      (t.gap = none → ∀ q : Run, q.IsRun (words src) → q.len < 2) ∧
      (t.gap.isSome → ∃ r : Run, 2 ≤ r.len ∧ r.IsRun (words src) ∧ (∀ q : Run, q.IsRun (words src) → r.Beats q) ∧
        t.front = src.take (2 * r.base) ∧ t.back = src.drop (2 * (r.base + r.len))) := by
  obtain ⟨t, ht⟩ := exists_shows h
  refine ⟨t, fun size hsize => ?_, ht.addr, fun hgap => ?_, fun hgap => ?_⟩
  · rw [inetNtop6, ht.formatted, Option.bind_some, if_neg (by rw [List.length_append, List.length_singleton]; omega)]
  · have hnone := ht.gap
    rw [hgap] at hnone
    exact bestRun_eq_none_iff.mp (Option.not_isSome_iff_eq_none.mp (by rw [← hnone]; simp))
  · rw [ht.gap, Option.isSome_iff_exists] at hgap
    obtain ⟨r, hr⟩ := hgap
    obtain ⟨htwo, hrun, hmax⟩ := bestRun_eq_some_iff.mp hr
    obtain ⟨hfront, hback⟩ := ht.place r hr
    have hle := hrun.le_length
    rw [length_words] at hle
    have hroom : t.front.length + t.back.length < 16 := by omega
    have haddr := ht.addr
    rw [Text6.addr, if_pos hroom] at haddr
    refine ⟨r, htwo, hrun, hmax, ?_, ?_⟩
    · rw [← haddr, List.append_assoc, List.take_left' hfront]
    · rw [← haddr, List.drop_left' (by rw [List.length_append, List.length_replicate]; omega)]

theorem inetNtop6_shortens_loopback :
    ∃ t : Text6, (∀ size, t.text.length < size →
        inetNtop6 [0, 0, 0, 0, 0, 0, 0, 0, 0, 0, 0, 0, 0, 0, 0, 1] size = some (t.text ++ [0])) ∧
      t.addr = [0, 0, 0, 0, 0, 0, 0, 0, 0, 0, 0, 0, 0, 0, 0, 1] ∧
      (t.gap = none → ∀ q : Run, q.IsRun (words [0, 0, 0, 0, 0, 0, 0, 0, 0, 0, 0, 0, 0, 0, 0, 1]) → q.len < 2) ∧
      (t.gap.isSome → ∃ r : Run, 2 ≤ r.len ∧ r.IsRun (words [0, 0, 0, 0, 0, 0, 0, 0, 0, 0, 0, 0, 0, 0, 0, 1]) ∧
        (∀ q : Run, q.IsRun (words [0, 0, 0, 0, 0, 0, 0, 0, 0, 0, 0, 0, 0, 0, 0, 1]) → r.Beats q) ∧
        t.front = [0, 0, 0, 0, 0, 0, 0, 0, 0, 0, 0, 0, 0, 0, 0, 1].take (2 * r.base) ∧
        t.back = [0, 0, 0, 0, 0, 0, 0, 0, 0, 0, 0, 0, 0, 0, 0, 1].drop (2 * (r.base + r.len))) :=
  inetNtop6_shortens rfl

/-! ### The two functions for both families -/

/-- The address that the return value 1 leaves at `dst`; `some none` is the return of 0, `none` that of -1. -/
def inetPton (af : ℤ) (src : CString) : Option (Option (List Byte)) :=
  if af = AF_INET then some (inetPton4 src) else if af = AF_INET6 then some (inetPton6 src) else none

def inetNtop (af : ℤ) (src : List Byte) (size : ℕ) : Option (List Byte) :=
  if af = AF_INET then inetNtop4 src size else if af = AF_INET6 then inetNtop6 src size else none

variable {af : ℤ} {addr : List Byte}

theorem Text6.zero_not_mem (t : Text6) : 0 ∉ t.text := by
  intro hmem
  rcases List.mem_append.mp hmem with hmem | hmem
  · split_ifs at hmem
    · exact absurd hmem (by decide)
    · cases hmem
  · rcases mem_intercalate hmem with hzero | ⟨f, hf, hmem⟩
    · exact absurd hzero (by decide)
    · exact t.not_mem_list (by decide) (by decide) f hf hmem

/-- The string that `inet_ntop` stores when there is room. -/
structure Shown (af : ℤ) (addr : List Byte) (s : CString) : Prop where
  ntop : ∀ size, s.length < size → inetNtop af addr size = some (s ++ [0])
  stored : ∀ size dst, inetNtop af addr size = some dst → dst = s ++ [0]
  pton : inetPton af s = some (some addr)
  zero : 0 ∉ s
  length : s.length ≤ 45

theorem inetNtop_inet (a b c d : Byte) (size : ℕ) :
    inetNtop AF_INET [a, b, c, d] size =
      if size < (dottedQuad a b c d).length then none else some (dottedQuad a b c d ++ [0]) := by
  rw [inetNtop, if_pos rfl]
  rfl

theorem shown_inet (a b c d : Byte) : Shown AF_INET [a, b, c, d] (dottedQuad a b c d) where
  ntop size hsize := by rw [inetNtop_inet, if_neg (Nat.not_lt_of_lt hsize)]
  stored size dst hdst := by
    rw [inetNtop_inet] at hdst
    split_ifs at hdst
    exact (Option.some.inj hdst).symm
  pton := by rw [inetPton, if_pos rfl, inetPton4_dottedQuad]
  zero := zero_not_mem_dottedQuad a b c d
  length := le_trans (length_dottedQuad_le a b c d) (by decide)

theorem inetNtop_inet6 (addr : List Byte) (size : ℕ) : inetNtop AF_INET6 addr size = inetNtop6 addr size := by
  rw [inetNtop, if_neg (by decide), if_pos rfl]

theorem inetPton_inet6 (s : CString) : inetPton AF_INET6 s = some (inetPton6 s) := by
  rw [inetPton, if_neg (by decide), if_pos rfl]

theorem Text6.Shows.shown {t : Text6} (h : t.Shows addr) : Shown AF_INET6 addr t.text where
  ntop size hsize := by
    rw [inetNtop_inet6, inetNtop6, h.formatted, Option.bind_some,
      if_neg (by rw [List.length_append, List.length_singleton]; omega)]
  stored size dst hdst := by
    rw [inetNtop_inet6, inetNtop6, h.formatted, Option.bind_some] at hdst
    split_ifs at hdst
    exact (Option.some.inj hdst).symm
  pton := by rw [inetPton_inet6, inetPton6_text, h.addr]
  zero := t.zero_not_mem
  length := h.length

theorem exists_shown (h : af = AF_INET ∧ addr.length = 4 ∨ af = AF_INET6 ∧ addr.length = 16) :
    ∃ s, Shown af addr s := by
  rcases h with ⟨rfl, hlen⟩ | ⟨rfl, hlen⟩
  · obtain ⟨a, b, c, d, rfl⟩ := List.length_eq_four.mp hlen
    exact ⟨_, shown_inet a b c d⟩
  · obtain ⟨t, ht⟩ := exists_shows hlen
    exact ⟨t.text, ht.shown⟩

/-- What `inet_ntop` stores is a string that `inet_pton` reads as the address; 46 bytes are enough for all of them. -/
theorem inetPton_inetNtop (h : af = AF_INET ∧ addr.length = 4 ∨ af = AF_INET6 ∧ addr.length = 16) (size : ℕ) :
    (∀ dst, inetNtop af addr size = some dst → ∃ s, dst = s ++ [0] ∧ 0 ∉ s ∧ inetPton af s = some (some addr)) ∧
      (46 ≤ size → (inetNtop af addr size).isSome) := by
  obtain ⟨s, hs⟩ := exists_shown h
  refine ⟨fun dst hdst => ⟨s, hs.stored size dst hdst, hs.zero, hs.pton⟩, fun hsize => ?_⟩
  rw [hs.ntop size (lt_of_le_of_lt hs.length hsize)]
  rfl

theorem inetPton_inetNtop_mapped :
    (∀ dst, inetNtop AF_INET6 [0, 0, 0, 0, 0, 0, 0, 0, 0, 0, 255, 255, 10, 0, 0, 1] 46 = some dst →
      ∃ s, dst = s ++ [0] ∧ 0 ∉ s ∧
        inetPton AF_INET6 s = some (some [0, 0, 0, 0, 0, 0, 0, 0, 0, 0, 255, 255, 10, 0, 0, 1])) ∧
      (46 ≤ 46 → (inetNtop AF_INET6 [0, 0, 0, 0, 0, 0, 0, 0, 0, 0, 255, 255, 10, 0, 0, 1] 46).isSome) :=
  inetPton_inetNtop (.inr ⟨rfl, rfl⟩) 46

end UnixNetProg.Libfree
