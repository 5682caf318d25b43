import UnixNetProg.Readline.Readline

/-!
# What `readline` returns (`lib/readline.c`)

The loop variable `n` starts at 1. A newline leaves the loop before `n` is incremented and end of file
returns `n - 1`, so both return the number of bytes; a buffer that has been filled leaves the loop after
`n` has reached `maxlen`, one more than the bytes in it.
-/

namespace UnixNetProg.Readline

open Lib

/-- A nonnegative return value is the number of bytes stored before the 0 and taken from the stream. -/
def Counts (s : ReadBuf × Source Byte) (r : Line × ReadBuf × Source Byte) : Prop :=
  0 ≤ r.1.ret → ∃ bytes, r.1.stored = bytes ++ [0] ∧ unread s = bytes ++ unread r.2 ∧ r.1.ret = bytes.length

/-- The bytes that a call can get before a read fails. -/
def available (s : ReadBuf × Source Byte) : List Byte :=
  s.1.inHand ++ Source.untilError MAXLINE s.2.rest s.2.plan

/-- The next `k` bytes are there, without a newline. -/
def Fills (k : ℕ) (bytes : List Byte) : Prop := k ≤ bytes.length ∧ 10 ∉ bytes.take k

instance (k : ℕ) (bytes : List Byte) : Decidable (Fills k bytes) := inferInstanceAs (Decidable (_ ∧ _))

theorem not_fills_nil (k : ℕ) : ¬ Fills (k + 1) [] := fun h => absurd h.1 (by simp)

theorem fills_cons {k : ℕ} {c : Byte} {rest : List Byte} :
    Fills (k + 1) (c :: rest) ↔ c ≠ 10 ∧ Fills k rest := by
  simp only [Fills, List.length_cons, List.take_succ_cons, List.mem_cons, not_or, ne_eq]
  rw [eq_comm]
  constructor
  · rintro ⟨hle, hc, hmem⟩
    exact ⟨hc, by omega, hmem⟩
  · rintro ⟨hc, hle, hmem⟩
    exact ⟨by omega, hc, hmem⟩

section Loop

variable {σ : Type} {get : σ → MyRead × σ} {avail : σ → List Byte}

/-- A way to get a byte that hands out the bytes of `avail`, and then fails or reports end of file. -/
def Hands (get : σ → MyRead × σ) (avail : σ → List Byte) : Prop :=
  ∀ s, match avail s with
    | c :: rest => (get s).1 = .byte c ∧ avail (get s).2 = rest
    | [] => (get s).1 = .eof ∨ (get s).1 = .error

theorem readlineLoop_ret (hget : Hands get avail) (k n : ℕ) (stored : List Byte) (s : σ) :
    ((readlineLoop get k n stored s).1.ret < 0 ∧ ¬ Fills k (avail s)) ∨
    ∃ bytes, (readlineLoop get k n stored s).1.stored = stored ++ bytes ++ [0] ∧
      (readlineLoop get k n stored s).1.ret = n - 1 + bytes.length + if Fills k (avail s) then 1 else 0 := by
  induction k generalizing n stored s with
  | zero =>
    have hfills : Fills 0 (avail s) := ⟨Nat.zero_le _, by simp⟩
    refine .inr ⟨[], ?_, ?_⟩
    · rw [List.append_nil]
      rfl
    · rw [if_pos hfills]
      show (n : ℤ) = n - 1 + 0 + 1
      omega
  | succ k ih =>
    have hs := hget s
    rw [readlineLoop]
    generalize get s = p at hs ⊢
    obtain ⟨res, s'⟩ := p
    cases havail : avail s with
    | nil =>
      rw [havail] at hs
      rcases hs with hres | hres
      · obtain rfl : res = .eof := hres
        refine .inr ⟨[], by rw [List.append_nil], ?_⟩
        rw [if_neg (not_fills_nil k)]
        show (n : ℤ) - 1 = n - 1 + 0 + 0
        omega
      · obtain rfl : res = .error := hres
        exact .inl ⟨show (-1 : ℤ) < 0 by decide, not_fills_nil k⟩
    | cons c rest =>
      rw [havail] at hs
      obtain ⟨hres, hrest⟩ := hs
      obtain rfl : res = .byte c := hres
      obtain rfl : avail s' = rest := hrest
      dsimp only
      simp only [fills_cons]
      by_cases hc : c = 10
      · rw [if_pos hc]
        refine .inr ⟨[c], rfl, ?_⟩
        rw [if_neg (fun h => h.1 hc)]
        show (n : ℤ) = n - 1 + 1 + 0
        omega
      · rw [if_neg hc]
        simp only [hc, not_false_eq_true, ne_eq, true_and]
        rcases ih (n + 1) (stored ++ [c]) s' with herr | ⟨bytes, hstored, hret⟩
        · exact .inl herr
        · refine .inr ⟨c :: bytes, ?_, ?_⟩
          · rw [hstored, List.append_assoc stored, List.singleton_append]
          · rw [hret, List.length_cons]
            push_cast
            omega

end Loop

theorem myRead_hands : Hands myRead available := by
  rintro ⟨b, d⟩
  obtain ⟨hres, hhand, hdesc⟩ := myRead_inHand b d
  simp only [available]
  rw [hres, hhand, hdesc, nextInHand]
  cases hb : b.inHand with
  | cons c rest => exact ⟨rfl, rfl⟩
  | nil =>
    have hread := d.readRetry_untilError maxline_pos
    rw [List.nil_append]
    generalize d.readRetry MAXLINE = p at hread ⊢
    obtain ⟨res, d'⟩ := p
    cases res with
    | data items =>
      obtain ⟨hne, heq⟩ := hread
      obtain ⟨c, items, rfl⟩ := List.exists_cons_of_ne_nil hne
      rw [heq]
      exact ⟨rfl, rfl⟩
    | eof =>
      have hnil : Source.untilError MAXLINE d.rest d.plan = [] := hread
      rw [hnil]
      exact .inl rfl
    | error =>
      have hnil : Source.untilError MAXLINE d.rest d.plan = [] := hread
      rw [hnil]
      exact .inr rfl

/-- **The return value of `readline`** counts the bytes of the line exactly when they do not fill the
buffer before a newline. -/
theorem readline_counts_iff (maxlen : ℕ) (s : ReadBuf × Source Byte) :
    Counts s (readline maxlen s) ↔ ¬ Fills (maxlen - 1) (available s) := by
  have hloop := readlineLoop_ret myRead_hands (maxlen - 1) 1 [] s
  change ((readline maxlen s).1.ret < 0 ∧ _) ∨
    ∃ bytes, (readline maxlen s).1.stored = _ ∧ (readline maxlen s).1.ret = _ at hloop
  rcases hloop with ⟨hneg, hfills⟩ | ⟨bytes, hstored, hret⟩
  · exact ⟨fun _ => hfills, fun _ h => absurd h (by omega)⟩
  · rw [List.nil_append] at hstored
    have hnonneg : 0 ≤ (readline maxlen s).1.ret := by
      rw [hret]
      split_ifs <;> omega
    have htakes := readlineWith_takes myRead_takes maxlen s (show (readline maxlen s).1.ret ≠ -1 by omega)
    change unread s = (readline maxlen s).1.bytes ++ unread (readline maxlen s).2 at htakes
    rw [Line.bytes, hstored, List.dropLast_concat] at htakes
    constructor
    · intro hcounts hfills
      obtain ⟨bytes', hstored', -, hret'⟩ := hcounts hnonneg
      obtain rfl : bytes = bytes' := List.append_cancel_right (hstored.symm.trans hstored')
      rw [hret, if_pos hfills] at hret'
      push_cast at hret'
      omega
    · intro hfills _
      refine ⟨bytes, hstored, htakes, ?_⟩
      rw [hret, if_neg hfills]
      push_cast
      omega

/-- Two bytes fill a buffer of three, and 3 is returned. -/
theorem readline_miscounts :
    (readline 3 (ReadBuf.zero, ⟨[97, 98, 10], []⟩)).1 = ⟨3, [97, 98, 0]⟩ ∧
    ¬ ∀ maxlen stream plan, 1 ≤ maxlen →
      Counts (ReadBuf.zero, ⟨stream, plan⟩) (readline maxlen (ReadBuf.zero, ⟨stream, plan⟩)) := by
  refine ⟨by decide, fun hall => ?_⟩
  obtain ⟨bytes, hstored, -, hret⟩ := hall 3 [97, 98, 10] [] (by decide) (by decide)
  have happend : bytes ++ [0] = [97, 98] ++ [0] := hstored.symm.trans (by decide)
  rw [List.append_cancel_right happend] at hret
  revert hret
  decide

end UnixNetProg.Readline
