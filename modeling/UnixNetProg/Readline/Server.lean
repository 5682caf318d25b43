import Mathlib.Data.List.DropRight
import UnixNetProg.Readline.Readline

/-!
# The other two `readline`s (`server/readline.c`, `server/readline_r.c`)

Both run the loop `serverLoop`, which leaves it at end of file where the library's returns `n - 1`: with
no byte read they return 0, and after some bytes they return `n`, one more than the bytes. The first
calls `read` for each byte and does not retry, the second has the buffer of `my_read` in an `Rline`.
-/

namespace UnixNetProg.Readline

open Lib

section Loop

variable {σ τ : Type}

/-- The loop of the server's two versions, with `k` turns left. -/
def serverLoop (get : σ → MyRead × σ) : ℕ → ℕ → List Byte → σ → Line × σ
  | 0, n, stored, s => (⟨n, stored ++ [0]⟩, s)
  | k + 1, n, stored, s =>
    match get s with
    | (.byte c, s') =>
      if c = 10 then (⟨n, stored ++ [c] ++ [0]⟩, s') else serverLoop get k (n + 1) (stored ++ [c]) s'
    | (.eof, s') => if n = 1 then (⟨0, stored⟩, s') else (⟨n, stored ++ [0]⟩, s')
    | (.error, s') => (⟨-1, stored⟩, s')

def serverWith (get : σ → MyRead × σ) (maxlen : ℕ) (s : σ) : Line × σ := serverLoop get (maxlen - 1) 1 [] s

/-- The results of `calls` calls with the same arguments. -/
def lines (call : σ → Line × σ) : ℕ → σ → List Line
  | 0, _ => []
  | calls + 1, s => (call s).1 :: lines call calls (call s).2

end Loop

/-- `rc = read(fd, &c, 1)`: what is not 1 and not 0 is an error, an interruption too. -/
def readPlain (d : Source Byte) : MyRead × Source Byte :=
  match d.read 1 with
  | (.data bytes, d') => (.byte (bytes.headD 0), d')
  | (.eof, d') => (.eof, d')
  | (.intr, d') => (.error, d')
  | (.error, d') => (.error, d')

/-- `server/readline.c`. -/
def serverReadline (maxlen : ℕ) (d : Source Byte) : Line × Source Byte := serverWith readPlain maxlen d

/-- An `Rline`: `read_maxlen`, and `rl_cnt`, `rl_bufptr` and `rl_buf` for the static variables. -/
structure Rline where
  readMaxlen : ℕ
  rl : ReadBuf

/-- `my_read` on the fields of an `Rline`; its `& 255` is of a `char` that is stored in a `char`. -/
def myReadR (s : Rline × Source Byte) : MyRead × Rline × Source Byte :=
  match myRead (s.1.rl, s.2) with
  | (res, rl, d) => (res, { s.1 with rl := rl }, d)

/-- `readline_rinit` leaves `rl_buf` as it is. -/
def readlineRinit (maxlen : ℕ) (rptr : Rline) : Rline := ⟨maxlen, ⟨0, 0, rptr.rl.buf⟩⟩

def readlineR (s : Rline × Source Byte) : Line × Rline × Source Byte := serverWith myReadR s.1.readMaxlen s

/-- The reads of the stream return it in chunks, each of at most one byte more than its entry; after
the chunks each returns all it is asked for. -/
def chunked (stream : List Byte) (chunks : List ℕ) : Source Byte := ⟨stream, chunks.map .upTo⟩

/-- The same return value and, when it is positive, the same bytes. -/
def SameLine (a b : Line) : Prop := a.ret = b.ret ∧ (0 < a.ret → a.stored = b.stored)

instance (a b : Line) : Decidable (SameLine a b) := inferInstanceAs (Decidable (_ ∧ _))

/-! ### Over a stream that is all there -/

section Simulation

variable {σ τ : Type} {get : σ → MyRead × σ} {get' : τ → MyRead × τ} {R : σ → τ → Prop}

theorem serverLoop_sim (hget : Lockstep R get get') (k n : ℕ) (stored : List Byte) :
    Lockstep R (serverLoop get k n stored) (serverLoop get' k n stored) := by
  induction k generalizing n stored with
  | zero => exact fun s t hR => ⟨rfl, hR⟩
  | succ k ih =>
    intro s t hR
    obtain ⟨res, s', t', hs, ht, hR'⟩ := hget.calls hR
    rw [serverLoop, serverLoop, hs, ht]
    cases res with
    | byte c =>
      dsimp only
      by_cases hc : c = 10
      · rw [if_pos hc, if_pos hc]
        exact ⟨rfl, hR'⟩
      · rw [if_neg hc, if_neg hc]
        exact ih _ _ _ _ hR'
    | eof =>
      dsimp only
      by_cases hn : n = 1
      · rw [if_pos hn, if_pos hn]
        exact ⟨rfl, hR'⟩
      · rw [if_neg hn, if_neg hn]
        exact ⟨rfl, hR'⟩
    | error => exact ⟨rfl, hR'⟩

theorem lines_sim {call : σ → Line × σ} {call' : τ → Line × τ}
    (hcall : Lockstep R call call') (calls : ℕ) {s : σ} {t : τ} (hR : R s t) :
    lines call calls s = lines call' calls t := by
  induction calls generalizing s t with
  | zero => rfl
  | succ calls ih =>
    obtain ⟨hline, hR'⟩ := hcall s t hR
    rw [lines, lines, hline, ih hR']

end Simulation

/-- The plan of a chunked stream has chunks only. -/
def Chunked (d : Source Byte) : Prop := ∀ g ∈ d.plan, ∃ k, g = .upTo k

theorem chunked_chunked (stream : List Byte) (chunks : List ℕ) : Chunked (chunked stream chunks) := by
  intro g hg
  obtain ⟨k, -, rfl⟩ := List.mem_map.mp hg
  exact ⟨k, rfl⟩

theorem chunked_noError (stream : List Byte) (chunks : List ℕ) : (chunked stream chunks).NoError := by
  intro herr
  obtain ⟨k, hk⟩ := chunked_chunked stream chunks _ herr
  exact Grant.noConfusion hk

theorem readPlain_refines : Lockstep (fun d stream => d.rest = stream ∧ Chunked d) readPlain nextByte := by
  rintro d stream ⟨rfl, hd⟩
  have htail : ∀ g ∈ d.plan.tail, ∃ k, g = .upTo k := fun g hg => hd g (List.mem_of_mem_tail hg)
  rw [readPlain]
  rcases d.read_cases Nat.one_pos with
    ⟨plan, hplan, -⟩ | ⟨plan, hplan, -⟩ | ⟨hnil, heq⟩ | ⟨c, bytes, rest, hrest, hlen, heq⟩
  · obtain ⟨k, hk⟩ := hd .intr (by rw [hplan]; exact List.mem_cons_self)
    exact Grant.noConfusion hk
  · obtain ⟨k, hk⟩ := hd .error (by rw [hplan]; exact List.mem_cons_self)
    exact Grant.noConfusion hk
  · rw [heq, hnil]
    exact ⟨rfl, rfl, htail⟩
  · obtain rfl : bytes = [] := List.eq_nil_of_length_eq_zero (by omega)
    rw [heq, hrest]
    exact ⟨rfl, rfl, htail⟩

/-- The `Rline` and the descriptor hold the stream. -/
def HoldsR (maxlen : ℕ) (s : Rline × Source Byte) (stream : List Byte) : Prop :=
  s.1.readMaxlen = maxlen ∧ Holds (s.1.rl, s.2) stream

theorem myReadR_refines {maxlen : ℕ} : Lockstep (HoldsR maxlen) myReadR nextByte := by
  rintro s stream ⟨hmax, hholds⟩
  obtain ⟨hres, hholds'⟩ := myRead_refines (s.1.rl, s.2) stream hholds
  exact ⟨hres, hmax, hholds'⟩

theorem lines_readline (maxlen calls : ℕ) (stream : List Byte) (chunks : List ℕ) :
    lines (readline maxlen) calls (ReadBuf.zero, chunked stream chunks) =
      lines (readlineWith nextByte maxlen) calls stream := by
  apply lines_sim (readlineWith_sim myRead_refines maxlen)
  refine ⟨?_, chunked_noError stream chunks⟩
  rw [unread, inHand_of_cnt_le (Int.le_refl 0), List.nil_append]
  rfl

theorem lines_serverReadline (maxlen calls : ℕ) (stream : List Byte) (chunks : List ℕ) :
    lines (serverReadline maxlen) calls (chunked stream chunks) =
      lines (serverWith nextByte maxlen) calls stream :=
  lines_sim (serverLoop_sim readPlain_refines (maxlen - 1) 1 []) calls ⟨rfl, chunked_chunked stream chunks⟩

theorem lines_readlineR (maxlen calls : ℕ) (rptr : Rline) (stream : List Byte) (chunks : List ℕ) :
    lines readlineR calls (readlineRinit maxlen rptr, chunked stream chunks) =
      lines (serverWith nextByte maxlen) calls stream := by
  apply lines_sim (R := HoldsR maxlen)
  · intro s t hR
    obtain rfl : s.1.readMaxlen = maxlen := hR.1
    exact serverLoop_sim myReadR_refines _ 1 [] s t hR
  · refine ⟨rfl, ?_, chunked_noError stream chunks⟩
    rw [unread, inHand_of_cnt_le (Int.le_refl 0), List.nil_append]
    rfl

/-! ### One call -/

/-- The stream ends before a newline and before the buffer is full. -/
def Short (k : ℕ) (l : List Byte) : Prop := 10 ∉ l ∧ l.length < k

instance (k : ℕ) (l : List Byte) : Decidable (Short k l) := inferInstanceAs (Decidable (_ ∧ _))

theorem short_cons {k : ℕ} {c : Byte} {l : List Byte} (hc : c ≠ 10) : Short (k + 1) (c :: l) ↔ Short k l := by
  simp only [Short, List.mem_cons, List.length_cons, not_or]
  constructor
  · intro h
    exact ⟨h.1.2, by omega⟩
  · intro h
    exact ⟨⟨hc.symm, h.1⟩, by omega⟩

theorem serverLoop_eq {k : ℕ} {l : List Byte} (hl : ¬ Short k l) (n : ℕ) (stored : List Byte) :
    serverLoop nextByte k n stored l = readlineLoop nextByte k n stored l := by
  induction k generalizing l n stored with
  | zero => rfl
  | succ k ih =>
    cases l with
    | nil => exact absurd ⟨List.not_mem_nil, Nat.succ_pos k⟩ hl
    | cons c l =>
      rw [serverLoop, readlineLoop]
      dsimp only [nextByte]
      by_cases hc : c = 10
      · rw [if_pos hc, if_pos hc]
      · rw [if_neg hc, if_neg hc]
        exact ih (fun h => hl ((short_cons hc).mpr h)) (n + 1) (stored ++ [c])

theorem readlineLoop_short {k : ℕ} {l : List Byte} (hl : Short k l) (n : ℕ) (stored : List Byte) :
    readlineLoop nextByte k n stored l = (⟨(n + l.length : ℕ) - 1, stored ++ l ++ [0]⟩, []) := by
  induction k generalizing l n stored with
  | zero => exact absurd hl.2 (Nat.not_lt_zero _)
  | succ k ih =>
    cases l with
    | nil =>
      rw [List.append_nil]
      rfl
    | cons c l =>
      have hc : c ≠ 10 := fun h => hl.1 (h ▸ List.mem_cons_self)
      rw [readlineLoop]
      dsimp only [nextByte]
      rw [if_neg hc, ih ((short_cons hc).mp hl), List.append_assoc stored, List.singleton_append,
        List.length_cons, Nat.add_right_comm, Nat.add_assoc]

theorem serverLoop_short {k : ℕ} {l : List Byte} (hl : Short k l) {n : ℕ} (hn : 1 < n + l.length)
    (stored : List Byte) :
    serverLoop nextByte k n stored l = (⟨(n + l.length : ℕ), stored ++ l ++ [0]⟩, []) := by
  induction k generalizing l n stored with
  | zero => exact absurd hl.2 (Nat.not_lt_zero _)
  | succ k ih =>
    cases l with
    | nil =>
      have hne : n ≠ 1 := Nat.ne_of_gt hn
      rw [serverLoop]
      dsimp only [nextByte]
      rw [if_neg hne, List.append_nil]
      rfl
    | cons c l =>
      have hc : c ≠ 10 := fun h => hl.1 (h ▸ List.mem_cons_self)
      have hlen : n + (c :: l).length = n + 1 + l.length := by
        rw [List.length_cons]
        omega
      rw [serverLoop]
      dsimp only [nextByte]
      rw [if_neg hc, ih ((short_cons hc).mp hl) (by omega), List.append_assoc stored,
        List.singleton_append, hlen]

theorem sameLine_refl (a : Line) : SameLine a a := ⟨rfl, fun _ => rfl⟩

theorem not_sameLine_of_short {k : ℕ} {l : List Byte} (hl : Short k l) (hne : l ≠ []) :
    ¬ SameLine (readlineLoop nextByte k 1 [] l).1 (serverLoop nextByte k 1 [] l).1 := by
  have hpos : 0 < l.length := List.length_pos_iff.mpr hne
  rw [readlineLoop_short hl, serverLoop_short hl (by omega)]
  intro hsame
  have hret : ((1 + l.length : ℕ) : ℤ) - 1 = (1 + l.length : ℕ) := hsame.1
  omega

theorem sameLine_nil (k : ℕ) :
    SameLine (readlineLoop nextByte (k + 1) 1 [] []).1 (serverLoop nextByte (k + 1) 1 [] []).1 := by
  constructor
  · rfl
  · intro hpos
    exact absurd hpos (Int.lt_irrefl 0)

/-! ### The last line -/

/-- What follows the last newline. -/
def lastLine (l : List Byte) : List Byte := l.rtakeWhile (· != 10)

theorem lastLine_of_not_mem {l : List Byte} (hl : 10 ∉ l) : lastLine l = l := by
  refine List.rtakeWhile_eq_self_iff.mpr fun c hc => ?_
  rw [bne_iff_ne]
  intro h
  exact hl (h ▸ hc)

theorem lastLine_cons (c : Byte) (l : List Byte) :
    lastLine (c :: l) = if 10 ∈ l then lastLine l else if c = 10 then l else c :: l := by
  by_cases hmem : 10 ∈ l
  · rw [if_pos hmem, lastLine, List.rtakeWhile, List.reverse_cons, List.takeWhile_append, if_neg]
    · rfl
    · intro hlen
      have hself : l.reverse.takeWhile (· != 10) = l.reverse :=
        (List.takeWhile_prefix _).eq_of_length hlen
      exact absurd (List.takeWhile_eq_self_iff.mp hself 10 (List.mem_reverse.mpr hmem)) (by decide)
  · rw [if_neg hmem]
    by_cases hc : c = 10
    · rw [if_pos hc, lastLine, List.rtakeWhile, List.reverse_cons, List.takeWhile_append_of_pos]
      · rw [hc]
        show (l.reverse ++ []).reverse = l
        rw [List.append_nil, List.reverse_reverse]
      · intro x hx
        rw [bne_iff_ne]
        rintro rfl
        exact hmem (List.mem_reverse.mp hx)
    · rw [if_neg hc]
      apply lastLine_of_not_mem
      rw [List.mem_cons, not_or]
      exact ⟨Ne.symm hc, hmem⟩

theorem length_lastLine_after {k : ℕ} {l : List Byte} (hl : ¬ Short k l) (n : ℕ) (stored : List Byte) :
    (lastLine l).length =
      (lastLine (readlineLoop nextByte k n stored l).2).length + if 10 ∈ l then 0 else k := by
  induction k generalizing l n stored with
  | zero =>
    rw [ite_self]
    rfl
  | succ k ih =>
    cases l with
    | nil => exact absurd ⟨List.not_mem_nil, Nat.succ_pos k⟩ hl
    | cons c l =>
      rw [readlineLoop, lastLine_cons]
      dsimp only [nextByte]
      by_cases hc : c = 10
      · have hmem' : 10 ∈ c :: l := by
          rw [hc]
          exact List.mem_cons_self
        rw [if_pos hc, if_pos hc, if_pos hmem']
        by_cases hmem : 10 ∈ l
        · rw [if_pos hmem]
          rfl
        · rw [if_neg hmem, lastLine_of_not_mem hmem]
          rfl
      · have hih := ih (fun h => hl ((short_cons hc).mpr h)) (n + 1) (stored ++ [c])
        rw [if_neg hc, if_neg hc]
        by_cases hmem : 10 ∈ l
        · rw [if_pos hmem] at hih ⊢
          rw [if_pos (List.mem_cons_of_mem c hmem)]
          exact hih
        · have hmem' : 10 ∉ c :: l := by
            rw [List.mem_cons, not_or]
            exact ⟨Ne.symm hc, hmem⟩
          rw [if_neg hmem, lastLine_of_not_mem hmem] at hih
          rw [if_neg hmem, if_neg hmem', List.length_cons, hih]
          omega

theorem length_after_le (k n : ℕ) (stored l : List Byte) :
    (readlineLoop nextByte k n stored l).2.length ≤ l.length := by
  induction k generalizing l n stored with
  | zero => exact Nat.le_refl _
  | succ k ih =>
    cases l with
    | nil => exact Nat.le_refl _
    | cons c l =>
      rw [readlineLoop, List.length_cons]
      dsimp only [nextByte]
      by_cases hc : c = 10
      · rw [if_pos hc]
        exact Nat.le_succ _
      · rw [if_neg hc]
        exact Nat.le_succ_of_le (ih _ _ _)

theorem length_after_lt {k : ℕ} {l : List Byte} (hne : l ≠ []) :
    (readlineWith nextByte (k + 2) l).2.length < l.length := by
  cases l with
  | nil => exact absurd rfl hne
  | cons c l =>
    show (readlineLoop nextByte (k + 1) 1 [] (c :: l)).2.length < l.length + 1
    rw [readlineLoop]
    dsimp only [nextByte]
    by_cases hc : c = 10
    · rw [if_pos hc]
      exact Nat.lt_succ_self _
    · rw [if_neg hc]
      exact Nat.lt_succ_of_le (length_after_le k _ _ l)

/-- A call that does not end the stream gives the same in both versions, and keeps the length of the
last line modulo what a call can hold. -/
theorem call_of_not_short {k : ℕ} {l : List Byte} (hl : ¬ Short (k + 1) l) :
    serverWith nextByte (k + 2) l = readlineWith nextByte (k + 2) l ∧
      (k + 1 ∣ (lastLine l).length ↔ k + 1 ∣ (lastLine (readlineWith nextByte (k + 2) l).2).length) := by
  refine ⟨serverLoop_eq hl 1 [], ?_⟩
  have hlen := length_lastLine_after hl 1 []
  change _ = (lastLine (readlineWith nextByte (k + 2) l).2).length + _ at hlen
  rw [hlen]
  by_cases hmem : 10 ∈ l
  · rw [if_pos hmem]
    exact Iff.rfl
  · rw [if_neg hmem]
    exact Nat.dvd_add_left (Nat.dvd_refl _)

/-! ### Every sequence of calls -/

/-- Calls with a buffer for `k + 1` bytes of the same stream. -/
def StreamAgree (k : ℕ) (l : List Byte) : Prop :=
  ∀ calls, List.Forall₂ SameLine (lines (readlineWith nextByte (k + 2)) calls l)
    (lines (serverWith nextByte (k + 2)) calls l)

theorem dvd_of_streamAgree {k : ℕ} {l : List Byte} (h : StreamAgree k l) : k + 1 ∣ (lastLine l).length := by
  induction hlen : l.length using Nat.strong_induction_on generalizing l with
  | _ len ih =>
    by_cases hnil : l = []
    · rw [hnil]
      exact Nat.dvd_zero _
    by_cases hshort : Short (k + 1) l
    · -- this call already disagrees
      obtain ⟨hfirst, -⟩ := List.forall₂_cons.mp (h 1)
      exact absurd hfirst (not_sameLine_of_short hshort hnil)
    · obtain ⟨heq, hdvd⟩ := call_of_not_short hshort
      rw [hdvd]
      refine ih _ (hlen ▸ length_after_lt hnil) (fun calls => ?_) rfl
      have hnext := h (calls + 1)
      rw [lines, lines, List.forall₂_cons, heq] at hnext
      exact hnext.2

theorem streamAgree_of_dvd {k : ℕ} {l : List Byte} (h : k + 1 ∣ (lastLine l).length) : StreamAgree k l := by
  intro calls
  induction calls generalizing l with
  | zero => exact .nil
  | succ calls ih =>
    rw [lines, lines, List.forall₂_cons]
    by_cases hshort : Short (k + 1) l
    · -- a last line that is short of a multiple is empty
      rw [lastLine_of_not_mem hshort.1] at h
      obtain rfl : l = [] := List.eq_nil_of_length_eq_zero (Nat.eq_zero_of_dvd_of_lt h hshort.2)
      exact ⟨sameLine_nil k, ih (Nat.dvd_zero _)⟩
    · obtain ⟨heq, hdvd⟩ := call_of_not_short hshort
      rw [heq]
      exact ⟨sameLine_refl _, ih (hdvd.mp h)⟩

theorem lines_eq_of_maxlen_le {maxlen : ℕ} (hmax : maxlen ≤ 1) (calls : ℕ) (l : List Byte) :
    lines (serverWith nextByte maxlen) calls l = lines (readlineWith nextByte maxlen) calls l := by
  have hcall : serverWith nextByte maxlen = readlineWith nextByte maxlen := by
    funext l
    rw [serverWith, readlineWith, Nat.sub_eq_zero_of_le hmax]
    rfl
  rw [hcall]

theorem forall₂_sameLine_refl (ls : List Line) : List.Forall₂ SameLine ls ls := by
  induction ls with
  | nil => exact .nil
  | cons a ls ih => exact .cons (sameLine_refl a) ih

/-- **When the three versions agree.** On every chunking of a stream, every sequence of calls gives the
same from `lib/readline.c`, `server/readline.c` and `server/readline_r.c` exactly when the buffer holds
no byte, or what follows the last newline fills it a number of times and leaves nothing over. -/
theorem readlines_agree_iff (maxlen : ℕ) (rptr : Rline) (stream : List Byte)
    (chunks chunks' chunks'' : List ℕ) :
    (∀ calls,
      List.Forall₂ SameLine (lines (readline maxlen) calls (ReadBuf.zero, chunked stream chunks))
        (lines (serverReadline maxlen) calls (chunked stream chunks')) ∧
      List.Forall₂ SameLine (lines (readline maxlen) calls (ReadBuf.zero, chunked stream chunks))
        (lines readlineR calls (readlineRinit maxlen rptr, chunked stream chunks'')) ∧
      List.Forall₂ SameLine (lines (serverReadline maxlen) calls (chunked stream chunks'))
        (lines readlineR calls (readlineRinit maxlen rptr, chunked stream chunks''))) ↔
    maxlen ≤ 1 ∨ maxlen - 1 ∣ (stream.rtakeWhile (· != 10)).length := by
  simp only [lines_readline, lines_serverReadline, lines_readlineR]
  constructor
  · intro h
    by_cases hmax : maxlen ≤ 1
    · exact .inl hmax
    · obtain ⟨k, rfl⟩ : ∃ k, maxlen = k + 2 := ⟨maxlen - 2, by omega⟩
      exact .inr (dvd_of_streamAgree fun calls => (h calls).1)
  · intro h calls
    by_cases hmax : maxlen ≤ 1
    · rw [lines_eq_of_maxlen_le hmax]
      exact ⟨forall₂_sameLine_refl _, forall₂_sameLine_refl _, forall₂_sameLine_refl _⟩
    · obtain ⟨k, rfl⟩ : ∃ k, maxlen = k + 2 := ⟨maxlen - 2, by omega⟩
      have hagree := streamAgree_of_dvd (h.resolve_left hmax) calls
      exact ⟨hagree, hagree, forall₂_sameLine_refl _⟩

/-- Two bytes without a newline: the library returns 2, the other two 3. -/
theorem readlines_disagree :
    lines (readline 16) 2 (ReadBuf.zero, chunked [97, 98] []) = [⟨2, [97, 98, 0]⟩, ⟨0, [0]⟩] ∧
    lines (serverReadline 16) 2 (chunked [97, 98] []) = [⟨3, [97, 98, 0]⟩, ⟨0, []⟩] ∧
    lines readlineR 2 (readlineRinit 16 ⟨0, ReadBuf.zero⟩, chunked [97, 98] []) =
      [⟨3, [97, 98, 0]⟩, ⟨0, []⟩] ∧
    ¬ ∀ maxlen stream chunks chunks' calls, 1 ≤ maxlen →
      List.Forall₂ SameLine (lines (readline maxlen) calls (ReadBuf.zero, chunked stream chunks))
        (lines (serverReadline maxlen) calls (chunked stream chunks')) := by
  refine ⟨by decide, by decide, by decide, fun hall => ?_⟩
  obtain ⟨hfirst, -⟩ := List.forall₂_cons.mp (hall 16 [97, 98] [] [] 2 (by decide))
  revert hfirst
  decide

end UnixNetProg.Readline
