import Mathlib.Data.Int.Notation
import UnixNetProg.Lib.Memory
import UnixNetProg.Lib.Source
import UnixNetProg.Lib.Transition
import UnixNetProg.Unp

/-!
# `readline`, buffered (`lib/readline.c`) and one byte at a time (`test/readline1.c`)

Both versions run the same loop, `readlineWith`, over a function that gets the next byte. The buffered
one gets it with `my_read` out of a `ReadBuf`, which holds the three static variables; the slow one
calls `read` for every byte. Both refine `nextByte`, which takes the first byte of a list: the buffered
one since the bytes it has in hand followed by those not read yet are that list (`InHand`).
-/

namespace UnixNetProg.Readline

open Lib

/-- The return value of `my_read`, with `*ptr` when it is 1; `error` is -1. -/
inductive MyRead where
  | byte (c : Byte)
  | eof
  | error
  deriving DecidableEq, Repr

/-- What a call of `readline` returns, and the bytes it has stored from `vptr` on. -/
structure Line where
  ret : ℤ
  stored : List Byte
  deriving DecidableEq, Repr

/-- The bytes of the line: what was stored, less the terminating 0. -/
def Line.bytes (line : Line) : List Byte := line.stored.dropLast

/-- The bytes that the call got; an error return stores no terminating 0. -/
def Line.taken (line : Line) : List Byte := if line.ret = -1 then line.stored else line.bytes

section Loop

variable {σ τ : Type}

/-- The loop of `readline`, with `k` turns left; `n` is the loop variable, `stored` what is at `vptr`. -/
def readlineLoop (get : σ → MyRead × σ) : ℕ → ℕ → List Byte → σ → Line × σ
  | 0, n, stored, s => (⟨n, stored ++ [0]⟩, s)
  | k + 1, n, stored, s =>
    match get s with
    | (.byte c, s') =>
      if c = 10 then (⟨n, stored ++ [c] ++ [0]⟩, s') else readlineLoop get k (n + 1) (stored ++ [c]) s'
    | (.eof, s') => (⟨n - 1, stored ++ [0]⟩, s')
    | (.error, s') => (⟨-1, stored⟩, s')

/-- `readline`, given how it gets a byte. -/
def readlineWith (get : σ → MyRead × σ) (maxlen : ℕ) (s : σ) : Line × σ :=
  readlineLoop get (maxlen - 1) 1 [] s

/-- The results of successive calls. -/
def readlines (call : ℕ → σ → Line × σ) : List ℕ → σ → List Line
  | [], _ => []
  | maxlen :: maxlens, s => (call maxlen s).1 :: readlines call maxlens (call maxlen s).2

/-- The state after successive calls. -/
def afterReadlines (call : ℕ → σ → Line × σ) : List ℕ → σ → σ
  | [], s => s
  | maxlen :: maxlens, s => afterReadlines call maxlens (call maxlen s).2

variable {call : ℕ → σ → Line × σ}

theorem readlines_concat (maxlens : List ℕ) (maxlen : ℕ) (s : σ) :
    readlines call (maxlens ++ [maxlen]) s =
      readlines call maxlens s ++ [(call maxlen (afterReadlines call maxlens s)).1] := by
  induction maxlens generalizing s with
  | nil => rfl
  | cons m maxlens ih =>
    rw [List.cons_append, readlines, ih]
    rfl

theorem afterReadlines_concat (maxlens : List ℕ) (maxlen : ℕ) (s : σ) :
    afterReadlines call (maxlens ++ [maxlen]) s = (call maxlen (afterReadlines call maxlens s)).2 := by
  induction maxlens generalizing s with
  | nil => rfl
  | cons m maxlens ih =>
    rw [List.cons_append, afterReadlines, ih]
    rfl

end Loop

/-! ### The two versions -/

/-- `read_cnt`, `read_ptr` as an offset, and `read_buf`. -/
structure ReadBuf where
  cnt : ℤ
  ptr : ℕ
  buf : Memory Byte

/-- Static storage is zero. -/
def ReadBuf.zero : ReadBuf := ⟨0, 0, fun _ => 0⟩

/-- `read_cnt--; *ptr = *read_ptr++; return(1);`. -/
def takeByte (b : ReadBuf) (d : Source Byte) : MyRead × ReadBuf × Source Byte :=
  (.byte (b.buf b.ptr), { b with cnt := b.cnt - 1, ptr := b.ptr + 1 }, d)

def myRead (s : ReadBuf × Source Byte) : MyRead × ReadBuf × Source Byte :=
  if s.1.cnt ≤ 0 then
    match s.2.readRetry MAXLINE with
    | (.data bytes, d) => takeByte ⟨bytes.length, 0, s.1.buf.store 0 bytes⟩ d
    | (.eof, d) => (.eof, { s.1 with cnt := 0 }, d)
    | (.error, d) => (.error, { s.1 with cnt := -1 }, d)
  else takeByte s.1 s.2

/-- `lib/readline.c`. -/
def readline (maxlen : ℕ) (s : ReadBuf × Source Byte) : Line × ReadBuf × Source Byte :=
  readlineWith myRead maxlen s

/-- `read(fd, &c, 1)`, again after an interruption. -/
def readOne (d : Source Byte) : MyRead × Source Byte :=
  match d.readRetry 1 with
  | (.data bytes, d') => (.byte (bytes.headD 0), d')
  | (.eof, d') => (.eof, d')
  | (.error, d') => (.error, d')

/-- `test/readline1.c`. -/
def readline1 (maxlen : ℕ) (d : Source Byte) : Line × Source Byte := readlineWith readOne maxlen d

/-- The next byte of a stream that is all there. -/
def nextByte : List Byte → MyRead × List Byte
  | [] => (.eof, [])
  | c :: rest => (.byte c, rest)

/-! ### Simulation -/

section Simulation

variable {σ τ : Type} {get : σ → MyRead × σ} {get' : τ → MyRead × τ} {R : σ → τ → Prop}

/-- Two ways to get a byte that give the same bytes give the same lines. -/
theorem readlineLoop_sim (hget : Lockstep R get get') (k n : ℕ) (stored : List Byte) :
    Lockstep R (readlineLoop get k n stored) (readlineLoop get' k n stored) := by
  induction k generalizing n stored with
  | zero => exact fun s t hR => ⟨rfl, hR⟩
  | succ k ih =>
    intro s t hR
    obtain ⟨res, s', t', hs, ht, hR'⟩ := hget.calls hR
    rw [readlineLoop, readlineLoop, hs, ht]
    cases res with
    | byte c =>
      dsimp only
      by_cases hc : c = 10
      · rw [if_pos hc, if_pos hc]
        exact ⟨rfl, hR'⟩
      · rw [if_neg hc, if_neg hc]
        exact ih _ _ _ _ hR'
    | eof => exact ⟨rfl, hR'⟩
    | error => exact ⟨rfl, hR'⟩

theorem readlineWith_sim (hget : Lockstep R get get') (maxlen : ℕ) :
    Lockstep R (readlineWith get maxlen) (readlineWith get' maxlen) := readlineLoop_sim hget _ _ _

theorem readlines_sim (hget : Lockstep R get get') (maxlens : List ℕ) {s : σ} {t : τ} (hR : R s t) :
    readlines (readlineWith get) maxlens s = readlines (readlineWith get') maxlens t := by
  induction maxlens generalizing s t with
  | nil => rfl
  | cons maxlen maxlens ih =>
    obtain ⟨hline, hR'⟩ := readlineWith_sim hget maxlen s t hR
    rw [readlines, readlines, hline, ih hR']

end Simulation

/-! ### What the loop takes -/

section Content

variable {σ : Type} {get : σ → MyRead × σ} {content : σ → List Byte}

/-- A way to get a byte takes it off the front of `content`. -/
def Takes (get : σ → MyRead × σ) (content : σ → List Byte) : Prop :=
  ∀ s, match (get s).1 with
    | .byte c => content s = c :: content (get s).2
    | _ => content (get s).2 = content s

theorem readlineLoop_takes (hget : Takes get content) (k : ℕ) {n : ℕ} (hn : 1 ≤ n) (stored : List Byte)
    (s : σ) : ∃ bytes, content s = bytes ++ content (readlineLoop get k n stored s).2 ∧
      ((readlineLoop get k n stored s).1.ret = -1 ∧
          (readlineLoop get k n stored s).1.stored = stored ++ bytes ∨
        0 ≤ (readlineLoop get k n stored s).1.ret ∧
          (readlineLoop get k n stored s).1.stored = stored ++ bytes ++ [0]) := by
  induction k generalizing n stored s with
  | zero =>
    refine ⟨[], rfl, .inr ⟨Int.natCast_nonneg n, ?_⟩⟩
    rw [List.append_nil]
    rfl
  | succ k ih =>
    have htakes := hget s
    rw [readlineLoop]
    generalize get s = p at htakes ⊢
    obtain ⟨res, s'⟩ := p
    cases res with
    | byte c =>
      change content s = c :: content s' at htakes
      dsimp only
      by_cases hc : c = 10
      · rw [if_pos hc]
        exact ⟨[c], htakes, .inr ⟨Int.natCast_nonneg n, rfl⟩⟩
      · rw [if_neg hc]
        obtain ⟨bytes, hcontent, hres⟩ := ih (n := n + 1) (by omega) (stored ++ [c]) s'
        refine ⟨c :: bytes, ?_, ?_⟩
        · rw [htakes, hcontent, List.cons_append]
        · rw [List.append_assoc stored, List.singleton_append] at hres
          exact hres
    | eof =>
      change content s' = content s at htakes
      refine ⟨[], htakes.symm, .inr ⟨?_, ?_⟩⟩
      · show (0 : ℤ) ≤ (n : ℤ) - 1
        omega
      · rw [List.append_nil]
    | error =>
      change content s' = content s at htakes
      exact ⟨[], htakes.symm, .inl ⟨rfl, (List.append_nil stored).symm⟩⟩

theorem readlineWith_taken (hget : Takes get content) (maxlen : ℕ) (s : σ) :
    content s = (readlineWith get maxlen s).1.taken ++ content (readlineWith get maxlen s).2 := by
  obtain ⟨bytes, hcontent, hres⟩ := readlineLoop_takes hget (maxlen - 1) (Nat.le_refl 1) [] s
  have htaken : (readlineWith get maxlen s).1.taken = bytes := by
    rcases hres with ⟨hret, hstored⟩ | ⟨hret, hstored⟩
    · rw [Line.taken, readlineWith, if_pos hret, hstored, List.nil_append]
    · rw [Line.taken, readlineWith, if_neg (by omega), Line.bytes, hstored, List.nil_append, List.dropLast_concat]
  rw [htaken]
  exact hcontent

/-- **A call that does not fail takes just the bytes of its line.** -/
theorem readlineWith_takes (hget : Takes get content) (maxlen : ℕ) (s : σ)
    (hret : (readlineWith get maxlen s).1.ret ≠ -1) :
    content s = (readlineWith get maxlen s).1.bytes ++ content (readlineWith get maxlen s).2 := by
  have htaken := readlineWith_taken hget maxlen s
  rw [Line.taken, if_neg hret] at htaken
  exact htaken

theorem readlines_taken (hget : Takes get content) (maxlens : List ℕ) (s : σ) :
    ((readlines (readlineWith get) maxlens s).map Line.taken).flatten <+: content s := by
  induction maxlens generalizing s with
  | nil => exact List.nil_prefix
  | cons maxlen maxlens ih =>
    rw [readlines, List.map_cons, List.flatten_cons, readlineWith_taken hget maxlen s]
    exact (List.prefix_append_right_inj _).mpr (ih _)

theorem readlineWith_head (hget : Takes get content) {maxlen : ℕ} (hmax : 1 < maxlen) {s s' : σ} {c : Byte}
    (hs : get s = (.byte c, s')) (hret : (readlineWith get maxlen s).1.ret ≠ -1) :
    ∃ bytes, (readlineWith get maxlen s).1.bytes = c :: bytes := by
  obtain ⟨k, hk⟩ : ∃ k, maxlen - 1 = k + 1 := ⟨maxlen - 2, by omega⟩
  rw [readlineWith, hk, readlineLoop, hs] at hret ⊢
  dsimp only at hret ⊢
  by_cases hc : c = 10
  · rw [if_pos hc]
    exact ⟨[], rfl⟩
  · rw [if_neg hc] at hret ⊢
    obtain ⟨bytes, -, hres⟩ := readlineLoop_takes hget k (n := 1 + 1) (by omega) ([] ++ [c]) s'
    obtain ⟨-, hstored⟩ := hres.resolve_left fun herr => hret herr.1
    refine ⟨bytes, ?_⟩
    rw [Line.bytes, hstored, List.dropLast_concat]
    rfl

end Content

/-! ### What is in hand -/

theorem maxline_pos : 0 < MAXLINE := by decide

/-- The bytes that were read and not handed out. -/
def ReadBuf.inHand (b : ReadBuf) : List Byte := b.buf.slice b.ptr (b.ptr + b.cnt.toNat)

theorem inHand_eq_nil_iff (b : ReadBuf) : b.inHand = [] ↔ b.cnt ≤ 0 := by
  rw [ReadBuf.inHand, Memory.slice_eq_nil_iff]
  omega

theorem inHand_of_cnt_le {b : ReadBuf} (h : b.cnt ≤ 0) : b.inHand = [] := (inHand_eq_nil_iff b).mpr h

theorem inHand_fill (buf : Memory Byte) (bytes : List Byte) :
    ReadBuf.inHand ⟨bytes.length, 0, buf.store 0 bytes⟩ = bytes := by
  have hslice := Memory.slice_store buf (Nat.le_refl 0) bytes
  rw [Memory.slice_self, List.nil_append] at hslice
  exact hslice

theorem takeByte_of_inHand {b : ReadBuf} {c : Byte} {rest : List Byte} (h : b.inHand = c :: rest)
    (d : Source Byte) :
    (takeByte b d).1 = .byte c ∧ (takeByte b d).2.1.inHand = rest ∧ (takeByte b d).2.2 = d := by
  have hlen : b.cnt.toNat = rest.length + 1 := by
    have hlen := congrArg List.length h
    rw [ReadBuf.inHand, Memory.length_slice, List.length_cons] at hlen
    omega
  have hhead : b.buf b.ptr = c := by
    have hget := Memory.getElem?_slice b.buf (i := b.ptr) (j := b.ptr + b.cnt.toNat) (k := 0) (by omega)
    change b.inHand[0]? = _ at hget
    rw [h] at hget
    exact (Option.some.inj hget).symm
  refine ⟨?_, ?_, rfl⟩
  · rw [takeByte, hhead]
  · have hcnt : (b.cnt - 1).toNat = rest.length := by omega
    have hend : b.ptr + 1 + rest.length = b.ptr + b.cnt.toNat := by omega
    show b.buf.slice (b.ptr + 1) (b.ptr + 1 + (b.cnt - 1).toNat) = rest
    rw [hcnt, hend, Memory.slice_add_left]
    change b.inHand.drop 1 = rest
    rw [h]
    rfl

/-- `my_read` without its buffer: what is in hand, and the descriptor. -/
def nextInHand (s : List Byte × Source Byte) : MyRead × List Byte × Source Byte :=
  match s.1 with
  | c :: rest => (.byte c, rest, s.2)
  | [] =>
    match s.2.readRetry MAXLINE with
    | (.data bytes, d) => (.byte (bytes.headD 0), bytes.tail, d)
    | (.eof, d) => (.eof, [], d)
    | (.error, d) => (.error, [], d)

/-- `my_read` depends on its buffer only through what is in hand. -/
theorem myRead_inHand (b : ReadBuf) (d : Source Byte) :
    (myRead (b, d)).1 = (nextInHand (b.inHand, d)).1 ∧
      (myRead (b, d)).2.1.inHand = (nextInHand (b.inHand, d)).2.1 ∧
      (myRead (b, d)).2.2 = (nextInHand (b.inHand, d)).2.2 := by
  by_cases hcnt : b.cnt ≤ 0
  · -- the buffer is empty: `read` decides
    rw [myRead, if_pos hcnt, nextInHand, inHand_of_cnt_le hcnt]
    dsimp only
    rcases d.readRetry_cases maxline_pos with
      ⟨-, plan, -, heq⟩ | ⟨-, plan, -, heq⟩ | ⟨c, bytes, rest, plan, -, -, -, heq⟩
    · rw [heq]
      exact ⟨rfl, inHand_of_cnt_le (Int.le_refl 0), rfl⟩
    · rw [heq]
      exact ⟨rfl, inHand_of_cnt_le (show (-1 : ℤ) ≤ 0 by decide), rfl⟩
    · rw [heq]
      exact takeByte_of_inHand (inHand_fill b.buf (c :: bytes)) ⟨rest, plan⟩
  · -- a byte is there
    obtain ⟨c, rest, hrest⟩ : ∃ c rest, b.inHand = c :: rest := by
      apply List.exists_cons_of_ne_nil
      rw [Ne, inHand_eq_nil_iff]
      exact hcnt
    rw [myRead, if_neg hcnt, hrest]
    exact takeByte_of_inHand hrest d

/-- What is in hand, and what is still to be read. -/
def unread (s : ReadBuf × Source Byte) : List Byte := s.1.inHand ++ s.2.rest

theorem myRead_takes : Takes myRead unread := by
  intro s
  obtain ⟨b, d⟩ := s
  obtain ⟨hres, hhand, hdesc⟩ := myRead_inHand b d
  simp only [unread]
  rw [hres, hhand, hdesc, nextInHand]
  cases hb : b.inHand with
  | cons c rest => rfl
  | nil =>
    dsimp only
    rcases d.readRetry_cases maxline_pos with
      ⟨-, plan, -, heq⟩ | ⟨-, plan, -, heq⟩ | ⟨c, bytes, rest, plan, hrest, -, -, heq⟩
    · rw [heq]
    · rw [heq]
    · rw [heq, hrest]
      rfl

theorem nextInHand_stream (hand : List Byte) {d : Source Byte} (hd : d.NoError) :
    (nextInHand (hand, d)).1 = (nextByte (hand ++ d.rest)).1 ∧
      (nextInHand (hand, d)).2.1 ++ (nextInHand (hand, d)).2.2.rest = (nextByte (hand ++ d.rest)).2 ∧
      (nextInHand (hand, d)).2.2.NoError := by
  cases hand with
  | cons c rest => exact ⟨rfl, rfl, hd⟩
  | nil =>
    rw [nextInHand]
    dsimp only
    rcases d.readRetry_cases maxline_pos with
      ⟨hnil, plan, hsub, heq⟩ | ⟨herr, -⟩ | ⟨c, bytes, rest, plan, hrest, -, hsub, heq⟩
    · rw [heq, hnil]
      exact ⟨rfl, rfl, fun herr => hd (hsub herr)⟩
    · exact absurd herr hd
    · rw [heq, hrest]
      exact ⟨rfl, rfl, fun herr => hd (hsub herr)⟩

/-- The buffer and the descriptor hold the stream. -/
def Holds (s : ReadBuf × Source Byte) (stream : List Byte) : Prop :=
  unread s = stream ∧ s.2.NoError

theorem myRead_refines : Lockstep Holds myRead nextByte := by
  rintro ⟨b, d⟩ stream ⟨rfl, hd⟩
  obtain ⟨hres, hhand, hdesc⟩ := myRead_inHand b d
  obtain ⟨hres', hstream, hd'⟩ := nextInHand_stream b.inHand hd
  refine ⟨hres.trans hres', ?_, ?_⟩
  · rw [unread, hhand, hdesc]
    exact hstream
  · rw [hdesc]
    exact hd'

theorem readOne_refines : Lockstep (fun d stream => d.rest = stream ∧ d.NoError) readOne nextByte := by
  rintro d stream ⟨rfl, hd⟩
  rw [readOne]
  rcases d.readRetry_cases Nat.one_pos with
    ⟨hnil, plan, hsub, heq⟩ | ⟨herr, -⟩ | ⟨c, bytes, rest, plan, hrest, hlen, hsub, heq⟩
  · rw [heq, hnil]
    exact ⟨rfl, rfl, fun herr => hd (hsub herr)⟩
  · exact absurd herr hd
  · obtain rfl : bytes = [] := List.eq_nil_of_length_eq_zero (by omega)
    rw [heq, hrest]
    exact ⟨rfl, rfl, fun herr => hd (hsub herr)⟩

/-- **The buffered `readline` refines the slow one.** For every stream, every way the reads cut it and
are interrupted, and every sequence of calls, the two versions return and store the same. -/
theorem readline_refines_readline1 (stream : List Byte) (plan plan1 : List Grant)
    (hplan : .error ∉ plan) (hplan1 : .error ∉ plan1) (maxlens : List ℕ) :
    readlines readline maxlens (ReadBuf.zero, ⟨stream, plan⟩) =
      readlines readline1 maxlens ⟨stream, plan1⟩ := by
  have hbuf : readlines readline maxlens (ReadBuf.zero, ⟨stream, plan⟩) =
      readlines (readlineWith nextByte) maxlens stream := by
    apply readlines_sim myRead_refines
    refine ⟨?_, hplan⟩
    rw [unread, inHand_of_cnt_le (Int.le_refl 0), List.nil_append]
  have hslow : readlines readline1 maxlens ⟨stream, plan1⟩ =
      readlines (readlineWith nextByte) maxlens stream :=
    readlines_sim readOne_refines maxlens ⟨rfl, hplan1⟩
  rw [hbuf, hslow]

/-- Two lines in pieces of two bytes with an interruption, and one byte at a time. -/
theorem readline_refines_readline1_sample :
    readlines readline [16, 16, 16, 16] (ReadBuf.zero, ⟨[97, 10, 98, 99, 10, 100], [.upTo 1, .intr, .upTo 1]⟩) =
      readlines readline1 [16, 16, 16, 16] ⟨[97, 10, 98, 99, 10, 100], [.intr]⟩ ∧
    readlines readline1 [16, 16, 16, 16] ⟨[97, 10, 98, 99, 10, 100], [.intr]⟩ =
      [⟨2, [97, 10, 0]⟩, ⟨3, [98, 99, 10, 0]⟩, ⟨1, [100, 0]⟩, ⟨0, [0]⟩] := by
  refine ⟨?_, by decide⟩
  exact readline_refines_readline1 _ _ _ (by decide) (by decide) _

end UnixNetProg.Readline
