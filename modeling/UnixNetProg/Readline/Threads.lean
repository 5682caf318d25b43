import Mathlib.Logic.Function.Basic
import UnixNetProg.Lib.Heap
import UnixNetProg.Lib.Transition
import UnixNetProg.Readline.Readline

/-!
# The thread-safe `readline` (`threads/readline.c`)

Each thread has a buffer of its own, which its first call allocates and which `pthread_getspecific`
gives back to the later ones. All buffers lie in one heap; a step of a thread is one turn of the loop
of `readline`, with its call of `my_read`, so the turns of different calls come in any order. A thread
reads its descriptors one after the other, each until `readline` returns 0 (`threads/test04.c`).

`cur` and `finished` keep what the calls on each descriptor have returned; no step looks at them.
-/

namespace UnixNetProg.Readline

open Lib

/-- A descriptor as it was opened, and the calls made on it: `maxlen` and the result of each. -/
structure Transcript where
  origin : Source Byte
  calls : List (ℕ × Line)

/-- Where a thread is: with no descriptor open, before a call, at the test `n < maxlen` of the loop, or
ended. -/
inductive ThreadPc where
  | between
  | ready
  | inside (tsd maxlen n : ℕ) (stored : List Byte)
  | exited
  deriving DecidableEq

structure Thread where
  pc : ThreadPc
  todo : List (Source Byte)
  fd : Source Byte
  cur : Transcript
  finished : List Transcript

structure ThreadsState where
  rlOnce : Bool
  heap : Heap ReadBuf
  specific : ℕ → Option ℕ
  threads : ℕ → Thread
  quit : Bool

/-- Open the next descriptor, call `Readline`, take a turn in it, or end the thread. -/
inductive ThreadAction where
  | open_ (t : ℕ)
  | call (t maxlen : ℕ)
  | turn (t : ℕ)
  | exit (t : ℕ)

/-- The next descriptor of the thread. -/
def Thread.openNext (th : Thread) : Thread :=
  match th.todo with
  | [] => th
  | d :: todo => { th with pc := .ready, todo := todo, fd := d, cur := ⟨d, []⟩ }

/-- `Readline` returns `line`; a return of 0 ends the loop over the lines of the descriptor. -/
def Thread.return_ (th : Thread) (maxlen : ℕ) (line : Line) : Thread :=
  let cur : Transcript := { th.cur with calls := th.cur.calls ++ [(maxlen, line)] }
  if line.ret = 0 then { th with pc := .between, cur := cur, finished := th.finished ++ [cur] }
  else { th with pc := .ready, cur := cur }

def ThreadsState.setThread (s : ThreadsState) (t : ℕ) (th : Thread) : ThreadsState :=
  { s with threads := Function.update s.threads t th }

/-- `readline` up to its loop: `Pthread_once`, then the buffer of the thread, zeroed when it is new. -/
def enter (s : ThreadsState) (t maxlen : ℕ) : ThreadsState :=
  let th := s.threads t
  match s.specific t with
  | some tsd => { s with rlOnce := true }.setThread t { th with pc := .inside tsd maxlen 1 [] }
  | none =>
    { s with
      rlOnce := true
      heap := s.heap.alloc .zero
      specific := Function.update s.specific t (some s.heap.fresh) }.setThread t
        { th with pc := .inside s.heap.fresh maxlen 1 [] }

/-- One turn of the loop in `readline`: it is left, or goes on with `n` and `stored`. -/
def readlineTurn {σ : Type} (get : σ → MyRead × σ) (maxlen n : ℕ) (stored : List Byte) (s : σ) :
    (Line ⊕ ℕ × List Byte) × σ :=
  if n < maxlen then
    match get s with
    | (.byte c, s') =>
      if c = 10 then (.inl ⟨n, stored ++ [c] ++ [0]⟩, s') else (.inr (n + 1, stored ++ [c]), s')
    | (.eof, s') => (.inl ⟨n - 1, stored ++ [0]⟩, s')
    | (.error, s') => (.inl ⟨-1, stored⟩, s')
  else (.inl ⟨n, stored ++ [0]⟩, s)

/-- The thread after a turn of its loop, with the descriptor as the turn left it. -/
def Thread.turned (th : Thread) (tsd maxlen : ℕ) (d : Source Byte) : Line ⊕ ℕ × List Byte → Thread
  | .inl line => { th with fd := d }.return_ maxlen line
  | .inr (n, stored) => { th with pc := .inside tsd maxlen n stored, fd := d }

def turnFailed : Line ⊕ ℕ × List Byte → Bool
  | .inl line => decide (line.ret = -1)
  | .inr _ => false

/-- The turn of a thread; an error ends the process. -/
def takeTurn (s : ThreadsState) (t : ℕ) : ThreadsState :=
  let th := s.threads t
  match th.pc with
  | .inside tsd maxlen n stored =>
    match s.heap.get tsd with
    | none => s
    | some b =>
      let res := readlineTurn myRead maxlen n stored (b, th.fd)
      { s with
        heap := s.heap.set tsd res.2.1
        quit := turnFailed res.1 }.setThread t
          (th.turned tsd maxlen res.2.2 res.1)
  | _ => s

/-- The thread ends; `readline_destructor` frees its buffer. -/
def exitThread (s : ThreadsState) (t : ℕ) : ThreadsState :=
  let heap := match s.specific t with
    | some tsd => s.heap.free tsd
    | none => s.heap
  { s with heap := heap, specific := Function.update s.specific t none }.setThread t
    { s.threads t with pc := .exited }

def ThreadPc.isInside : ThreadPc → Bool
  | .inside _ _ _ _ => true
  | _ => false

def ThreadEnabled (s : ThreadsState) : ThreadAction → Prop
  | .open_ t => s.quit = false ∧ (s.threads t).pc = .between ∧ (s.threads t).todo ≠ []
  | .call t _ => s.quit = false ∧ (s.threads t).pc = .ready
  | .turn t => s.quit = false ∧ (s.threads t).pc.isInside
  | .exit t => s.quit = false ∧ (s.threads t).pc = .between ∧ (s.threads t).todo = []

instance (s : ThreadsState) : ∀ a, Decidable (ThreadEnabled s a)
  | .open_ _ | .call _ _ | .turn _ | .exit _ => inferInstanceAs (Decidable (_ ∧ _))

def threadNext (s : ThreadsState) : ThreadAction → ThreadsState
  | .open_ t => s.setThread t (s.threads t).openNext
  | .call t maxlen => enter s t maxlen
  | .turn t => takeTurn s t
  | .exit t => exitThread s t

/-- Each thread starts with its list of descriptors. -/
def threadsStart (program : ℕ → List (Source Byte)) : ThreadsState where
  rlOnce := false
  heap := ⟨[]⟩
  specific _ := none
  threads t := ⟨.between, program t, ⟨[], []⟩, ⟨⟨[], []⟩, []⟩, []⟩
  quit := false

def readlineThreads (program : ℕ → List (Source Byte)) : TransitionSystem ThreadsState :=
  .ofActions (· = threadsStart program) ThreadEnabled threadNext

/-! ### One turn -/

section Turn

variable {σ τ : Type} {get : σ → MyRead × σ} {get' : τ → MyRead × τ} {R : σ → τ → Prop}

theorem readlineLoop_turn (maxlen n : ℕ) (stored : List Byte) (s : σ) :
    readlineLoop get (maxlen - n) n stored s =
      match readlineTurn get maxlen n stored s with
      | (.inl line, s') => (line, s')
      | (.inr (n', stored'), s') => readlineLoop get (maxlen - n') n' stored' s' := by
  by_cases hn : n < maxlen
  · have hk : maxlen - n = (maxlen - (n + 1)) + 1 := by omega
    rw [hk, readlineLoop, readlineTurn, if_pos hn]
    obtain ⟨res, s'⟩ := get s
    cases res with
    | byte c =>
      dsimp only
      by_cases hc : c = 10
      · rw [if_pos hc, if_pos hc]
      · rw [if_neg hc, if_neg hc]
    | eof => rfl
    | error => rfl
  · have hk : maxlen - n = 0 := by omega
    rw [hk, readlineTurn, if_neg hn]
    rfl

theorem readlineTurn_sim (hget : Lockstep R get get') (maxlen n : ℕ) (stored : List Byte) :
    Lockstep R (readlineTurn get maxlen n stored) (readlineTurn get' maxlen n stored) := by
  intro s t hR
  by_cases hn : n < maxlen
  · obtain ⟨res, s', t', hs, ht, hR'⟩ := hget.calls hR
    rw [readlineTurn, readlineTurn, if_pos hn, if_pos hn, hs, ht]
    cases res with
    | byte c =>
      dsimp only
      by_cases hc : c = 10
      · rw [if_pos hc, if_pos hc]
        exact ⟨rfl, hR'⟩
      · rw [if_neg hc, if_neg hc]
        exact ⟨rfl, hR'⟩
    | eof => exact ⟨rfl, hR'⟩
    | error => exact ⟨rfl, hR'⟩
  · rw [readlineTurn, readlineTurn, if_neg hn, if_neg hn]
    exact ⟨rfl, hR⟩

theorem readlineTurn_goes_on {maxlen n n' : ℕ} {stored stored' : List Byte} {s s' : σ}
    (h : readlineTurn get maxlen n stored s = (.inr (n', stored'), s')) : n' = n + 1 := by
  unfold readlineTurn at h
  by_cases hlt : n < maxlen
  · rw [if_pos hlt] at h
    generalize get s = p at h
    obtain ⟨res, s₁⟩ := p
    cases res with
    | byte c =>
      dsimp only at h
      by_cases hc : c = 10
      · rw [if_pos hc] at h
        exact nomatch (Prod.mk.inj h).1
      · rw [if_neg hc] at h
        exact (Prod.mk.inj (Sum.inr.inj (Prod.mk.inj h).1)).1.symm
    | eof => exact nomatch (Prod.mk.inj h).1
    | error => exact nomatch (Prod.mk.inj h).1
  · rw [if_neg hlt] at h
    exact nomatch (Prod.mk.inj h).1

theorem eof_of_ret_zero {maxlen n : ℕ} (hn : 1 ≤ n) {stored : List Byte} {s s' : σ} {line : Line}
    (h : readlineTurn get maxlen n stored s = (.inl line, s')) (hret : line.ret = 0) :
    get s = (.eof, s') := by
  have hne : ∀ stored', line ≠ ⟨n, stored'⟩ := by
    intro stored' hline
    rw [hline] at hret
    change (n : ℤ) = 0 at hret
    omega
  unfold readlineTurn at h
  by_cases hlt : n < maxlen
  · rw [if_pos hlt] at h
    generalize get s = p at h ⊢
    obtain ⟨res, s₁⟩ := p
    cases res with
    | byte c =>
      dsimp only at h
      by_cases hc : c = 10
      · rw [if_pos hc] at h
        exact absurd (Sum.inl.inj (Prod.mk.inj h).1).symm (hne _)
      · rw [if_neg hc] at h
        exact nomatch (Prod.mk.inj h).1
    | eof => rw [(Prod.mk.inj h).2]
    | error =>
      rw [← Sum.inl.inj (Prod.mk.inj h).1] at hret
      exact absurd hret (show ¬ (-1 : ℤ) = 0 by decide)
  · rw [if_neg hlt] at h
    exact absurd (Sum.inl.inj (Prod.mk.inj h).1).symm (hne _)

end Turn

theorem nextInHand_eof {s s' : List Byte × Source Byte} (h : nextInHand s = (.eof, s')) : s'.1 = [] := by
  obtain ⟨hand, d⟩ := s
  unfold nextInHand at h
  cases hand with
  | cons c rest => exact nomatch (Prod.mk.inj h).1
  | nil =>
    dsimp only at h
    rcases d.readRetry_cases maxline_pos with
      ⟨-, plan, -, heq⟩ | ⟨-, plan, -, heq⟩ | ⟨c, bytes, rest, plan, -, -, -, heq⟩
    · rw [heq] at h
      rw [← (Prod.mk.inj h).2]
    · rw [heq] at h
      exact nomatch (Prod.mk.inj h).1
    · rw [heq] at h
      exact nomatch (Prod.mk.inj h).1

/-! ### One thread -/

/-- The state of a thread that makes the calls of the transcript alone, with an empty buffer. -/
def Transcript.after (tr : Transcript) : List Byte × Source Byte :=
  afterReadlines (readlineWith nextInHand) (tr.calls.map Prod.fst) ([], tr.origin)

/-- The results are those of a thread that makes the calls alone, with an empty buffer. -/
def Transcript.Alone (tr : Transcript) : Prop :=
  tr.calls.map Prod.snd = readlines readline (tr.calls.map Prod.fst) (ReadBuf.zero, tr.origin)

/-- The descriptors that the thread has opened. -/
def Thread.transcripts (th : Thread) : List Transcript :=
  match th.pc with
  | .ready | .inside _ _ _ _ => th.finished ++ [th.cur]
  | .between | .exited => th.finished

/-- What holds at each point, for the bytes in hand and the thread's buffer `own`. -/
def Place (hand : List Byte) (own : Option ℕ) (th : Thread) : Prop :=
  match th.pc with
  | .between => hand = []
  | .ready => (hand, th.fd) = th.cur.after
  | .inside tsd maxlen n stored => own = some tsd ∧ 1 ≤ n ∧
      readlineLoop nextInHand (maxlen - n) n stored (hand, th.fd) = readlineWith nextInHand maxlen th.cur.after
  | .exited => True

structure ThreadInv (hand : List Byte) (own : Option ℕ) (program : List (Source Byte)) (th : Thread) :
    Prop where
  place : Place hand own th
  alone : ∀ tr ∈ th.transcripts, tr.Alone
  ended : ∀ tr ∈ th.finished, ∃ call, tr.calls.getLast? = some call ∧ call.2.ret = 0
  origins : th.transcripts.map Transcript.origin ++ th.todo = program

/-- The buffer and what is in hand. -/
def SameHand (s : ReadBuf × Source Byte) (t : List Byte × Source Byte) : Prop := (s.1.inHand, s.2) = t

theorem myRead_sameHand : Lockstep SameHand myRead nextInHand := by
  rintro ⟨b, d⟩ t rfl
  obtain ⟨hres, hhand, hdesc⟩ := myRead_inHand b d
  exact ⟨hres, Prod.ext hhand hdesc⟩

theorem readlines_nextInHand (maxlens : List ℕ) (d : Source Byte) :
    readlines readline maxlens (ReadBuf.zero, d) = readlines (readlineWith nextInHand) maxlens ([], d) := by
  apply readlines_sim myRead_sameHand
  rw [SameHand, inHand_of_cnt_le (Int.le_refl 0)]

theorem Transcript.Alone.concat {tr : Transcript} (h : tr.Alone) {maxlen : ℕ} {line : Line}
    {s : List Byte × Source Byte} (hcall : readlineWith nextInHand maxlen tr.after = (line, s)) :
    ({ tr with calls := tr.calls ++ [(maxlen, line)] } : Transcript).Alone ∧
      ({ tr with calls := tr.calls ++ [(maxlen, line)] } : Transcript).after = s := by
  rw [Alone, readlines_nextInHand] at h
  refine ⟨?_, ?_⟩
  · rw [Alone, readlines_nextInHand]
    simp only [List.map_append, List.map_cons, List.map_nil]
    rw [readlines_concat, ← h]
    rw [after] at hcall
    rw [hcall]
  · rw [after]
    simp only [List.map_append, List.map_cons, List.map_nil]
    rw [afterReadlines_concat]
    rw [after] at hcall
    rw [hcall]

section OneThread

variable {hand : List Byte} {own : Option ℕ} {program : List (Source Byte)} {th : Thread}

theorem threadInv_openNext (h : ThreadInv hand own program th) (hpc : th.pc = .between) :
    ThreadInv hand own program th.openNext := by
  have hhand : hand = [] := by
    have hplace := h.place
    rw [Place, hpc] at hplace
    exact hplace
  have htr : th.transcripts = th.finished := by rw [Thread.transcripts, hpc]
  have halone := h.alone
  have horigins := h.origins
  rw [htr] at halone horigins
  unfold Thread.openNext
  cases htodo : th.todo with
  | nil => exact h
  | cons d todo =>
    refine ⟨?_, ?_, h.ended, ?_⟩
    · show (hand, d) = ([], d)
      rw [hhand]
    · intro tr hmem
      rcases List.mem_append.mp hmem with hmem | hmem
      · exact halone tr hmem
      · rw [List.mem_singleton.mp hmem]
        rfl
    · rw [htodo] at horigins
      show (th.finished ++ [(⟨d, []⟩ : Transcript)]).map Transcript.origin ++ todo = program
      rw [List.map_append, List.append_assoc]
      exact horigins

theorem threadInv_enter (h : ThreadInv hand own program th) (hpc : th.pc = .ready) (tsd maxlen : ℕ) :
    ThreadInv hand (some tsd) program { th with pc := .inside tsd maxlen 1 [] } := by
  have hplace := h.place
  rw [Place, hpc] at hplace
  have htr : th.transcripts = th.finished ++ [th.cur] := by rw [Thread.transcripts, hpc]
  have halone := h.alone
  have horigins := h.origins
  rw [htr] at halone horigins
  refine ⟨⟨rfl, Nat.le_refl 1, ?_⟩, halone, h.ended, horigins⟩
  show readlineLoop nextInHand (maxlen - 1) 1 [] (hand, th.fd) = _
  rw [hplace]
  rfl

theorem threadInv_return {hand' : List Byte} {d : Source Byte} {maxlen : ℕ} {line : Line}
    (halone : ∀ tr ∈ th.finished ++ [th.cur], tr.Alone)
    (hended : ∀ tr ∈ th.finished, ∃ call, tr.calls.getLast? = some call ∧ call.2.ret = 0)
    (horigins : (th.finished ++ [th.cur]).map Transcript.origin ++ th.todo = program)
    (hcall : readlineWith nextInHand maxlen th.cur.after = (line, hand', d))
    (hzero : line.ret = 0 → hand' = []) :
    ThreadInv hand' own program ({ th with fd := d }.return_ maxlen line) := by
  have hcur : th.cur.Alone := halone th.cur (by simp)
  obtain ⟨halone', hafter⟩ := hcur.concat hcall
  have hall : ∀ tr ∈ th.finished ++ [⟨th.cur.origin, th.cur.calls ++ [(maxlen, line)]⟩], tr.Alone := by
    intro tr hmem
    rcases List.mem_append.mp hmem with hmem | hmem
    · exact halone tr (List.mem_append_left _ hmem)
    · rw [List.mem_singleton.mp hmem]
      exact halone'
  have horigins' : (th.finished ++ [(⟨th.cur.origin, th.cur.calls ++ [(maxlen, line)]⟩ : Transcript)]).map
      Transcript.origin ++ th.todo = program := by
    rw [List.map_append] at horigins ⊢
    exact horigins
  unfold Thread.return_
  by_cases hret : line.ret = 0
  · rw [if_pos hret]
    refine ⟨hzero hret, hall, fun tr hmem => ?_, horigins'⟩
    rcases List.mem_append.mp hmem with hmem | hmem
    · exact hended tr hmem
    · rw [List.mem_singleton.mp hmem]
      exact ⟨(maxlen, line), List.getLast?_concat .., hret⟩
  · rw [if_neg hret]
    exact ⟨hafter.symm, hall, hended, horigins'⟩

theorem threadInv_turned (h : ThreadInv hand own program th) {tsd maxlen n : ℕ} {stored : List Byte}
    (hpc : th.pc = .inside tsd maxlen n stored) {res : Line ⊕ ℕ × List Byte} {hand' : List Byte}
    {d : Source Byte} (hturn : readlineTurn nextInHand maxlen n stored (hand, th.fd) = (res, hand', d)) :
    ThreadInv hand' own program (th.turned tsd maxlen d res) := by
  have hplace := h.place
  rw [Place, hpc] at hplace
  obtain ⟨hown, hn, hloop⟩ := hplace
  rw [readlineLoop_turn, hturn] at hloop
  have htr : th.transcripts = th.finished ++ [th.cur] := by rw [Thread.transcripts, hpc]
  have halone := h.alone
  have horigins := h.origins
  rw [htr] at halone horigins
  cases res with
  | inl line =>
    apply threadInv_return halone h.ended horigins hloop.symm
    intro hret
    exact nextInHand_eof (eof_of_ret_zero hn hturn hret)
  | inr go =>
    obtain ⟨n', stored'⟩ := go
    have hn' : n' = n + 1 := readlineTurn_goes_on hturn
    exact ⟨⟨hown, by omega, hloop⟩, halone, h.ended, horigins⟩

theorem threadInv_exit (h : ThreadInv hand own program th) (hpc : th.pc = .between) :
    ThreadInv [] none program { th with pc := .exited } := by
  have htr : th.transcripts = th.finished := by rw [Thread.transcripts, hpc]
  have halone := h.alone
  have horigins := h.origins
  rw [htr] at halone horigins
  exact ⟨trivial, halone, h.ended, horigins⟩

end OneThread

/-! ### All threads -/

/-- The bytes that the buffer of a thread has in hand. -/
def ThreadsState.hand (s : ThreadsState) (t : ℕ) : List Byte :=
  ((s.specific t).bind s.heap.get).elim [] ReadBuf.inHand

structure ThreadsInv (program : ℕ → List (Source Byte)) (s : ThreadsState) : Prop where
  live : ∀ t tsd, s.specific t = some tsd → ∃ b, s.heap.get tsd = some b
  apart : ∀ t t' tsd, s.specific t = some tsd → s.specific t' = some tsd → t = t'
  thread : ∀ t, ThreadInv (s.hand t) (s.specific t) (program t) (s.threads t)

section AllThreads

variable {program : ℕ → List (Source Byte)} {s s' : ThreadsState} {t : ℕ}

theorem hand_of_get {b : ReadBuf} {tsd : ℕ} (hown : s.specific t = some tsd)
    (hget : s.heap.get tsd = some b) : s.hand t = b.inHand := by
  rw [ThreadsState.hand, hown, Option.bind_some, hget]
  rfl

theorem hand_of_none (hown : s.specific t = none) : s.hand t = [] := by
  rw [ThreadsState.hand, hown]
  rfl

/-- A step of the thread `t` that touches no buffer of the others. -/
theorem threadsInv_step (h : ThreadsInv program s) (hown : ∀ u ≠ t, s'.specific u = s.specific u)
    (hheap : ∀ u ≠ t, ∀ tsd, s.specific u = some tsd → s'.heap.get tsd = s.heap.get tsd)
    (hthreads : ∀ u ≠ t, s'.threads u = s.threads u)
    (hself : ∀ tsd, s'.specific t = some tsd →
      (∃ b, s'.heap.get tsd = some b) ∧ ∀ u ≠ t, s.specific u ≠ some tsd)
    (hthread : ThreadInv (s'.hand t) (s'.specific t) (program t) (s'.threads t)) :
    ThreadsInv program s' := by
  refine ⟨fun u tsd hu => ?_, fun u u' tsd hu hu' => ?_, fun u => ?_⟩
  · by_cases hut : u = t
    · rw [hut] at hu
      exact (hself tsd hu).1
    · rw [hown u hut] at hu
      rw [hheap u hut tsd hu]
      exact h.live u tsd hu
  · by_cases hut : u = t
    · by_contra hne
      have hu't : u' ≠ t := fun heq => hne (hut.trans heq.symm)
      rw [hut] at hu
      rw [hown u' hu't] at hu'
      exact (hself tsd hu).2 u' hu't hu'
    · rw [hown u hut] at hu
      by_cases hu't : u' = t
      · rw [hu't] at hu'
        exact absurd hu ((hself tsd hu').2 u hut)
      · rw [hown u' hu't] at hu'
        exact h.apart u u' tsd hu hu'
  · by_cases hut : u = t
    · rw [hut]
      exact hthread
    · have hhand : s'.hand u = s.hand u := by
        rw [ThreadsState.hand, ThreadsState.hand, hown u hut]
        cases hs : s.specific u with
        | none => rfl
        | some tsd => rw [Option.bind_some, Option.bind_some, hheap u hut tsd hs]
      rw [hhand, hown u hut, hthreads u hut]
      exact h.thread u

theorem ThreadsInv.own (h : ThreadsInv program s) {tsd : ℕ} (hown : s.specific t = some tsd) :
    (∃ b, s.heap.get tsd = some b) ∧ ∀ u ≠ t, s.specific u ≠ some tsd :=
  ⟨h.live t tsd hown, fun u hu hu' => hu (h.apart u t tsd hu' hown)⟩

theorem threadsInv_start (program : ℕ → List (Source Byte)) : ThreadsInv program (threadsStart program) :=
  ⟨nofun, nofun, fun _ => ⟨rfl, nofun, nofun, rfl⟩⟩

theorem threadsInv_setThread (h : ThreadsInv program s) {th : Thread}
    (hth : ThreadInv (s.hand t) (s.specific t) (program t) th) : ThreadsInv program (s.setThread t th) := by
  apply threadsInv_step (t := t) h
  · exact fun _ _ => rfl
  · exact fun _ _ _ _ => rfl
  · intro u hu
    exact Function.update_of_ne hu _ _
  · exact fun tsd hown => h.own hown
  · show ThreadInv (s.hand t) (s.specific t) (program t) (Function.update s.threads t _ t)
    rw [Function.update_self]
    exact hth

theorem threadsInv_open (h : ThreadsInv program s) (hpc : (s.threads t).pc = .between) :
    ThreadsInv program (s.setThread t (s.threads t).openNext) :=
  threadsInv_setThread h (threadInv_openNext (h.thread t) hpc)

theorem threadsInv_enter (h : ThreadsInv program s) (hpc : (s.threads t).pc = .ready) (maxlen : ℕ) :
    ThreadsInv program (enter s t maxlen) := by
  unfold enter
  cases hown : s.specific t with
  | some tsd =>
    have hsame : ThreadsInv program { s with rlOnce := true } := ⟨h.live, h.apart, h.thread⟩
    refine threadsInv_setThread hsame ?_
    show ThreadInv (s.hand t) (s.specific t) (program t) _
    rw [hown]
    exact threadInv_enter (h.thread t) hpc tsd maxlen
  | none =>
    -- a new buffer, which no thread has yet
    have hlt : ∀ u tsd, s.specific u = some tsd → tsd < s.heap.fresh := by
      intro u tsd hu
      obtain ⟨b, hb⟩ := h.live u tsd hu
      exact Heap.lt_fresh hb
    have hfresh : Function.update s.specific t (some s.heap.fresh) t = some s.heap.fresh :=
      Function.update_self ..
    have hhand : s.hand t = [] := hand_of_none hown
    apply threadsInv_step (t := t) h
    · intro u hu
      exact Function.update_of_ne hu _ _
    · intro u hu tsd hu'
      exact Heap.get_alloc_of_lt (hlt u tsd hu')
    · intro u hu
      exact Function.update_of_ne hu _ _
    · intro tsd htsd
      obtain rfl : s.heap.fresh = tsd := Option.some.inj (hfresh.symm.trans htsd)
      refine ⟨⟨_, Heap.get_alloc_fresh⟩, fun u _ hu => ?_⟩
      have hlt' := hlt u _ hu
      omega
    · rw [hand_of_get hfresh Heap.get_alloc_fresh, inHand_of_cnt_le (Int.le_refl 0)]
      show ThreadInv [] (Function.update s.specific t _ t) (program t) (Function.update s.threads t _ t)
      rw [Function.update_self, Function.update_self]
      have hinv := threadInv_enter (h.thread t) hpc s.heap.fresh maxlen
      rw [hhand] at hinv
      exact hinv

theorem takeTurn_of_inside {tsd maxlen n : ℕ} {stored : List Byte} {b : ReadBuf}
    (hpc : (s.threads t).pc = .inside tsd maxlen n stored) (hget : s.heap.get tsd = some b) :
    takeTurn s t =
      let res := readlineTurn myRead maxlen n stored (b, (s.threads t).fd)
      { s with heap := s.heap.set tsd res.2.1, quit := turnFailed res.1 }.setThread t
        ((s.threads t).turned tsd maxlen res.2.2 res.1) := by
  simp only [takeTurn, hpc, hget]

theorem threadsInv_turn (h : ThreadsInv program s) (hpc : (s.threads t).pc.isInside) :
    ThreadsInv program (takeTurn s t) := by
  cases hth : (s.threads t).pc with
  | inside tsd maxlen n stored =>
    have hplace := (h.thread t).place
    rw [Place, hth] at hplace
    obtain ⟨hown, -⟩ := hplace
    obtain ⟨⟨b, hget⟩, hother⟩ := h.own hown
    have hlt : tsd < s.heap.fresh := Heap.lt_fresh hget
    have hhand' : (takeTurn s t).hand t =
        (readlineTurn myRead maxlen n stored (b, (s.threads t).fd)).2.1.inHand := by
      rw [takeTurn_of_inside hth hget]
      exact hand_of_get hown (Heap.get_set_self hlt)
    rw [takeTurn_of_inside hth hget] at hhand' ⊢
    apply threadsInv_step (t := t) h
    · exact fun _ _ => rfl
    · intro u hu tsd' hu'
      apply Heap.get_set_ne
      intro heq
      rw [heq] at hu'
      exact hother u hu hu'
    · intro u hu
      exact Function.update_of_ne hu _ _
    · intro tsd' htsd
      obtain rfl : tsd = tsd' := Option.some.inj (hown.symm.trans htsd)
      exact ⟨⟨_, Heap.get_set_self hlt⟩, hother⟩
    · rw [hhand']
      show ThreadInv _ (s.specific t) (program t) (Function.update s.threads t _ t)
      rw [Function.update_self]
      -- the turn depends on the buffer only through what is in hand
      have hhand : SameHand (b, (s.threads t).fd) (s.hand t, (s.threads t).fd) := by
        rw [SameHand, hand_of_get hown hget]
      obtain ⟨hres, hsame⟩ := readlineTurn_sim myRead_sameHand maxlen n stored _ _ hhand
      apply threadInv_turned (h.thread t) hth
      rw [hres]
      exact Prod.ext rfl hsame.symm
  | between =>
    rw [hth] at hpc
    exact nomatch hpc
  | ready =>
    rw [hth] at hpc
    exact nomatch hpc
  | exited =>
    rw [hth] at hpc
    exact nomatch hpc

theorem threadsInv_exit (h : ThreadsInv program s) (hpc : (s.threads t).pc = .between) :
    ThreadsInv program (exitThread s t) := by
  have hnone : Function.update s.specific t none t = none := Function.update_self ..
  apply threadsInv_step (t := t) h
  · intro u hu
    exact Function.update_of_ne hu _ _
  · intro u hu tsd hu'
    show (match s.specific t with
      | some tsd => s.heap.free tsd
      | none => s.heap).get tsd = s.heap.get tsd
    cases hown : s.specific t with
    | none => rfl
    | some tsd' =>
      apply Heap.get_free_ne
      rintro rfl
      exact (h.own hown).2 u hu hu'
  · intro u hu
    exact Function.update_of_ne hu _ _
  · intro tsd htsd
    exact nomatch hnone.symm.trans htsd
  · rw [hand_of_none hnone]
    show ThreadInv [] (Function.update s.specific t none t) (program t) (Function.update s.threads t _ t)
    rw [Function.update_self, Function.update_self]
    exact threadInv_exit (h.thread t) hpc

theorem threadsInv_reachable (h : (readlineThreads program).Reachable s) : ThreadsInv program s := by
  refine TransitionSystem.invariant ?_ ?_ h
  · intro s hs
    rw [hs]
    exact threadsInv_start program
  · intro s s' _ hinv hstep
    obtain ⟨a, ha, rfl⟩ := hstep
    cases a with
    | open_ t => exact threadsInv_open hinv ha.2.1
    | call t maxlen => exact threadsInv_enter hinv ha.2 maxlen
    | turn t => exact threadsInv_turn hinv ha.2
    | exit t => exact threadsInv_exit hinv ha.2.1

theorem Transcript.Alone.taken {tr : Transcript} (h : tr.Alone) :
    (tr.calls.map fun call => call.2.taken).flatten <+: tr.origin.rest := by
  have htaken := readlines_taken myRead_takes (tr.calls.map Prod.fst) (ReadBuf.zero, tr.origin)
  rw [unread, inHand_of_cnt_le (Int.le_refl 0), List.nil_append] at htaken
  change ((readlines readline _ _).map Line.taken).flatten <+: _ at htaken
  rw [← h, List.map_map] at htaken
  exact htaken

/-- **Threads do not disturb each other.** In every interleaving of any number of threads, each with any
list of descriptors, what the calls on a descriptor return is what they return to a thread that runs
alone on it with an empty buffer, and the bytes they get are the beginning of that descriptor's stream.
The descriptors are opened in order, and each is left by a return of 0. -/
theorem readline_threads_alone (program : ℕ → List (Source Byte)) {s : ThreadsState}
    (h : (readlineThreads program).Reachable s) (t : ℕ) :
    (s.threads t).transcripts.map Transcript.origin ++ (s.threads t).todo = program t ∧
    (∀ tr ∈ (s.threads t).finished, ∃ call, tr.calls.getLast? = some call ∧ call.2.ret = 0) ∧
    ∀ tr ∈ (s.threads t).transcripts, tr.Alone ∧
      (tr.calls.map fun call => call.2.taken).flatten <+: tr.origin.rest := by
  have hinv := (threadsInv_reachable h).thread t
  refine ⟨hinv.origins, hinv.ended, fun tr htr => ?_⟩
  exact ⟨hinv.alone tr htr, (hinv.alone tr htr).taken⟩

end AllThreads

/-- Two threads; the first has two descriptors. -/
def sampleProgram (t : ℕ) : List (Source Byte) :=
  if t = 0 then [⟨[97, 10], []⟩, ⟨[98, 10], []⟩] else if t = 1 then [⟨[99, 10], [.upTo 0]⟩] else []

/-- The turns of the two threads alternate while both are in `readline`. -/
def sampleTurns : List ThreadAction :=
  [.open_ 0, .open_ 1, .call 0 16, .call 1 16, .turn 0, .turn 1, .turn 0, .turn 1, .call 0 16, .turn 0,
    .open_ 0, .call 0 16, .turn 0, .turn 0]

theorem readline_threads_alone_sample :
    let s := sampleTurns.foldl threadNext (threadsStart sampleProgram)
    ((s.threads 0).transcripts.map Transcript.calls =
        [[(16, ⟨2, [97, 10, 0]⟩), (16, ⟨0, [0]⟩)], [(16, ⟨2, [98, 10, 0]⟩)]] ∧
      (s.threads 1).transcripts.map Transcript.calls = [[(16, ⟨2, [99, 10, 0]⟩)]]) ∧
    ∀ t, ∀ tr ∈ (s.threads t).transcripts, tr.Alone := by
  intro s
  have h₀ : (readlineThreads sampleProgram).Reachable (threadsStart sampleProgram) :=
    TransitionSystem.reachable_init rfl
  have h : (readlineThreads sampleProgram).Reachable s := h₀.actions (by decide)
  refine ⟨by decide, fun t tr htr => ?_⟩
  exact ((readline_threads_alone sampleProgram h t).2.2 tr htr).1

end UnixNetProg.Readline
