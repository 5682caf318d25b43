import Mathlib.Algebra.Ring.Int.Defs
import Mathlib.Data.Int.Notation
import UnixNetProg.Lib.Memory
import UnixNetProg.Lib.Source
import UnixNetProg.Lib.Transfer
import UnixNetProg.Unp

/-!
# `readn` and `writen` (`lib/readn.c`, `lib/writen.c`)

Both move `n` bytes in as many calls as it takes, with `ptr` and `nleft` for what is still to do. A run
carries the calls that were made, each with its pointer, its length and its result, so that what is
offered to the kernel, what is stored and what is returned can be compared. The specifications are
`ReadnExact` and `WritenExact`.
-/

namespace UnixNetProg.Readn

open Lib

/-- The number of bytes that a `read` stored. -/
def received : ReadResult Byte → ℕ
  | .data bytes => bytes.length
  | _ => 0

structure ReadnRun where
  ret : ℤ
  buf : Memory Byte
  calls : List (Transfer (ReadResult Byte))
  fd : Source Byte

/-- A call, and then the rest of the run. -/
def ReadnRun.after (run : ReadnRun) (c : Transfer (ReadResult Byte)) : ReadnRun :=
  { run with calls := c :: run.calls }

theorem read_plan_lt {d d' : Source Byte} {len : ℕ} (hlen : len ≠ 0) (h : d.read len = (.intr, d')) :
    d'.plan.length < d.plan.length := by
  rcases d.read_cases (Nat.pos_of_ne_zero hlen) with
    ⟨plan, hplan, heq⟩ | ⟨plan, -, heq⟩ | ⟨-, heq⟩ | ⟨c, bytes, rest, -, -, heq⟩
  · obtain ⟨-, rfl⟩ := Prod.mk.inj (h.symm.trans heq)
    rw [hplan, List.length_cons]
    exact Nat.lt_succ_self _
  · exact absurd (h.symm.trans heq) (by simp)
  · exact absurd (h.symm.trans heq) (by simp)
  · exact absurd (h.symm.trans heq) (by simp)

theorem read_data {d d' : Source Byte} {len : ℕ} {bytes : List Byte} (hlen : len ≠ 0)
    (h : d.read len = (.data bytes, d')) :
    d.rest = bytes ++ d'.rest ∧ 0 < bytes.length ∧ bytes.length ≤ len ∧ d'.plan.length ≤ d.plan.length := by
  rcases d.read_cases (Nat.pos_of_ne_zero hlen) with
    ⟨plan, -, heq⟩ | ⟨plan, -, heq⟩ | ⟨-, heq⟩ | ⟨c, items, rest, hrest, hlt, heq⟩
  · exact absurd (h.symm.trans heq) (by simp)
  · exact absurd (h.symm.trans heq) (by simp)
  · exact absurd (h.symm.trans heq) (by simp)
  · obtain ⟨hbytes, rfl⟩ := Prod.mk.inj (h.symm.trans heq)
    obtain rfl : bytes = c :: items := ReadResult.data.inj hbytes
    rw [List.length_cons, List.length_tail]
    exact ⟨hrest, by omega, by omega, by omega⟩

theorem read_rest {d d' : Source Byte} {len : ℕ} {res : ReadResult Byte} (hlen : len ≠ 0)
    (h : d.read len = (res, d')) (hres : received res = 0) :
    d'.rest = d.rest ∧ (res = .eof → d.rest = []) := by
  rcases d.read_cases (Nat.pos_of_ne_zero hlen) with
    ⟨plan, -, heq⟩ | ⟨plan, -, heq⟩ | ⟨hnil, heq⟩ | ⟨c, bytes, rest, -, -, heq⟩
  · obtain ⟨rfl, rfl⟩ := Prod.mk.inj (h.symm.trans heq)
    exact ⟨rfl, nofun⟩
  · obtain ⟨rfl, rfl⟩ := Prod.mk.inj (h.symm.trans heq)
    exact ⟨rfl, nofun⟩
  · obtain ⟨rfl, rfl⟩ := Prod.mk.inj (h.symm.trans heq)
    exact ⟨rfl, fun _ => hnil⟩
  · obtain ⟨rfl, rfl⟩ := Prod.mk.inj (h.symm.trans heq)
    exact absurd hres (Nat.succ_ne_zero _)

/-- `while (nleft > 0)` of `readn`. -/
def readnLoop (n ptr nleft : ℕ) (buf : Memory Byte) (d : Source Byte) : ReadnRun :=
  if _hleft : nleft = 0 then ⟨n - nleft, buf, [], d⟩
  else
    match hres : d.read nleft with
    | (.intr, d') => (readnLoop n ptr nleft buf d').after ⟨ptr, nleft, .intr⟩
    | (.error, d') => ⟨-1, buf, [⟨ptr, nleft, .error⟩], d'⟩
    | (.eof, d') => ⟨n - nleft, buf, [⟨ptr, nleft, .eof⟩], d'⟩
    | (.data bytes, d') =>
      (readnLoop n (ptr + bytes.length) (nleft - bytes.length) (buf.store ptr bytes) d').after
        ⟨ptr, nleft, .data bytes⟩
termination_by d.plan.length + nleft
decreasing_by
  · have hlt := read_plan_lt _hleft hres
    omega
  · obtain ⟨-, hpos, hle, hplan⟩ := read_data _hleft hres
    omega

def readn (n vptr : ℕ) (buf : Memory Byte) (d : Source Byte) : ReadnRun := readnLoop n vptr n buf d

structure WritenRun where
  ret : ℤ
  calls : List (Transfer WriteResult)
  deriving DecidableEq, Repr

def WritenRun.after (run : WritenRun) (c : Transfer WriteResult) : WritenRun :=
  { run with calls := c :: run.calls }

/-- `while (nleft > 0)` of `writen`. When the plan has run out, `write` accepts what is left and the
loop ends. -/
def writenLoop (n : ℕ) : List WriteGrant → ℕ → ℕ → WritenRun
  | [], ptr, nleft => if nleft = 0 then ⟨n, []⟩ else ⟨n, [⟨ptr, nleft, .accepted nleft⟩]⟩
  | g :: plan, ptr, nleft =>
    if nleft = 0 then ⟨n, []⟩
    else
      match g.result nleft with
      | .accepted 0 => ⟨-1, [⟨ptr, nleft, .accepted 0⟩]⟩
      | .accepted (k + 1) =>
        (writenLoop n plan (ptr + (k + 1)) (nleft - (k + 1))).after ⟨ptr, nleft, .accepted (k + 1)⟩
      | .intr => (writenLoop n plan ptr nleft).after ⟨ptr, nleft, .intr⟩
      | .error => ⟨-1, [⟨ptr, nleft, .error⟩]⟩

def writen (n vptr : ℕ) (plan : List WriteGrant) : WritenRun := writenLoop n plan vptr n

/-! ### `readn` -/

/-- What the calls of a run did: the next bytes of the stream are stored from `ptr` on, and no others. The results are
those of the descriptor. -/
structure ReadnMoves (n ptr : ℕ) (buf : Memory Byte) (d : Source Byte) (run : ReadnRun) : Prop where
  results : d.reads (run.calls.map (·.len)) = (run.calls.map (·.res), run.fd)
  inStep : InStep received ptr n run.calls
  stop : StopAt (fun res => res = .eof ∨ res = .error) run.calls
  atMost : total received run.calls ≤ n
  stored : run.buf = buf.store ptr (d.rest.take (total received run.calls))
  rest : run.fd.rest = d.rest.drop (total received run.calls)
  all : (∀ c ∈ run.calls, c.res ≠ .error) → total received run.calls = min n d.rest.length

theorem ReadnMoves.after {nleft ptr : ℕ} {buf : Memory Byte} {d d' : Source Byte} {run : ReadnRun}
    {res : ReadResult Byte} {bytes : List Byte} (hleft : nleft ≠ 0) (hread : d.read nleft = (res, d'))
    (hres : received res = bytes.length) (hgo : res ≠ .eof ∧ res ≠ .error) (hrest : d.rest = bytes ++ d'.rest)
    (hle : bytes.length ≤ nleft)
    (h : ReadnMoves (nleft - bytes.length) (ptr + bytes.length) (buf.store ptr bytes) d' run) :
    ReadnMoves nleft ptr buf d (run.after ⟨ptr, nleft, res⟩) := by
  have htotal : total received (⟨ptr, nleft, res⟩ :: run.calls) = bytes.length + total received run.calls := by
    rw [total_cons, hres]
  have hmost := h.atMost
  constructor
  · show (((d.read nleft).2.reads _).1.cons _, _) = _
    rw [hread, h.results]
    rfl
  · apply inStep_cons (Nat.pos_of_ne_zero hleft)
    rw [hres]
    exact h.inStep
  · exact stopAt_cons (fun hstop => absurd hstop (by simp [hgo])) h.stop
  · rw [ReadnRun.after, htotal]
    omega
  · rw [ReadnRun.after, htotal, hrest, List.take_length_add_append, ← Memory.store_append]
    exact h.stored
  · rw [ReadnRun.after, htotal, hrest, List.drop_length_add_append]
    exact h.rest
  · intro hno
    have hall := h.all fun c hc => hno c (List.mem_cons_of_mem _ hc)
    rw [ReadnRun.after, htotal, hall, hrest, List.length_append]
    omega

theorem reads_singleton {d d' : Source Byte} {len : ℕ} {res : ReadResult Byte} (h : d.read len = (res, d')) :
    d.reads [len] = ([res], d') := by
  rw [Source.reads, Source.reads, h]

theorem readnLoop_moves (n ptr nleft : ℕ) (buf : Memory Byte) (d : Source Byte) :
    ReadnMoves nleft ptr buf d (readnLoop n ptr nleft buf d) := by
  fun_induction readnLoop n ptr nleft buf d with
  | case1 ptr buf d =>
    refine ⟨rfl, inStep_nil _ _ _, stopAt_nil _, Nat.le_refl 0, ?_, rfl, fun _ => (Nat.zero_min _).symm⟩
    exact (Memory.store_nil buf ptr).symm
  | case2 ptr nleft buf d hleft d' hres ih =>
    -- interrupted: the same call again
    obtain ⟨hrest, -⟩ := read_rest hleft hres rfl
    have hnone : d.rest = [] ++ d'.rest := hrest.symm
    apply ReadnMoves.after hleft hres rfl (by simp) hnone (Nat.zero_le _)
    rw [Memory.store_nil]
    exact ih
  | case3 ptr nleft buf d hleft d' hres =>
    obtain ⟨hrest, -⟩ := read_rest hleft hres rfl
    refine ⟨reads_singleton hres, inStep_cons (Nat.pos_of_ne_zero hleft) (inStep_nil _ _ _),
      stopAt_cons (fun _ => rfl) (stopAt_nil _), Nat.zero_le _, (Memory.store_nil buf ptr).symm, hrest, fun hno => ?_⟩
    exact absurd rfl (hno _ List.mem_cons_self)
  | case4 ptr nleft buf d hleft d' hres =>
    obtain ⟨hrest, hnil⟩ := read_rest hleft hres rfl
    refine ⟨reads_singleton hres, inStep_cons (Nat.pos_of_ne_zero hleft) (inStep_nil _ _ _),
      stopAt_cons (fun _ => rfl) (stopAt_nil _), Nat.zero_le _, (Memory.store_nil buf ptr).symm, hrest, fun _ => ?_⟩
    rw [hnil rfl]
    exact (Nat.min_zero _).symm
  | case5 ptr nleft buf d hleft bytes d' hres ih =>
    obtain ⟨hrest, hpos, hle, -⟩ := read_data hleft hres
    exact ReadnMoves.after hleft hres rfl (by simp) hrest hle ih

theorem readnLoop_ret (n ptr nleft : ℕ) (buf : Memory Byte) (d : Source Byte) :
    ((readnLoop n ptr nleft buf d).ret = -1 ∧ ∃ c ∈ (readnLoop n ptr nleft buf d).calls, c.res = .error) ∨
    ((readnLoop n ptr nleft buf d).ret = n - nleft + total received (readnLoop n ptr nleft buf d).calls ∧
      ∀ c ∈ (readnLoop n ptr nleft buf d).calls, c.res ≠ .error) := by
  fun_induction readnLoop n ptr nleft buf d with
  | case1 ptr buf d => exact .inr ⟨(Int.add_zero _).symm, nofun⟩
  | case2 ptr nleft buf d hleft d' hres ih =>
    rcases ih with ⟨hret, c, hc, herr⟩ | ⟨hret, hno⟩
    · exact .inl ⟨hret, c, List.mem_cons_of_mem _ hc, herr⟩
    · refine .inr ⟨?_, List.forall_mem_cons.mpr ⟨nofun, hno⟩⟩
      rw [ReadnRun.after, total_cons]
      show (readnLoop n ptr nleft buf d').ret = _ - _ + ((0 + _ : ℕ) : ℤ)
      rw [hret, Nat.zero_add]
  | case3 ptr nleft buf d hleft d' hres => exact .inl ⟨rfl, _, List.mem_cons_self, rfl⟩
  | case4 ptr nleft buf d hleft d' hres =>
    exact .inr ⟨(Int.add_zero _).symm, List.forall_mem_cons.mpr ⟨nofun, nofun⟩⟩
  | case5 ptr nleft buf d hleft bytes d' hres ih =>
    rcases ih with ⟨hret, c, hc, herr⟩ | ⟨hret, hno⟩
    · exact .inl ⟨hret, c, List.mem_cons_of_mem _ hc, herr⟩
    · refine .inr ⟨?_, List.forall_mem_cons.mpr ⟨nofun, hno⟩⟩
      obtain ⟨-, -, hle, -⟩ := read_data hleft hres
      rw [ReadnRun.after, total_cons]
      show (readnLoop n _ _ _ d').ret = _ - _ + ((bytes.length + _ : ℕ) : ℤ)
      rw [hret]
      omega

/-- What `readn` promises: it moves the next bytes of the stream as `ReadnMoves` says, and returns
their number, all that are there up to `n`, unless a read failed. -/
structure ReadnExact (n vptr : ℕ) (buf : Memory Byte) (d : Source Byte) (run : ReadnRun) : Prop
    extends ReadnMoves n vptr buf d run where
  ret : (run.ret = -1 ∧ ∃ c ∈ run.calls, c.res = .error) ∨
    (run.ret = min n d.rest.length ∧ total received run.calls = min n d.rest.length ∧
      ∀ c ∈ run.calls, c.res ≠ .error)

theorem readn_exact (n vptr : ℕ) (buf : Memory Byte) (d : Source Byte) :
    ReadnExact n vptr buf d (readn n vptr buf d) := by
  have hmoves := readnLoop_moves n vptr n buf d
  refine ⟨hmoves, ?_⟩
  rcases readnLoop_ret n vptr n buf d with herr | ⟨hret, hno⟩
  · exact .inl herr
  · have hall := hmoves.all hno
    refine .inr ⟨?_, hall, hno⟩
    rw [readn, hret, hall]
    omega

/-! ### `writen` -/

/-- The bytes that the calls handed over. -/
def written (buf : Memory Byte) (calls : List (Transfer WriteResult)) : List Byte :=
  calls.flatMap fun c => buf.slice c.ptr (c.ptr + c.res.count)

/-- What the calls of a run did: each offers the bytes that were not accepted yet, and those that were
accepted are the first of the buffer, in order. -/
structure WritenMoves (n ptr : ℕ) (buf : Memory Byte) (calls : List (Transfer WriteResult)) : Prop where
  inStep : InStep WriteResult.count ptr n calls
  stop : StopAt (fun res => res = .accepted 0 ∨ res = .error) calls
  accepted : written buf calls = buf.slice ptr (ptr + total WriteResult.count calls)

theorem writenMoves_nil (n ptr : ℕ) (buf : Memory Byte) : WritenMoves n ptr buf [] :=
  ⟨inStep_nil _ _ _, stopAt_nil _, (Memory.slice_self buf ptr).symm⟩

theorem writenMoves_cons {n ptr : ℕ} {buf : Memory Byte} {res : WriteResult}
    {calls : List (Transfer WriteResult)} (hn : n ≠ 0) (hstop : res = .accepted 0 ∨ res = .error → calls = [])
    (h : WritenMoves (n - res.count) (ptr + res.count) buf calls) :
    WritenMoves n ptr buf (⟨ptr, n, res⟩ :: calls) := by
  refine ⟨inStep_cons (Nat.pos_of_ne_zero hn) h.inStep, stopAt_cons hstop h.stop, ?_⟩
  rw [written, List.flatMap_cons, total_cons]
  change buf.slice ptr (ptr + res.count) ++ written buf calls = _
  rw [h.accepted, Memory.slice_append buf (by omega) (by omega), Nat.add_assoc]

theorem writenLoop_moves (n : ℕ) (buf : Memory Byte) (plan : List WriteGrant) (ptr nleft : ℕ) :
    WritenMoves nleft ptr buf (writenLoop n plan ptr nleft).calls := by
  fun_induction writenLoop n plan ptr nleft with
  | case1 ptr => exact writenMoves_nil _ _ _
  | case2 ptr nleft hleft => exact writenMoves_cons hleft (fun _ => rfl) (writenMoves_nil _ _ _)
  | case3 g plan ptr => exact writenMoves_nil _ _ _
  | case4 g plan ptr nleft hleft hres => exact writenMoves_cons hleft (fun _ => rfl) (writenMoves_nil _ _ _)
  | case5 g plan ptr nleft hleft k hres ih => exact writenMoves_cons hleft (by simp) ih
  | case6 g plan ptr nleft hleft hres ih => exact writenMoves_cons hleft (by simp) ih
  | case7 g plan ptr nleft hleft hres => exact writenMoves_cons hleft (fun _ => rfl) (writenMoves_nil _ _ _)

theorem result_le {g : WriteGrant} {len k : ℕ} (h : g.result len = .accepted (k + 1)) : k + 1 ≤ len := by
  cases g with
  | upTo j =>
    have hk : min len (j + 1) = k + 1 := WriteResult.accepted.inj h
    omega
  | zero => exact absurd (WriteResult.accepted.inj h) (Nat.succ_ne_zero k).symm
  | intr => exact WriteResult.noConfusion h
  | error => exact WriteResult.noConfusion h

/-- The calls make the loop return -1. -/
def Fails (calls : List (Transfer WriteResult)) : Prop := ∃ c ∈ calls, c.res = .accepted 0 ∨ c.res = .error

theorem fails_cons_of_not {c : Transfer WriteResult} {calls : List (Transfer WriteResult)}
    (hc : ¬ (c.res = .accepted 0 ∨ c.res = .error)) : Fails (c :: calls) ↔ Fails calls := by
  rw [Fails, List.exists_mem_cons_iff, or_iff_right hc, Fails]

theorem writenLoop_ret (n : ℕ) (plan : List WriteGrant) (ptr nleft : ℕ) :
    ((writenLoop n plan ptr nleft).ret = n ∧
      total WriteResult.count (writenLoop n plan ptr nleft).calls = nleft ∧
        ¬ Fails (writenLoop n plan ptr nleft).calls) ∨
    ((writenLoop n plan ptr nleft).ret = -1 ∧
      total WriteResult.count (writenLoop n plan ptr nleft).calls < nleft ∧
        Fails (writenLoop n plan ptr nleft).calls) := by
  fun_induction writenLoop n plan ptr nleft with
  | case1 ptr => exact .inl ⟨rfl, rfl, by simp [Fails]⟩
  | case2 ptr nleft hleft => exact .inl ⟨rfl, rfl, by simp [Fails, hleft]⟩
  | case3 g plan ptr => exact .inl ⟨rfl, rfl, by simp [Fails]⟩
  | case4 g plan ptr nleft hleft hres => exact .inr ⟨rfl, Nat.pos_of_ne_zero hleft, by simp [Fails]⟩
  | case5 g plan ptr nleft hleft k hres ih =>
    have hle := result_le hres
    rw [WritenRun.after, total_cons, fails_cons_of_not (by simp)]
    change (_ ∧ k + 1 + _ = nleft ∧ _) ∨ (_ ∧ k + 1 + _ < nleft ∧ _)
    rcases ih with ⟨hret, htotal, hfails⟩ | ⟨hret, htotal, hfails⟩
    · exact .inl ⟨hret, by omega, hfails⟩
    · exact .inr ⟨hret, by omega, hfails⟩
  | case6 g plan ptr nleft hleft hres ih =>
    rw [WritenRun.after, total_cons, fails_cons_of_not (by simp)]
    change (_ ∧ 0 + _ = nleft ∧ _) ∨ (_ ∧ 0 + _ < nleft ∧ _)
    rw [Nat.zero_add]
    exact ih
  | case7 g plan ptr nleft hleft hres => exact .inr ⟨rfl, Nat.pos_of_ne_zero hleft, by simp [Fails]⟩

theorem writenLoop_results (n : ℕ) (plan : List WriteGrant) (ptr nleft : ℕ) :
    (writenLoop n plan ptr nleft).calls.map (·.res) =
      writes plan ((writenLoop n plan ptr nleft).calls.map (·.len)) := by
  fun_induction writenLoop n plan ptr nleft with
  | case1 ptr => rfl
  | case2 ptr nleft hleft => rfl
  | case3 g plan ptr => rfl
  | case4 g plan ptr nleft hleft hres => exact congrArg (fun res => [res]) hres.symm
  | case5 g plan ptr nleft hleft k hres ih => exact congr (congrArg List.cons hres.symm) ih
  | case6 g plan ptr nleft hleft hres ih => exact congr (congrArg List.cons hres.symm) ih
  | case7 g plan ptr nleft hleft hres => exact congrArg (fun res => [res]) hres.symm

/-- What `writen` promises: its calls meet the results of the plan, `n` is returned just when all `n` bytes were
accepted, and else -1, after a call that returned 0 or failed. -/
structure WritenExact (n vptr : ℕ) (buf : Memory Byte) (plan : List WriteGrant) (run : WritenRun) : Prop
    extends WritenMoves n vptr buf run.calls where
  results : run.calls.map (·.res) = writes plan (run.calls.map (·.len))
  ret : (run.ret = n ∧ total WriteResult.count run.calls = n ∧ ¬ Fails run.calls) ∨
    (run.ret = -1 ∧ total WriteResult.count run.calls < n ∧ Fails run.calls)

/-- **`readn` and `writen` are exact**, for every number of bytes, every stream, and every sequence of
partial transfers, interruptions and errors. -/
theorem readn_writen_exact (n vptr : ℕ) (buf : Memory Byte) :
    (∀ d : Source Byte, ReadnExact n vptr buf d (readn n vptr buf d)) ∧
    ∀ plan : List WriteGrant, WritenExact n vptr buf plan (writen n vptr plan) := by
  constructor
  · intro d
    exact readn_exact n vptr buf d
  · intro plan
    exact ⟨writenLoop_moves n buf plan vptr n, writenLoop_results n plan vptr n, writenLoop_ret n plan vptr n⟩

end UnixNetProg.Readn
