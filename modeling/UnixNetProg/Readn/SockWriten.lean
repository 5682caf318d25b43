import Mathlib.Data.List.Chain
import UnixNetProg.Readn.Readn

/-!
# The `writen` of the `sock` program (`sock/writen.c`)

It differs from the library's in one declaration: the result of `write` is held in a `size_t`. There -1 is
the largest number, the test `<= 0` does not see it, and the loop goes on with the pointer moved back by one
byte and one more byte left to write. Pointers and sizes are 64-bit words.
-/

namespace UnixNetProg.Readn

open Lib

/-- A buffer of `n` bytes at `vptr`: its end has an address too. -/
structure Buffer where
  vptr : BitVec 64
  n : BitVec 64
  nonnull : 0 < vptr.toNat
  fits : vptr.toNat + n.toNat < 2 ^ 64

/-- What `write` returns, in a `size_t`. -/
def nwritten : WriteResult → BitVec 64
  | .accepted count => BitVec.ofNat 64 count
  | .intr | .error => -1

structure SockCall where
  ptr : BitVec 64
  len : BitVec 64
  res : WriteResult
  deriving DecidableEq, Repr

/-- `ret` is the `ssize_t` that is returned. -/
structure SockRun where
  ret : BitVec 64
  calls : List SockCall
  deriving DecidableEq, Repr

def SockRun.after (run : SockRun) (c : SockCall) : SockRun := { run with calls := c :: run.calls }

/-- `while (nleft > 0)` of `sock/writen.c`. -/
def sockLoop (n : BitVec 64) : List WriteGrant → BitVec 64 → BitVec 64 → SockRun
  | [], ptr, nleft => if nleft = 0 then ⟨n, []⟩ else ⟨n, [⟨ptr, nleft, .accepted nleft.toNat⟩]⟩
  | g :: plan, ptr, nleft =>
    if nleft = 0 then ⟨n, []⟩
    -- the comparison is of unsigned numbers
    else if nwritten (g.result nleft.toNat) ≤ 0 then
      ⟨nwritten (g.result nleft.toNat), [⟨ptr, nleft, g.result nleft.toNat⟩]⟩
    else
      (sockLoop n plan (ptr + nwritten (g.result nleft.toNat))
        (nleft - nwritten (g.result nleft.toNat))).after ⟨ptr, nleft, g.result nleft.toNat⟩

def sockWriten (b : Buffer) (plan : List WriteGrant) : SockRun := sockLoop b.n plan b.vptr b.n

/-- The same call, with numbers for the words. -/
def SockCall.transfer (c : SockCall) : Transfer WriteResult := ⟨c.ptr.toNat, c.len.toNat, c.res⟩

/-- A number returned as an `ssize_t`. -/
def ssize (ret : ℤ) : ℤ := (BitVec.ofInt 64 ret).toInt

/-- The pointer does not move back, and no more is left to write than before. -/
def Onward (c c' : SockCall) : Prop := c.ptr ≤ c'.ptr ∧ c'.len ≤ c.len

/-- What agreement of the two versions means: the same calls, return values of the same sign, and a
pointer and a count that only go onward. -/
structure Agree (b : Buffer) (plan : List WriteGrant) : Prop where
  calls : (sockWriten b plan).calls.map SockCall.transfer = (writen b.n.toNat b.vptr.toNat plan).calls
  sign : (sockWriten b plan).ret.toInt.sign = (ssize (writen b.n.toNat b.vptr.toNat plan).ret).sign
  onward : (sockWriten b plan).calls.IsChain Onward

/-- Until `n` bytes are accepted, each write accepts some. -/
def Accepting : List WriteGrant → ℕ → Prop
  | [], _ => True
  | g :: plan, n => n = 0 ∨ ∃ k, g = .upTo k ∧ Accepting plan (n - (k + 1))

/-! ### The calls of the two loops -/

theorem sockLoop_head (n : BitVec 64) (plan : List WriteGrant) (ptr : BitVec 64) {nleft : BitVec 64}
    (hleft : nleft ≠ 0) : ∃ res calls, (sockLoop n plan ptr nleft).calls = ⟨ptr, nleft, res⟩ :: calls := by
  cases plan with
  | nil =>
    rw [sockLoop, if_neg hleft]
    exact ⟨_, _, rfl⟩
  | cons g plan =>
    rw [sockLoop, if_neg hleft]
    split_ifs
    · exact ⟨_, _, rfl⟩
    · exact ⟨_, _, rfl⟩

theorem sockLoop_done (n : BitVec 64) (plan : List WriteGrant) (ptr : BitVec 64) :
    sockLoop n plan ptr 0 = ⟨n, []⟩ := by
  cases plan with
  | nil => rfl
  | cons g plan => rw [sockLoop, if_pos rfl]

theorem writenLoop_head (n : ℕ) (plan : List WriteGrant) (ptr : ℕ) {nleft : ℕ} (hleft : nleft ≠ 0) :
    ∃ res calls, (writenLoop n plan ptr nleft).calls = ⟨ptr, nleft, res⟩ :: calls := by
  cases plan with
  | nil =>
    rw [writenLoop, if_neg hleft]
    exact ⟨_, _, rfl⟩
  | cons g plan =>
    rw [writenLoop, if_neg hleft]
    split
    · exact ⟨_, _, rfl⟩
    · exact ⟨_, _, rfl⟩
    · exact ⟨_, _, rfl⟩
    · exact ⟨_, _, rfl⟩

theorem writenLoop_done (n : ℕ) (plan : List WriteGrant) (ptr : ℕ) : writenLoop n plan ptr 0 = ⟨n, []⟩ := by
  cases plan with
  | nil => rfl
  | cons g plan => rw [writenLoop, if_pos rfl]

/-- After a write that accepts some bytes the two loops are in the same state. -/
theorem loops_upTo (n : BitVec 64) {ptr nleft : BitVec 64} (hfits : ptr.toNat + nleft.toNat < 2 ^ 64)
    (hleft : nleft ≠ 0) (k : ℕ) (plan : List WriteGrant) :
    ∃ res ptr' nleft',
      sockLoop n (.upTo k :: plan) ptr nleft = (sockLoop n plan ptr' nleft').after ⟨ptr, nleft, res⟩ ∧
      writenLoop n.toNat (.upTo k :: plan) ptr.toNat nleft.toNat =
        (writenLoop n.toNat plan ptr'.toNat nleft'.toNat).after ⟨ptr.toNat, nleft.toNat, res⟩ ∧
      nleft'.toNat = nleft.toNat - (k + 1) ∧ ptr.toNat ≤ ptr'.toNat ∧
      ptr'.toNat + nleft'.toNat = ptr.toNat + nleft.toNat := by
  have hne : nleft.toNat ≠ 0 := BitVec.toNat_ne.mp hleft
  obtain ⟨j, hj⟩ : ∃ j, min nleft.toNat (k + 1) = j + 1 := ⟨min nleft.toNat (k + 1) - 1, by omega⟩
  have hres : (WriteGrant.upTo k).result nleft.toNat = .accepted (j + 1) := by
    rw [WriteGrant.result, hj]
  have hsize : (nwritten (.accepted (j + 1))).toNat = j + 1 := by
    rw [nwritten, BitVec.toNat_ofNat]
    exact Nat.mod_eq_of_lt (by omega)
  have hptr : (ptr + nwritten (.accepted (j + 1))).toNat = ptr.toNat + (j + 1) := by
    rw [BitVec.toNat_add_of_lt (by omega), hsize]
  have hnleft : (nleft - nwritten (.accepted (j + 1))).toNat = nleft.toNat - (j + 1) := by
    rw [BitVec.toNat_sub_of_le (BitVec.le_def.mpr (by omega)), hsize]
  have hpositive : ¬ nwritten (.accepted (j + 1)) ≤ 0 := by
    rw [BitVec.le_def, hsize]
    exact Nat.not_succ_le_zero j
  refine ⟨.accepted (j + 1), ptr + nwritten (.accepted (j + 1)), nleft - nwritten (.accepted (j + 1)),
    ?_, ?_, ?_, ?_, ?_⟩
  · rw [sockLoop, if_neg hleft, hres, if_neg hpositive]
  · rw [writenLoop, if_neg hne, hres, hptr, hnleft]
  · omega
  · omega
  · omega

theorem sockLoop_minus_one (n : BitVec 64) {ptr nleft : BitVec 64} (hpos : 0 < ptr.toNat)
    (hfits : ptr.toNat + nleft.toNat < 2 ^ 64) (hleft : nleft ≠ 0) {g : WriteGrant}
    (hg : nwritten (g.result nleft.toNat) = -1) (plan : List WriteGrant) :
    ∃ c calls, (sockLoop n (g :: plan) ptr nleft).calls =
      ⟨ptr, nleft, g.result nleft.toNat⟩ :: c :: calls ∧ c.ptr.toNat ≠ ptr.toNat := by
  have hone : (1 : BitVec 64).toNat = 1 := by decide
  have hminus : (-1 : BitVec 64).toNat = 2 ^ 64 - 1 := by decide
  have hnleft : (nleft - -1).toNat = nleft.toNat + 1 := by
    rw [BitVec.sub_neg, BitVec.toNat_add_of_lt (by omega), hone]
  have hnext : nleft - -1 ≠ 0 := by
    intro h
    rw [h] at hnleft
    exact absurd hnleft (Nat.succ_ne_zero _).symm
  obtain ⟨res, calls, hcalls⟩ := sockLoop_head n plan (ptr + -1) hnext
  refine ⟨⟨ptr + -1, nleft - -1, res⟩, calls, ?_, ?_⟩
  · rw [sockLoop, if_neg hleft, hg, if_neg (by decide), SockRun.after, hcalls]
  · show (ptr + -1).toNat ≠ ptr.toNat
    rw [BitVec.toNat_add, hminus]
    omega

theorem ssize_toNat (n : BitVec 64) : ssize n.toNat = n.toInt := by
  rw [ssize, BitVec.ofInt_natCast, BitVec.ofNat_toNat, BitVec.setWidth_eq]

/-- Agreement of the two loops, from a state on. -/
def LoopsAgree (n : BitVec 64) (plan : List WriteGrant) (ptr nleft : BitVec 64) : Prop :=
  (sockLoop n plan ptr nleft).calls.map SockCall.transfer =
      (writenLoop n.toNat plan ptr.toNat nleft.toNat).calls ∧
    (sockLoop n plan ptr nleft).ret.toInt.sign =
      (ssize (writenLoop n.toNat plan ptr.toNat nleft.toNat).ret).sign ∧
    (sockLoop n plan ptr nleft).calls.IsChain Onward

theorem loopsAgree_done (n : BitVec 64) (plan : List WriteGrant) (ptr : BitVec 64) :
    LoopsAgree n plan ptr 0 := by
  refine ⟨?_, ?_, ?_⟩
  · rw [sockLoop_done]
    exact (congrArg WritenRun.calls (writenLoop_done _ _ _)).symm
  · rw [sockLoop_done, ← ssize_toNat]
    exact (congrArg (fun run => (ssize (WritenRun.ret run)).sign) (writenLoop_done _ _ _)).symm
  · rw [sockLoop_done]
    exact .nil

theorem loopsAgree_cons {n : BitVec 64} {g : WriteGrant} {plan : List WriteGrant}
    {ptr nleft ptr' nleft' : BitVec 64} {res : WriteResult}
    (hsock : sockLoop n (g :: plan) ptr nleft = (sockLoop n plan ptr' nleft').after ⟨ptr, nleft, res⟩)
    (hlib : writenLoop n.toNat (g :: plan) ptr.toNat nleft.toNat =
      (writenLoop n.toNat plan ptr'.toNat nleft'.toNat).after ⟨ptr.toNat, nleft.toNat, res⟩)
    (honward : ptr ≤ ptr' ∧ nleft' ≤ nleft) :
    LoopsAgree n (g :: plan) ptr nleft ↔ LoopsAgree n plan ptr' nleft' := by
  have hhead : ∀ c ∈ (sockLoop n plan ptr' nleft').calls.head?, Onward ⟨ptr, nleft, res⟩ c := by
    intro c hc
    by_cases hleft : nleft' = 0
    · rw [hleft, sockLoop_done] at hc
      exact absurd hc (by simp)
    · obtain ⟨res', calls, hcalls⟩ := sockLoop_head n plan ptr' hleft
      rw [hcalls, List.head?_cons, Option.mem_some_iff] at hc
      rw [← hc]
      exact honward
  rw [LoopsAgree, hsock, hlib]
  simp only [SockRun.after, WritenRun.after, List.map_cons, List.cons.injEq, List.isChain_cons]
  constructor
  · intro h
    exact ⟨h.1.2, h.2.1, h.2.2.2⟩
  · intro h
    exact ⟨⟨rfl, h.1⟩, h.2.1, hhead, h.2.2⟩

section Refused

variable (n : BitVec 64) (plan : List WriteGrant) {ptr nleft : BitVec 64}

theorem not_loopsAgree_zero (hleft : nleft ≠ 0) : ¬ LoopsAgree n (.zero :: plan) ptr nleft := by
  intro h
  have hne : nleft.toNat ≠ 0 := BitVec.toNat_ne.mp hleft
  have hzero : nwritten (.accepted 0) ≤ 0 := by decide
  have hsign := h.2.1
  rw [sockLoop, writenLoop, if_neg hleft, if_neg hne, WriteGrant.result, if_pos hzero] at hsign
  change (nwritten (.accepted 0)).toInt.sign = (ssize (-1)).sign at hsign
  revert hsign
  decide

theorem not_loopsAgree_intr (hpos : 0 < ptr.toNat) (hfits : ptr.toNat + nleft.toNat < 2 ^ 64) (hleft : nleft ≠ 0) :
    ¬ LoopsAgree n (.intr :: plan) ptr nleft := by
  intro h
  have hne : nleft.toNat ≠ 0 := BitVec.toNat_ne.mp hleft
  obtain ⟨c, calls, hsock, hptr⟩ := sockLoop_minus_one n hpos hfits hleft (g := .intr) rfl plan
  obtain ⟨res, calls', hlib⟩ := writenLoop_head n.toNat plan ptr.toNat hne
  have hcalls := h.1
  rw [hsock, writenLoop, if_neg hne] at hcalls
  change _ = _ :: (writenLoop n.toNat plan ptr.toNat nleft.toNat).calls at hcalls
  rw [hlib] at hcalls
  injection hcalls with _ htail
  injection htail with hc _
  exact hptr (congrArg Transfer.ptr hc)

theorem not_loopsAgree_error (hpos : 0 < ptr.toNat) (hfits : ptr.toNat + nleft.toNat < 2 ^ 64) (hleft : nleft ≠ 0) :
    ¬ LoopsAgree n (.error :: plan) ptr nleft := by
  intro h
  have hne : nleft.toNat ≠ 0 := BitVec.toNat_ne.mp hleft
  obtain ⟨c, calls, hsock, -⟩ := sockLoop_minus_one n hpos hfits hleft (g := .error) rfl plan
  have hcalls := h.1
  rw [hsock, writenLoop, if_neg hne] at hcalls
  injection hcalls with _ htail
  exact List.cons_ne_nil _ _ htail

end Refused

theorem loopsAgree_iff (n : BitVec 64) (plan : List WriteGrant) {ptr nleft : BitVec 64} (hpos : 0 < ptr.toNat)
    (hfits : ptr.toNat + nleft.toNat < 2 ^ 64) :
    LoopsAgree n plan ptr nleft ↔ Accepting plan nleft.toNat := by
  induction plan generalizing ptr nleft with
  | nil =>
    refine ⟨fun _ => trivial, fun _ => ?_⟩
    by_cases hleft : nleft = 0
    · rw [hleft]
      exact loopsAgree_done n [] ptr
    · have hne : nleft.toNat ≠ 0 := BitVec.toNat_ne.mp hleft
      rw [LoopsAgree, sockLoop, writenLoop, if_neg hleft, if_neg hne]
      exact ⟨rfl, congrArg Int.sign (ssize_toNat n).symm, .singleton _⟩
  | cons g plan ih =>
    by_cases hleft : nleft = 0
    · rw [hleft]
      exact ⟨fun _ => .inl rfl, fun _ => loopsAgree_done n _ ptr⟩
    have hne : nleft.toNat ≠ 0 := BitVec.toNat_ne.mp hleft
    have hiff : Accepting (g :: plan) nleft.toNat ↔
        ∃ k, g = .upTo k ∧ Accepting plan (nleft.toNat - (k + 1)) := or_iff_right hne
    rw [hiff]
    cases g with
    | upTo k =>
      obtain ⟨res, ptr', nleft', hsock, hlib, hnleft, hptr, hend⟩ := loops_upTo n hfits hleft k plan
      rw [loopsAgree_cons hsock hlib ⟨BitVec.le_def.mpr hptr, BitVec.le_def.mpr (by omega)⟩,
        ih (by omega) (by omega), hnleft]
      constructor
      · intro h
        exact ⟨k, rfl, h⟩
      · rintro ⟨k', hk, h⟩
        obtain rfl : k = k' := WriteGrant.upTo.inj hk
        exact h
    | zero => exact iff_of_false (not_loopsAgree_zero n plan hleft) (by simp)
    | intr => exact iff_of_false (not_loopsAgree_intr n plan hpos hfits hleft) (by simp)
    | error => exact iff_of_false (not_loopsAgree_error n plan hpos hfits hleft) (by simp)

/-- **When the `sock` program's `writen` agrees with the library's**: exactly when each write that is made
before the `n` bytes are accepted accepts some. -/
theorem sockWriten_agree_iff (b : Buffer) (plan : List WriteGrant) :
    Agree b plan ↔ Accepting plan b.n.toNat := by
  rw [← loopsAgree_iff b.n plan b.nonnull b.fits]
  exact ⟨fun h => ⟨h.calls, h.sign, h.onward⟩, fun h => ⟨h.1, h.2.1, h.2.2⟩⟩

/-- A buffer of two bytes at the address 4096. -/
def twoBytes : Buffer := ⟨4096, 2, by decide, by decide⟩

/-- The first write fails: the library's version returns -1, the other writes three bytes from the
address in front of the buffer and returns 2. -/
theorem sockWriten_misses_error :
    writen 2 4096 [.error] = ⟨-1, [⟨4096, 2, .error⟩]⟩ ∧
    sockWriten twoBytes [.error] = ⟨2, [⟨4096, 2, .error⟩, ⟨4095, 3, .accepted 3⟩]⟩ ∧
    ¬ ∀ b plan, (∀ g ∈ plan, g = .error ∨ ∃ k, g = .upTo k) → Agree b plan := by
  refine ⟨by decide, by decide, fun hall => ?_⟩
  have hcalls := (hall twoBytes [.error] (by simp)).calls
  revert hcalls
  decide

end UnixNetProg.Readn
