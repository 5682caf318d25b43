import Mathlib.Data.Int.Notation
import UnixNetProg.Lib.Transfer
import UnixNetProg.Sock.Crlf

/-!
# Writing in pieces (`sock/write.c`)

`dowrite` sends a buffer in one of three ways: with one `write`, with one `write` for each of up to
`UIO_MAXIOV` pieces, or with one `writev` of these pieces. A piece is an offset into the buffer and a length.
The two callers of `dowrite` give it a length that is an `int`, and so are all numbers it works with.
-/

namespace UnixNetProg.Sock

open Lib

/-- The buffer of a call, with a length that is an `int`. -/
structure WriteBuffer where
  bytes : List Byte
  le_max : bytes.length ≤ INT_MAX

def WriteBuffer.nbytes (buf : WriteBuffer) : ℕ := buf.bytes.length

structure Iovec where
  iovBase : ℕ
  iovLen : ℕ
  deriving DecidableEq, Repr

/-- What a call sends, and what it returns. -/
structure Written where
  ret : ℤ
  sent : List Byte
  deriving DecidableEq, Repr

def chunksize (uioMaxiov nbytes : ℕ) : ℕ :=
  if nbytes / uioMaxiov = 0 then 1
  else if nbytes % uioMaxiov ≠ 0 then nbytes / uioMaxiov + 1
  else nbytes / uioMaxiov

/-- The loop over `iov`, with `room` for `UIO_MAXIOV - i`; `none` is `err_quit`. -/
def fillIov (chunksize : ℕ) : ℕ → ℕ → ℕ → Option (List Iovec)
  | 0, _, _ => none
  | room + 1, ptr, nleft =>
    let n := if chunksize ≤ nleft then chunksize else nleft
    if nleft - n = 0 then some [⟨ptr, n⟩]
    else (fillIov chunksize room (ptr + n) (nleft - n)).map (⟨ptr, n⟩ :: ·)

def Iovec.piece (buf : List Byte) (v : Iovec) : List Byte := (buf.drop v.iovBase).take v.iovLen

/-- The pieces one after the other, as `writev` sends them. -/
def gather (buf : List Byte) (iov : List Iovec) : List Byte := (iov.map (·.piece buf)).flatten

/-- A `write` of `data`, or a `writev`. -/
def write (g : WriteGrant) (data : List Byte) : Written :=
  match g.result data.length with
  | .accepted count => ⟨count, data.take count⟩
  | .intr | .error => ⟨-1, []⟩

/-- The loop of writes; `plan n` is what the write of `iov[n]` meets. -/
def writeChunks (buf : List Byte) (plan : ℕ → WriteGrant) : ℕ → ℕ → List Iovec → Written
  | _, ntotal, [] => ⟨ntotal, []⟩
  | n, ntotal, v :: iov =>
    let w := write (plan n) (v.piece buf)
    if w.ret ≠ v.iovLen then ⟨-1, w.sent⟩
    else
      let rest := writeChunks buf plan (n + 1) (ntotal + v.iovLen) iov
      ⟨rest.ret, w.sent ++ rest.sent⟩

def dowrite (chunkwrite usewritev : Bool) (uioMaxiov : ℕ) (plan : ℕ → WriteGrant) (buf : WriteBuffer) :
    Option Written :=
  if chunkwrite = false ∧ usewritev = false then some (write (plan 0) buf.bytes)
  else
    match fillIov (chunksize uioMaxiov buf.nbytes) uioMaxiov 0 buf.nbytes with
    | none => none
    | some iov => some (if usewritev then write (plan 0) (gather buf.bytes iov) else writeChunks buf.bytes plan 0 0 iov)

/-! ### The pieces -/

/-- Pieces that follow each other, from `ptr` on, and cover `n` bytes. -/
def Covers : ℕ → ℕ → List Iovec → Prop
  | _, n, [] => n = 0
  | ptr, n, v :: iov => v.iovBase = ptr ∧ v.iovLen ≤ n ∧ Covers (ptr + v.iovLen) (n - v.iovLen) iov

theorem Covers.gather_eq {ptr n : ℕ} {iov : List Iovec} (h : Covers ptr n iov) (buf : List Byte) :
    gather buf iov = (buf.drop ptr).take n := by
  induction iov generalizing ptr n with
  | nil =>
    have hn : n = 0 := h
    rw [hn, List.take_zero]
    rfl
  | cons v iov ih =>
    obtain ⟨hbase, hle, hrest⟩ := h
    have hn : n = v.iovLen + (n - v.iovLen) := by omega
    calc gather buf (v :: iov) = v.piece buf ++ gather buf iov := rfl
      _ = (buf.drop ptr).take v.iovLen ++ ((buf.drop ptr).drop v.iovLen).take (n - v.iovLen) := by
        rw [ih hrest, Iovec.piece, hbase, List.drop_drop]
      _ = (buf.drop ptr).take n := by
        rw [← List.take_add, ← hn]

theorem Covers.inside {ptr n : ℕ} {iov : List Iovec} (h : Covers ptr n iov) :
    ∀ v ∈ iov, v.iovBase + v.iovLen ≤ ptr + n := by
  induction iov generalizing ptr n with
  | nil => exact fun v hv => absurd hv List.not_mem_nil
  | cons v iov ih =>
    obtain ⟨hbase, hle, hrest⟩ := h
    intro v' hv'
    rcases List.mem_cons.mp hv' with rfl | hv'
    · omega
    · have := ih hrest v' hv'
      omega

theorem fillIov_spec {chunksize : ℕ} (hchunk : 0 < chunksize) {room : ℕ} (hroom : 0 < room) (ptr : ℕ) {nleft : ℕ}
    (hfits : nleft ≤ room * chunksize) :
    ∃ iov, fillIov chunksize room ptr nleft = some iov ∧ Covers ptr nleft iov ∧ iov.length ≤ room ∧
      (nleft ≠ 0 → ∀ v ∈ iov, 0 < v.iovLen) := by
  induction room generalizing ptr nleft with
  | zero => exact absurd hroom (Nat.lt_irrefl 0)
  | succ room ih =>
    rw [fillIov]
    by_cases hmore : chunksize < nleft
    · -- the piece is full and not the last one
      rw [Nat.succ_mul] at hfits
      have hroom' : 0 < room := by
        rcases Nat.eq_zero_or_pos room with rfl | h
        · omega
        · exact h
      obtain ⟨iov, hiov, hcovers, hlen, hpos⟩ := ih hroom' (ptr + chunksize) (Nat.sub_le_iff_le_add.mpr hfits)
      rw [if_pos (Nat.le_of_lt hmore), if_neg (by omega), hiov]
      refine ⟨_, rfl, ⟨rfl, Nat.le_of_lt hmore, hcovers⟩, Nat.succ_le_succ hlen, fun _ v hv => ?_⟩
      rcases List.mem_cons.mp hv with rfl | hv
      · exact hchunk
      · exact hpos (by omega) v hv
    · have hlast : (if chunksize ≤ nleft then chunksize else nleft) = nleft := by
        split_ifs <;> omega
      rw [hlast, Nat.sub_self, if_pos rfl]
      refine ⟨_, rfl, ⟨rfl, Nat.le_refl _, Nat.sub_self _⟩, Nat.succ_le_succ (Nat.zero_le _), fun hne v hv => ?_⟩
      rw [List.mem_singleton.mp hv]
      exact Nat.pos_of_ne_zero hne

theorem chunksize_pos (uioMaxiov nbytes : ℕ) : 0 < chunksize uioMaxiov nbytes := by
  rw [chunksize]
  split_ifs with hzero hrem
  · exact Nat.one_pos
  · exact Nat.succ_pos _
  · exact Nat.pos_of_ne_zero hzero

theorem le_mul_chunksize {uioMaxiov : ℕ} (hmax : 0 < uioMaxiov) (nbytes : ℕ) :
    nbytes ≤ uioMaxiov * chunksize uioMaxiov nbytes := by
  have hdiv := Nat.div_add_mod nbytes uioMaxiov
  have hmod := Nat.mod_lt nbytes hmax
  rw [chunksize]
  split_ifs with hzero hrem
  · rw [hzero, Nat.mul_zero] at hdiv
    omega
  · rw [Nat.mul_add]
    omega
  · omega

theorem fillIov_chunksize {uioMaxiov : ℕ} (hmax : 0 < uioMaxiov) (nbytes : ℕ) :
    ∃ iov, fillIov (chunksize uioMaxiov nbytes) uioMaxiov 0 nbytes = some iov ∧ Covers 0 nbytes iov ∧
      iov.length ≤ uioMaxiov ∧ (nbytes ≠ 0 → ∀ v ∈ iov, 0 < v.iovLen) :=
  fillIov_spec (chunksize_pos uioMaxiov nbytes) hmax 0 (le_mul_chunksize hmax nbytes)

/-! ### What is sent -/

section Send

variable {buf : List Byte} {plan : ℕ → WriteGrant}

theorem length_piece {n ptr : ℕ} {iov : List Iovec} {v : Iovec} (h : Covers ptr n (v :: iov))
    (hbuf : ptr + n ≤ buf.length) : (v.piece buf).length = v.iovLen := by
  obtain ⟨rfl, hle, -⟩ := h
  rw [Iovec.piece, List.length_take, List.length_drop]
  omega

theorem write_sent (g : WriteGrant) (data : List Byte) :
    (write g data).sent <+: data ∧ ((write g data).ret = data.length → (write g data).sent = data) := by
  rw [write]
  cases g.result data.length with
  | accepted count =>
    refine ⟨List.take_prefix _ _, fun h => ?_⟩
    have hcount : count = data.length := Int.ofNat.inj h
    dsimp only
    rw [hcount, List.take_length]
  | intr =>
    exact ⟨List.nil_prefix, fun h => absurd h (by dsimp only; omega)⟩
  | error =>
    exact ⟨List.nil_prefix, fun h => absurd h (by dsimp only; omega)⟩

/-- The loop of writes sends a prefix of what the pieces hold; unless it fails it has sent all of them. -/
theorem writeChunks_sent (plan : ℕ → WriteGrant) {n ptr : ℕ} {iov : List Iovec} (h : Covers ptr n iov)
    (hbuf : ptr + n ≤ buf.length) (call ntotal : ℕ) :
    (writeChunks buf plan call ntotal iov).sent <+: (buf.drop ptr).take n ∧
      ((writeChunks buf plan call ntotal iov).ret = -1 ∨
        (writeChunks buf plan call ntotal iov).ret = ntotal + n ∧
          (writeChunks buf plan call ntotal iov).sent = (buf.drop ptr).take n) := by
  rw [← h.gather_eq buf]
  induction iov generalizing ptr n call ntotal with
  | nil =>
    have hn : n = 0 := h
    rw [hn]
    exact ⟨List.prefix_rfl, .inr ⟨rfl, rfl⟩⟩
  | cons v iov ih =>
    have hlen := length_piece h hbuf
    obtain ⟨hbase, hle, hrest⟩ := h
    obtain ⟨hsent, hall⟩ := write_sent (plan call) (v.piece buf)
    have hgather : gather buf (v :: iov) = v.piece buf ++ gather buf iov := rfl
    obtain ⟨hpre, hret⟩ := ih hrest (by omega) (call + 1) (ntotal + v.iovLen)
    rw [writeChunks, hgather]
    dsimp only
    by_cases hfull : (write (plan call) (v.piece buf)).ret = v.iovLen
    · rw [if_neg (not_not_intro hfull), hall (hlen.symm ▸ hfull)]
      refine ⟨List.prefix_append_right_inj _ |>.mpr hpre, hret.imp_right fun ⟨hret, hsent⟩ => ⟨?_, ?_⟩⟩
      · dsimp only
        omega
      · dsimp only
        rw [hsent]
    · rw [if_pos hfull]
      exact ⟨hsent.trans (List.prefix_append _ _), .inl rfl⟩

/-- Every call accepts all that it is given. -/
def FullWrites (plan : ℕ → WriteGrant) : Prop :=
  ∀ call len, len ≤ INT_MAX → (plan call).result len = .accepted len

theorem write_full (hplan : FullWrites plan) (call : ℕ) {data : List Byte} (hdata : data.length ≤ INT_MAX) :
    write (plan call) data = ⟨data.length, data⟩ := by
  rw [write, hplan call data.length hdata]
  dsimp only
  rw [List.take_length]

theorem writeChunks_full (hplan : FullWrites plan) {n ptr : ℕ} {iov : List Iovec} (h : Covers ptr n iov)
    (hbuf : ptr + n ≤ buf.length) (hn : n ≤ INT_MAX) (call ntotal : ℕ) :
    writeChunks buf plan call ntotal iov = ⟨(ntotal + n : ℕ), gather buf iov⟩ := by
  induction iov generalizing ptr n call ntotal with
  | nil =>
    have hn : n = 0 := h
    rw [hn]
    rfl
  | cons v iov ih =>
    have hlen := length_piece h hbuf
    obtain ⟨hbase, hle, hrest⟩ := h
    have htotal : ntotal + v.iovLen + (n - v.iovLen) = ntotal + n := by omega
    rw [writeChunks, write_full hplan call (hlen ▸ Nat.le_trans hle hn), hlen, if_neg (not_not_intro rfl),
      ih hrest (by omega) (by omega), htotal]
    rfl

end Send

/-- **A call never says more than was sent.** Whatever the writes meet, what `dowrite` has sent is a prefix of
the buffer, and all of it when the length is returned; the test of `loop_tcp` is this one. -/
theorem dowrite_sent {uioMaxiov : ℕ} (hmax : 0 < uioMaxiov) (chunkwrite usewritev : Bool) (plan : ℕ → WriteGrant)
    (buf : WriteBuffer) :
    ∃ w, dowrite chunkwrite usewritev uioMaxiov plan buf = some w ∧ w.sent <+: buf.bytes ∧
      (w.ret = buf.nbytes → w.sent = buf.bytes) := by
  obtain ⟨iov, hiov, hcovers, -⟩ := fillIov_chunksize hmax buf.nbytes
  have hwhole : (buf.bytes.drop 0).take buf.nbytes = buf.bytes := by
    rw [List.drop_zero]
    exact List.take_length
  have hgather : gather buf.bytes iov = buf.bytes := (hcovers.gather_eq buf.bytes).trans hwhole
  rw [dowrite, hiov]
  dsimp only
  split_ifs with hplain hv
  · exact ⟨_, rfl, write_sent (plan 0) buf.bytes⟩
  · rw [hgather]
    exact ⟨_, rfl, write_sent (plan 0) buf.bytes⟩
  · have hsent := writeChunks_sent plan hcovers (Nat.le_of_eq (Nat.zero_add _)) 0 0
    rw [hwhole] at hsent
    refine ⟨_, rfl, hsent.1, fun hret => ?_⟩
    rcases hsent.2 with hfail | hall
    · omega
    · exact hall.2

/-- **`dowrite` in pieces.** There are at most `UIO_MAXIOV` pieces, none is empty unless the buffer is, and they
make up the buffer; when each call accepts all of its bytes the three ways do the same. -/
theorem dowrite_pieces (uioMaxiov : ℕ) (hmax : 0 < uioMaxiov) (buf : WriteBuffer) :
    (∃ iov, fillIov (chunksize uioMaxiov buf.nbytes) uioMaxiov 0 buf.nbytes = some iov ∧
      gather buf.bytes iov = buf.bytes ∧ (∀ v ∈ iov, v.iovBase + v.iovLen ≤ buf.nbytes) ∧
      iov.length ≤ uioMaxiov ∧ (buf.nbytes ≠ 0 → ∀ v ∈ iov, 0 < v.iovLen)) ∧
    (∀ chunkwrite usewritev plan, dowrite chunkwrite usewritev uioMaxiov plan buf ≠ none) ∧
    ∀ chunkwrite usewritev plan, FullWrites plan →
      dowrite chunkwrite usewritev uioMaxiov plan buf = some ⟨buf.nbytes, buf.bytes⟩ := by
  obtain ⟨iov, hiov, hcovers, hlen, hpos⟩ := fillIov_chunksize hmax buf.nbytes
  have hgather : gather buf.bytes iov = buf.bytes := by
    rw [hcovers.gather_eq, List.drop_zero]
    exact List.take_length
  have hinside : ∀ v ∈ iov, v.iovBase + v.iovLen ≤ buf.nbytes := fun v hv => by
    have := hcovers.inside v hv
    omega
  refine ⟨⟨iov, hiov, hgather, hinside, hlen, hpos⟩, ?_, ?_⟩
  · intro chunkwrite usewritev plan hnone
    obtain ⟨w, hw, -⟩ := dowrite_sent hmax chunkwrite usewritev plan buf
    rw [hnone] at hw
    cases hw
  · intro chunkwrite usewritev plan hplan
    have hwrite : write (plan 0) buf.bytes = ⟨buf.nbytes, buf.bytes⟩ := write_full hplan 0 buf.le_max
    rw [dowrite, hiov]
    dsimp only
    split_ifs with hplain hv
    · rw [hwrite]
    · rw [hgather, hwrite]
    · rw [writeChunks_full hplan hcovers (Nat.le_of_eq (Nat.zero_add _)) buf.le_max, hgather, Nat.zero_add]

/-- Twenty bytes in the sixteen pieces that the source assumes. -/
theorem dowrite_pieces_sample :
    0 < 16 ∧ FullWrites (fun _ => .upTo INT_MAX) ∧
      dowrite true false 16 (fun _ => .upTo INT_MAX) ⟨List.replicate 20 97, by decide⟩ =
        some ⟨20, List.replicate 20 97⟩ := by
  have hfull : FullWrites (fun _ => .upTo INT_MAX) := fun _ len hlen => by
    show WriteResult.accepted (min len (INT_MAX + 1)) = .accepted len
    rw [Nat.min_eq_left (Nat.le_succ_of_le hlen)]
  exact ⟨by decide, hfull, (dowrite_pieces 16 (by decide) _).2.2 true false _ hfull⟩

end UnixNetProg.Sock
