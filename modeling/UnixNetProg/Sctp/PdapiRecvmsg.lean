import Mathlib.Data.List.Forall2
import UnixNetProg.Lib.Memory
import UnixNetProg.Libc

/-!
# Messages in partial deliveries (`sctp/sctp_pdapircv.c`)

The buffer and its size are static. A call is given by the deliveries that its `Sctp_recvmsg` calls meet, and its
run records what each of these was offered. No statement looks at `allocated`, the size of the buffer in the heap.
-/

namespace UnixNetProg.Sctp

open Lib

def SCTP_PDAPI_INCR_SZ : ℤ := 65535
def SCTP_PDAPI_NEED_MORE_THRESHOLD : ℤ := 1024

/-- `int` arithmetic. -/
def int (n : ℤ) : ℤ := toInt32 (toSize n)

/-- What one `Sctp_recvmsg` gets, and whether it is flagged `MSG_EOR`. -/
structure Delivery where
  bytes : List Byte
  eor : Bool
  deriving DecidableEq, Repr

/-- `sctp_pdapi_readbuf`, `none` for `NULL`, and `sctp_pdapi_rdbuf_sz`. -/
structure Pdapi where
  readbuf : Option (Memory Byte)
  rdbufSz : ℤ
  allocated : ℕ

def Pdapi.start : Pdapi := ⟨none, 0, 0⟩

/-- The arguments of a `Sctp_recvmsg`, the sizes at its time, and the bytes that it got. -/
structure Offer where
  ptr : ℤ
  len : ℕ
  rdbufSz : ℤ
  allocated : ℕ
  bytes : List Byte
  deriving DecidableEq, Repr

inductive PdapiResult where
  | waiting
  | null (rdlen : ℤ)
  | message (buf : Memory Byte) (rdlen : ℤ)

structure PdapiRun where
  state : Pdapi
  result : PdapiResult
  offers : List Offer

def Pdapi.offer (s : Pdapi) (ptr len : ℤ) (d : Delivery) : Offer := ⟨ptr, toSize len, s.rdbufSz, s.allocated, d.bytes⟩

/-- `realloc` of a buffer; what is behind the old bytes can be anything. -/
def realloc (fresh : ℕ → Memory Byte) (buf : Memory Byte) (oldSize size : ℕ) : Memory Byte :=
  fun k => if k < oldSize then buf k else fresh size k

/-- `if(left < SCTP_PDAPI_NEED_MORE_THRESHOLD)`. A size is allocated once, so `fresh` can be any contents. -/
def needMore (fresh : ℕ → Memory Byte) (s : Pdapi) (buf : Memory Byte) (left : ℤ) : Pdapi × Memory Byte :=
  if left < SCTP_PDAPI_NEED_MORE_THRESHOLD then
    let size := toSize (int (s.rdbufSz + SCTP_PDAPI_INCR_SZ))
    ({ s with rdbufSz := int (s.rdbufSz + SCTP_PDAPI_INCR_SZ), allocated := size }, realloc fresh buf s.allocated size)
  else (s, buf)

/-- `while((*msg_flags & MSG_EOR) == 0)`. -/
def recvMore (fresh : ℕ → Memory Byte) (s : Pdapi) (buf : Memory Byte) (atInBuf : ℤ) : List Delivery → PdapiRun
  | [] => ⟨{ s with readbuf := some buf }, .waiting, []⟩
  | d :: ds =>
    let left := int (s.rdbufSz - atInBuf)
    let (s, buf) := needMore fresh s buf left
    let left := int (s.rdbufSz - atInBuf)
    let o := s.offer atInBuf left d
    let buf := buf.store atInBuf.toNat d.bytes
    let atInBuf := int (atInBuf + d.bytes.length)
    if d.eor then ⟨{ s with readbuf := some buf }, .message buf atInBuf, [o]⟩
    else
      let r := recvMore fresh s buf atInBuf ds
      { r with offers := o :: r.offers }

/-- The first allocation. -/
def initBuf (fresh : ℕ → Memory Byte) (s : Pdapi) : Pdapi × Memory Byte :=
  match s.readbuf with
  | none =>
    ({ s with rdbufSz := SCTP_PDAPI_INCR_SZ, allocated := toSize SCTP_PDAPI_INCR_SZ },
      fresh (toSize SCTP_PDAPI_INCR_SZ))
  | some buf => (s, buf)

def pdapiRecvmsg (fresh : ℕ → Memory Byte) (s : Pdapi) : List Delivery → PdapiRun
  | [] => ⟨{ (initBuf fresh s).1 with readbuf := some (initBuf fresh s).2 }, .waiting, []⟩
  | d :: ds =>
    let (s, buf) := initBuf fresh s
    let o := s.offer 0 s.rdbufSz d
    let buf := buf.store 0 d.bytes
    let atInBuf : ℤ := d.bytes.length
    if atInBuf < 1 then ⟨{ s with readbuf := some buf }, .null atInBuf, [o]⟩
    else if d.eor then ⟨{ s with readbuf := some buf }, .message buf atInBuf, [o]⟩
    else
      let r := recvMore fresh s buf atInBuf ds
      { r with offers := o :: r.offers }

/-- Calls one behind the other. -/
def pdapiCalls (fresh : ℕ → Memory Byte) : Pdapi → List (List Delivery) → List PdapiRun
  | _, [] => []
  | s, ds :: calls =>
    let r := pdapiRecvmsg fresh s ds
    r :: pdapiCalls fresh r.state calls

/-! ### What is delivered, and what is to be returned -/

/-- The last delivery, and no other, is flagged. -/
def EndsMessage : List Delivery → Prop
  | [] => False
  | d :: ds => if ds = [] then d.eor = true else d.eor = false ∧ EndsMessage ds

def messageOf (ds : List Delivery) : List Byte := ds.flatMap Delivery.bytes

structure Delivered (ds : List Delivery) (r : PdapiRun) : Prop where
  ends : EndsMessage ds
  total : ((messageOf ds).length : ℤ) < 2 ^ 31 - SCTP_PDAPI_INCR_SZ
  pieces : ∀ o ∈ r.offers, 1 ≤ o.bytes.length ∧ o.bytes.length ≤ o.len

structure Reassembled (ds : List Delivery) (r : PdapiRun) : Prop where
  message : ∃ buf, r.result = .message buf (messageOf ds).length ∧ r.state.readbuf = some buf ∧
    buf.slice 0 (messageOf ds).length = messageOf ds
  inside : ∀ o ∈ r.offers, 0 ≤ o.ptr ∧ o.ptr + o.len ≤ o.allocated ∧ SCTP_PDAPI_NEED_MORE_THRESHOLD ≤ o.len ∧
    o.rdbufSz = o.allocated
  size : r.state.rdbufSz = r.state.allocated

/-! ### The sizes -/

section Sizes

variable {s : Pdapi}

/-- The sizes are multiples of the increment, so that the last one that an `int` can hold is reached without a carry. -/
def Grown (s : Pdapi) : Prop := ∃ k : ℕ, 1 ≤ k ∧ k ≤ 32768 ∧ s.rdbufSz = 65535 * k ∧ s.allocated = 65535 * k

theorem int_eq {n : ℤ} (hlo : -2 ^ 31 ≤ n) (hhi : n < 2 ^ 31) : int n = n := toInt32_toSize hlo hhi

theorem toSize_of_nonneg {n : ℤ} (hlo : 0 ≤ n) (hhi : n < 2 ^ 31) : (toSize n : ℤ) = n := by
  rw [toSize]
  omega

theorem grown_initBuf (fresh : ℕ → Memory Byte) (h : s.readbuf = none ∨ Grown s) : Grown (initBuf fresh s).1 := by
  cases hbuf : s.readbuf with
  | none =>
    rw [initBuf, hbuf]
    exact ⟨1, by decide, by decide, rfl, rfl⟩
  | some buf =>
    rw [initBuf, hbuf]
    exact h.resolve_left (by rw [hbuf]; nofun)

theorem needMore_spec (fresh : ℕ → Memory Byte) (hs : Grown s) {atInBuf : ℕ} (hle : atInBuf ≤ s.allocated)
    (hlt : (atInBuf : ℤ) + 1 < 2 ^ 31 - SCTP_PDAPI_INCR_SZ) (buf : Memory Byte) :
    Grown (needMore fresh s buf (int (s.rdbufSz - atInBuf))).1 ∧
      (atInBuf : ℤ) + SCTP_PDAPI_NEED_MORE_THRESHOLD ≤ (needMore fresh s buf (int (s.rdbufSz - atInBuf))).1.allocated ∧
      (needMore fresh s buf (int (s.rdbufSz - atInBuf))).2.slice 0 atInBuf = buf.slice 0 atInBuf := by
  obtain ⟨k, hk, hmax, hsize, halloc⟩ := hs
  have hincr : SCTP_PDAPI_INCR_SZ = 65535 := rfl
  have hthreshold : SCTP_PDAPI_NEED_MORE_THRESHOLD = 1024 := rfl
  have hleft : int (s.rdbufSz - atInBuf) = s.rdbufSz - atInBuf := int_eq (by omega) (by omega)
  rw [hleft, needMore]
  split_ifs with hfew
  · have hnew : int (s.rdbufSz + SCTP_PDAPI_INCR_SZ) = 65535 * (k + 1 : ℕ) := by
      rw [int_eq (by omega) (by omega)]
      omega
    have hnewSize : (toSize (65535 * (k + 1 : ℕ)) : ℤ) = 65535 * (k + 1 : ℕ) :=
      toSize_of_nonneg (by omega) (by omega)
    simp only [hnew]
    refine ⟨⟨k + 1, by omega, by omega, rfl, ?_⟩, ?_, ?_⟩
    · show toSize (65535 * (k + 1 : ℕ)) = 65535 * (k + 1)
      omega
    · show (atInBuf : ℤ) + SCTP_PDAPI_NEED_MORE_THRESHOLD ≤ (toSize (65535 * (k + 1 : ℕ)) : ℤ)
      omega
    · apply Memory.slice_congr
      intro i _ hi
      exact if_pos (Nat.lt_of_lt_of_le hi hle)
  · refine ⟨⟨k, hk, hmax, hsize, halloc⟩, ?_, rfl⟩
    show (atInBuf : ℤ) + SCTP_PDAPI_NEED_MORE_THRESHOLD ≤ (s.allocated : ℤ)
    omega

end Sizes

/-! ### One message -/

section Message

variable {fresh : ℕ → Memory Byte} {s : Pdapi} {buf : Memory Byte} {d : Delivery} {ds : List Delivery}

/-- The range that is offered is inside the buffer. -/
def Offer.Inside (o : Offer) : Prop :=
  0 ≤ o.ptr ∧ o.ptr + o.len ≤ o.allocated ∧ SCTP_PDAPI_NEED_MORE_THRESHOLD ≤ o.len ∧ o.rdbufSz = o.allocated

/-- The message behind the bytes `got`. -/
structure Rest (got : List Byte) (ds : List Delivery) (r : PdapiRun) : Prop where
  message : ∃ buf, r.result = .message buf (got.length + (messageOf ds).length : ℕ) ∧ r.state.readbuf = some buf ∧
    buf.slice 0 (got.length + (messageOf ds).length) = got ++ messageOf ds
  inside : ∀ o ∈ r.offers, o.Inside
  grown : Grown r.state

theorem messageOf_cons (d : Delivery) (ds : List Delivery) : messageOf (d :: ds) = d.bytes ++ messageOf ds :=
  List.flatMap_cons

theorem messageOf_singleton (d : Delivery) : messageOf [d] = d.bytes := by
  rw [messageOf_cons, messageOf, List.flatMap_nil, List.append_nil]

theorem ends_cons (h : EndsMessage (d :: ds)) : (ds = [] ∧ d.eor = true) ∨ (¬ d.eor = true ∧ EndsMessage ds) := by
  by_cases hds : ds = []
  · rw [EndsMessage, if_pos hds] at h
    exact .inl ⟨hds, h⟩
  · rw [EndsMessage, if_neg hds] at h
    exact .inr ⟨by rw [h.1]; decide, h.2⟩

theorem Rest.last {got : List Byte} {o : Offer} (hs : Grown s)
    (hbuf : buf.slice 0 (got ++ d.bytes).length = got ++ d.bytes) (ho : o.Inside) :
    Rest got [d] ⟨{ s with readbuf := some buf }, .message buf ((got ++ d.bytes).length : ℕ), [o]⟩ := by
  refine ⟨⟨buf, ?_, rfl, ?_⟩, ?_, hs⟩
  · rw [messageOf_singleton, List.length_append]
  · rw [messageOf_singleton, ← List.length_append]
    exact hbuf
  · exact fun o' ho' => List.mem_singleton.mp ho' ▸ ho

theorem Rest.more {got : List Byte} {r : PdapiRun} {o : Offer} (h : Rest (got ++ d.bytes) ds r) (ho : o.Inside) :
    Rest got (d :: ds) { r with offers := o :: r.offers } := by
  obtain ⟨⟨buf, hresult, hread, hmessage⟩, hinside, hgrown⟩ := h
  have hlength : got.length + (messageOf (d :: ds)).length = (got ++ d.bytes).length + (messageOf ds).length := by
    rw [messageOf_cons, List.length_append, List.length_append, Nat.add_assoc]
  refine ⟨⟨buf, ?_, hread, ?_⟩, List.forall_mem_cons.mpr ⟨ho, hinside⟩, hgrown⟩
  · rw [hlength]
    exact hresult
  · rw [hlength, hmessage, messageOf_cons, List.append_assoc]

theorem Rest.reassembled {r : PdapiRun} (h : Rest [] ds r) : Reassembled ds r := by
  obtain ⟨⟨buf, hresult, hread, hmessage⟩, hinside, k, -, -, hsize, halloc⟩ := h
  rw [List.length_nil, Nat.zero_add] at hresult hmessage
  exact ⟨⟨buf, hresult, hread, hmessage⟩, hinside, by omega⟩

theorem offer_inside (hs : Grown s) (ptr : ℕ) (hroom : (ptr : ℤ) + SCTP_PDAPI_NEED_MORE_THRESHOLD ≤ s.allocated)
    (d : Delivery) : (s.offer ptr (int (s.rdbufSz - ptr)) d).Inside ∧
      ((s.offer ptr (int (s.rdbufSz - ptr)) d).len : ℤ) = s.allocated - ptr := by
  obtain ⟨k, hk, hmax, hsize, halloc⟩ := hs
  have hthreshold : SCTP_PDAPI_NEED_MORE_THRESHOLD = 1024 := rfl
  have hlen : (toSize (int (s.rdbufSz - ptr)) : ℤ) = s.allocated - ptr := by
    rw [int_eq (by omega) (by omega), toSize_of_nonneg (by omega) (by omega)]
    omega
  refine ⟨⟨Int.natCast_nonneg ptr, ?_, ?_, ?_⟩, hlen⟩
  · show (ptr : ℤ) + (toSize (int (s.rdbufSz - ptr)) : ℤ) ≤ s.allocated
    omega
  · show _ ≤ (toSize (int (s.rdbufSz - ptr)) : ℤ)
    omega
  · show s.rdbufSz = s.allocated
    omega

/-- Each delivery is stored behind the ones before it. -/
theorem recvMore_rest (fresh : ℕ → Memory Byte) (hs : Grown s) {got : List Byte} (hle : got.length ≤ s.allocated)
    (hbuf : buf.slice 0 got.length = got) (hends : EndsMessage ds)
    (htotal : (got.length : ℤ) + (messageOf ds).length < 2 ^ 31 - SCTP_PDAPI_INCR_SZ)
    (hpieces : ∀ o ∈ (recvMore fresh s buf got.length ds).offers, 1 ≤ o.bytes.length ∧ o.bytes.length ≤ o.len) :
    Rest got ds (recvMore fresh s buf got.length ds) := by
  induction ds generalizing s buf got with
  | nil => exact absurd hends id
  | cons d ds ih =>
    rw [messageOf_cons, List.length_append] at htotal
    have hincr : SCTP_PDAPI_INCR_SZ = 65535 := rfl
    have hspec := fun hlt => needMore_spec fresh hs hle hlt buf
    rw [recvMore] at hpieces ⊢
    generalize needMore fresh s buf (int (s.rdbufSz - got.length)) = next at hspec hpieces ⊢
    obtain ⟨s', buf'⟩ := next
    simp only [Int.toNat_natCast] at hspec hpieces ⊢
    have hfirst : 1 ≤ d.bytes.length ∧
        d.bytes.length ≤ (s'.offer got.length (int (s'.rdbufSz - got.length)) d).len := by
      cases heor : d.eor with
      | true =>
        rw [if_pos heor] at hpieces
        exact hpieces _ List.mem_cons_self
      | false =>
        rw [if_neg (by rw [heor]; decide)] at hpieces
        exact hpieces _ List.mem_cons_self
    obtain ⟨hs', hroom, hslice⟩ := hspec (by omega)
    obtain ⟨hinside, hlen⟩ := offer_inside hs' got.length hroom d
    have hnext : int ((got.length : ℤ) + d.bytes.length) = ((got ++ d.bytes).length : ℕ) := by
      rw [List.length_append, int_eq (by omega) (by omega), Nat.cast_add]
    have hstore : (buf'.store got.length d.bytes).slice 0 (got ++ d.bytes).length = got ++ d.bytes := by
      rw [List.length_append, Memory.slice_store buf' (Nat.zero_le _), hslice, hbuf]
    rw [hnext] at hpieces ⊢
    rcases ends_cons hends with ⟨rfl, heor⟩ | ⟨hmore, hrest⟩
    · rw [if_pos heor]
      exact .last hs' hstore hinside
    · rw [if_neg hmore] at hpieces ⊢
      have hlength : (got ++ d.bytes).length = got.length + d.bytes.length := List.length_append
      have hih := ih hs' (by omega) hstore hrest (by omega) fun o ho => hpieces o (List.mem_cons_of_mem _ ho)
      exact hih.more hinside

theorem pdapiRecvmsg_reassembled (hs : s.readbuf = none ∨ Grown s) (h : Delivered ds (pdapiRecvmsg fresh s ds)) :
    Reassembled ds (pdapiRecvmsg fresh s ds) ∧ Grown (pdapiRecvmsg fresh s ds).state := by
  obtain ⟨hends, htotal, hpieces⟩ := h
  cases ds with
  | nil => exact absurd hends id
  | cons d ds =>
    have hs' := grown_initBuf fresh hs
    rw [pdapiRecvmsg] at hpieces ⊢
    generalize initBuf fresh s = next at hs' hpieces ⊢
    obtain ⟨s', buf⟩ := next
    simp only at hs' hpieces ⊢
    obtain ⟨k, hk, hmax, hsize, halloc⟩ := hs'
    have hthreshold : SCTP_PDAPI_NEED_MORE_THRESHOLD = 1024 := rfl
    have hoffer : s'.offer 0 s'.rdbufSz d = s'.offer (0 : ℕ) (int (s'.rdbufSz - (0 : ℕ))) d := by
      rw [Nat.cast_zero, sub_zero, int_eq (by omega) (by omega)]
    obtain ⟨hinside, hlen⟩ := offer_inside ⟨k, hk, hmax, hsize, halloc⟩ 0 (by omega) d
    rw [← hoffer] at hinside hlen
    have hfirst : 1 ≤ d.bytes.length ∧ d.bytes.length ≤ (s'.offer 0 s'.rdbufSz d).len := by
      split_ifs at hpieces
      · exact hpieces _ List.mem_cons_self
      · exact hpieces _ List.mem_cons_self
      · exact hpieces _ List.mem_cons_self
    have hsome : ¬ (d.bytes.length : ℤ) < 1 := by omega
    have hstore := buf.slice_store_zero d.bytes
    rw [if_neg hsome] at hpieces ⊢
    rcases ends_cons hends with ⟨rfl, heor⟩ | ⟨hmore, hrest⟩
    · rw [if_pos heor]
      have hlast : Rest [] [d] _ := .last ⟨k, hk, hmax, hsize, halloc⟩ hstore hinside
      exact ⟨hlast.reassembled, hlast.grown⟩
    · rw [if_neg hmore] at hpieces ⊢
      rw [messageOf_cons, List.length_append] at htotal
      have hmoreRest := recvMore_rest fresh ⟨k, hk, hmax, hsize, halloc⟩ (by omega) hstore hrest (by omega)
        fun o ho => hpieces o (List.mem_cons_of_mem _ ho)
      rw [← List.nil_append d.bytes] at hmoreRest
      have hall := hmoreRest.more hinside
      exact ⟨hall.reassembled, hall.grown⟩

/-- **Every call of a sequence** returns its message, and the buffer that the earlier ones have grown fits. -/
theorem pdapi_reassembles (fresh : ℕ → Memory Byte) (calls : List (List Delivery))
    (h : List.Forall₂ Delivered calls (pdapiCalls fresh .start calls)) :
    List.Forall₂ Reassembled calls (pdapiCalls fresh .start calls) := by
  have hall : ∀ s : Pdapi, s.readbuf = none ∨ Grown s → List.Forall₂ Delivered calls (pdapiCalls fresh s calls) →
      List.Forall₂ Reassembled calls (pdapiCalls fresh s calls) := by
    clear h
    induction calls with
    | nil => exact fun _ _ _ => .nil
    | cons ds calls ih =>
      intro s hs h
      obtain ⟨hds, hcalls⟩ := List.forall₂_cons.mp h
      obtain ⟨hreassembled, hgrown⟩ := pdapiRecvmsg_reassembled hs hds
      exact .cons hreassembled (ih _ (.inr hgrown) hcalls)
  exact hall .start (.inl rfl) h

theorem pdapiRecvmsg_grows (fresh : ℕ → Memory Byte) {d : Delivery} (hd : d.bytes.length = 65000)
    (heor : d.eor = false) : ∃ buf,
      (pdapiRecvmsg fresh .start [d, ⟨[3], true⟩]).state = ⟨some buf, 131070, 131070⟩ ∧
      (pdapiRecvmsg fresh .start [d, ⟨[3], true⟩]).offers =
        [⟨0, 65535, 65535, 65535, d.bytes⟩, ⟨65000, 66070, 131070, 131070, [3]⟩] := by
  have hsome : ¬ (65000 : ℤ) < 1 := by decide
  have hleft : int (65535 - 65000) = 535 := int_eq (by decide) (by decide)
  have hmore : (535 : ℤ) < 1024 := by decide
  have hgrown : int (65535 + 65535) = 131070 := int_eq (by decide) (by decide)
  have hleft' : int (131070 - 65000) = 66070 := int_eq (by decide) (by decide)
  simp only [pdapiRecvmsg, initBuf, Pdapi.start, recvMore, needMore, Pdapi.offer, SCTP_PDAPI_INCR_SZ,
    SCTP_PDAPI_NEED_MORE_THRESHOLD, hd, heor, Nat.cast_ofNat, if_neg hsome, hleft, if_pos hmore, hgrown, hleft',
    if_true, Bool.false_eq_true, if_false]
  exact ⟨_, rfl, rfl⟩

/-- A message that makes the buffer grow, and one that the first allocation could not hold. -/
def sampleMessages : List (List Delivery) :=
  [[⟨List.replicate 65000 7, false⟩, ⟨[3], true⟩], [⟨List.replicate 70000 4, true⟩]]

theorem pdapi_reassembles_sample :
    List.Forall₂ Reassembled sampleMessages (pdapiCalls (fun _ _ => 0) .start sampleMessages) := by
  have hlength : (List.replicate 65000 (7 : Byte)).length = 65000 := List.length_replicate
  have hlength' : (List.replicate 70000 (4 : Byte)).length = 70000 := List.length_replicate
  have hsome : ¬ (70000 : ℤ) < 1 := by decide
  obtain ⟨buf, hstate, hoffers⟩ := pdapiRecvmsg_grows (fun _ _ => 0) (d := ⟨List.replicate 65000 7, false⟩) hlength rfl
  refine pdapi_reassembles _ _ (.cons ⟨?_, ?_, ?_⟩ (.cons ⟨?_, ?_, ?_⟩ .nil))
  · simp [EndsMessage]
  · simp only [messageOf, List.flatMap_cons, List.flatMap_nil, List.length_append, hlength, SCTP_PDAPI_INCR_SZ]
    decide
  · rw [hoffers]
    simp only [List.forall_mem_cons, hlength]
    decide
  · simp [EndsMessage]
  · simp only [messageOf, List.flatMap_cons, List.flatMap_nil, List.length_append, hlength', SCTP_PDAPI_INCR_SZ]
    decide
  · rw [hstate]
    simp only [pdapiRecvmsg, initBuf, Pdapi.offer, hlength', Nat.cast_ofNat, if_neg hsome, if_true,
      List.forall_mem_cons]
    decide

end Message

end UnixNetProg.Sctp
