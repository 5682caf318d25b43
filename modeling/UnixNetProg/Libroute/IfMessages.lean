import UnixNetProg.Ifi.GetIfiInfo
import UnixNetProg.Lib.Walk
import UnixNetProg.Route.GetIfiInfo

/-!
# The link addresses of the interfaces (`libroute/net_rt_iflist.c`)

`net_rt_iflist` returns the messages of the kernel, one behind the other. The loop over them gives the link address
of each `RTM_IFINFO` message to its body; a message of another type is passed over by its `ifm_msglen`.
-/

namespace UnixNetProg.Libroute

open Lib
open Ifi (IFNAMSIZ)
open Route (AF_LINK sdlIndex sdlNlen)

def RTM_IFINFO : Byte := 14

/-- `sizeof(u_long)`, `sizeof(struct if_nameindex)` and `sizeof(struct if_msghdr)`. -/
structure Sizes where
  ulong : ℕ
  ifNameindex : ℕ
  ifMsghdr : ℕ
  pos : 0 < ifNameindex
  eight_le : 8 ≤ ifMsghdr
  lt : 2 * ifNameindex < ifMsghdr

/-- What `net_rt_iflist` returns, with `*lenp`. -/
structure IfList where
  buf : Memory Byte
  len : ℕ

/-- The `nlen` bytes at `sdl_data`. -/
def sdlName (buf : Memory Byte) (sdl : ℕ) : List Byte := buf.slice (sdl + 8) (sdl + 8 + sdlNlen buf sdl)

section Loop

variable (z : Sizes)

/-- The link address of the message at `next`. -/
def linkAt (buf : Memory Byte) (next : ℕ) : Option ℕ :=
  if buf (next + 3) = RTM_IFINFO then
    let sa := next + z.ifMsghdr
    match rtiInfo z.ulong (buf.load32 .little (next + 4)) (fun k => buf (sa + k)) RTAX_IFP with
    | none => none
    | some ifp => if buf (sa + ifp + 1) = AF_LINK then some (sa + ifp) else none
  else none

variable {m : Type → Type} [Monad m] {σ : Type}

/-- The loop over the messages, with a body for a link address. A message of length 0 would have no next one. -/
def forLinks (stuck : m σ) (list : IfList) (body : σ → ℕ → m σ) (s : σ) : m σ :=
  walk stuck (fun next => list.buf.load16 .little next)
    (fun s next =>
      match linkAt z list.buf next with
      | some sdl => body s sdl
      | none => pure s)
    list.len (list.len + 1) 0 s

end Loop

/-! ### The messages of the kernel -/

/-- A list of bytes as a memory. -/
def memory (bytes : List Byte) : Memory Byte := fun k => bytes.getD k 0

/-- The link address of an interface. -/
structure SockaddrDl (w : ℕ) extends PaddedSa w where
  family : memory bytes 1 = AF_LINK
  room : 8 + sdlNlen (memory bytes) 0 ≤ (bytes.headD 0).toNat
  nlen_pos : 0 < sdlNlen (memory bytes) 0
  nlen_lt : sdlNlen (memory bytes) 0 < IFNAMSIZ
  name_nul : 0 ∉ sdlName (memory bytes) 0
  index_ne : sdlIndex (memory bytes) 0 ≠ 0

def SockaddrDl.name {w : ℕ} (x : SockaddrDl w) : CString := sdlName (memory x.bytes) 0
def SockaddrDl.index {w : ℕ} (x : SockaddrDl w) : ℕ := sdlIndex (memory x.bytes) 0

/-- An `RTM_IFINFO` message; `pad` is what `ifm_msglen` has more than the header and the addresses. -/
structure IfInfo (z : Sizes) where
  header : List Byte
  sas : ℕ → Option (PaddedSa z.ulong)
  pad : List Byte
  link : SockaddrDl z.ulong
  length_header : header.length = z.ifMsghdr
  type : memory header 3 = RTM_IFINFO
  mask : ∀ i < RTAX_MAX, ((memory header).load32 .little 4).testBit i = (sas i).isSome
  ifp : sas RTAX_IFP = some link.toPaddedSa
  msglen : (memory header).load16 .little 0 = (header ++ (packed sas (List.range RTAX_MAX) ++ pad)).length

structure OtherMsg where
  bytes : List Byte
  four_le : 4 ≤ bytes.length
  type : memory bytes 3 ≠ RTM_IFINFO
  msglen : (memory bytes).load16 .little 0 = bytes.length

inductive Msg (z : Sizes) where
  | ifinfo (x : IfInfo z)
  | other (x : OtherMsg)

section Messages

variable {z : Sizes}

def Msg.bytes : Msg z → List Byte
  | .ifinfo x => x.header ++ (packed x.sas (List.range RTAX_MAX) ++ x.pad)
  | .other x => x.bytes

def Msg.link : Msg z → Option (SockaddrDl z.ulong)
  | .ifinfo x => some x.link
  | .other _ => none

/-- The link addresses of a list of messages. -/
def links (msgs : List (Msg z)) : List (SockaddrDl z.ulong) := msgs.filterMap Msg.link

/-- The answer is these messages. -/
def Answers (answer : Option IfList) (msgs : List (Msg z)) : Prop :=
  ∃ list, answer = some list ∧ list.buf.slice 0 list.len = msgs.flatMap Msg.bytes

/-! ### Where the messages are -/

variable {buf : Memory Byte} {p q k lim : ℕ} {w : ℕ}

theorem buf_of_slice {bytes : List Byte} (h : buf.slice p (p + bytes.length) = bytes) (hk : k < bytes.length) :
    buf (p + k) = memory bytes k := by
  have hget := buf.getElem?_slice (i := p) (j := p + bytes.length) (k := k) (by omega)
  rw [h] at hget
  rw [memory, List.getD_eq_getElem?_getD, hget]
  rfl

/-- A link address at `q` in the buffer. -/
structure SdlAt (buf : Memory Byte) (q : ℕ) (x : SockaddrDl w) : Prop where
  index : sdlIndex buf q = x.index
  name : sdlName buf q = x.name

theorem length_sdlName (buf : Memory Byte) (q : ℕ) : (sdlName buf q).length = sdlNlen buf q := by
  rw [sdlName, Memory.length_slice, Nat.add_sub_cancel_left]

theorem SdlAt.nlen {x : SockaddrDl w} (h : SdlAt buf q x) : sdlNlen buf q = x.name.length := by
  rw [← length_sdlName, h.name]

theorem SockaddrDl.length_bytes_le (x : SockaddrDl w) : 8 + x.name.length ≤ x.bytes.length := by
  rw [SockaddrDl.name, length_sdlName]
  exact x.room.trans x.saLen_le

theorem SockaddrDl.at_of_slice {x : SockaddrDl w} (h : buf.slice q (q + x.bytes.length) = x.bytes) : SdlAt buf q x := by
  have hle := x.length_bytes_le
  have hnlen : sdlNlen buf q = sdlNlen (memory x.bytes) 0 := by
    rw [sdlNlen, sdlNlen, buf_of_slice h (by omega), Nat.zero_add]
  constructor
  · rw [sdlIndex, buf_of_slice h (by omega), buf_of_slice h (by omega), SockaddrDl.index, sdlIndex]
  · rw [SockaddrDl.name, length_sdlName] at hle
    rw [SockaddrDl.name, sdlName, sdlName, hnlen, Nat.zero_add, Nat.add_assoc, ← Memory.slice_shift]
    apply Memory.slice_congr
    intro k _ hk
    exact buf_of_slice h (by omega)

/-- A message at `p` in the buffer. -/
def MsgAt (buf : Memory Byte) (p : ℕ) (x : Msg z) : Prop := buf.slice p (p + x.bytes.length) = x.bytes

/-- The message of an interface as `get_rtaddrs` sees it. -/
def IfInfo.rtMsg (x : IfInfo z) (h : MsgAt buf p (.ifinfo x)) : RtMsg z.ulong where
  addrs := buf.load32 .little (p + 4)
  body := fun k => buf (p + z.ifMsghdr + k)
  sas := x.sas
  mask := by
    intro i hi
    have hheader := (Memory.slice_of_append h).1
    have hshift : buf.load32 .little (p + 4) = Memory.load32 .little (fun k => buf (p + k)) 4 := rfl
    have haddrs : Memory.load32 .little (fun k => buf (p + k)) 4 = (memory x.header).load32 .little 4 := by
      apply Memory.load32_congr
      intro k hk
      exact buf_of_slice hheader (by rw [x.length_header]; exact lt_of_lt_of_le (by omega) z.eight_le)
    rw [hshift, haddrs]
    exact x.mask i hi
  body_eq := by
    have hrest := (Memory.slice_of_append h).2
    rw [Memory.slice_shift, Nat.add_zero, ← x.length_header]
    exact (Memory.slice_of_append hrest).1

theorem linkAt_of_msgAt {x : Msg z} (h : MsgAt buf p x) :
    (x.link = none ∧ linkAt z buf p = none) ∨
      ∃ sdl q, x.link = some sdl ∧ linkAt z buf p = some q ∧ SdlAt buf q sdl := by
  cases x with
  | other x =>
    left
    have htype : buf (p + 3) = memory x.bytes 3 := buf_of_slice h x.four_le
    refine ⟨rfl, ?_⟩
    rw [linkAt, if_neg (by rw [htype]; exact x.type)]
  | ifinfo x =>
    right
    have height := z.eight_le
    have hlen := x.length_header
    have htype : buf (p + 3) = RTM_IFINFO := by
      rw [buf_of_slice (Memory.slice_of_append h).1 (by omega)]
      exact x.type
    have hinfo := (x.rtMsg h).rtiInfo_eq (i := RTAX_IFP) (by decide)
    have hslice := (x.rtMsg h).slice_offset (i := RTAX_IFP) (by decide) x.ifp
    rw [show (x.rtMsg h).sas RTAX_IFP = some x.link.toPaddedSa from x.ifp] at hinfo
    generalize (x.rtMsg h).offset RTAX_IFP = ifp at hinfo hslice
    have hbytes : buf.slice (p + z.ifMsghdr + ifp) (p + z.ifMsghdr + ifp + x.link.bytes.length) = x.link.bytes := by
      rw [Nat.add_assoc _ ifp, ← Memory.slice_shift]
      exact hslice
    have hfamily : buf (p + z.ifMsghdr + ifp + 1) = AF_LINK := by
      rw [buf_of_slice hbytes (by have := x.link.length_bytes_le; omega)]
      exact x.link.family
    refine ⟨x.link, p + z.ifMsghdr + ifp, rfl, ?_, SockaddrDl.at_of_slice hbytes⟩
    rw [linkAt, if_pos htype]
    simp only [show rtiInfo z.ulong (buf.load32 .little (p + 4)) (fun k => buf (p + z.ifMsghdr + k)) RTAX_IFP = some ifp
      from hinfo]
    rw [if_pos hfamily]

theorem Msg.msglen_pos (x : Msg z) : 0 < x.bytes.length := by
  cases x with
  | other x => exact lt_of_lt_of_le (by decide) x.four_le
  | ifinfo x =>
    have height := z.eight_le
    rw [Msg.bytes, List.length_append, x.length_header]
    omega

theorem load16_of_slice {bytes : List Byte} (h : buf.slice p (p + bytes.length) = bytes) (hlen : 2 ≤ bytes.length) :
    buf.load16 .little p = (memory bytes).load16 .little 0 := by
  have hlo : buf p = memory bytes 0 := buf_of_slice (k := 0) h (by omega)
  have hhi : buf (p + 1) = memory bytes 1 := buf_of_slice h (by omega)
  rw [Memory.load16, Memory.load16, hlo, hhi]

theorem load16_of_msgAt {x : Msg z} (h : MsgAt buf p x) : buf.load16 .little p = x.bytes.length := by
  cases x with
  | other x =>
    rw [load16_of_slice h (le_trans (by decide) x.four_le)]
    exact x.msglen
  | ifinfo x =>
    have height := z.eight_le
    have hlen := x.length_header
    rw [load16_of_slice (Memory.slice_of_append h).1 (by omega)]
    exact x.msglen

theorem exists_chain (msgs : List (Msg z)) (hle : p ≤ lim) (h : buf.slice p lim = msgs.flatMap Msg.bytes) :
    ∃ ps, Chain (fun next => buf.load16 .little next) lim p ps ∧ List.Forall₂ (MsgAt buf) ps msgs := by
  induction msgs generalizing p with
  | nil =>
    obtain rfl := Nat.le_antisymm hle ((Memory.slice_eq_nil_iff buf p lim).mp h)
    exact ⟨[], .nil, .nil⟩
  | cons x msgs ih =>
    have hlen : lim = p + (x.bytes ++ msgs.flatMap Msg.bytes).length := by
      rw [← List.flatMap_cons, ← h, Memory.length_slice]
      omega
    rw [hlen] at h
    obtain ⟨hx, hrest⟩ := Memory.slice_of_append h
    have hnext : p + x.bytes.length + (msgs.flatMap Msg.bytes).length = lim := by
      rw [hlen, List.length_append, Nat.add_assoc]
    rw [hnext] at hrest
    obtain ⟨ps, hchain, hps⟩ := ih (by omega) hrest
    have hmsglen := load16_of_msgAt hx
    refine ⟨p :: ps, .cons ?_ ?_, .cons hx hps⟩
    · rw [hmsglen]
      exact x.msglen_pos
    · rw [hmsglen]
      exact hchain

theorem forall₂_links {ps : List ℕ} {msgs : List (Msg z)} (h : List.Forall₂ (MsgAt buf) ps msgs) :
    List.Forall₂ (SdlAt buf) (ps.filterMap (linkAt z buf)) (links msgs) := by
  induction h with
  | nil => exact .nil
  | cons hx _ ih =>
    rcases linkAt_of_msgAt hx with ⟨hnone, hat⟩ | ⟨sdl, q, hsome, hat, hsdl⟩
    · rw [links, List.filterMap_cons_none hnone, List.filterMap_cons_none hat]
      exact ih
    · rw [links, List.filterMap_cons_some hsome, List.filterMap_cons_some hat]
      exact .cons hsdl ih

/-- **The loop over the messages** is a loop over their link addresses. -/
theorem forLinks_eq {list : IfList} {msgs : List (Msg z)} (h : list.buf.slice 0 list.len = msgs.flatMap Msg.bytes) :
    ∃ qs, List.Forall₂ (SdlAt list.buf) qs (links msgs) ∧
      ∀ {m : Type → Type} [Monad m] [LawfulMonad m] {σ : Type} (stuck : m σ) (body : σ → ℕ → m σ) (s : σ),
        forLinks z stuck list body s = qs.foldlM body s := by
  obtain ⟨ps, hchain, hps⟩ := exists_chain msgs (Nat.zero_le list.len) h
  refine ⟨ps.filterMap (linkAt z list.buf), forall₂_links hps, ?_⟩
  intro m _ _ σ stuck body s
  have hturns : ps.length < list.len + 1 := by
    have hle := hchain.length_le
    omega
  rw [forLinks, walk_eq_foldlM stuck _ hchain hturns, List.foldlM_filterMap]
  apply congrArg fun f => ps.foldlM f s
  funext s next
  cases linkAt z list.buf next with
  | none => rfl
  | some sdl => rfl

theorem length_link_le (y : IfInfo z) : y.link.bytes.length ≤ (packed y.sas (List.range RTAX_MAX)).length := by
  obtain ⟨rest, hrest⟩ := packed_split y.sas (show RTAX_IFP < RTAX_MAX by decide)
  rw [hrest, packed_range_succ, y.ifp]
  simp only [Option.map_some, Option.getD_some, List.length_append]
  omega

end Messages

end UnixNetProg.Libroute
