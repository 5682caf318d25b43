import UnixNetProg.Libroute.IfMessages

/-!
# Names and indexes of interfaces (`libroute/if_nameindex.c`, `if_nametoindex.c`, `if_indextoname.c`)

The three functions go over the messages that `net_rt_iflist` gets from the kernel, and look at the link address of
each `RTM_IFINFO` message. `if_nameindex` makes an array and its names in one block of the length of the list: the
structures from its start up, the names from its end down.
-/

namespace UnixNetProg.Libroute

open Lib
open Ifi (IFNAMSIZ)
open Route (AF_LINK sdlIndex sdlNlen)

/-- `strncpy`: the `n` bytes that it stores. -/
def strncpy (src : List Byte) (n : ℕ) : List Byte :=
  stringOf (src.take n) ++ List.replicate (n - (stringOf (src.take n)).length) 0

section Functions

variable (z : Sizes)

/-! ### `if_nametoindex` and `if_indextoname` -/

/-- `none` is a loop without an end. -/
def ifNametoindex (netRtIflist : ℕ → Option IfList) (name : CString) : Option ℕ :=
  match netRtIflist 0 with
  | none => some 0
  | some list =>
    let namelen := name.length % 2 ^ 32
    let body : Unit → ℕ → ExceptT ℕ Option Unit := fun _ sdl =>
      if sdlNlen list.buf sdl = namelen ∧ strncmp (sdlName list.buf sdl) name (sdlNlen list.buf sdl) then
        throw (sdlIndex list.buf sdl)
      else pure ()
    match (forLinks z (ExceptT.mk none) list body ()).run with
    | some (.error idx) => some idx
    | some (.ok ()) => some 0
    | none => none

/-- The memory at `name` afterwards, or `NULL`. -/
def ifIndextoname (netRtIflist : ℕ → Option IfList) (idx : ℕ) (name : Memory Byte) : Option (Option (Memory Byte)) :=
  match netRtIflist idx with
  | none => some none
  | some list =>
    let body : Unit → ℕ → ExceptT (Memory Byte) Option Unit := fun _ sdl =>
      if sdlIndex list.buf sdl = idx then
        let slen := min (IFNAMSIZ - 1) (sdlNlen list.buf sdl)
        throw (name.store 0 (strncpy (sdlName list.buf sdl) slen ++ [0]))
      else pure ()
    match (forLinks z (ExceptT.mk none) list body ()).run with
    | some (.error name) => some (some name)
    | some (.ok ()) => some none
    | none => none

/-! ### `if_nameindex` -/

/-- `struct if_nameindex`; a name is an offset in the block. -/
structure NameIndex where
  ifName : Option ℕ
  ifIndex : ℕ
  deriving DecidableEq, Repr

/-- The block has characters, and the bytes of structures. -/
inductive Cell where
  | char (c : Byte)
  | part (entry : NameIndex) (j : ℕ)
  deriving DecidableEq

/-- The bytes of a structure. -/
def parts (entry : NameIndex) : List Cell := (List.range z.ifNameindex).map (Cell.part entry)

/-- The block, and the pointers of `if_nameindex` into it. -/
structure Filling where
  block : Memory Cell
  ifptr : ℕ
  namptr : ℕ

/-- The body of the loop; `none` is a store in front of the block or behind it. -/
def addLink (list : IfList) (s : Filling) (sdl : ℕ) : Option Filling :=
  let nlen := sdlNlen list.buf sdl
  if s.namptr < nlen + 1 ∨ list.len < s.ifptr + z.ifNameindex then none
  else
    let namptr := s.namptr - (nlen + 1)
    let block := s.block.store namptr ((strncpy (sdlName list.buf sdl) nlen ++ [0]).map Cell.char)
    some { block := block.store s.ifptr (parts z ⟨some namptr, sdlIndex list.buf sdl⟩),
           ifptr := s.ifptr + z.ifNameindex, namptr }

/-- The end of the array. -/
def addEnd (list : IfList) (s : Filling) : Option Filling :=
  if list.len < s.ifptr + z.ifNameindex then none
  else some { s with block := s.block.store s.ifptr (parts z ⟨none, 0⟩) }

/-- `malloced` is what `malloc(len)` gives. -/
def ifNameindex (netRtIflist : ℕ → Option IfList) (malloced : Memory Cell) : Option (Option Filling) :=
  match netRtIflist 0 with
  | none => some none
  | some list =>
    match forLinks z none list (addLink z list) ⟨malloced, 0, list.len⟩ >>= addEnd z list with
    | some s => some (some s)
    | none => none

/-- The string that the cells begin with. -/
def cString : List Cell → Option CString
  | .char c :: cells => if c = 0 then some [] else (cString cells).map (c :: ·)
  | _ => none

/-- The structure at `p`. -/
def entryAt (block : Memory Cell) (p : ℕ) : Option NameIndex :=
  match block p with
  | .part entry _ => if block.slice p (p + z.ifNameindex) = parts z entry then some entry else none
  | .char _ => none

/-- The array at `p`, as a caller reads it up to its end. -/
def readArray (block : Memory Cell) (len : ℕ) : ℕ → ℕ → Option (List (CString × ℕ))
  | 0, _ => none
  | turns + 1, p =>
    match entryAt z block p with
    | some ⟨some name, index⟩ => do
      let name ← cString (block.slice name len)
      let rest ← readArray block len turns (p + z.ifNameindex)
      pure ((name, index) :: rest)
    | some ⟨none, index⟩ => if index = 0 then some [] else none
    | none => none

end Functions

section Messages

variable {z : Sizes} {buf : Memory Byte} {p q : ℕ} {w : ℕ}

/-! ### The two searches -/

section Search

variable {netRtIflist : ℕ → Option IfList} {msgs : List (Msg z)} {x : SockaddrDl z.ulong}

theorem SockaddrDl.length_name_lt (x : SockaddrDl w) : x.name.length < IFNAMSIZ := by
  rw [SockaddrDl.name, length_sdlName]
  exact x.nlen_lt

theorem SockaddrDl.stringOf_take (x : SockaddrDl w) (n : ℕ) : stringOf (x.name.take n) = x.name.take n :=
  stringOf_of_not_mem fun hmem => x.name_nul (List.mem_of_mem_take hmem)

theorem SockaddrDl.strncpy_name (x : SockaddrDl w) : strncpy x.name x.name.length = x.name := by
  rw [strncpy, x.stringOf_take, List.take_length, Nat.sub_self]
  exact List.append_nil _

theorem ifNametoindex_eq (hall : Answers (netRtIflist 0) msgs) (hnames : ((links msgs).map SockaddrDl.name).Nodup)
    (hx : x ∈ links msgs) : ifNametoindex z netRtIflist x.name = some x.index := by
  obtain ⟨list, hlist, hslice⟩ := hall
  obtain ⟨qs, hqs, hloop⟩ := forLinks_eq hslice
  have hlen : x.name.length % 2 ^ 32 = x.name.length := Nat.mod_eq_of_lt (x.length_name_lt.trans (by decide))
  obtain ⟨q, hfind, hq⟩ := find?_of_forall₂ (P := fun sdl => decide (sdlNlen list.buf sdl = x.name.length ∧
      strncmp (sdlName list.buf sdl) x.name (sdlNlen list.buf sdl))) hqs hx (fun q y hy hq => by
    rw [decide_eq_true_eq, hq.nlen, hq.name, strncmp, decide_eq_true_eq, x.stringOf_take, y.stringOf_take,
      List.take_length]
    constructor
    · rintro ⟨hlen, hname⟩
      rw [hlen, List.take_length] at hname
      exact List.inj_on_of_nodup_map hnames hy hx hname
    · rintro rfl
      exact ⟨rfl, List.take_length.symm⟩)
  have hsearch := foldlM_throw (fun sdl => decide (sdlNlen list.buf sdl = x.name.length ∧
      strncmp (sdlName list.buf sdl) x.name (sdlNlen list.buf sdl))) (sdlIndex list.buf) qs
  rw [hfind] at hsearch
  simp only [decide_eq_true_eq] at hsearch
  simp only [ifNametoindex, hlist, hlen, hloop, hsearch]
  rw [← hq.index]
  rfl

theorem stringOf_stored (x : SockaddrDl w) (name : Memory Byte) :
    stringOf ((name.store 0 (x.name ++ [0])).slice 0 IFNAMSIZ) = x.name := by
  have hlt := x.length_name_lt
  have hself := name.slice_store_zero (x.name ++ [0])
  have hlen : (x.name ++ [0]).length = x.name.length + 1 := List.length_append
  rw [hlen] at hself
  rw [← Memory.slice_append _ (Nat.zero_le (x.name.length + 1)) hlt, hself, List.append_assoc]
  exact (stringOf_append_zero _ _).trans (stringOf_of_not_mem x.name_nul)

theorem ifIndextoname_eq {own : List (Msg z)} (hone : Answers (netRtIflist x.index) own)
    (hown : links own = (links msgs).filter fun y => y.index = x.index)
    (hindexes : ((links msgs).map SockaddrDl.index).Nodup) (hx : x ∈ links msgs) (name : Memory Byte) :
    ∃ name', ifIndextoname z netRtIflist x.index name = some (some name') ∧
      stringOf (name'.slice 0 IFNAMSIZ) = x.name := by
  refine ⟨name.store 0 (x.name ++ [0]), ?_, stringOf_stored x name⟩
  obtain ⟨list, hlist, hslice⟩ := hone
  obtain ⟨qs, hqs, hloop⟩ := forLinks_eq hslice
  rw [hown] at hqs
  have hmem : x ∈ (links msgs).filter fun y => y.index = x.index := List.mem_filter.mpr ⟨hx, decide_eq_true rfl⟩
  obtain ⟨q, hfind, hq⟩ := find?_of_forall₂ (P := fun sdl => decide (sdlIndex list.buf sdl = x.index)) hqs hmem
    (fun q y hy hq => by
      rw [decide_eq_true_eq, hq.index]
      constructor
      · intro hindex
        exact List.inj_on_of_nodup_map hindexes (List.mem_filter.mp hy).1 hx hindex
      · exact congrArg _)
  have hsearch := foldlM_throw (fun sdl => decide (sdlIndex list.buf sdl = x.index))
    (fun sdl => name.store 0 (strncpy (sdlName list.buf sdl) (min (IFNAMSIZ - 1) (sdlNlen list.buf sdl)) ++ [0])) qs
  rw [hfind] at hsearch
  simp only [decide_eq_true_eq] at hsearch
  simp only [ifIndextoname, hlist, hloop, hsearch]
  rw [hq.name, hq.nlen, Nat.min_eq_right (Nat.le_sub_one_of_lt x.length_name_lt), x.strncpy_name]
  rfl

end Search

/-! ### The block -/

section Block

variable {list : IfList} {s s₁ : Filling} {x : SockaddrDl w} {block block' : Memory Cell} {entry : NameIndex}

theorem length_parts (entry : NameIndex) : (parts z entry).length = z.ifNameindex := by
  rw [parts, List.length_map, List.length_range]

theorem entryAt_of_slice (h : block.slice p (p + z.ifNameindex) = parts z entry) : entryAt z block p = some entry := by
  have hpos := z.pos
  have hget := block.getElem?_slice (i := p) (j := p + z.ifNameindex) (k := 0) (by omega)
  have hfirst : (parts z entry)[0]? = some (.part entry 0) := by
    rw [parts, List.getElem?_map, List.getElem?_range hpos]
    rfl
  rw [h, hfirst, Nat.add_zero] at hget
  rw [entryAt, ← Option.some.inj hget]
  exact if_pos h

theorem cString_append {name : CString} (h : 0 ∉ name) (cells : List Cell) :
    cString ((name ++ [0]).map Cell.char ++ cells) = some name := by
  induction name with
  | nil => rfl
  | cons c name ih =>
    rw [List.mem_cons, not_or] at h
    show (if c = 0 then some [] else (cString ((name ++ [0]).map Cell.char ++ cells)).map (c :: ·)) = _
    rw [if_neg fun hc => h.1 hc.symm, ih h.2]
    rfl

/-- What a turn does: a structure at `ifptr`, its name in front of the others. -/
structure Added (z : Sizes) (x : SockaddrDl w) (s s₁ : Filling) : Prop where
  ifptr : s₁.ifptr = s.ifptr + z.ifNameindex
  namptr : s₁.namptr + (x.name.length + 1) = s.namptr
  entry : s₁.block.slice s.ifptr s₁.ifptr = parts z ⟨some s₁.namptr, x.index⟩
  name : s₁.block.slice s₁.namptr s.namptr = (x.name ++ [0]).map Cell.char
  frame : ∀ k, k < s.ifptr ∨ s.namptr ≤ k → s₁.block k = s.block k

theorem addLink_eq (h : SdlAt list.buf q x) (hroom : s.ifptr + z.ifNameindex + (x.name.length + 1) ≤ s.namptr)
    (hle : s.namptr ≤ list.len) : ∃ s₁, addLink z list s q = some s₁ ∧ Added z x s s₁ := by
  obtain ⟨namptr, hnamptr⟩ : ∃ namptr, namptr + (x.name.length + 1) = s.namptr :=
    ⟨s.namptr - (x.name.length + 1), by omega⟩
  have hsub : s.namptr - (x.name.length + 1) = namptr := by omega
  have hparts := length_parts (z := z) ⟨some namptr, x.index⟩
  have hchars : ((x.name ++ [0]).map Cell.char).length = x.name.length + 1 := by
    rw [List.length_map]
    exact List.length_append
  have hadd : addLink z list s q = some
      { block := (s.block.store namptr ((x.name ++ [0]).map Cell.char)).store s.ifptr (parts z ⟨some namptr, x.index⟩),
        ifptr := s.ifptr + z.ifNameindex, namptr } := by
    simp only [addLink, h.nlen, h.name, h.index, x.strncpy_name, hsub]
    exact if_neg (by omega)
  have hname := s.block.slice_store_self namptr ((x.name ++ [0]).map Cell.char)
  have hframe : ∀ k, k < s.ifptr ∨ s.namptr ≤ k → s.block.store namptr ((x.name ++ [0]).map Cell.char) k = s.block k :=
    fun k hk => Memory.store_of_notMem _ (by omega)
  rw [hchars, hnamptr] at hname
  generalize s.block.store namptr ((x.name ++ [0]).map Cell.char) = block at hadd hname hframe
  have hentry := block.slice_store_self s.ifptr (parts z ⟨some namptr, x.index⟩)
  have hbehind : (block.store s.ifptr (parts z ⟨some namptr, x.index⟩)).slice namptr s.namptr =
      block.slice namptr s.namptr := Memory.slice_store_of_le _ (by omega)
  have hframe' : ∀ k, k < s.ifptr ∨ s.namptr ≤ k →
      block.store s.ifptr (parts z ⟨some namptr, x.index⟩) k = block k :=
    fun k hk => Memory.store_of_notMem _ (by omega)
  rw [hparts] at hentry
  exact ⟨_, hadd, rfl, hnamptr, hentry, hbehind.trans hname, fun k hk => (hframe' k hk).trans (hframe k hk)⟩

/-- The bytes of some names, with the 0 behind each. -/
def namesLen (xs : List (SockaddrDl w)) : ℕ := (xs.map fun x => x.name.length + 1).sum

theorem namesLen_cons (x : SockaddrDl w) (xs : List (SockaddrDl w)) :
    namesLen (x :: xs) = x.name.length + 1 + namesLen xs := by
  rw [namesLen, List.map_cons, List.sum_cons]
  rfl

/-- **The rest of the loop**, from a state with enough room between the two pointers. -/
theorem addLinks_eq {qs : List ℕ} {xs : List (SockaddrDl w)} (h : List.Forall₂ (SdlAt list.buf) qs xs)
    (hroom : s.ifptr + z.ifNameindex * (xs.length + 1) + namesLen xs ≤ s.namptr) (hle : s.namptr ≤ list.len) :
    ∃ s', (qs.foldlM (addLink z list) s >>= addEnd z list) = some s' ∧
      s'.ifptr = s.ifptr + z.ifNameindex * xs.length ∧ s'.namptr + namesLen xs = s.namptr ∧
      (∀ k, k < s.ifptr ∨ s.namptr ≤ k → s'.block k = s.block k) ∧
      readArray z s'.block list.len (xs.length + 1) s.ifptr = some (xs.map fun x => (x.name, x.index)) := by
  induction h generalizing s with
  | nil =>
    rw [List.length_nil, Nat.zero_add, Nat.mul_one] at hroom
    have hparts := length_parts (z := z) ⟨none, 0⟩
    have hend : addEnd z list s = some { s with block := s.block.store s.ifptr (parts z ⟨none, 0⟩) } :=
      if_neg (by omega)
    have hself := s.block.slice_store_self s.ifptr (parts z ⟨none, 0⟩)
    rw [hparts] at hself
    refine ⟨_, hend, rfl, rfl, fun k hk => Memory.store_of_notMem _ (by omega), ?_⟩
    rw [List.length_nil, readArray, entryAt_of_slice hself]
    rfl
  | @cons q x qs xs hq h ih =>
    have hstructs : z.ifNameindex * ((x :: xs).length + 1) = z.ifNameindex + z.ifNameindex * (xs.length + 1) := by
      rw [List.length_cons, Nat.mul_succ, Nat.add_comm]
    have hnames := namesLen_cons x xs
    rw [hnames, hstructs] at hroom
    obtain ⟨s₁, hadd, hs₁⟩ := addLink_eq (z := z) hq (by omega) hle
    have hifptr := hs₁.ifptr
    have hnamptr := hs₁.namptr
    obtain ⟨s', hrest, hup, hdown, hframe, hread⟩ := ih (s := s₁) (by omega) (by omega)
    have hentry : s'.block.slice s.ifptr (s.ifptr + z.ifNameindex) = parts z ⟨some s₁.namptr, x.index⟩ := by
      rw [← hifptr, ← hs₁.entry]
      exact Memory.slice_congr fun k _ hk => hframe k (.inl hk)
    have hname : s'.block.slice s₁.namptr s.namptr = (x.name ++ [0]).map Cell.char := by
      rw [← hs₁.name]
      exact Memory.slice_congr fun k hk _ => hframe k (.inr hk)
    have hstring : cString (s'.block.slice s₁.namptr list.len) = some x.name := by
      rw [← Memory.slice_append _ (by omega) hle, hname]
      exact cString_append x.name_nul _
    refine ⟨s', ?_, ?_, by omega, fun k hk => ?_, ?_⟩
    · rw [List.foldlM_cons, hadd]
      exact hrest
    · rw [hup, hifptr, List.length_cons, Nat.mul_succ]
      omega
    · rw [hframe k (by omega), hs₁.frame k hk]
    · rw [List.length_cons, readArray, entryAt_of_slice hentry]
      simp only [hstring, ← hifptr, hread]
      rfl

/-! ### The length of a list -/

theorem room_le (msgs : List (Msg z)) :
    2 * (z.ifNameindex * (links msgs).length) + namesLen (links msgs) ≤ (msgs.flatMap Msg.bytes).length := by
  induction msgs with
  | nil => exact Nat.le_refl 0
  | cons y msgs ih =>
    rw [List.flatMap_cons, List.length_append]
    cases y with
    | other y => exact ih.trans (Nat.le_add_left _ _)
    | ifinfo y =>
      have hlt := z.lt
      have hlink := length_link_le y
      have hname := y.link.length_bytes_le
      have hbytes : (Msg.ifinfo y).bytes.length =
          z.ifMsghdr + ((packed y.sas (List.range RTAX_MAX)).length + y.pad.length) := by
        rw [Msg.bytes, List.length_append, List.length_append, y.length_header]
      have hlinks : links (Msg.ifinfo y :: msgs) = y.link :: links msgs := rfl
      rw [hlinks, namesLen_cons, List.length_cons, Nat.mul_succ, hbytes]
      omega

end Block

/-- **Names and indexes agree.** For a list from the kernel with different names and indexes, `if_nameindex` returns
the pairs in their order and then the end of the array, and the array ends before the names begin. The other two
functions find for each pair the one from the other. -/
theorem if_names_agree (z : Sizes) (msgs : List (Msg z))
    (hk : links msgs ≠ [] ∨ z.ifNameindex ≤ (msgs.flatMap Msg.bytes).length)
    (hnames : ((links msgs).map SockaddrDl.name).Nodup) (hindexes : ((links msgs).map SockaddrDl.index).Nodup)
    (netRtIflist : ℕ → Option IfList) (hall : Answers (netRtIflist 0) msgs)
    (hone : ∀ x ∈ links msgs, ∃ own : List (Msg z), Answers (netRtIflist x.index) own ∧
      links own = (links msgs).filter fun y => y.index = x.index) (malloced : Memory Cell) :
    (∃ s, ifNameindex z netRtIflist malloced = some (some s) ∧
      s.ifptr = z.ifNameindex * (links msgs).length ∧ s.ifptr + z.ifNameindex ≤ s.namptr ∧
      s.namptr + namesLen (links msgs) = (msgs.flatMap Msg.bytes).length ∧
      readArray z s.block (msgs.flatMap Msg.bytes).length ((links msgs).length + 1) 0 =
        some ((links msgs).map fun x => (x.name, x.index))) ∧
    ∀ x ∈ links msgs, ifNametoindex z netRtIflist x.name = some x.index ∧
      ∀ name, ∃ name', ifIndextoname z netRtIflist x.index name = some (some name') ∧
        stringOf (name'.slice 0 IFNAMSIZ) = x.name := by
  constructor
  · obtain ⟨list, hlist, hslice⟩ := hall
    obtain ⟨qs, hqs, hloop⟩ := forLinks_eq hslice
    have hlen : (msgs.flatMap Msg.bytes).length = list.len := by
      rw [← hslice, Memory.length_slice, Nat.sub_zero]
    have hroom : 0 + z.ifNameindex * ((links msgs).length + 1) + namesLen (links msgs) ≤ list.len := by
      have htwo := room_le msgs
      rw [Nat.mul_succ]
      by_cases hnil : links msgs = []
      · have hfits := hk.resolve_left (not_not.mpr hnil)
        rw [hnil]
        show 0 + (z.ifNameindex * 0 + z.ifNameindex) + 0 ≤ list.len
        omega
      · have hsome := Nat.le_mul_of_pos_right z.ifNameindex (List.length_pos_iff.mpr hnil)
        omega
    obtain ⟨s, hs, hup, hdown, -, hread⟩ :=
      addLinks_eq (z := z) (s := ⟨malloced, 0, list.len⟩) hqs hroom (Nat.le_refl _)
    rw [Nat.mul_succ] at hroom
    refine ⟨s, ?_, ?_, ?_, ?_, ?_⟩
    · simp only [ifNameindex, hlist, hloop, hs]
    · rw [hup]
      exact Nat.zero_add _
    · have hup' : s.ifptr = 0 + z.ifNameindex * (links msgs).length := hup
      have hdown' : s.namptr + namesLen (links msgs) = list.len := hdown
      omega
    · rw [hlen]
      exact hdown
    · rw [hlen]
      exact hread
  · intro x hx
    obtain ⟨own, hown, hfilter⟩ := hone x hx
    exact ⟨ifNametoindex_eq hall hnames hx, ifIndextoname_eq hown hfilter hindexes hx⟩

/-! ### Two interfaces -/

/-- The sizes of a host with 64 bits. -/
def lp64 : Sizes := ⟨8, 16, 168, by decide, by decide, by decide⟩

def lo0 : SockaddrDl lp64.ulong where
  bytes := [20, 18, 1, 0, 24, 3, 0, 0] ++ cstr "lo0" ++ List.replicate 13 0
  length_bytes := by decide
  saLen_le := by decide
  ne_nil := by decide
  family := by decide
  room := by decide
  nlen_pos := by decide
  nlen_lt := by decide
  name_nul := by decide
  index_ne := by decide

def em0 : SockaddrDl lp64.ulong where
  bytes := [20, 18, 2, 0, 6, 3, 6, 0] ++ cstr "em0" ++ List.replicate 13 0
  length_bytes := by decide
  saLen_le := by decide
  ne_nil := by decide
  family := by decide
  room := by decide
  nlen_pos := by decide
  nlen_lt := by decide
  name_nul := by decide
  index_ne := by decide

/-- The header of a message of 192 bytes with only the link address. -/
def ifinfoHeader : List Byte := [192, 0, 5, 14, 16, 0, 0, 0] ++ List.replicate 160 0

/-- A message with an address of 24 bytes. -/
def ifinfoOf (link : SockaddrDl lp64.ulong) (hlink : link.bytes.length = 24) : IfInfo lp64 where
  header := ifinfoHeader
  sas := fun i => if i = RTAX_IFP then some link.toPaddedSa else none
  pad := []
  link := link
  length_header := by decide +kernel
  type := by decide
  mask := by
    have hbit : ∀ i < RTAX_MAX, ((memory ifinfoHeader).load32 .little 4).testBit i = decide (i = RTAX_IFP) := by
      decide +kernel
    intro i hi
    rw [hbit i hi]
    by_cases h : i = RTAX_IFP
    · rw [if_pos h, decide_eq_true h]
      rfl
    · rw [if_neg h, decide_eq_false h]
      rfl
  ifp := if_pos rfl
  msglen := by
    have hpacked : packed (fun i => if i = RTAX_IFP then some link.toPaddedSa else none) (List.range RTAX_MAX) =
        link.bytes ++ [] := rfl
    rw [hpacked, List.append_nil, List.append_nil, List.length_append, hlink]
    decide +kernel

/-- An `RTM_NEWADDR` message. -/
def newaddrMsg : OtherMsg := ⟨[20, 0, 5, 12] ++ List.replicate 16 0, by decide, by decide, by decide⟩

def sampleMsgs : List (Msg lp64) :=
  [.ifinfo (ifinfoOf lo0 (by decide)), .other newaddrMsg, .ifinfo (ifinfoOf em0 (by decide))]

/-- What `net_rt_iflist` returns for some messages. -/
def answer (msgs : List (Msg lp64)) : IfList :=
  ⟨Memory.store (fun _ => 0) 0 (msgs.flatMap Msg.bytes), (msgs.flatMap Msg.bytes).length⟩

theorem answers_answer (msgs : List (Msg lp64)) : Answers (some (answer msgs)) msgs :=
  ⟨_, rfl, Memory.slice_store_zero _ _⟩

def sampleIflist : ℕ → Option IfList
  | 0 => some (answer sampleMsgs)
  | 1 => some (answer (sampleMsgs.take 2))
  | 2 => some (answer (sampleMsgs.drop 2))
  | _ => none

theorem if_names_agree_sample :
    (∃ s, ifNameindex lp64 sampleIflist (fun _ => .char 1) = some (some s) ∧
      s.ifptr = 32 ∧ s.ifptr + 16 ≤ s.namptr ∧ s.namptr + 8 = 404 ∧
      readArray lp64 s.block 404 3 0 = some [(cstr "lo0", 1), (cstr "em0", 2)]) ∧
    ∀ x ∈ [lo0, em0], ifNametoindex lp64 sampleIflist x.name = some x.index ∧
      ∀ name, ∃ name', ifIndextoname lp64 sampleIflist x.index name = some (some name') ∧
        stringOf (name'.slice 0 IFNAMSIZ) = x.name := by
  have hlen : (sampleMsgs.flatMap Msg.bytes).length = 404 := by decide +kernel
  have hone : ∀ x ∈ links sampleMsgs, ∃ own : List (Msg lp64), Answers (sampleIflist x.index) own ∧
      links own = (links sampleMsgs).filter fun y => y.index = x.index := by
    intro x hx
    rcases List.mem_pair.mp hx with rfl | rfl
    · exact ⟨sampleMsgs.take 2, answers_answer _, rfl⟩
    · exact ⟨sampleMsgs.drop 2, answers_answer _, rfl⟩
  have hagree := if_names_agree lp64 sampleMsgs (.inl nofun) (by decide) (by decide) sampleIflist
    (answers_answer sampleMsgs) hone fun _ => .char 1
  rw [hlen] at hagree
  exact hagree

end Messages

end UnixNetProg.Libroute
