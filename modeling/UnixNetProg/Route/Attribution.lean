import Mathlib.Data.List.Induction
import UnixNetProg.Route.Newaddr

/-!
# Whose address it is

`ifi` stays where it is when an interface that is down is passed over, so that the addresses of that interface
are stored in the entry of another one. What follows is when this does not happen, and that the list is then
the one that the kernel's list describes.
-/

namespace UnixNetProg.Route

open Lib Libroute

section Interfaces

variable {w : ℕ}

def Iface.up (x : Iface w) : Bool := x.flags &&& IFF_UP != 0

/-- Where the address of the link starts. -/
def Iface.sa (x : Iface w) : ℕ := x.info.offset RTAX_IFP

def Iface.index (x : Iface w) : ℕ := sdlIndex x.info.body x.sa

/-- The name of the interface. One without a name is called by its index. -/
def Iface.name (x : Iface w) : CString :=
  if 0 < sdlNlen x.info.body x.sa then x.info.body.slice (x.sa + 8) (x.sa + 8 + sdlNlen x.info.body x.sa)
  else snprintf IFI_NAME (cstr "index " ++ decimal x.index)

/-- The last interface that is up. -/
def lastUp (xs : List (Iface w)) : Option (Iface w) := (xs.filter Iface.up).getLast?

/-- The address is the one of that number in the message that it is said to be from. -/
def Origin.From (xs : List (Iface w)) (k : ℕ) (o : Origin) : Prop :=
  ∃ x msg sa, xs[o.iface]? = some x ∧ x.addrs[o.msg]? = some msg ∧ msg.sas k = some sa ∧ o.bytes = sa.value

/-- An entry with the index and the name of an interface. -/
structure Entry.For (en : Entry) (x : Iface w) : Prop where
  index : en.index = x.index
  name : en.name = x.name

/-- What the list should be. -/
structure Attributed (doaliases : Bool) (xs : List (Iface w)) (list : List Entry) : Prop where
  genuine : ∀ en ∈ list, (∀ o ∈ en.addr, o.From xs RTAX_IFA) ∧ (∀ o ∈ en.brdaddr, o.From xs RTAX_BRD) ∧
    ∀ o ∈ en.dstaddr, o.From xs RTAX_BRD
  stands : ∀ en ∈ list, ∀ o ∈ en.origins, ∃ x, xs[o.iface]? = some x ∧ en.For x
  onlyUp : ∀ en ∈ list, ∀ o ∈ en.origins, ∃ x, xs[o.iface]? = some x ∧ x.up
  everyUp : ∀ i x, xs[i]? = some x → x.up → ∃ en ∈ list, en.owner = i ∧ en.For x
  once : doaliases → ∀ i x, xs[i]? = some x → x.up → ∀ j msg, x.addrs[j]? = some msg → HasIfa msg →
    (addrTags list).count (i, j) = 1

/-- The index is a `short`, and a name that is shorter than the room for it ends with a 0. -/
def Iface.Named (x : Iface w) : Prop :=
  x.index < 32768 ∧
    (sdlNlen x.info.body x.sa = 0 ∨
      sdlNlen x.info.body x.sa ≤ 15 ∧ (∀ k < sdlNlen x.info.body x.sa, x.info.body (x.sa + 8 + k) ≠ 0) ∧
        (sdlNlen x.info.body x.sa = 15 ∨ x.info.body (x.sa + 8 + sdlNlen x.info.body x.sa) = 0))

/-- An interface that is down does no harm behind these interfaces: there is an entry already, and what the
messages have is not stored, because the entry has an address and there are to be no aliases. -/
def Harmless (doaliases : Bool) (pre : List (Iface w)) (x : Iface w) : Prop :=
  x.up = false → x.addrs ≠ [] → ∃ u, lastUp pre = some u ∧
    ∀ msg ∈ x.addrs, Contributes x.flags msg → doaliases = false ∧ ∃ m ∈ u.addrs, HasIfa m

/-- No interface that is down does harm. -/
def AllHarmless (doaliases : Bool) (xs : List (Iface w)) : Prop :=
  ∀ pre x post, xs = pre ++ x :: post → Harmless doaliases pre x

theorem lastUp_append (xs : List (Iface w)) (x : Iface w) :
    lastUp (xs ++ [x]) = if x.up then some x else lastUp xs := by
  rw [lastUp, List.filter_append]
  cases hup : x.up with
  | true =>
    rw [List.filter_cons_of_pos hup, if_pos rfl]
    exact List.getLast?_append_cons _ _ _
  | false =>
    rw [List.filter_cons_of_neg (by rw [hup]; decide), if_neg Bool.false_ne_true, List.filter_nil, List.append_nil]
    rfl

theorem allHarmless_append {doaliases : Bool} {xs : List (Iface w)} {x : Iface w} :
    AllHarmless doaliases (xs ++ [x]) ↔ AllHarmless doaliases xs ∧ Harmless doaliases xs x := by
  constructor
  · intro h
    refine ⟨fun pre y post hxs => h pre y (post ++ [x]) ?_, h xs x [] rfl⟩
    rw [hxs, List.append_assoc, List.cons_append]
  · rintro ⟨h, hx⟩ pre y post heq
    rcases List.eq_nil_or_concat post with rfl | ⟨post, z, rfl⟩
    · obtain ⟨rfl, hlast⟩ := List.append_inj' heq rfl
      obtain ⟨rfl, -⟩ := List.cons.inj hlast
      exact hx
    · rw [List.concat_eq_append, ← List.cons_append, ← List.append_assoc] at heq
      exact h pre y post (List.append_inj' heq rfl).1

end Interfaces

/-! ### Names -/

section Names

variable {body : Memory Byte} {p nlen : ℕ}

theorem stringOf_slice_of_nonzero {n : ℕ} (hzero : ∀ k < n, body (p + k) ≠ 0) (hn : n ≤ 255) :
    ∃ rest, stringOf (body.slice p (p + 255)) = body.slice p (p + n) ++ rest ∧
      (n < 255 → body (p + n) = 0 → rest = []) := by
  have hsplit := body.slice_append (Nat.le_add_right p n) (Nat.add_le_add_left hn p)
  have hall : ∀ b ∈ body.slice p (p + n), (b != 0) = true := by
    intro b hb
    obtain ⟨k, hk, rfl⟩ := List.mem_map.mp hb
    obtain ⟨hle, hlt⟩ := List.mem_range'_1.mp hk
    have hne := hzero (k - p) (by omega)
    rw [Nat.add_sub_cancel' hle] at hne
    exact bne_iff_ne.mpr hne
  refine ⟨stringOf (body.slice (p + n) (p + 255)), ?_, fun hlt hnul => ?_⟩
  · rw [← hsplit, stringOf, List.takeWhile_append_of_pos hall]
    rfl
  · have hone : body.slice (p + n) (p + n + 1) = [body (p + n)] := by
      rw [Memory.slice, Nat.add_sub_cancel_left]
      rfl
    have hcons := body.slice_append (Nat.le_add_right (p + n) 1) (show p + n + 1 ≤ p + 255 by omega)
    rw [← hcons, hone, hnul]
    rfl

theorem nonzero_of_mem_starString {b : Byte} (h : b ∈ starString body p nlen) : b ≠ 0 := by
  rcases List.mem_append.mp h with h | h
  · rw [List.eq_of_mem_replicate h]
    decide
  · exact bne_iff_ne.mp (List.mem_takeWhile_imp (p := (· != 0)) h)

theorem snprintf_starString_iff (hnlen : nlen ≤ 255) :
    snprintf IFI_NAME (starString body p nlen) = body.slice p (p + nlen) ↔
      nlen ≤ 15 ∧ (∀ k < nlen, body (p + k) ≠ 0) ∧ (nlen = 15 ∨ body (p + nlen) = 0) := by
  have hsize : IFI_NAME - 1 = 15 := rfl
  have hlen : (body.slice p (p + nlen)).length = nlen := by
    rw [Memory.length_slice]
    omega
  rw [snprintf, hsize]
  constructor
  · intro h
    have hzero : ∀ k < nlen, body (p + k) ≠ 0 := by
      intro k hk
      have hget := Memory.getElem?_slice body (show k < p + nlen - p by omega)
      rw [← h] at hget
      exact nonzero_of_mem_starString (List.mem_of_mem_take (List.mem_of_getElem? hget))
    obtain ⟨rest, hs, hrest⟩ := stringOf_slice_of_nonzero hzero hnlen
    have htotal : (starString body p nlen).length = nlen + rest.length := by
      rw [starString, List.length_append, List.length_replicate, hs, List.length_append, hlen]
      omega
    have hcut := congrArg List.length h
    rw [List.length_take, htotal, hlen] at hcut
    refine ⟨by omega, hzero, ?_⟩
    by_cases hfull : nlen = 15
    · exact .inl hfull
    · refine .inr ?_
      have hnil : rest = [] := List.length_eq_zero_iff.mp (by omega)
      by_contra hne
      -- one byte more would belong to the string
      have hmore : ∀ k < nlen + 1, body (p + k) ≠ 0 := by
        intro k hk
        rcases Nat.lt_succ_iff_lt_or_eq.mp hk with hlt | rfl
        · exact hzero k hlt
        · exact hne
      obtain ⟨rest', hs', -⟩ := stringOf_slice_of_nonzero hmore (by omega)
      have hlens := congrArg List.length (hs.symm.trans hs')
      rw [List.length_append, List.length_append, hnil, hlen, Memory.length_slice, List.length_nil] at hlens
      omega
  · rintro ⟨hle, hzero, hend⟩
    obtain ⟨rest, hs, hrest⟩ := stringOf_slice_of_nonzero hzero hnlen
    have hstar : starString body p nlen = body.slice p (p + nlen) ++ rest := by
      have hpad : nlen - (body.slice p (p + nlen) ++ rest).length = 0 := by
        rw [List.length_append, hlen]
        omega
      rw [starString, hs, hpad]
      rfl
    rw [hstar]
    rcases hend with rfl | hnul
    · rw [List.take_append_of_le_length (Nat.le_of_eq hlen.symm), List.take_of_length_le (Nat.le_of_eq hlen)]
    · rw [hrest (by omega) hnul, List.append_nil, List.take_of_length_le (by omega)]

end Names

section Entries

variable {w : ℕ}

theorem linkEntry_eq (i : ℕ) (x : Iface w) :
    (linkEntry i x.flags x.info.body x.sa).owner = i ∧
      (linkEntry i x.flags x.info.body x.sa).index = (BitVec.ofNat 16 x.index).toInt ∧
      (linkEntry i x.flags x.info.body x.sa).name = ifiName x.info.body x.sa ∧
      (linkEntry i x.flags x.info.body x.sa).origins = [] ∧ (linkEntry i x.flags x.info.body x.sa).addr = none := by
  have hfamily : x.info.body (x.sa + 1) = AF_LINK := x.family
  rw [linkEntry, if_pos hfamily]
  exact ⟨rfl, rfl, rfl, rfl, rfl⟩

theorem named_iff (x : Iface w) :
    (BitVec.ofNat 16 x.index).toInt = x.index ∧ ifiName x.info.body x.sa = x.name ↔ x.Named := by
  have hindex : x.index ≤ 65535 := word16_le .little (x.info.body (x.sa + 2)) (x.info.body (x.sa + 3))
  have hshort : (BitVec.ofNat 16 x.index).toInt = x.index ↔ x.index < 32768 := by
    rw [BitVec.toInt_ofNat']
    constructor
    · intro h
      by_contra hge
      have hneg : (x.index : ℤ).bmod (2 ^ 16) < 0 := by
        rw [Int.bmod]
        omega
      omega
    · intro h
      exact Int.bmod_eq_of_le (by omega) (by omega)
  rw [Iface.Named, hshort, ifiName, Iface.name, Iface.index]
  refine and_congr_right fun _ => ?_
  by_cases hnlen : 0 < sdlNlen x.info.body x.sa
  · rw [if_pos hnlen, if_pos hnlen,
      snprintf_starString_iff (by have := (x.info.body (x.sa + 5)).toNat_lt; unfold sdlNlen; omega)]
    exact ⟨.inr, fun h => h.resolve_left (Nat.pos_iff_ne_zero.mp hnlen)⟩
  · rw [if_neg hnlen, if_neg hnlen]
    exact ⟨fun _ => .inl (Nat.eq_zero_of_not_pos hnlen), fun _ => rfl⟩

end Entries

/-! ### One interface -/

section Runs

variable {w : ℕ} {doaliases : Bool} {xs : List (Iface w)} {x : Iface w} {s s' : State}

theorem Iface.flags_up (x : Iface w) : x.flags &&& IFF_UP = 0 ↔ x.up = false := by
  rw [Iface.up, bne_eq_false_iff_eq]

theorem exists_iface_up (doaliases : Bool) (hup : x.up = true) (i : ℕ) (s : State) :
    ∃ list s', Grows doaliases i x.flags 0 x.addrs (linkEntry i x.flags x.info.body x.sa) list ∧
      iface w doaliases i x s = some s' ∧ s'.list = s.list ++ list ∧ s'.ifi = list.getLast? := by
  have hifp : rtiInfo w x.info.addrs x.info.body RTAX_IFP = some x.sa := by
    rw [x.info.rtiInfo_eq (by decide), x.info_ifp]
    rfl
  have hinfo : ifinfo w i x.flags x.info s =
      { before := s.list, ifi := some (linkEntry i x.flags x.info.body x.sa), flags := x.flags } := by
    have hflags : ¬x.flags &&& IFF_UP = 0 := by
      rw [x.flags_up, hup]
      decide
    dsimp only [ifinfo]
    rw [if_neg hflags, hifp]
    rfl
  rw [iface, hinfo]
  exact exists_grows (s := ⟨s.list, some (linkEntry i x.flags x.info.body x.sa), x.flags⟩) rfl 0 x.addrs

theorem exists_iface_down (doaliases : Bool) (hup : x.up = false) {en : Entry} (hifi : s.ifi = some en) (i : ℕ) :
    ∃ list s', Grows doaliases i x.flags 0 x.addrs en list ∧ iface w doaliases i x s = some s' ∧
      s'.list = s.before ++ list ∧ s'.ifi = list.getLast? := by
  have hinfo : ifinfo w i x.flags x.info s = { s with flags := x.flags } := if_pos (x.flags_up.mpr hup)
  rw [iface, hinfo]
  exact exists_grows (s := { s with flags := x.flags }) hifi 0 x.addrs

/-- Without an entry the first address is stored through a pointer that was never set. -/
theorem iface_down_none (hup : x.up = false) (hifi : s.ifi = none) (i : ℕ) :
    iface w doaliases i x s = if x.addrs = [] then some { s with flags := x.flags } else none := by
  have hinfo : ifinfo w i x.flags x.info s = { s with flags := x.flags } := if_pos (x.flags_up.mpr hup)
  rw [iface, hinfo]
  cases x.addrs with
  | nil => rfl
  | cons msg msgs =>
    rw [newaddrs, newaddr, hifi]
    rfl

theorem ifaces_append (i : ℕ) (xs : List (Iface w)) (x : Iface w) (s : State) :
    ifaces w doaliases i (xs ++ [x]) s = (ifaces w doaliases i xs s).bind (iface w doaliases (i + xs.length) x) := by
  induction xs generalizing i s with
  | nil =>
    rw [List.nil_append, ifaces, ifaces]
    show _ = iface w doaliases i x s
    cases iface w doaliases i x s <;> rfl
  | cons y xs ih =>
    rw [List.cons_append, ifaces, ifaces]
    cases iface w doaliases i y s with
    | none => rfl
    | some s' =>
      dsimp only
      rw [ih, List.length_cons, Nat.add_assoc, Nat.add_comm 1]

/-! ### The whole list -/

theorem getElem?_append_of_some {i : ℕ} {y : Iface w} (h : xs[i]? = some y) : (xs ++ [x])[i]? = some y := by
  obtain ⟨hlt, -⟩ := List.getElem?_eq_some_iff.mp h
  rw [List.getElem?_append_left hlt, h]

theorem getElem?_append_cases {i : ℕ} {y : Iface w} (h : (xs ++ [x])[i]? = some y) :
    xs[i]? = some y ∨ i = xs.length ∧ y = x := by
  by_cases hlt : i < xs.length
  · rw [List.getElem?_append_left hlt] at h
    exact .inl h
  · obtain ⟨hle, -⟩ := List.getElem?_eq_some_iff.mp h
    rw [List.length_append, List.length_singleton] at hle
    obtain rfl : i = xs.length := by omega
    rw [List.getElem?_concat_length] at h
    exact .inr ⟨rfl, (Option.some.inj h).symm⟩

theorem Origin.From.append {k : ℕ} {o : Origin} (h : o.From xs k) : o.From (xs ++ [x]) k := by
  obtain ⟨y, msg, sa, hy, hrest⟩ := h
  exact ⟨y, msg, sa, getElem?_append_of_some hy, hrest⟩

/-- An entry as it should be, but for what becomes of the index and the name. -/
structure Entry.Good (xs : List (Iface w)) (en : Entry) : Prop where
  owner : ∃ x, xs[en.owner]? = some x ∧ x.up ∧ en.index = (BitVec.ofNat 16 x.index).toInt ∧
    en.name = ifiName x.info.body x.sa
  all : en.All fun k o => o.From xs k ∧ o.iface = en.owner

theorem Entry.All.mono {P Q : ℕ → Origin → Prop} {en : Entry} (h : en.All P) (hPQ : ∀ k o, P k o → Q k o) : en.All Q :=
  ⟨fun o ho => hPQ _ o (h.1 o ho), fun o ho => hPQ _ o (h.2.1 o ho), fun o ho => hPQ _ o (h.2.2 o ho)⟩

theorem Entry.Good.append {en : Entry} (h : en.Good xs) : en.Good (xs ++ [x]) := by
  obtain ⟨y, hy, hrest⟩ := h.owner
  exact ⟨⟨y, getElem?_append_of_some hy, hrest⟩, h.all.mono fun _ _ ho => ⟨ho.1.append, ho.2⟩⟩

theorem Entry.Good.another {en : Entry} (h : en.Good xs) : en.another.Good xs := by
  refine ⟨h.owner, ⟨?_, ?_, ?_⟩⟩ <;> exact fun _ ho => nomatch ho

theorem Entry.Good.owner_lt {en : Entry} (h : en.Good xs) : en.owner < xs.length := by
  obtain ⟨y, hy, -⟩ := h.owner
  exact (List.getElem?_eq_some_iff.mp hy).1

theorem Entry.Good.iface_eq {en : Entry} (h : en.Good xs) {o : Origin} (ho : o ∈ en.origins) : o.iface = en.owner :=
  Entry.All.of_mem_origins (h.all.mono fun _ _ hboth => hboth.2) ho

/-- What is so after the messages of these interfaces, as long as none did harm. -/
structure Inv (doaliases : Bool) (xs : List (Iface w)) (s : State) : Prop where
  last : s.ifi = s.list.getLast?
  good : ∀ en ∈ s.list, en.Good xs
  everyUp : ∀ i x, xs[i]? = some x → x.up → ∃ en ∈ s.list, en.owner = i
  once : doaliases → ∀ i x, xs[i]? = some x → x.up → ∀ j msg, x.addrs[j]? = some msg → HasIfa msg →
    (addrTags s.list).count (i, j) = 1
  noUp : lastUp xs = none → s.ifi = none
  lastAddr : ∀ u, lastUp xs = some u → ∃ en, s.ifi = some en ∧
    (doaliases = false → (en.addr.isSome ↔ ∃ msg ∈ u.addrs, HasIfa msg))

theorem Inv.count_new (h : Inv doaliases xs s) (j : ℕ) : (addrTags s.list).count (xs.length, j) = 0 := by
  refine List.count_eq_zero_of_not_mem fun hmem => ?_
  obtain ⟨en, hen, htag⟩ := List.mem_filterMap.mp hmem
  obtain ⟨o, ho, heq⟩ := Option.map_eq_some_iff.mp htag
  have hiface : o.iface = en.owner := ((h.good en hen).all.1 o ho).2
  have hlt := (h.good en hen).owner_lt
  have hlen := congrArg Prod.fst heq
  dsimp only at hlen
  omega

theorem count_old {i : ℕ} {y : Iface w} (hy : xs[i]? = some y) (j : ℕ) (msgs : List (RtMsg w)) :
    (ifaTags xs.length 0 msgs).count (i, j) = 0 := by
  obtain ⟨hlt, -⟩ := List.getElem?_eq_some_iff.mp hy
  refine List.count_eq_zero_of_not_mem fun hmem => ?_
  have heq : i = xs.length := (mem_ifaTags hmem).1
  omega

theorem good_of_grows_link {list : List Entry} (hup : x.up = true)
    (hgrow : Grows doaliases xs.length x.flags 0 x.addrs (linkEntry xs.length x.flags x.info.body x.sa) list) :
    ∀ en ∈ list, en.Good (xs ++ [x]) ∧ en.owner = xs.length := by
  obtain ⟨howner, hindex, hname, -, -⟩ := linkEntry_eq xs.length x
  have hall : ∀ en ∈ list, en.All fun k o => o.From (xs ++ [x]) k ∧ o.iface = xs.length := by
    refine hgrow.all (fun n msg hmsg k o ho => ?_) ?_
    · obtain ⟨sa, hsa, rfl⟩ := Option.map_eq_some_iff.mp ho
      rw [Nat.zero_add]
      exact ⟨⟨x, msg, sa, List.getElem?_concat_length, hmsg, hsa, rfl⟩, rfl⟩
    · rw [linkEntry]
      split_ifs <;> refine ⟨?_, ?_, ?_⟩ <;> exact fun _ ho => nomatch ho
  intro en hen
  obtain ⟨hid, hrest⟩ := Prod.ext_iff.mp (hgrow.id_eq en hen)
  obtain ⟨hi, hn⟩ := Prod.ext_iff.mp hrest
  have ho : en.owner = xs.length := hid.trans howner
  refine ⟨⟨⟨x, ?_, hup, hi.trans hindex, hn.trans hname⟩, ?_⟩, ho⟩
  · rw [ho]
    exact List.getElem?_concat_length
  · exact (hall en hen).mono fun _ _ hboth => ⟨hboth.1, hboth.2.trans ho.symm⟩

theorem Inv.up (h : Inv doaliases xs s) (hup : x.up = true) :
    ∃ s', iface w doaliases xs.length x s = some s' ∧ Inv doaliases (xs ++ [x]) s' := by
  obtain ⟨list, s', hgrow, hrun, hlist, hifi⟩ := exists_iface_up doaliases hup xs.length s
  have hgood := good_of_grows_link hup hgrow
  have haddr : (linkEntry xs.length x.flags x.info.body x.sa).addr = none := (linkEntry_eq xs.length x).2.2.2.2
  refine ⟨s', hrun, ?_, ?_, ?_, ?_, ?_, ?_⟩
  · rw [hifi, hlist, hgrow.getLast?_append]
  · rw [hlist]
    intro en hen
    rcases List.mem_append.mp hen with hen | hen
    · exact (h.good en hen).append
    · exact (hgood en hen).1
  · rw [hlist]
    intro i y hy hyup
    rcases getElem?_append_cases hy with hy | ⟨rfl, -⟩
    · obtain ⟨en, hen, ho⟩ := h.everyUp i y hy hyup
      exact ⟨en, List.mem_append_left _ hen, ho⟩
    · obtain ⟨first, rest, rfl⟩ := List.exists_cons_of_ne_nil hgrow.ne_nil
      exact ⟨first, List.mem_append_right _ List.mem_cons_self, (hgood first List.mem_cons_self).2⟩
  · intro hd i y hy hyup j msg hmsg hifa
    subst hd
    rw [hlist, addrTags_append, hgrow.addrTags_eq, addrTags_of_none haddr, List.nil_append, List.count_append]
    rcases getElem?_append_cases hy with hy | ⟨rfl, rfl⟩
    · rw [h.once rfl i y hy hyup j msg hmsg hifa, count_old hy]
    · have hone := count_ifaTags (i := xs.length) (j := 0) hmsg hifa
      rw [Nat.zero_add] at hone
      rw [h.count_new, hone]
  · intro hnone
    rw [lastUp_append, if_pos hup] at hnone
    cases hnone
  · intro u hu
    rw [lastUp_append, if_pos hup] at hu
    obtain rfl := Option.some.inj hu
    refine ⟨_, hifi.trans (List.getLast?_eq_some_getLast hgrow.ne_nil), fun hd => ?_⟩
    subst hd
    obtain ⟨en, rfl, hiff⟩ := hgrow.single
    rw [haddr] at hiff
    exact hiff.trans ⟨fun hor => hor.resolve_left Bool.false_ne_true, .inr⟩

theorem Inv.exists_lastUp (h : Inv doaliases xs s) {en : Entry} (hifi : s.ifi = some en) :
    ∃ u, lastUp xs = some u ∧ (doaliases = false → (en.addr.isSome ↔ ∃ msg ∈ u.addrs, HasIfa msg)) := by
  cases hu : lastUp xs with
  | none =>
    have hnone := h.noUp hu
    rw [hifi] at hnone
    cases hnone
  | some u =>
    obtain ⟨en', hen', hiff⟩ := h.lastAddr u hu
    obtain rfl := Option.some.inj (hifi.symm.trans hen')
    exact ⟨u, rfl, hiff⟩

theorem Harmless.keep (hx : Harmless doaliases xs x) (hup : x.up = false) {u : Iface w} (hu : lastUp xs = some u)
    {en : Entry} (haddr : doaliases = false → (en.addr.isSome ↔ ∃ msg ∈ u.addrs, HasIfa msg)) :
    ∀ msg ∈ x.addrs, Contributes x.flags msg → doaliases = false ∧ en.addr.isSome := by
  intro msg hmsg hc
  obtain ⟨u', hu', hboth⟩ := hx hup (List.ne_nil_of_mem hmsg)
  obtain rfl := Option.some.inj (hu.symm.trans hu')
  obtain ⟨hd, hifa⟩ := hboth msg hmsg hc
  exact ⟨hd, (haddr hd).mpr hifa⟩

theorem getElem?_of_append_down (hup : x.up = false) {i : ℕ} {y : Iface w} (hy : (xs ++ [x])[i]? = some y)
    (hyup : y.up) : xs[i]? = some y := by
  rcases getElem?_append_cases hy with hy | ⟨-, rfl⟩
  · exact hy
  · exact absurd (hup.symm.trans hyup) Bool.false_ne_true

theorem Inv.down_none (h : Inv doaliases xs s) (hup : x.up = false) (hx : Harmless doaliases xs x)
    (hifi : s.ifi = none) : ∃ s', iface w doaliases xs.length x s = some s' ∧ Inv doaliases (xs ++ [x]) s' := by
  have hlastUp : lastUp (xs ++ [x]) = lastUp xs := by
    rw [lastUp_append, hup]
    rfl
  have hnil : x.addrs = [] := by
    by_contra hne
    obtain ⟨u, hu, -⟩ := hx hup hne
    obtain ⟨en, hen, -⟩ := h.lastAddr u hu
    rw [hifi] at hen
    cases hen
  refine ⟨{ s with flags := x.flags }, (iface_down_none hup hifi _).trans (if_pos hnil), h.last,
    fun en hen => (h.good en hen).append, ?_, ?_, ?_, ?_⟩
  · exact fun i y hy hyup => h.everyUp i y (getElem?_of_append_down hup hy hyup) hyup
  · exact fun hd i y hy hyup => h.once hd i y (getElem?_of_append_down hup hy hyup) hyup
  · rw [hlastUp]
    exact h.noUp
  · rw [hlastUp]
    exact h.lastAddr

theorem Inv.down_some (h : Inv doaliases xs s) (hup : x.up = false) (hx : Harmless doaliases xs x) {en : Entry}
    (hifi : s.ifi = some en) : ∃ s', iface w doaliases xs.length x s = some s' ∧ Inv doaliases (xs ++ [x]) s' := by
  have hlastUp : lastUp (xs ++ [x]) = lastUp xs := by
    rw [lastUp_append, hup]
    rfl
  obtain ⟨list, s', hgrow, hrun, hlist, hlast⟩ := exists_iface_down doaliases hup hifi xs.length
  obtain ⟨u, hu, haddr⟩ := h.exists_lastUp hifi
  have hkeep := hx.keep hup hu haddr
  have hsplit : s.list = s.before ++ [en] := by
    rw [State.list, hifi]
    rfl
  have hen : en ∈ s.list := hsplit ▸ List.mem_append_right _ List.mem_cons_self
  refine ⟨s', hrun, ?_, ?_, ?_, ?_, ?_, ?_⟩
  · rw [hlast, hlist, hgrow.getLast?_append]
  · rw [hlist]
    intro en' hen'
    rcases List.mem_append.mp hen' with hen' | hen'
    · exact (h.good en' (hsplit ▸ List.mem_append_left _ hen')).append
    · rcases hgrow.kept hkeep en' hen' with rfl | rfl
      · exact (h.good en' hen).append
      · exact (h.good en hen).another.append
  · rw [hlist]
    intro i y hy hyup
    obtain ⟨en', hen', ho⟩ := h.everyUp i y (getElem?_of_append_down hup hy hyup) hyup
    rw [hsplit] at hen'
    rcases List.mem_append.mp hen' with hen' | hen'
    · exact ⟨en', List.mem_append_left _ hen', ho⟩
    · obtain rfl := List.mem_singleton.mp hen'
      obtain ⟨first, rest, rfl⟩ := List.exists_cons_of_ne_nil hgrow.ne_nil
      have hid := (Prod.ext_iff.mp (hgrow.id_eq first List.mem_cons_self)).1
      exact ⟨first, List.mem_append_right _ List.mem_cons_self, hid.trans ho⟩
  · intro hd i y hy hyup j msg hmsg hifa
    subst hd
    have hy := getElem?_of_append_down hup hy hyup
    have htags : addrTags s'.list = addrTags s.list ++ ifaTags xs.length 0 x.addrs := by
      rw [hlist, hsplit, addrTags_append, addrTags_append, hgrow.addrTags_eq, List.append_assoc]
    rw [htags, List.count_append, h.once rfl i y hy hyup j msg hmsg hifa, count_old hy]
  · rw [hlastUp, hu]
    intro hnone
    cases hnone
  · rw [hlastUp, hu]
    intro u' hu'
    obtain rfl := Option.some.inj hu'
    refine ⟨_, hlast.trans (List.getLast?_eq_some_getLast hgrow.ne_nil), fun hd => ?_⟩
    subst hd
    obtain ⟨en', rfl, hiff⟩ := hgrow.single
    refine hiff.trans (Iff.trans ?_ (haddr rfl))
    refine ⟨fun hor => hor.elim id ?_, .inl⟩
    rintro ⟨msg, hmsg, hifa⟩
    exact (hkeep msg hmsg (.inl hifa)).2

/-- An address in the list of an interface that is down. -/
def Misplaced (xs : List (Iface w)) (list : List Entry) : Prop :=
  ∃ en ∈ list, ∃ o ∈ en.origins, ∃ y, xs[o.iface]? = some y ∧ y.up = false

theorem Misplaced.iface (h : Misplaced xs s.list) (hrun : iface w doaliases xs.length x s = some s') :
    Misplaced (xs ++ [x]) s'.list := by
  obtain ⟨en, hen, o, ho, y, hy, hdown⟩ := h
  have hD : ∃ y, (xs ++ [x])[o.iface]? = some y ∧ y.up = false := ⟨y, getElem?_append_of_some hy, hdown⟩
  cases hup : x.up with
  | true =>
    obtain ⟨list, s₁, -, hrun₁, hlist, -⟩ := exists_iface_up doaliases hup xs.length s
    obtain rfl := Option.some.inj (hrun.symm.trans hrun₁)
    exact ⟨en, hlist ▸ List.mem_append_left _ hen, o, ho, hD⟩
  | false =>
    cases hifi : s.ifi with
    | none =>
      rw [iface_down_none hup hifi] at hrun
      split_ifs at hrun
      obtain rfl := Option.some.inj hrun
      exact ⟨en, hen, o, ho, hD⟩
    | some last =>
      obtain ⟨list, s₁, hgrow, hrun₁, hlist, -⟩ := exists_iface_down doaliases hup hifi xs.length
      obtain rfl := Option.some.inj (hrun.symm.trans hrun₁)
      rw [State.list, hifi] at hen
      rcases List.mem_append.mp hen with hen | hen
      · exact ⟨en, hlist ▸ List.mem_append_left _ hen, o, ho, hD⟩
      · obtain rfl := List.mem_singleton.mp hen
        obtain ⟨en', hen', ho'⟩ := hgrow.exists_origin
          (D := fun i => ∃ y, (xs ++ [x])[i]? = some y ∧ y.up = false) ⟨x, List.getElem?_concat_length, hup⟩
          ⟨o, ho, hD⟩
        exact ⟨en', hlist ▸ List.mem_append_right _ hen', ho'⟩

/-- An interface that does harm leaves such an address, if there is an entry at all. -/
theorem Inv.harm (h : Inv doaliases xs s) (hx : ¬Harmless doaliases xs x)
    (hrun : iface w doaliases xs.length x s = some s') : Misplaced (xs ++ [x]) s'.list := by
  obtain ⟨hup, hne, hharm⟩ : x.up = false ∧ x.addrs ≠ [] ∧ ¬∃ u, lastUp xs = some u ∧
      ∀ msg ∈ x.addrs, Contributes x.flags msg → doaliases = false ∧ ∃ m ∈ u.addrs, HasIfa m := by
    rw [Harmless, Classical.not_imp, Classical.not_imp] at hx
    exact hx
  cases hifi : s.ifi with
  | none =>
    rw [iface_down_none hup hifi, if_neg hne] at hrun
    cases hrun
  | some en =>
    obtain ⟨u, hu, haddr⟩ := h.exists_lastUp hifi
    obtain ⟨list, s₁, hgrow, hrun₁, hlist, -⟩ := exists_iface_down doaliases hup hifi xs.length
    obtain rfl := Option.some.inj (hrun.symm.trans hrun₁)
    obtain ⟨msg, hmsg, hc, hopen⟩ : ∃ msg ∈ x.addrs, Contributes x.flags msg ∧
        ¬(doaliases = false ∧ en.addr.isSome) := by
      by_contra hnone
      push Not at hnone
      refine hharm ⟨u, hu, fun msg hmsg hc => ?_⟩
      obtain ⟨hd, hsome⟩ := hnone msg hmsg hc
      exact ⟨hd, (haddr hd).mp hsome⟩
    obtain ⟨en', hen', ho'⟩ := hgrow.harm
      (D := fun i => ∃ y, (xs ++ [x])[i]? = some y ∧ y.up = false) ⟨x, List.getElem?_concat_length, hup⟩
      hmsg hc hopen
    exact ⟨en', hlist ▸ List.mem_append_right _ hen', ho'⟩

/-- As long as no interface does harm, the run goes on and all is well. -/
theorem exists_ifaces (xs : List (Iface w)) (h : AllHarmless doaliases xs) :
    ∃ s, ifaces w doaliases 0 xs ⟨[], none, 0⟩ = some s ∧ Inv doaliases xs s := by
  induction xs using List.reverseRecOn with
  | nil =>
    refine ⟨_, rfl, rfl, ?_, ?_, ?_, fun _ => rfl, ?_⟩
    · exact fun _ hen => nomatch hen
    · exact fun _ _ hx => nomatch hx
    · exact fun _ _ _ hx => nomatch hx
    · exact fun _ hu => nomatch hu
  | append_singleton xs x ih =>
    obtain ⟨hxs, hx⟩ := allHarmless_append.mp h
    obtain ⟨s, hs, hinv⟩ := ih hxs
    rw [ifaces_append, hs, Nat.zero_add, Option.bind_some]
    cases hup : x.up with
    | true => exact hinv.up hup
    | false =>
      cases hifi : s.ifi with
      | none => exact hinv.down_none hup hx hifi
      | some en => exact hinv.down_some hup hx hifi

/-- The first one that does harm leaves an address, and it stays in the list to the end. -/
theorem misplaced_of_ifaces (xs : List (Iface w)) {s : State}
    (hrun : ifaces w doaliases 0 xs ⟨[], none, 0⟩ = some s) (h : ¬AllHarmless doaliases xs) :
    Misplaced xs s.list := by
  induction xs using List.reverseRecOn generalizing s with
  | nil =>
    refine absurd (fun pre x post hnil => ?_) h
    exact absurd hnil.symm (List.append_ne_nil_of_right_ne_nil _ (List.cons_ne_nil _ _))
  | append_singleton xs x ih =>
    rw [ifaces_append, Nat.zero_add] at hrun
    obtain ⟨s₁, hs₁, hx⟩ := Option.bind_eq_some_iff.mp hrun
    by_cases hxs : AllHarmless doaliases xs
    · obtain ⟨s₂, hs₂, hinv⟩ := exists_ifaces xs hxs
      obtain rfl := Option.some.inj (hs₁.symm.trans hs₂)
      exact hinv.harm (fun hharmless => h (allHarmless_append.mpr ⟨hxs, hharmless⟩)) hx
    · exact (ih hs₁ hxs).iface hx

theorem Inv.attributed (h : Inv doaliases xs s) (hnamed : ∀ x ∈ xs, x.up → x.Named) :
    Attributed doaliases xs s.list := by
  have hfor : ∀ en ∈ s.list, ∃ x, xs[en.owner]? = some x ∧ x.up ∧ en.For x := by
    intro en hen
    obtain ⟨x, hx, hup, hindex, hname⟩ := (h.good en hen).owner
    obtain ⟨hi, hn⟩ := (named_iff x).mpr (hnamed x (List.mem_of_getElem? hx) hup)
    exact ⟨x, hx, hup, hindex.trans hi, hname.trans hn⟩
  refine ⟨fun en hen => (h.good en hen).all.mono fun _ _ ho => ho.1, ?_, ?_, ?_, h.once⟩
  · intro en hen o ho
    obtain ⟨x, hx, -, hen'⟩ := hfor en hen
    exact ⟨x, (h.good en hen).iface_eq ho ▸ hx, hen'⟩
  · intro en hen o ho
    obtain ⟨x, hx, hup, -⟩ := hfor en hen
    exact ⟨x, (h.good en hen).iface_eq ho ▸ hx, hup⟩
  · intro i x hx hup
    obtain ⟨en, hen, rfl⟩ := h.everyUp i x hx hup
    obtain ⟨y, hy, -, hfor⟩ := hfor en hen
    obtain rfl := Option.some.inj (hx.symm.trans hy)
    exact ⟨en, hen, rfl, hfor⟩

theorem Inv.named (h : Inv doaliases xs s) (hattr : Attributed doaliases xs s.list) :
    ∀ x ∈ xs, x.up → x.Named := by
  intro x hx hup
  obtain ⟨i, hi⟩ := List.mem_iff_getElem?.mp hx
  obtain ⟨en, hen, rfl, hfor⟩ := hattr.everyUp i x hi hup
  obtain ⟨y, hy, -, hindex, hname⟩ := (h.good en hen).owner
  obtain rfl := Option.some.inj (hi.symm.trans hy)
  exact (named_iff x).mp ⟨hindex.symm.trans hfor.index, hname.symm.trans hfor.name⟩

/-- **Whose address it is**: each address of the list is in an entry with the index and the name of the interface
that it belongs to, none of them is of an interface that is down, every interface that is up has an entry, and with
`doaliases` each of its addresses is there once, exactly when the interfaces that are up have names and indices that
fit, and no interface that is down does harm. -/
theorem getIfiInfo_attributed_iff (doaliases : Bool) (xs : List (Iface w)) :
    (∃ list, getIfiInfo w doaliases xs = some list ∧ Attributed doaliases xs list) ↔
      (∀ x ∈ xs, x.up → x.Named) ∧ AllHarmless doaliases xs := by
  constructor
  · rintro ⟨list, hlist, hattr⟩
    obtain ⟨s, hs, rfl⟩ := Option.map_eq_some_iff.mp hlist
    have hharmless : AllHarmless doaliases xs := by
      by_contra hharm
      obtain ⟨en, hen, o, ho, y, hy, hdown⟩ := misplaced_of_ifaces xs hs hharm
      obtain ⟨x, hx, hup⟩ := hattr.onlyUp en hen o ho
      obtain rfl := Option.some.inj (hx.symm.trans hy)
      exact Bool.false_ne_true (hdown.symm.trans hup)
    obtain ⟨s₁, hs₁, hinv⟩ := exists_ifaces xs hharmless
    obtain rfl := Option.some.inj (hs.symm.trans hs₁)
    exact ⟨hinv.named hattr, hharmless⟩
  · rintro ⟨hnamed, hharmless⟩
    obtain ⟨s, hs, hinv⟩ := exists_ifaces xs hharmless
    refine ⟨s.list, ?_, hinv.attributed hnamed⟩
    rw [getIfiInfo, hs]
    rfl

end Runs

/-! ### An address of `eth1` with `eth0` -/

/-- The link address of `eth0` or `eth1`; the indices are 1 and 2. -/
def ethLink (n : Fin 2) : PaddedSa 8 where
  bytes := [20, 18, .ofNat (n + 1), 0, 6, 4, 0, 0, 101, 116, 104, .ofNat (48 + n), 0, 0, 0, 0, 0, 0, 0, 0, 0, 0, 0, 0]
  length_bytes := by decide +revert
  saLen_le := by decide +revert
  ne_nil := List.cons_ne_nil _ _

/-- The address `10.0.0.1`. -/
def tenAddress : PaddedSa 8 where
  bytes := [16, 2, 0, 0, 10, 0, 0, 1, 0, 0, 0, 0, 0, 0, 0, 0]
  length_bytes := by decide
  saLen_le := by decide
  ne_nil := List.cons_ne_nil _ _

/-- An `RTM_IFINFO` message. -/
def ethInfo (n : Fin 2) : RtMsg 8 where
  addrs := 16
  body := fun k => (ethLink n).bytes.getD k 0
  sas := fun k => if k = RTAX_IFP then some (ethLink n) else none
  mask := by decide +revert
  body_eq := by decide +kernel +revert

/-- An `RTM_NEWADDR` message. -/
def tenNewaddr : RtMsg 8 where
  addrs := 32
  body := fun k => tenAddress.bytes.getD k 0
  sas := fun k => if k = RTAX_IFA then some tenAddress else none
  mask := by decide
  body_eq := by decide +kernel

/-- `eth0` is up and has no address. -/
def eth0Up : Iface 8 where
  flags := IFF_UP
  info := ethInfo 0
  link := ethLink 0
  addrs := []
  info_ifp := rfl
  family := by decide +kernel

/-- `eth1` is down and has one. -/
def eth1Down : Iface 8 where
  flags := 0
  info := ethInfo 1
  link := ethLink 1
  addrs := [tenNewaddr]
  info_ifp := rfl
  family := by decide +kernel

/-- The address of `eth1` is in the entry of `eth0`. -/
theorem getIfiInfo_misplaces :
    (∃ en, getIfiInfo 8 false [eth0Up, eth1Down] = some [en] ∧ en.name = cstr "eth0" ∧ en.index = 1 ∧
      en.addr = some ⟨1, 0, tenAddress.value⟩) ∧
      ¬∃ list, getIfiInfo 8 false [eth0Up, eth1Down] = some list ∧ Attributed false [eth0Up, eth1Down] list := by
  have hlist : ∃ en, getIfiInfo 8 false [eth0Up, eth1Down] = some [en] ∧ en.name = cstr "eth0" ∧ en.index = 1 ∧
      en.addr = some ⟨1, 0, tenAddress.value⟩ := by
    have hrun : (getIfiInfo 8 false [eth0Up, eth1Down]).map
        (fun list => list.map fun en => (en.name, en.index, en.addr)) =
          some [(cstr "eth0", 1, some ⟨1, 0, tenAddress.value⟩)] := by
      decide +kernel
    obtain ⟨list, hsome, hmap⟩ := Option.map_eq_some_iff.mp hrun
    obtain ⟨en, rfl, hen⟩ := List.map_eq_singleton_iff.mp hmap
    obtain ⟨hname, hrest⟩ := Prod.ext_iff.mp hen
    exact ⟨en, hsome, hname, Prod.ext_iff.mp hrest⟩
  refine ⟨hlist, ?_⟩
  rintro ⟨list, hsome, hattr⟩
  obtain ⟨en, hen, -, -, haddr⟩ := hlist
  obtain rfl := Option.some.inj (hsome.symm.trans hen)
  have horigin : (⟨1, 0, tenAddress.value⟩ : Origin) ∈ en.origins :=
    List.mem_append_left _ (List.mem_append_left _ (Option.mem_toList.mpr haddr))
  obtain ⟨x, hx, hup⟩ := hattr.onlyUp en List.mem_cons_self _ horigin
  obtain rfl : eth1Down = x := Option.some.inj hx
  have hdown : eth1Down.up = false := by decide
  exact Bool.false_ne_true (hdown.symm.trans hup)

end UnixNetProg.Route
