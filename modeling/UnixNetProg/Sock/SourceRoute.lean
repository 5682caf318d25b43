import UnixNetProg.Lib.Memory
import UnixNetProg.Unp

/-!
# Source routes (`sock/sourceroute.c`)

Each `-g` or `-G` option adds the address of a hop to `sroute_opt`, and `sroute_set` adds that of the
destination and gives the whole to `setsockopt`. The addresses are objects of four bytes, the copies are of
`sizeof(u_long)` bytes. An address object is the memory from its first byte on, and what is read behind the
fourth is whatever stands there.
-/

namespace UnixNetProg.Sock

open Lib

/-- The size of `sroute_opt`. -/
def sizeofSrouteOpt : ℕ := 44

inductive DataModel where
  | ilp32
  | lp64
  deriving DecidableEq, Repr

def DataModel.sizeofULong : DataModel → ℕ
  | .ilp32 => 4
  | .lp64 => 8

/-- What `inet_aton` and `gethostbyname` find for an argument: the object that the address is copied from. -/
inductive Lookup where
  | dotted (inaddr : Memory Byte)
  | hostname (hAddr : Memory Byte)
  | unknown

def Lookup.object? : Lookup → Option (Memory Byte)
  | .dotted inaddr => some inaddr
  | .hostname hAddr => some hAddr
  | .unknown => none

structure Hop where
  strict : Bool
  found : Lookup

/-- `len` bytes of `sroute_opt` from `offset` on, read or written. -/
structure Access where
  offset : ℕ
  len : ℕ
  deriving DecidableEq, Repr

/-- The globals, with the accesses so far and the sizes of the copies. -/
structure Sroute where
  opt : Memory Byte
  optr : ℕ
  cnt : ℕ
  accesses : List Access
  copied : List ℕ

inductive SrouteError where
  | tooMany
  | unknownHost
  deriving DecidableEq, Repr

def Sroute.put (s : Sroute) (i : ℕ) (bytes : List Byte) : Sroute :=
  { s with opt := s.opt.store i bytes, accesses := s.accesses ++ [⟨i, bytes.length⟩] }

/-- `memcpy(optr, object, sizeof(u_long))`, and `optr` behind it. -/
def Sroute.memcpy (dm : DataModel) (s : Sroute) (object : Memory Byte) : Sroute :=
  let s' := s.put s.optr (object.slice 0 dm.sizeofULong)
  { s' with optr := s.optr + dm.sizeofULong, copied := s.copied ++ [dm.sizeofULong] }

/-- What is done for the first option. -/
def Sroute.first (s : Sroute) (strict : Bool) : Sroute :=
  let s := s.put 0 (List.replicate sizeofSrouteOpt 0)
  let s := s.put 0 [if strict then IPOPT_SSRR else IPOPT_LSRR]
  let s := s.put 2 [4]
  { s with optr := 3 }

def srouteDoopt (dm : DataModel) (s : Sroute) (hop : Hop) : Except SrouteError Sroute :=
  if 9 ≤ s.cnt then .error .tooMany
  else
    let s := if s.cnt = 0 then s.first hop.strict else s
    match hop.found with
    | .dotted inaddr => .ok { s.memcpy dm inaddr with cnt := s.cnt + 1 }
    | .hostname hAddr => .ok { s.memcpy dm hAddr with cnt := s.cnt + 1 }
    | .unknown => .error .unknownHost

/-- The options of a command line. -/
def srouteDoopts (dm : DataModel) : Sroute → List Hop → Except SrouteError Sroute
  | s, [] => .ok s
  | s, hop :: hops =>
    match srouteDoopt dm s hop with
    | .error e => .error e
    | .ok s' => srouteDoopts dm s' hops

/-- `while ((optr - sroute_opt) & 3) optr++`. -/
def pad (optr : ℕ) : ℕ := if optr % 4 = 0 then optr else pad (optr + 1)
termination_by (4 - optr % 4) % 4

/-- The bytes that `setsockopt` is given, with all accesses and copies until then. -/
structure SetOption where
  passed : List Byte
  accesses : List Access
  copied : List ℕ
  deriving DecidableEq, Repr

def srouteSet (dm : DataModel) (s : Sroute) (sinAddr : Memory Byte) : SetOption :=
  let s := { s with cnt := s.cnt + 1 }
  let s := s.put 1 [UInt8.ofNat (3 + s.cnt * 4)]
  let s := s.memcpy dm sinAddr
  let optr := pad s.optr
  ⟨s.opt.slice 0 optr, s.accesses ++ [⟨0, optr⟩], s.copied⟩

/-- The globals before the first option: nothing is known but the count. -/
def srouteStart (opt : Memory Byte) (optr : ℕ) : Sroute := ⟨opt, optr, 0, [], []⟩

/-! ### The option that is meant -/

/-- Four bytes of each object, with the type, the length and the pointer before them. -/
def routeOption (strict : Bool) (objects : List (Memory Byte)) : List Byte :=
  [if strict then IPOPT_SSRR else IPOPT_LSRR, UInt8.ofNat (3 + 4 * objects.length), 4] ++
    objects.flatMap (·.slice 0 4)

/-- The bytes, and how they got there. -/
structure RouteRight (strict : Bool) (objects : List (Memory Byte)) (c : SetOption) : Prop where
  passed : ∃ zeros < 4, c.passed = routeOption strict objects ++ List.replicate zeros 0
  aligned : 4 ∣ c.passed.length
  inside : ∀ a ∈ c.accesses, a.offset + a.len ≤ sizeofSrouteOpt
  copied : ∀ n ∈ c.copied, n ≤ 4

/-! ### What the options leave behind -/

theorem pad_eq (optr : ℕ) : pad optr = (optr + 3) / 4 * 4 := by
  fun_induction pad optr with
  | case1 optr h => omega
  | case2 optr h ih =>
    rw [ih]
    omega

/-- The cleared `sroute_opt`, with what stands behind it. -/
def cleared (opt : Memory Byte) : Memory Byte := opt.store 0 (List.replicate sizeofSrouteOpt 0)

theorem slice_cleared (opt : Memory Byte) {i j : ℕ} (hj : j ≤ sizeofSrouteOpt) :
    (cleared opt).slice i j = List.replicate (j - i) 0 := by
  rw [List.eq_replicate_iff]
  refine ⟨Memory.length_slice _ _ _, fun b hb => ?_⟩
  obtain ⟨k, hk, rfl⟩ := List.mem_map.mp hb
  have hlt : k < (List.replicate sizeofSrouteOpt (0 : Byte)).length := by
    have := List.mem_range'_1.mp hk
    rw [List.length_replicate]
    omega
  rw [cleared, Memory.store_zero_of_lt _ 0 hlt, List.getD_replicate 0 (by simpa using hlt)]

/-- The type, the place of the length, and the pointer. -/
def routeHeader (strict : Bool) (len : Byte) : List Byte := [if strict then IPOPT_SSRR else IPOPT_LSRR, len, 4]

section Options

variable (dm : DataModel) (opt : Memory Byte) (strict : Bool)

/-- The bytes of an object that are copied. -/
def copyOf (object : Memory Byte) : List Byte := object.slice 0 dm.sizeofULong

theorem length_flatMap_copyOf (objects : List (Memory Byte)) :
    (objects.flatMap (copyOf dm)).length = dm.sizeofULong * objects.length := by
  induction objects with
  | nil => rfl
  | cons object objects ih =>
    rw [List.flatMap_cons, List.length_append, ih, copyOf, Memory.length_slice, List.length_cons, Nat.mul_succ]
    omega

/-- The globals after the options for these objects, with `len` in the place of the length. -/
structure Filled (len : Byte) (objects : List (Memory Byte)) (s : Sroute) : Prop where
  opt : s.opt = (cleared opt).store 0 (routeHeader strict len ++ objects.flatMap (copyOf dm))
  optr : s.optr = 3 + dm.sizeofULong * objects.length
  cnt : s.cnt = objects.length
  accesses : ∀ a ∈ s.accesses, a.offset + a.len ≤ max sizeofSrouteOpt s.optr
  copied : s.copied = List.replicate objects.length dm.sizeofULong

theorem filled_first (optr : ℕ) : Filled dm opt strict 0 [] ((srouteStart opt optr).first strict) := by
  refine ⟨?_, rfl, rfl, ?_, rfl⟩
  · have hzero : ∀ t : Byte, (cleared opt).store 0 [t] = ((cleared opt).store 0 [t]).store 1 [0] := fun t => by
      have hpos : 0 < (List.replicate sizeofSrouteOpt (0 : Byte)).length := Nat.succ_pos _
      have hset : (cleared opt).store 0 [t] = opt.store 0 ((List.replicate sizeofSrouteOpt 0).set 0 t) :=
        Memory.store_set opt 0 hpos t
      have hlt : 1 < ((List.replicate sizeofSrouteOpt 0).set 0 t).length := Nat.one_lt_succ_succ _
      rw [hset]
      exact (Memory.store_set opt 0 hlt 0).symm
    have htwo := fun t => Memory.store_append (cleared opt) 0 [t] [0]
    have hthree := fun t => Memory.store_append (cleared opt) 0 [t, 0] [4]
    show ((cleared opt).store 0 [_]).store 2 [4] = _
    rw [hzero]
    exact (congrArg (·.store 2 [4]) (htwo _)).trans (hthree _)
  · intro a ha
    have hmem : a = ⟨0, 44⟩ ∨ a = ⟨0, 1⟩ ∨ a = ⟨2, 1⟩ := by
      simpa [Sroute.first, Sroute.put, srouteStart, sizeofSrouteOpt] using ha
    have hlen : a.offset + a.len ≤ sizeofSrouteOpt := by
      rcases hmem with rfl | rfl | rfl <;> decide
    exact Nat.le_trans hlen (Nat.le_max_left _ _)

variable {dm opt strict} {len : Byte}

theorem Filled.memcpy {objects : List (Memory Byte)} {s : Sroute} (h : Filled dm opt strict len objects s)
    (object : Memory Byte) :
    Filled dm opt strict len (objects ++ [object]) { s.memcpy dm object with cnt := s.cnt + 1 } := by
  have hlen : (routeHeader strict len ++ objects.flatMap (copyOf dm)).length = 0 + s.optr := by
    rw [List.length_append, length_flatMap_copyOf, h.optr, Nat.zero_add]
    rfl
  have hcopy : (copyOf dm object).length = dm.sizeofULong := Memory.length_slice _ _ _
  constructor
  · show s.opt.store s.optr (copyOf dm object) = _
    have happend := Memory.store_append (cleared opt) 0 (routeHeader strict len ++ objects.flatMap (copyOf dm))
      (copyOf dm object)
    rw [Nat.zero_add, hlen, Nat.zero_add] at happend
    rw [h.opt, happend, List.flatMap_append, List.flatMap_singleton, List.append_assoc]
  · show s.optr + dm.sizeofULong = _
    rw [h.optr, List.length_append, List.length_singleton, Nat.mul_succ, Nat.add_assoc]
  · show s.cnt + 1 = _
    rw [h.cnt, List.length_append, List.length_singleton]
  · show ∀ a ∈ s.accesses ++ [⟨s.optr, (copyOf dm object).length⟩], _ ≤ max _ (s.optr + dm.sizeofULong)
    intro a ha
    rcases List.mem_append.mp ha with ha | ha
    · have := h.accesses a ha
      omega
    · rw [List.mem_singleton.mp ha, hcopy]
      exact Nat.le_max_right _ _
  · show s.copied ++ [dm.sizeofULong] = _
    rw [h.copied, List.length_append, List.length_singleton, List.replicate_succ']

theorem srouteDoopt_filled {objects : List (Memory Byte)} {s : Sroute} {hop : Hop} {object : Memory Byte}
    (hcnt : s.cnt < 9) (hfound : hop.found.object? = some object)
    (h : Filled dm opt strict 0 objects (if s.cnt = 0 then s.first hop.strict else s)) :
    ∃ s', srouteDoopt dm s hop = .ok s' ∧ Filled dm opt strict 0 (objects ++ [object]) s' := by
  refine ⟨_, ?_, h.memcpy object⟩
  rw [srouteDoopt, if_neg (Nat.not_le.mpr hcnt)]
  cases hhop : hop.found with
  | dotted inaddr =>
    rw [hhop] at hfound
    obtain rfl := Option.some.inj hfound
    rfl
  | hostname hAddr =>
    rw [hhop] at hfound
    obtain rfl := Option.some.inj hfound
    rfl
  | unknown =>
    rw [hhop] at hfound
    cases hfound

theorem srouteDoopts_filled {hops : List Hop} {objects more : List (Memory Byte)} {s : Sroute}
    (hne : objects ≠ []) (h : Filled dm opt strict 0 objects s) (hfound : hops.map (·.found.object?) = more.map some)
    (hlen : objects.length + more.length ≤ 9) :
    ∃ s', srouteDoopts dm s hops = .ok s' ∧ Filled dm opt strict 0 (objects ++ more) s' := by
  induction hops generalizing objects more s with
  | nil =>
    have hmore : more = [] := List.map_eq_nil_iff.mp hfound.symm
    rw [hmore, List.append_nil]
    exact ⟨s, rfl, h⟩
  | cons hop hops ih =>
    cases more with
    | nil => cases hfound
    | cons object more =>
      obtain ⟨hobject, hrest⟩ := List.cons.inj hfound
      have hpos : s.cnt ≠ 0 := by
        rw [h.cnt]
        exact fun h0 => hne (List.length_eq_zero_iff.mp h0)
      rw [List.length_cons] at hlen
      obtain ⟨s', hok, hs'⟩ := srouteDoopt_filled (by rw [h.cnt]; omega) hobject
        (by rw [if_neg hpos]; exact h)
      rw [srouteDoopts, hok, List.append_cons]
      exact ih (List.append_ne_nil_of_right_ne_nil _ (List.cons_ne_nil _ _)) hs' hrest
        (by rw [List.length_append, List.length_singleton]; omega)

theorem Filled.setLength {objects : List (Memory Byte)} {s : Sroute}
    (h : Filled dm opt strict 0 objects s) (len : Byte) :
    Filled dm opt strict len objects (s.put 1 [len]) := by
  refine ⟨?_, h.optr, h.cnt, ?_, h.copied⟩
  · have hlt : 1 < (routeHeader strict 0 ++ objects.flatMap (copyOf dm)).length := Nat.one_lt_succ_succ _
    show s.opt.store 1 [len] = _
    rw [h.opt]
    exact Memory.store_set (cleared opt) 0 hlt len
  · show ∀ a ∈ s.accesses ++ [⟨1, 1⟩], _ ≤ max _ s.optr
    intro a ha
    rcases List.mem_append.mp ha with ha | ha
    · exact h.accesses a ha
    · rw [List.mem_singleton.mp ha]
      exact Nat.le_trans (by decide) (Nat.le_max_left _ _)

theorem srouteSet_filled {objects : List (Memory Byte)} {s : Sroute} (h : Filled dm opt strict 0 objects s)
    (sinAddr : Memory Byte) :
    ∃ s', Filled dm opt strict (UInt8.ofNat (3 + (objects.length + 1) * 4)) (objects ++ [sinAddr]) s' ∧
      srouteSet dm s sinAddr =
        ⟨s'.opt.slice 0 (pad s'.optr), s'.accesses ++ [⟨0, pad s'.optr⟩], s'.copied⟩ := by
  rw [← h.cnt]
  exact ⟨_, (h.setLength (UInt8.ofNat (3 + (s.cnt + 1) * 4))).memcpy sinAddr, rfl⟩

end Options

section Set

variable {opt : Memory Byte} {strict : Bool} {objects : List (Memory Byte)} {s : Sroute}

theorem routeRight_ilp32 (h : Filled .ilp32 opt strict 0 objects s) (hlen : objects.length ≤ 9)
    (sinAddr : Memory Byte) :
    RouteRight strict (objects ++ [sinAddr]) (srouteSet .ilp32 s sinAddr) := by
  obtain ⟨s', hs', hset⟩ := srouteSet_filled h sinAddr
  have hroute : routeHeader strict (UInt8.ofNat (3 + (objects.length + 1) * 4)) ++
      (objects ++ [sinAddr]).flatMap (copyOf .ilp32) = routeOption strict (objects ++ [sinAddr]) := by
    rw [routeOption, List.length_append, List.length_singleton, Nat.mul_comm]
    rfl
  have hopt := hs'.opt
  rw [hroute] at hopt
  have hoptr : s'.optr = 3 + 4 * (objects.length + 1) := by
    rw [hs'.optr, List.length_append]
    rfl
  have hpad : pad s'.optr = s'.optr + 1 := by
    rw [pad_eq, hoptr]
    omega
  have hsize : (routeOption strict (objects ++ [sinAddr])).length = s'.optr := by
    rw [← hroute, List.length_append, length_flatMap_copyOf, hs'.optr]
    rfl
  have hpassed : s'.opt.slice 0 (s'.optr + 1) = routeOption strict (objects ++ [sinAddr]) ++ List.replicate 1 0 := by
    have hself := Memory.slice_store_zero (cleared opt) (routeOption strict (objects ++ [sinAddr]))
    rw [hsize] at hself
    rw [← Memory.slice_append _ (Nat.zero_le _) (Nat.le_add_right s'.optr 1), hopt, hself,
      Memory.slice_store_of_le _ (by omega), slice_cleared opt (by rw [hoptr]; show _ ≤ 44; omega),
      Nat.add_sub_cancel_left]
  rw [hset, hpad]
  constructor
  · exact ⟨1, by decide, hpassed⟩
  · dsimp only
    rw [Memory.length_slice, hoptr]
    omega
  · intro a ha
    rcases List.mem_append.mp ha with ha | ha
    · have := hs'.accesses a ha
      have hsz : sizeofSrouteOpt = 44 := rfl
      omega
    · rw [List.mem_singleton.mp ha]
      show 0 + (s'.optr + 1) ≤ 44
      omega
  · intro n hn
    dsimp only at hn
    rw [hs'.copied] at hn
    exact Nat.le_of_eq (List.eq_of_mem_replicate hn)

/-- With 8-byte copies it never is: each copy takes four bytes that do not belong to the address. -/
theorem not_routeRight_lp64 (h : Filled .lp64 opt strict 0 objects s) (sinAddr : Memory Byte) :
    ¬ RouteRight strict (objects ++ [sinAddr]) (srouteSet .lp64 s sinAddr) := by
  intro hright
  obtain ⟨s', hs', hset⟩ := srouteSet_filled h sinAddr
  have hmem : 8 ∈ (srouteSet .lp64 s sinAddr).copied := by
    rw [hset]
    dsimp only
    rw [hs'.copied, List.length_append]
    exact List.mem_cons_self
  exact absurd (hright.copied 8 hmem) (by decide)

theorem outside_lp64 (h : Filled .lp64 opt strict 0 objects s) (hlen : 5 ≤ objects.length) (sinAddr : Memory Byte) :
    ∃ a ∈ (srouteSet .lp64 s sinAddr).accesses, sizeofSrouteOpt < a.offset + a.len := by
  obtain ⟨s', hs', hset⟩ := srouteSet_filled h sinAddr
  have hoptr : s'.optr = 3 + 8 * (objects.length + 1) := by
    rw [hs'.optr, List.length_append]
    rfl
  rw [hset]
  refine ⟨⟨0, pad s'.optr⟩, List.mem_append_right _ List.mem_cons_self, ?_⟩
  show 44 < 0 + pad s'.optr
  rw [pad_eq, hoptr]
  omega

end Set

/-- **Source routes.** One to nine hops, all of them found, are accepted on every machine; `setsockopt` gets the
option for them exactly where an `u_long` has the size of an address. -/
theorem sroute_right_iff (dm : DataModel) (opt : Memory Byte) (optr : ℕ) (hop : Hop) (hops : List Hop)
    (object : Memory Byte) (objects : List (Memory Byte)) (sinAddr : Memory Byte)
    (hfound : (hop :: hops).map (·.found.object?) = (object :: objects).map some)
    (hcount : (object :: objects).length ≤ 9) :
    ∃ s, srouteDoopts dm (srouteStart opt optr) (hop :: hops) = .ok s ∧
      (RouteRight hop.strict (object :: objects ++ [sinAddr]) (srouteSet dm s sinAddr) ↔ dm.sizeofULong = 4) := by
  obtain ⟨hobject, hrest⟩ := List.cons.inj hfound
  obtain ⟨s₁, hok₁, hs₁⟩ : ∃ s₁, srouteDoopt dm (srouteStart opt optr) hop = .ok s₁ ∧
      Filled dm opt hop.strict 0 ([] ++ [object]) s₁ :=
    srouteDoopt_filled (Nat.succ_pos 8) hobject (filled_first dm opt hop.strict optr)
  rw [List.length_cons] at hcount
  obtain ⟨s, hok, hs⟩ := srouteDoopts_filled (List.cons_ne_nil _ _) hs₁ hrest
    (by rw [List.length_singleton]; omega)
  refine ⟨s, by rw [srouteDoopts, hok₁]; exact hok, ?_⟩
  cases dm with
  | ilp32 => exact ⟨fun _ => rfl, fun _ => routeRight_ilp32 hs hcount sinAddr⟩
  | lp64 => exact ⟨fun hright => absurd hright (not_routeRight_lp64 hs sinAddr), nofun⟩

/-- One loose hop and a destination, with whatever stands behind the two addresses. -/
theorem sroute_right_iff_sample :
    [(⟨false, .dotted fun _ => 10⟩ : Hop)].map (·.found.object?) = [fun _ => (10 : Byte)].map some ∧
    ∃ s, srouteDoopts .ilp32 (srouteStart (fun _ => 7) 0) [⟨false, .dotted fun _ => 10⟩] = .ok s ∧
      (RouteRight false [fun _ => 10, fun _ => 20] (srouteSet .ilp32 s fun _ => 20) ↔ 4 = 4) :=
  ⟨rfl, sroute_right_iff .ilp32 (fun _ => 7) 0 ⟨false, .dotted fun _ => 10⟩ [] (fun _ => 10) [] (fun _ => 20) rfl
    (by decide)⟩

/-- On the x86_64 of `config.h`, the same call. -/
theorem sroute_wrong_lp64 :
    ∃ s, srouteDoopts .lp64 (srouteStart (fun _ => 7) 0) [⟨false, .dotted fun _ => 10⟩] = .ok s ∧
      (srouteSet .lp64 s fun _ => 20).passed =
        [131, 11, 4] ++ List.replicate 8 10 ++ List.replicate 8 20 ++ [0] ∧
      ¬ RouteRight false [fun _ => 10, fun _ => 20] (srouteSet .lp64 s fun _ => 20) := by
  refine ⟨_, rfl, ?_, ?_⟩
  · simp only [srouteSet, pad_eq, Sroute.memcpy, Sroute.put, Sroute.first]
    decide
  · intro hright
    exact absurd (hright.copied 8 List.mem_cons_self) (by decide)

end UnixNetProg.Sock
