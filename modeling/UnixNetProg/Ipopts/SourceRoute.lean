import UnixNetProg.Lib.Memory
import UnixNetProg.Libc

/-!
# Source routes as an IP option (`ipopts/sourceroute.c`)

`inet_srcrt_init` and `inet_srcrt_add` build the option behind static pointers, here offsets into the 44 bytes
that were allocated. `inet_srcrt_print` gets a first hop and an option of which it only knows where it starts: it
is given as the bytes that are there, and a read behind them is `none`.
-/

namespace UnixNetProg.Ipopts

open Lib

def IPOPT_NOP : Byte := 1

/-- `sizeof(struct in_addr)`. -/
def sizeofInAddr : ℕ := 4

structure InAddr where
  bytes : List Byte
  length_bytes : bytes.length = sizeofInAddr

/-! ### The option -/

/-- The static variables, the bytes at `optr - 4` of the start, and the offsets of all stores. -/
structure Srcrt where
  buf : Memory Byte
  optr : ℕ
  lenptr : ℕ
  ocnt : ℕ
  stores : List ℕ

def Srcrt.put (s : Srcrt) (i : ℕ) (bytes : List Byte) : Srcrt :=
  { s with buf := s.buf.store i bytes, stores := s.stores ++ List.range' i bytes.length }

/-- `inet_srcrt_init`; the bytes that `Malloc` gives can be any. -/
def inetSrcrtInit (type : ℤ) (mem : Memory Byte) : Srcrt :=
  let s : Srcrt := ⟨mem, 0, 0, 0, []⟩
  let s := s.put 0 (List.replicate 44 0)
  let s := { s.put s.optr [IPOPT_NOP] with optr := s.optr + 1 }
  let s := { s.put s.optr [if type ≠ 0 then IPOPT_SSRR else IPOPT_LSRR] with optr := s.optr + 1 }
  let s := { s with lenptr := s.optr, optr := s.optr + 1 }
  { s.put s.optr [4] with optr := s.optr + 1 }

inductive AddQuit where
  | tooMany
  | hostServ
  deriving DecidableEq, Repr

/-- `inet_srcrt_add` for a host with what `Host_serv` finds, and its result. -/
def inetSrcrtAdd (s : Srcrt) (host : Option InAddr) : Except AddQuit (Srcrt × ℕ) :=
  if 9 < s.ocnt then .error .tooMany
  else
    match host with
    | none => .error .hostServ
    | some sinAddr =>
      let s := s.put s.optr sinAddr.bytes
      let s := { s with optr := s.optr + sizeofInAddr, ocnt := s.ocnt + 1 }
      let len := 3 + s.ocnt * sizeofInAddr
      .ok (s.put s.lenptr [UInt8.ofNat len], len + 1)

/-- Calls one behind the other, with the result of the last. -/
def inetSrcrtAdds : Srcrt → ℕ → List (Option InAddr) → Except AddQuit (Srcrt × ℕ)
  | s, ret, [] => .ok (s, ret)
  | s, _, host :: hosts =>
    match inetSrcrtAdd s host with
    | .error e => .error e
    | .ok (s', ret) => inetSrcrtAdds s' ret hosts

/-! ### Printing it -/

/-- `inet_ntop` for `AF_INET`. -/
def inetNtop (a b c d : Byte) : CString := dottedQuad a b c d

def InAddr.ntop (a : InAddr) : CString :=
  inetNtop (a.bytes.getD 0 0) (a.bytes.getD 1 0) (a.bytes.getD 2 0) (a.bytes.getD 3 0)

/-- `len - sizeof(struct in_addr)`, as it is stored in an `int` again. -/
def lessAddr (len : ℤ) : ℤ := toInt32 (toSize (len - sizeofInAddr))

/-- `while ( (c = *ptr++) == IPOPT_NOP)`. -/
def skipNops : List Byte → Option (Byte × List Byte)
  | [] => none
  | c :: ptr => if c = IPOPT_NOP then skipNops ptr else some (c, ptr)

/-- `while (len > 0)`. -/
def printHops : ℤ → List Byte → Option CString
  | len, a :: b :: c :: d :: ptr =>
    if 0 < len then (printHops (lessAddr len) ptr).map fun text => inetNtop a b c d ++ cstr " " ++ text
    else some (cstr "\n")
  | len, _ => if 0 < len then none else some (cstr "\n")

/-- What follows the type of a route. -/
def printRoute (name hop1 : CString) : List Byte → Option CString
  | [] => none
  | len :: ptr => (printHops (lessAddr len.toNat) ptr.tail).map fun text => name ++ hop1 ++ cstr " " ++ text

def inetSrcrtPrint : List Byte → Option CString
  | a :: b :: c :: d :: ptr =>
    match skipNops ptr with
    | none => none
    | some (t, ptr) =>
      if t = IPOPT_LSRR then printRoute (cstr "received LSRR: ") (inetNtop a b c d) ptr
      else if t = IPOPT_SSRR then printRoute (cstr "received SSRR: ") (inetNtop a b c d) ptr
      else some (cstr "received option type " ++ decimal t.toNat ++ cstr "\n")
  | _ => none

/-! ### Building -/

section Build

variable {type : ℤ} {mem : Memory Byte} {addrs : List InAddr} {s : Srcrt}

def routeHeader (type : ℤ) (len : Byte) : List Byte :=
  [IPOPT_NOP, if type ≠ 0 then IPOPT_SSRR else IPOPT_LSRR, len, 4]

/-- The 44 bytes with these addresses. -/
def routeBytes (type : ℤ) (len : Byte) (addrs : List InAddr) : List Byte :=
  routeHeader type len ++ (addrs.flatMap InAddr.bytes ++ List.replicate (40 - 4 * addrs.length) 0)

/-- The length byte; before the first address it is the 0 of `bzero`. -/
def lenByte (k : ℕ) : Byte := if k = 0 then 0 else UInt8.ofNat (3 + k * sizeofInAddr)

theorem routeHeader_set (type : ℤ) (len len' : Byte) (rest : List Byte) :
    (routeHeader type len ++ rest).set 2 len' = routeHeader type len' ++ rest := rfl

theorem length_flatMap_bytes (addrs : List InAddr) : (addrs.flatMap InAddr.bytes).length = 4 * addrs.length := by
  induction addrs with
  | nil => rfl
  | cons a addrs ih =>
    rw [List.flatMap_cons, List.length_append, ih, a.length_bytes, List.length_cons, sizeofInAddr]
    omega

theorem length_routeBytes (type : ℤ) (len : Byte) (h : addrs.length ≤ 10) :
    (routeBytes type len addrs).length = 44 := by
  rw [routeBytes, List.length_append, List.length_append, length_flatMap_bytes, List.length_replicate]
  show 4 + (4 * addrs.length + (40 - 4 * addrs.length)) = 44
  omega

/-- The state with these addresses added. -/
structure Built (type : ℤ) (mem : Memory Byte) (addrs : List InAddr) (s : Srcrt) : Prop where
  buf : s.buf = mem.store 0 (routeBytes type (lenByte addrs.length) addrs)
  optr : s.optr = 4 + 4 * addrs.length
  lenptr : s.lenptr = 2
  ocnt : s.ocnt = addrs.length
  inside : ∀ i ∈ s.stores, i < 44

theorem Srcrt.put_inside {i : ℕ} {bytes : List Byte} (h : ∀ k ∈ s.stores, k < 44) (hlen : i + bytes.length ≤ 44) :
    ∀ k ∈ (s.put i bytes).stores, k < 44 := by
  intro k hk
  rcases List.mem_append.mp hk with hk | hk
  · exact h k hk
  · have hlt := (List.mem_range'_1.mp hk).2
    omega

theorem store_byte (mem : Memory Byte) {xs : List Byte} {j : ℕ} (b : Byte) (hj : j < xs.length) :
    (mem.store 0 xs).store j [b] = mem.store 0 (xs.set j b) := by
  have hset := mem.store_set 0 hj b
  rw [Nat.zero_add] at hset
  exact hset

theorem built_init (type : ℤ) (mem : Memory Byte) : Built type mem [] (inetSrcrtInit type mem) := by
  refine ⟨?_, rfl, rfl, rfl, ?_⟩
  · show (((mem.store 0 (List.replicate 44 0)).store 0 [IPOPT_NOP]).store 1
      [if type ≠ 0 then IPOPT_SSRR else IPOPT_LSRR]).store 3 [4] = _
    rw [store_byte mem _ (by decide), store_byte mem _ (by rw [List.length_set]; decide),
      store_byte mem _ (by rw [List.length_set, List.length_set]; decide)]
    rfl
  · intro i hi
    have hall : (inetSrcrtInit type mem).stores = List.range' 0 44 ++ [0] ++ [1] ++ [3] := rfl
    rw [hall] at hi
    have hlt : ∀ i ∈ List.range' 0 44 ++ [0] ++ [1] ++ [3], i < 44 := by decide
    exact hlt i hi

theorem routeBytes_add (type : ℤ) (mem : Memory Byte) (hlen : addrs.length ≤ 9) (a : InAddr) :
    ((mem.store 0 (routeBytes type (lenByte addrs.length) addrs)).store (4 + 4 * addrs.length) a.bytes).store 2
        [UInt8.ofNat (3 + (addrs.length + 1) * sizeofInAddr)] =
      mem.store 0 (routeBytes type (lenByte (addrs ++ [a]).length) (addrs ++ [a])) := by
  have hzeros : List.replicate (40 - 4 * addrs.length) (0 : Byte) =
      List.replicate 4 0 ++ List.replicate (40 - 4 * (addrs.length + 1)) 0 := by
    rw [List.replicate_append_replicate]
    congr 1
    omega
  have hplace : 4 + 4 * addrs.length =
      0 + (routeHeader type (lenByte addrs.length) ++ addrs.flatMap InAddr.bytes).length := by
    rw [List.length_append, length_flatMap_bytes, Nat.zero_add]
    rfl
  have hbytes : routeBytes type (lenByte addrs.length) addrs =
      routeHeader type (lenByte addrs.length) ++ addrs.flatMap InAddr.bytes ++ List.replicate 4 0 ++
        List.replicate (40 - 4 * (addrs.length + 1)) 0 := by
    rw [routeBytes, hzeros]
    simp only [List.append_assoc]
  rw [hbytes, hplace, Memory.store_store_within mem 0 (by rw [List.length_replicate, a.length_bytes]; rfl)]
  simp only [List.append_assoc]
  have hlt : ∀ rest : List Byte, 2 < (routeHeader type (lenByte addrs.length) ++ rest).length := by
    intro rest
    rw [List.length_append]
    show 2 < 4 + rest.length
    omega
  rw [store_byte mem _ (hlt _), routeHeader_set]
  rw [routeBytes, lenByte, List.length_append, List.flatMap_append, List.length_singleton,
    if_neg (Nat.succ_ne_zero _), List.flatMap_singleton]
  simp only [List.append_assoc]

theorem Built.add (h : Built type mem addrs s) (hlen : addrs.length ≤ 9) (a : InAddr) :
    ∃ s', inetSrcrtAdd s (some a) = .ok (s', 4 + 4 * (addrs.length + 1)) ∧ Built type mem (addrs ++ [a]) s' := by
  have hcount : ¬ 9 < s.ocnt := by
    rw [h.ocnt]
    omega
  have ha : a.bytes.length = 4 := a.length_bytes
  have hret : 3 + (s.ocnt + 1) * sizeofInAddr + 1 = 4 + 4 * (addrs.length + 1) := by
    rw [h.ocnt, sizeofInAddr]
    omega
  refine ⟨Srcrt.put { s.put s.optr a.bytes with optr := s.optr + sizeofInAddr, ocnt := s.ocnt + 1 } s.lenptr
    [UInt8.ofNat (3 + (s.ocnt + 1) * sizeofInAddr)], ?_, ?_, ?_, ?_, ?_, ?_⟩
  · unfold inetSrcrtAdd
    rw [if_neg hcount, ← hret]
    rfl
  · show (s.buf.store s.optr a.bytes).store s.lenptr [UInt8.ofNat (3 + (s.ocnt + 1) * sizeofInAddr)] = _
    rw [h.buf, h.optr, h.lenptr, h.ocnt]
    exact routeBytes_add type mem hlen a
  · show s.optr + sizeofInAddr = _
    rw [h.optr, List.length_append, List.length_singleton, sizeofInAddr]
    omega
  · exact h.lenptr
  · show s.ocnt + 1 = _
    rw [h.ocnt, List.length_append, List.length_singleton]
  · refine Srcrt.put_inside (Srcrt.put_inside h.inside ?_) ?_
    · rw [h.optr, ha]
      omega
    · show s.lenptr + 1 ≤ 44
      rw [h.lenptr]
      decide

theorem Built.full (h : Built type mem addrs s) (hlen : addrs.length = 10) (host : Option InAddr) :
    inetSrcrtAdd s host = .error .tooMany := by
  unfold inetSrcrtAdd
  rw [if_pos (by rw [h.ocnt, hlen]; decide)]

theorem Built.adds (h : Built type mem addrs s) (more : List InAddr) (hlen : addrs.length + more.length ≤ 10)
    (ret : ℕ) (hret : addrs ≠ [] → ret = 4 + 4 * addrs.length) :
    ∃ s' ret', inetSrcrtAdds s ret (more.map some) = .ok (s', ret') ∧ Built type mem (addrs ++ more) s' ∧
      (addrs ++ more ≠ [] → ret' = 4 + 4 * (addrs ++ more).length) := by
  induction more generalizing addrs s ret with
  | nil =>
    refine ⟨s, ret, rfl, ?_⟩
    rw [List.append_nil]
    exact ⟨h, hret⟩
  | cons a more ih =>
    rw [List.length_cons] at hlen
    obtain ⟨s', hadd, hs'⟩ := h.add (by omega) a
    obtain ⟨s'', ret'', hadds, hs'', hret''⟩ := ih hs' (by rw [List.length_append, List.length_singleton]; omega)
      (4 + 4 * (addrs.length + 1)) (fun _ => by rw [List.length_append, List.length_singleton])
    rw [List.append_assoc] at hs'' hret''
    refine ⟨s'', ret'', ?_, hs'', hret''⟩
    rw [List.map_cons, inetSrcrtAdds, hadd]
    exact hadds

theorem inetSrcrtAdds_append {s s' : Srcrt} {ret ret' : ℕ} {hosts hosts' : List (Option InAddr)}
    (h : inetSrcrtAdds s ret hosts = .ok (s', ret')) :
    inetSrcrtAdds s ret (hosts ++ hosts') = inetSrcrtAdds s' ret' hosts' := by
  induction hosts generalizing s ret with
  | nil =>
    obtain ⟨rfl, rfl⟩ := Prod.mk.inj (Except.ok.inj h)
    rfl
  | cons host hosts ih =>
    rw [inetSrcrtAdds] at h
    rw [List.cons_append, inetSrcrtAdds]
    cases hadd : inetSrcrtAdd s host with
    | error e =>
      rw [hadd] at h
      cases h
    | ok r =>
      rw [hadd] at h
      exact ih h

end Build

/-! ### What the printer finds -/

section Print

variable {addrs : List InAddr}

theorem InAddr.exists_bytes (a : InAddr) :
    ∃ b₀ b₁ b₂ b₃, a.bytes = [b₀, b₁, b₂, b₃] ∧ a.ntop = inetNtop b₀ b₁ b₂ b₃ := by
  obtain ⟨bytes, hlen⟩ := a
  match bytes, hlen with
  | [b₀, b₁, b₂, b₃], _ => exact ⟨b₀, b₁, b₂, b₃, rfl, rfl⟩

theorem lessAddr_eq {len : ℤ} (hlo : -2 ^ 31 + 4 ≤ len) (hhi : len < 2 ^ 31) : lessAddr len = len - 4 := by
  have hsize : (sizeofInAddr : ℤ) = 4 := rfl
  rw [lessAddr, hsize]
  exact toInt32_toSize (by omega) (by omega)

theorem printHops_of_nonpos {len : ℤ} (h : ¬ 0 < len) (ptr : List Byte) : printHops len ptr = some (cstr "\n") := by
  unfold printHops
  split <;> exact if_neg h

/-- The rest of the length is never a multiple of 4, and one short of the addresses that are still there. -/
theorem printHops_flatMap (h : addrs.length ≤ 10) (rest : List Byte) :
    printHops (4 * addrs.length - 1) (addrs.flatMap InAddr.bytes ++ rest) =
      some ((addrs.flatMap fun a => a.ntop ++ cstr " ") ++ cstr "\n") := by
  induction addrs with
  | nil => exact printHops_of_nonpos (by decide) _
  | cons a addrs ih =>
    rw [List.length_cons] at h
    obtain ⟨b₀, b₁, b₂, b₃, hbytes, hntop⟩ := a.exists_bytes
    have hless : lessAddr (4 * ((a :: addrs).length : ℤ) - 1) = 4 * addrs.length - 1 := by
      rw [List.length_cons, lessAddr_eq (by omega) (by omega)]
      push_cast
      ring
    rw [List.flatMap_cons, hbytes, List.append_assoc]
    show printHops _ (b₀ :: b₁ :: b₂ :: b₃ :: (addrs.flatMap InAddr.bytes ++ rest)) = _
    rw [printHops, if_pos (by rw [List.length_cons]; omega), hless, ih (by omega), Option.map_some,
      List.flatMap_cons, hntop]
    simp only [List.append_assoc]

theorem skipNops_replicate (n : ℕ) (ptr : List Byte) :
    skipNops (List.replicate n IPOPT_NOP ++ ptr) = skipNops ptr := by
  induction n with
  | zero => rfl
  | succ n ih =>
    rw [List.replicate_succ, List.cons_append, skipNops, if_pos rfl]
    exact ih

/-- The name that is printed for a type. -/
def routeName (type : ℤ) : CString := if type ≠ 0 then cstr "received SSRR: " else cstr "received LSRR: "

theorem inetSrcrtPrint_routeBytes (type : ℤ) (hne : addrs ≠ []) (h : addrs.length ≤ 10) (hop1 : InAddr) (n : ℕ)
    (rest : List Byte) :
    inetSrcrtPrint (hop1.bytes ++ (List.replicate n IPOPT_NOP ++
        (routeBytes type (lenByte addrs.length) addrs ++ rest))) =
      some (routeName type ++ hop1.ntop ++ cstr " " ++
        ((addrs.flatMap fun a => a.ntop ++ cstr " ") ++ cstr "\n")) := by
  obtain ⟨b₀, b₁, b₂, b₃, hbytes, hntop⟩ := hop1.exists_bytes
  have hpos : addrs.length ≠ 0 := mt List.length_eq_zero_iff.mp hne
  have hlen : ((lenByte addrs.length).toNat : ℤ) = 3 + 4 * addrs.length := by
    rw [lenByte, if_neg hpos, sizeofInAddr, UInt8.toNat_ofNat', Nat.mod_eq_of_lt (by omega)]
    push_cast
    ring
  have hless : lessAddr (lenByte addrs.length).toNat = 4 * addrs.length - 1 := by
    rw [hlen, lessAddr_eq (by omega) (by omega)]
    ring
  have hroute : ∀ name hop : CString, printRoute name hop (lenByte addrs.length :: 4 ::
      (addrs.flatMap InAddr.bytes ++ (List.replicate (40 - 4 * addrs.length) 0 ++ rest))) =
      some (name ++ hop ++ cstr " " ++ ((addrs.flatMap fun a => a.ntop ++ cstr " ") ++ cstr "\n")) := by
    intro name hop
    rw [printRoute, hless, List.tail_cons, printHops_flatMap h, Option.map_some]
  simp only [List.append_assoc] at hroute
  rw [hbytes, hntop, routeBytes]
  simp only [List.append_assoc]
  show inetSrcrtPrint (b₀ :: b₁ :: b₂ :: b₃ :: (List.replicate n IPOPT_NOP ++ _)) = _
  rw [inetSrcrtPrint, skipNops_replicate]
  by_cases htype : type = 0
  · have hheader : routeHeader type (lenByte addrs.length) = [IPOPT_NOP, IPOPT_LSRR, lenByte addrs.length, 4] := by
      rw [routeHeader, if_neg (not_not.mpr htype)]
    have hname : routeName type = cstr "received LSRR: " := if_neg (not_not.mpr htype)
    rw [hheader, hname]
    exact hroute _ _
  · have hheader : routeHeader type (lenByte addrs.length) = [IPOPT_NOP, IPOPT_SSRR, lenByte addrs.length, 4] := by
      rw [routeHeader, if_pos htype]
    have hname : routeName type = cstr "received SSRR: " := if_pos htype
    rw [hheader, hname]
    exact hroute _ _

end Print

/-! ### The whole way -/

/-- An addition behind ten quits, whichever host it has. Up to ten give the option with its zeros, inside the bytes
that were allocated, and the printer finds the hops in it again. -/
theorem source_route_round_trip (type : ℤ) (mem : Memory Byte) (addrs : List InAddr) :
    (addrs.length = 10 → ∀ host hosts,
        inetSrcrtAdds (inetSrcrtInit type mem) 0 (addrs.map some ++ host :: hosts) = .error .tooMany) ∧
      (addrs ≠ [] → addrs.length ≤ 10 → ∃ s,
        inetSrcrtAdds (inetSrcrtInit type mem) 0 (addrs.map some) = .ok (s, 4 + 4 * addrs.length) ∧
        s.buf.slice 0 44 = [IPOPT_NOP, if type ≠ 0 then IPOPT_SSRR else IPOPT_LSRR,
            UInt8.ofNat (3 + 4 * addrs.length), 4] ++ addrs.flatMap InAddr.bytes ++
          List.replicate (40 - 4 * addrs.length) 0 ∧
        (∀ i ∈ s.stores, i < 44) ∧
        ∀ (hop1 : InAddr) (n : ℕ) (rest : List Byte),
          inetSrcrtPrint (hop1.bytes ++ List.replicate n IPOPT_NOP ++ s.buf.slice 0 44 ++ rest) =
            some ((if type ≠ 0 then cstr "received SSRR: " else cstr "received LSRR: ") ++
              ((hop1 :: addrs).flatMap fun a => a.ntop ++ cstr " ") ++ cstr "\n")) := by
  constructor
  · intro hlen host hosts
    obtain ⟨s, ret, hadds, hbuilt, -⟩ := (built_init type mem).adds addrs (by simp [hlen]) 0
      (fun h => absurd rfl h)
    rw [inetSrcrtAdds_append hadds, inetSrcrtAdds, hbuilt.full (by simpa using hlen)]
  · intro hne hlen
    obtain ⟨s, ret, hadds, hbuilt, hret⟩ := (built_init type mem).adds addrs (by simpa using hlen) 0
      (fun h => absurd rfl h)
    rw [List.nil_append] at hbuilt hret
    have hslice : s.buf.slice 0 44 = routeBytes type (lenByte addrs.length) addrs := by
      have hstore := mem.slice_store_zero (routeBytes type (lenByte addrs.length) addrs)
      rw [length_routeBytes type _ hlen] at hstore
      rw [hbuilt.buf]
      exact hstore
    refine ⟨s, ?_, ?_, hbuilt.inside, ?_⟩
    · rw [hadds, hret hne]
    · have hbyte : lenByte addrs.length = UInt8.ofNat (3 + 4 * addrs.length) := by
        rw [lenByte, if_neg (mt List.length_eq_zero_iff.mp hne), sizeofInAddr, Nat.mul_comm]
      rw [hslice, hbyte, routeBytes, routeHeader, List.append_assoc]
    · intro hop1 n rest
      have hprint := inetSrcrtPrint_routeBytes type hne hlen hop1 n rest
      simp only [List.append_assoc] at hprint
      simp only [hslice, List.flatMap_cons, List.append_assoc]
      exact hprint

end UnixNetProg.Ipopts
