import UnixNetProg.Lib.Endian
import UnixNetProg.Lib.Numeral
import UnixNetProg.Libgai.AddrInfo

/-!
# IPv4 addresses as text (`libfree/inet_pton.c`, `inet_ntop.c`, `inet_aton.c`, `inet_pton_ipv4.c`)

There are two versions of `inet_pton` for IPv4. `inet_pton4` reads four numerals with dots
between them; the version for hosts without IPv6 calls `inet_aton`, which reads more than that. A field of a text
is what stands between two dots.
-/

namespace UnixNetProg.Libfree

open Lib Libgai

/-- The place of a digit in `digits[]`. -/
def decDigit (c : Byte) : ℕ := c.toNat - 48

/-- The locals of `inet_pton4`: `tmp[]` holds `done` and behind it, at `tp`, the octet `cur`. -/
structure Pton4 where
  done : List Byte
  cur : Byte
  sawDigit : Bool
  octets : ℕ

def pton4Loop : CString → Pton4 → Option (List Byte)
  | [], s => if s.octets < 4 then none else some (s.done ++ [s.cur])
  | ch :: src, s =>
    if isdigit ch then
      let new := s.cur.toNat * 10 + decDigit ch
      if 255 < new then none
      else if s.sawDigit then pton4Loop src { s with cur := UInt8.ofNat new }
      else if 4 < s.octets + 1 then none
      else pton4Loop src { s with cur := UInt8.ofNat new, octets := s.octets + 1, sawDigit := true }
    else if ch = 46 ∧ s.sawDigit then
      if s.octets = 4 then none
      else pton4Loop src { s with done := s.done ++ [s.cur], cur := 0, sawDigit := false }
    else none

def inetPton4 (src : CString) : Option (List Byte) := pton4Loop src ⟨[], 0, false, 0⟩

/-- What `inet_ntop4` stores at `dst`, with the terminating 0; `none` is the return of NULL. -/
def inetNtop4 (src : List Byte) (size : ℕ) : Option (List Byte) :=
  let tmp := dottedQuad (src.getD 0 0) (src.getD 1 0) (src.getD 2 0) (src.getD 3 0)
  if size < tmp.length then none else some (tmp ++ [0])

/-- The loop of `inet_aton`, with the 64-bit `acc` and the numbers so far in `addr`; it ends with the 0. -/
def inetAtonLoop : CString → ℕ → ℕ → ℕ → Option (ℕ × ℕ)
  | [], dots, acc, addr => if 255 < acc then none else some (dots, 256 * addr + acc)
  | cc :: cp, dots, acc, addr =>
    if isdigit cc then inetAtonLoop cp dots ((acc * 10 + decDigit cc) % 2 ^ 64) addr
    else if cc = 46 then
      if 3 < dots + 1 then none
      else if 255 < acc then none
      else inetAtonLoop cp (dots + 1) 0 (256 * addr + acc)
    else none

/-- The bytes of `ap->s_addr`. -/
def inetAton (cp : CString) : Option (List Byte) :=
  match inetAtonLoop cp 0 0 0 with
  | none => none
  | some (dots, addr) => some (bytes32 .big (if dots < 3 then addr * 256 ^ (3 - dots) else addr))

/-- `inet_pton` of `inet_pton_ipv4.c`, for `AF_INET`. -/
def inetPtonIpv4 (strptr : CString) : Option (List Byte) := inetAton strptr

/-! ### The texts that `inet_pton4` reads -/

/-- A numeral of at most 255, with any number of zeros in front. -/
structure Octet where
  digits : CString
  ne_nil : digits ≠ []
  all_digits : ∀ c ∈ digits, isdigit c
  le : numeral 10 decDigit 0 digits ≤ 255

def Octet.value (o : Octet) : Byte := UInt8.ofNat (numeral 10 decDigit 0 o.digits)

/-- All characters of the field are of this kind. -/
def AllOf (p : Byte → Bool) (f : CString) : Prop := ∀ c ∈ f, p c

instance (p : Byte → Bool) (f : CString) : Decidable (AllOf p f) := List.decidableBAll (p · = true) f

/-- The octet that a field is, if it is one. -/
def octet? (f : CString) : Option Byte :=
  if f ≠ [] ∧ AllOf isdigit f ∧ numeral 10 decDigit 0 f ≤ 255 then
    some (UInt8.ofNat (numeral 10 decDigit 0 f))
  else none

theorem not_isdigit_dot : ¬ isdigit 46 = true := by decide

theorem exists_splitOn_append {sep : Byte} {ds : CString} (h : sep ∉ ds) (src : CString) :
    ∃ f fs, src.splitOn sep = f :: fs ∧ (ds ++ src).splitOn sep = (ds ++ f) :: fs := by
  obtain ⟨f, fs, hsplit⟩ := List.exists_cons_of_ne_nil (List.splitOn_ne_nil sep src)
  refine ⟨f, fs, hsplit, ?_⟩
  induction ds with
  | nil => exact hsplit
  | cons c ds ih =>
    rw [List.mem_cons, not_or] at h
    rw [List.cons_append, List.splitOn_cons_eq_if_modifyHead, if_neg (by simpa using Ne.symm h.1), ih h.2]
    rfl

theorem mapM_eq_some_iff {α β : Type} {f : α → Option β} {l : List α} {l' : List β} :
    l.mapM f = some l' ↔ List.Forall₂ (fun x y => f x = some y) l l' := by
  induction l generalizing l' with
  | nil => rw [List.mapM_nil, List.forall₂_nil_left_iff, eq_comm (a := l')]; exact Option.some_inj
  | cons x l ih =>
    rw [List.mapM_cons, List.forall₂_cons_left_iff]
    constructor
    · intro h
      obtain ⟨y, hy, h⟩ := Option.bind_eq_some_iff.mp h
      obtain ⟨ys, hys, h⟩ := Option.bind_eq_some_iff.mp h
      exact ⟨y, ys, hy, ih.mp hys, (Option.some.inj h).symm⟩
    · rintro ⟨y, ys, hy, hys, rfl⟩
      rw [hy, ih.mpr hys]
      rfl

theorem octet?_append_eq_none {ds : CString} (h : 255 < numeral 10 decDigit 0 ds) (f : CString) :
    octet? (ds ++ f) = none := by
  refine if_neg fun hoctet => ?_
  have hle := numeral_le_append (show 0 < 10 by decide) decDigit 0 ds f
  omega

theorem octet?_eq_none_of_mem {c : Byte} {f : CString} (hc : c ∈ f) (hdigit : ¬ isdigit c = true) : octet? f = none :=
  if_neg fun hoctet => hdigit (hoctet.2.1 c hc)

/-- `ds` is what has been read of the field that the loop is in. -/
structure Pton4.At (s : Pton4) (ds : CString) : Prop where
  digits : ∀ c ∈ ds, isdigit c
  cur : s.cur.toNat = numeral 10 decDigit 0 ds
  sawDigit : s.sawDigit = decide (ds ≠ [])
  octets : s.octets = s.done.length + if ds = [] then 0 else 1
  room : s.done.length ≤ 3

/-- What the loop makes of the fields that are left, the first of which it may be in. -/
def octetsFrom (done : List Byte) (fs : List CString) : Option (List Byte) :=
  if done.length + fs.length = 4 then (fs.mapM octet?).map (done ++ ·) else none

theorem octetsFrom_cons_none {f : CString} (hf : octet? f = none) (done : List Byte) (fs : List CString) :
    octetsFrom done (f :: fs) = none := by
  rw [octetsFrom, List.mapM_cons, hf]
  exact ite_self _

theorem octetsFrom_cons_some {f : CString} {v : Byte} (hf : octet? f = some v) (done : List Byte)
    (fs : List CString) : octetsFrom done (f :: fs) = octetsFrom (done ++ [v]) fs := by
  have hlen : done.length + (f :: fs).length = 4 ↔ (done ++ [v]).length + fs.length = 4 := by
    rw [List.length_append, List.length_cons, List.length_singleton]
    omega
  rw [octetsFrom, octetsFrom, List.mapM_cons, hf]
  by_cases h : done.length + (f :: fs).length = 4
  · rw [if_pos h, if_pos (hlen.mp h)]
    cases fs.mapM octet? with
    | none => rfl
    | some vs => exact congrArg some (List.append_cons done v vs)
  · rw [if_neg h, if_neg (mt hlen.mpr h)]

theorem Pton4.At.octet {s : Pton4} {ds : CString} (h : s.At ds) (hne : ds ≠ []) : octet? ds = some s.cur := by
  have hlt := s.cur.toNat_lt
  have hcur := h.cur
  rw [octet?, if_pos ⟨hne, h.digits, by omega⟩, ← hcur, UInt8.ofNat_toNat]

theorem Pton4.At.not_dot {s : Pton4} {ds : CString} (h : s.At ds) : 46 ∉ ds :=
  fun hmem => not_isdigit_dot (h.digits 46 hmem)

theorem Pton4.At.new {s : Pton4} {ds : CString} (h : s.At ds) (ch : Byte) :
    s.cur.toNat * 10 + decDigit ch = numeral 10 decDigit 0 (ds ++ [ch]) := by
  rw [numeral_concat, ← h.cur, Nat.mul_comm]

theorem Pton4.At.digit {s : Pton4} {ds : CString} (h : s.At ds) {ch : Byte} (hdigit : isdigit ch = true)
    (hle : numeral 10 decDigit 0 (ds ++ [ch]) ≤ 255) (src : CString) :
    ∃ s' : Pton4, s'.At (ds ++ [ch]) ∧ s'.done = s.done ∧ pton4Loop (ch :: src) s = pton4Loop src s' := by
  have hall : ∀ c ∈ ds ++ [ch], isdigit c = true :=
    List.forall_mem_append.mpr ⟨h.digits, List.forall_mem_singleton.mpr hdigit⟩
  have hcur : (UInt8.ofNat (numeral 10 decDigit 0 (ds ++ [ch]))).toNat = numeral 10 decDigit 0 (ds ++ [ch]) := by
    rw [UInt8.toNat_ofNat']
    omega
  have hoctets := h.octets
  have hroom := h.room
  rw [pton4Loop, if_pos hdigit]
  dsimp only
  rw [h.new, if_neg (by omega), h.sawDigit]
  by_cases hnil : ds = []
  · rw [if_pos hnil] at hoctets
    rw [if_neg (by simpa using hnil), if_neg (by omega)]
    refine ⟨⟨s.done, _, true, s.octets + 1⟩, ⟨hall, hcur, by simp, ?_, hroom⟩, rfl, rfl⟩
    rw [if_neg (by simp)]
    exact congrArg (· + 1) hoctets
  · rw [if_neg hnil] at hoctets
    rw [if_pos (by simpa using hnil)]
    refine ⟨⟨s.done, _, decide (ds ≠ []), s.octets⟩, ⟨hall, hcur, by simp [hnil], ?_, hroom⟩, rfl, rfl⟩
    rw [if_neg (by simp)]
    exact hoctets

theorem Pton4.At.dot {s : Pton4} {ds : CString} (h : s.At ds) (hne : ds ≠ []) (hroom : s.done.length < 3)
    (src : CString) :
    ∃ s' : Pton4, s'.At [] ∧ s'.done = s.done ++ [s.cur] ∧ pton4Loop (46 :: src) s = pton4Loop src s' := by
  have hoctets := h.octets
  rw [if_neg hne] at hoctets
  have hlen : (s.done ++ [s.cur]).length = s.done.length + 1 := by simp
  rw [pton4Loop, if_neg not_isdigit_dot, if_pos ⟨rfl, by rw [h.sawDigit]; simpa using hne⟩, if_neg (by omega)]
  refine ⟨⟨s.done ++ [s.cur], 0, false, s.octets⟩, ⟨by simp, rfl, rfl, ?_, hlen ▸ hroom⟩, rfl, rfl⟩
  rw [if_pos rfl, hlen]
  exact hoctets

theorem pton4Loop_eq (src : CString) {s : Pton4} {ds : CString} (h : s.At ds) :
    pton4Loop src s = octetsFrom s.done ((ds ++ src).splitOn 46) := by
  have hroom := h.room
  induction src generalizing s ds with
  | nil =>
    rw [pton4Loop, List.append_nil, List.splitOn_eq_singleton h.not_dot, h.octets]
    by_cases hnil : ds = []
    · rw [if_pos hnil, if_pos (by omega), octetsFrom_cons_none (by rw [hnil]; rfl)]
    · rw [if_neg hnil, octetsFrom_cons_some (h.octet hnil), octetsFrom, List.length_append, List.length_nil,
        List.length_singleton]
      by_cases hfour : s.done.length + 1 < 4
      · rw [if_pos hfour, if_neg (by omega)]
      · rw [if_neg hfour, if_pos (by omega), List.mapM_nil]
        exact congrArg some (List.append_nil _).symm
  | cons ch src ih =>
    have hassoc : ds ++ ch :: src = ds ++ [ch] ++ src := by simp
    by_cases hdigit : isdigit ch = true
    · rw [hassoc]
      by_cases hbig : 255 < numeral 10 decDigit 0 (ds ++ [ch])
      · have hdot : 46 ∉ ds ++ [ch] := by
          rw [List.mem_append, List.mem_singleton]
          rintro (hmem | rfl)
          · exact h.not_dot hmem
          · exact not_isdigit_dot hdigit
        obtain ⟨f, fs, -, hsplit⟩ := exists_splitOn_append hdot src
        rw [hsplit, octetsFrom_cons_none (octet?_append_eq_none hbig f), pton4Loop, if_pos hdigit]
        dsimp only
        rw [h.new, if_pos hbig]
      · obtain ⟨s', hs', hdone, hloop⟩ := h.digit hdigit (Nat.le_of_not_lt hbig) src
        rw [hloop, ih hs' hs'.room, hdone]
    · by_cases hch : ch = 46
      · subst hch
        rw [List.splitOn_append_cons_self_of_not_mem h.not_dot]
        by_cases hnil : ds = []
        · rw [octetsFrom_cons_none (by rw [hnil]; rfl), pton4Loop, if_neg hdigit, h.sawDigit,
            if_neg (by simpa using hnil)]
        · rw [octetsFrom_cons_some (h.octet hnil)]
          by_cases hlast : s.done.length < 3
          · obtain ⟨s', hs', hdone, hloop⟩ := h.dot hnil hlast src
            rw [hloop, ih hs' hs'.room, hdone, List.nil_append]
          · -- a fifth octet would follow
            have hpos : 0 < (src.splitOn 46).length := List.length_pos_iff.mpr (List.splitOn_ne_nil _ _)
            have hoctets := h.octets
            rw [if_neg hnil] at hoctets
            rw [pton4Loop, if_neg hdigit, if_pos ⟨rfl, by rw [h.sawDigit]; simpa using hnil⟩, if_pos (by omega),
              octetsFrom, if_neg (by rw [List.length_append, List.length_singleton]; omega)]
      · have hdot : 46 ∉ ds ++ [ch] := by simp [h.not_dot, Ne.symm hch]
        obtain ⟨f, fs, -, hsplit⟩ := exists_splitOn_append hdot src
        have hnone : octet? (ds ++ [ch] ++ f) = none := octet?_eq_none_of_mem (by simp) hdigit
        rw [hassoc, hsplit, octetsFrom_cons_none hnone, pton4Loop, if_neg hdigit, if_neg (by simp [hch])]

theorem inetPton4_eq (src : CString) : inetPton4 src = octetsFrom [] (src.splitOn 46) :=
  have hstart : Pton4.At ⟨[], 0, false, 0⟩ [] := ⟨by simp, rfl, rfl, rfl, Nat.zero_le 3⟩
  pton4Loop_eq src hstart

theorem octet?_eq_some_iff {f : CString} {v : Byte} :
    octet? f = some v ↔ ∃ o : Octet, f = o.digits ∧ v = o.value := by
  rw [octet?]
  constructor
  · intro h
    split_ifs at h with hoctet
    exact ⟨⟨f, hoctet.1, hoctet.2.1, hoctet.2.2⟩, rfl, (Option.some.inj h).symm⟩
  · rintro ⟨o, rfl, rfl⟩
    rw [if_pos ⟨o.ne_nil, o.all_digits, o.le⟩]
    rfl

theorem mapM_octet?_eq_some_iff {fs : List CString} {vs : List Byte} :
    fs.mapM octet? = some vs ↔ ∃ os : List Octet, fs = os.map Octet.digits ∧ vs = os.map Octet.value := by
  rw [mapM_eq_some_iff]
  constructor
  · intro h
    induction h with
    | nil => exact ⟨[], rfl, rfl⟩
    | cons hv _ ih =>
      obtain ⟨o, rfl, rfl⟩ := octet?_eq_some_iff.mp hv
      obtain ⟨os, rfl, rfl⟩ := ih
      exact ⟨o :: os, rfl, rfl⟩
  · rintro ⟨os, rfl, rfl⟩
    rw [List.forall₂_map_left_iff, List.forall₂_map_right_iff, List.forall₂_same]
    exact fun o _ => octet?_eq_some_iff.mpr ⟨o, rfl, rfl⟩

theorem inetPton4_eq_mapM (src : CString) :
    inetPton4 src = if (src.splitOn 46).length = 4 then (src.splitOn 46).mapM octet? else none := by
  have hid : ∀ r : Option (List Byte), r.map ([] ++ ·) = r := fun r => by cases r <;> rfl
  rw [inetPton4_eq, octetsFrom, List.length_nil, Nat.zero_add, hid]

theorem exists_octets_of_inetPton4 {src : CString} {addr : List Byte} (h : inetPton4 src = some addr) :
    ∃ os : List Octet, os.length = 4 ∧ src = [46].intercalate (os.map Octet.digits) ∧ addr = os.map Octet.value := by
  rw [inetPton4_eq_mapM] at h
  split_ifs at h with hfour
  obtain ⟨os, hfs, rfl⟩ := mapM_octet?_eq_some_iff.mp h
  refine ⟨os, ?_, ?_, rfl⟩
  · rw [hfs, List.length_map] at hfour
    exact hfour
  · rw [← hfs, List.intercalate_splitOn]

theorem inetPton4_octets {os : List Octet} (hlen : os.length = 4) :
    inetPton4 ([46].intercalate (os.map Octet.digits)) = some (os.map Octet.value) := by
  have hdot : ∀ f ∈ os.map Octet.digits, 46 ∉ f := by
    intro f hf hmem
    obtain ⟨o, -, rfl⟩ := List.mem_map.mp hf
    exact not_isdigit_dot (o.all_digits 46 hmem)
  have hne : os.map Octet.digits ≠ [] := by
    rintro hnil
    rw [List.map_eq_nil_iff.mp hnil] at hlen
    exact absurd hlen (by decide)
  rw [inetPton4_eq_mapM, List.splitOn_intercalate 46 hdot hne, List.length_map, if_pos hlen]
  exact mapM_octet?_eq_some_iff.mpr ⟨os, rfl, rfl⟩

/-- `inet_pton4` reads four octets with dots between them, and nothing else. -/
theorem inetPton4_eq_some_iff {src : CString} {addr : List Byte} :
    inetPton4 src = some addr ↔ ∃ os : List Octet, os.length = 4 ∧
      src = [46].intercalate (os.map Octet.digits) ∧ addr = os.map Octet.value := by
  constructor
  · exact exists_octets_of_inetPton4
  · rintro ⟨os, hlen, rfl, rfl⟩
    exact inetPton4_octets hlen

/-! ### `inet_aton` -/

/-- What `inet_aton` takes for an octet: the empty field is 0, and `acc` wraps. -/
def aton? (f : CString) : Option Byte :=
  if AllOf isdigit f ∧ numeral 10 decDigit 0 f % 2 ^ 64 ≤ 255 then
    some (UInt8.ofNat (numeral 10 decDigit 0 f % 2 ^ 64))
  else none

theorem octet?_eq_some_iff_aton? {f : CString} {v : Byte} :
    octet? f = some v ↔ aton? f = some v ∧ f ≠ [] ∧ numeral 10 decDigit 0 f < 2 ^ 64 := by
  rw [octet?, aton?]
  constructor
  · intro h
    split_ifs at h with hoctet
    obtain ⟨hne, hdigits, hle⟩ := hoctet
    have hmod : numeral 10 decDigit 0 f % 2 ^ 64 = numeral 10 decDigit 0 f := Nat.mod_eq_of_lt (by omega)
    rw [hmod, if_pos ⟨hdigits, hle⟩]
    exact ⟨h, hne, by omega⟩
  · rintro ⟨h, hne, hlt⟩
    rw [Nat.mod_eq_of_lt hlt] at h
    split_ifs at h with haton
    rw [if_pos ⟨hne, haton⟩]
    exact h

theorem aton?_eq_none {f : CString} (h : 255 < numeral 10 decDigit 0 f % 2 ^ 64) : aton? f = none :=
  if_neg fun haton => Nat.not_le_of_lt h haton.2

theorem exists_aton?_eq_some {f : CString} (hdigits : ∀ c ∈ f, isdigit c)
    (hle : numeral 10 decDigit 0 f % 2 ^ 64 ≤ 255) :
    ∃ v, aton? f = some v ∧ v.toNat = numeral 10 decDigit 0 f % 2 ^ 64 := by
  refine ⟨_, if_pos ⟨hdigits, hle⟩, ?_⟩
  rw [UInt8.toNat_ofNat']
  exact Nat.mod_eq_of_lt (Nat.lt_succ_of_le hle)

/-- What the loop makes of the fields that are left. -/
def atonFrom (dots addr : ℕ) (fs : List CString) : Option (ℕ × ℕ) :=
  if dots + fs.length ≤ 4 then
    (fs.mapM aton?).map fun vs => (dots + fs.length - 1, numeral 256 UInt8.toNat addr vs)
  else none

theorem atonFrom_cons_none {f : CString} (hf : aton? f = none) (dots addr : ℕ) (fs : List CString) :
    atonFrom dots addr (f :: fs) = none := by
  rw [atonFrom, List.mapM_cons, hf]
  exact ite_self _

theorem atonFrom_cons_some {f : CString} {v : Byte} (hf : aton? f = some v) (dots addr : ℕ) (fs : List CString) :
    fs ≠ [] → atonFrom dots addr (f :: fs) = atonFrom (dots + 1) (256 * addr + v.toNat) fs := by
  intro hne
  have hlen : dots + (f :: fs).length = dots + 1 + fs.length := by
    rw [List.length_cons]
    omega
  rw [atonFrom, atonFrom, List.mapM_cons, hf, hlen]
  by_cases h : dots + 1 + fs.length ≤ 4
  · rw [if_pos h, if_pos h]
    cases fs.mapM aton? with
    | none => rfl
    | some vs => rfl
  · rw [if_neg h, if_neg h]

theorem inetAtonLoop_eq (src : CString) {ds : CString} (hds : ∀ c ∈ ds, isdigit c) {dots : ℕ} (hdots : dots ≤ 3)
    (addr : ℕ) :
    inetAtonLoop src dots (numeral 10 decDigit 0 ds % 2 ^ 64) addr = atonFrom dots addr ((ds ++ src).splitOn 46) := by
  induction src generalizing ds dots addr with
  | nil =>
    have hdot : 46 ∉ ds := fun hmem => not_isdigit_dot (hds 46 hmem)
    rw [inetAtonLoop, List.append_nil, List.splitOn_eq_singleton hdot]
    by_cases hbig : 255 < numeral 10 decDigit 0 ds % 2 ^ 64
    · rw [if_pos hbig, atonFrom_cons_none (aton?_eq_none hbig)]
    · obtain ⟨v, haton, hvalue⟩ := exists_aton?_eq_some hds (Nat.le_of_not_lt hbig)
      rw [if_neg hbig, atonFrom, List.length_singleton, if_pos (by omega), List.mapM_cons, haton]
      exact congrArg (fun a => some (dots, 256 * addr + a)) hvalue.symm
  | cons cc cp ih =>
    rw [inetAtonLoop]
    by_cases hdigit : isdigit cc = true
    · have hall : ∀ c ∈ ds ++ [cc], isdigit c = true :=
        List.forall_mem_append.mpr ⟨hds, List.forall_mem_singleton.mpr hdigit⟩
      have hacc : (numeral 10 decDigit 0 ds % 2 ^ 64 * 10 + decDigit cc) % 2 ^ 64 =
          numeral 10 decDigit 0 (ds ++ [cc]) % 2 ^ 64 := by
        rw [numeral_concat]
        omega
      have hassoc : ds ++ cc :: cp = ds ++ [cc] ++ cp := by simp
      rw [if_pos hdigit, hacc, hassoc]
      exact ih hall hdots addr
    · rw [if_neg hdigit]
      by_cases hcc : cc = 46
      · subst hcc
        have hdot : 46 ∉ ds := fun hmem => not_isdigit_dot (hds 46 hmem)
        have hne := List.splitOn_ne_nil 46 cp
        rw [if_pos rfl, List.splitOn_append_cons_self_of_not_mem hdot]
        by_cases hfour : 3 < dots + 1
        · have hpos : 0 < (cp.splitOn 46).length := List.length_pos_iff.mpr hne
          rw [if_pos hfour, atonFrom, if_neg (by rw [List.length_cons]; omega)]
        · rw [if_neg hfour]
          by_cases hbig : 255 < numeral 10 decDigit 0 ds % 2 ^ 64
          · rw [if_pos hbig, atonFrom_cons_none (aton?_eq_none hbig)]
          · obtain ⟨v, haton, hvalue⟩ := exists_aton?_eq_some hds (Nat.le_of_not_lt hbig)
            rw [if_neg hbig, atonFrom_cons_some haton dots addr _ hne, hvalue]
            exact ih (show ∀ c ∈ [], isdigit c by simp) (by omega) _
      · rw [if_neg hcc]
        have hassoc : ds ++ cc :: cp = ds ++ [cc] ++ cp := by simp
        have hdot : 46 ∉ ds ++ [cc] := by
          rw [List.mem_append, List.mem_singleton]
          rintro (hmem | hmem)
          · exact not_isdigit_dot (hds 46 hmem)
          · exact hcc hmem.symm
        obtain ⟨f, fs, -, hsplit⟩ := exists_splitOn_append hdot cp
        have hnone : aton? (ds ++ [cc] ++ f) = none := if_neg fun haton => hdigit (haton.1 cc (by simp))
        rw [hassoc, hsplit, atonFrom_cons_none hnone]

theorem ofNat_eq_of_mod {n : ℕ} {x : Byte} (h : n % 256 = x.toNat) : UInt8.ofNat n = x := by
  rw [← UInt8.toNat_inj, UInt8.toNat_ofNat']
  exact h

theorem bytes32_numeral {vs : List Byte} (h : vs.length = 4) : bytes32 .big (numeral 256 UInt8.toNat 0 vs) = vs := by
  obtain ⟨a, b, c, d, rfl⟩ := List.length_eq_four.mp h
  have hb := b.toNat_lt
  have hc := c.toNat_lt
  have hd := d.toNat_lt
  have ha := a.toNat_lt
  simp only [numeral_cons, numeral_nil, bytes32, bytes16, List.cons_append, List.nil_append]
  rw [ofNat_eq_of_mod (x := a) (by omega), ofNat_eq_of_mod (x := b) (by omega), ofNat_eq_of_mod (x := c) (by omega),
    ofNat_eq_of_mod (x := d) (by omega)]

theorem numeral_append_zeros (vs : List Byte) (k : ℕ) :
    numeral 256 UInt8.toNat 0 (vs ++ List.replicate k 0) = numeral 256 UInt8.toNat 0 vs * 256 ^ k := by
  induction k with
  | zero => simp
  | succ k ih =>
    rw [List.replicate_succ', ← List.append_assoc, numeral_concat, ih, pow_succ]
    exact (Nat.add_zero _).trans (by ring)

theorem inetAton_eq (cp : CString) :
    inetAton cp =
      if (cp.splitOn 46).length ≤ 4 then
        ((cp.splitOn 46).mapM aton?).map fun vs => vs ++ List.replicate (4 - (cp.splitOn 46).length) 0
      else none := by
  have hloop : inetAtonLoop cp 0 0 0 = atonFrom 0 0 (cp.splitOn 46) :=
    inetAtonLoop_eq cp (show ∀ c ∈ [], isdigit c by simp) (Nat.zero_le 3) 0
  have hpos : 0 < (cp.splitOn 46).length := List.length_pos_iff.mpr (List.splitOn_ne_nil _ _)
  rw [inetAton, hloop, atonFrom, Nat.zero_add]
  by_cases hfour : (cp.splitOn 46).length ≤ 4
  · rw [if_pos hfour, if_pos hfour]
    cases hvs : (cp.splitOn 46).mapM aton? with
    | none => rfl
    | some vs =>
      have hlen := (mapM_eq_some_iff.mp hvs).length_eq
      have hfull : (vs ++ List.replicate (4 - (cp.splitOn 46).length) 0).length = 4 := by
        rw [List.length_append, List.length_replicate]
        omega
      refine congrArg some (Eq.trans ?_ (bytes32_numeral hfull))
      rw [numeral_append_zeros]
      by_cases hdots : (cp.splitOn 46).length - 1 < 3
      · have hpad : 3 - ((cp.splitOn 46).length - 1) = 4 - (cp.splitOn 46).length := by omega
        rw [if_pos hdots, hpad]
      · have hpad : 4 - (cp.splitOn 46).length = 0 := by omega
        rw [if_neg hdots, hpad, pow_zero, Nat.mul_one]
  · rw [if_neg hfour, if_neg hfour]

/-- The two versions of `inet_pton` agree on the texts that `inet_pton4` reads; the others that `inet_aton` reads
have fewer fields, or an empty field, or a number that wraps. -/
theorem inetPton4_eq_some_iff_inetPtonIpv4 {src : CString} {addr : List Byte} :
    inetPton4 src = some addr ↔ inetPtonIpv4 src = some addr ∧ (src.splitOn 46).length = 4 ∧
      ∀ f ∈ src.splitOn 46, f ≠ [] ∧ numeral 10 decDigit 0 f < 2 ^ 64 := by
  rw [inetPton4_eq_mapM, inetPtonIpv4, inetAton_eq]
  by_cases hfour : (src.splitOn 46).length = 4
  · have hpad : ∀ r : Option (List Byte), r.map (fun vs => vs ++ List.replicate (4 - 4) 0) = r :=
      fun r => by cases r <;> simp
    rw [if_pos hfour, if_pos (by omega), hfour, hpad, mapM_eq_some_iff, mapM_eq_some_iff]
    have hrel : (fun f v => octet? f = some v) =
        fun f v => (f ≠ [] ∧ numeral 10 decDigit 0 f < 2 ^ 64) ∧ aton? f = some v := by
      funext f v
      rw [octet?_eq_some_iff_aton?, and_comm]
    rw [hrel, List.forall₂_and_left, and_comm]
    simp
  · rw [if_neg hfour]
    simp [hfour]

/-! ### The texts that `inet_ntop` writes -/

theorem numeral_decimal (n : ℕ) : numeral 10 decDigit 0 (decimal n) = n := by
  unfold decimal
  split_ifs with h0
  · rw [h0]
    rfl
  · exact numeral_digits (by decide) (fun d hd => (digitChar_spec hd).2) n

/-- The octet as it is written. -/
def Octet.ofByte (b : Byte) : Octet where
  digits := decimal b.toNat
  ne_nil := decimal_ne_nil _
  all_digits := decimal_isdigit _
  le := by
    have hlt := b.toNat_lt
    rw [numeral_decimal]
    omega

theorem Octet.value_ofByte (b : Byte) : (Octet.ofByte b).value = b := by
  rw [Octet.value, Octet.ofByte, numeral_decimal, UInt8.ofNat_toNat]

theorem dottedQuad_eq (a b c d : Byte) :
    dottedQuad a b c d = [46].intercalate (([a, b, c, d].map Octet.ofByte).map Octet.digits) := by
  simp [dottedQuad, Octet.ofByte, List.intercalate, cstr]

theorem inetPton4_dottedQuad (a b c d : Byte) : inetPton4 (dottedQuad a b c d) = some [a, b, c, d] := by
  rw [dottedQuad_eq, inetPton4_octets rfl]
  simp [Octet.value_ofByte]

end UnixNetProg.Libfree
