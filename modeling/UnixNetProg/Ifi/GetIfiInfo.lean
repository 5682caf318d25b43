import UnixNetProg.Lib.Endian
import UnixNetProg.Libc

/-!
# The interface list (`lib/get_ifi_info.c`)

With the `config.h` of the repository: x86_64 Linux, no `sockaddr_dl` and no `sa_len`. `SIOCGIFCONF` fills a
buffer, and `get_ifi_info` walks over it in bytes. The step is the size of a name and of a socket address,
which depends on the family that stands in the record. A colon in a name is replaced by a 0 in the buffer
itself.
-/

namespace UnixNetProg.Ifi

open Lib

/-- `IFNAMSIZ` and `IFI_NAME`, and the size of a `struct ifreq`. -/
def IFNAMSIZ : ℕ := 16
def sizeofIfreq : ℕ := 40

/-- The sizes of `struct sockaddr`, which is also that of `struct sockaddr_in`, and of `struct sockaddr_in6`. -/
def sizeofSockaddr : ℕ := 16
def sizeofSockaddrIn6 : ℕ := 28

def IFI_ALIAS : BitVec 16 := 1

/-- A call that does not return: the process ends in `err_sys`, `strchr` leaves the buffer, or the loop around
`SIOCGIFCONF` is still waiting for an answer. -/
inductive Failure where
  | errSys
  | outside
  | waiting
  deriving DecidableEq, Repr

/-! ### The buffer -/

/-- What `SIOCGIFCONF` answers. -/
inductive ConfAnswer where
  | einval
  | error
  | filled (ifcLen : ℕ) (buf : Memory Byte)

/-- The buffer of `size` bytes that the walk is over. -/
structure Ifconf where
  buf : Memory Byte
  ifcLen : ℕ
  size : ℕ
  room : ifcLen + 10 * sizeofIfreq ≤ size

/-- The loop around `SIOCGIFCONF`, which never stores more than there is room for. It ends when two answers have
the same length. -/
def sizeLoop : List ConfAnswer → (len lastlen : ℕ) → lastlen + 10 * sizeofIfreq ≤ len → Except Failure Ifconf
  | [], _, _, _ => .error .waiting
  | .error :: _, _, _, _ => .error .errSys
  | .einval :: answers, len, lastlen, h =>
    if lastlen ≠ 0 then .error .errSys
    else sizeLoop answers (len + 10 * sizeofIfreq) lastlen (Nat.le_trans h (Nat.le_add_right _ _))
  | .filled ifcLen buf :: answers, len, lastlen, h =>
    if heq : min ifcLen len = lastlen then .ok ⟨buf, min ifcLen len, len, heq ▸ h⟩
    else
      sizeLoop answers (len + 10 * sizeofIfreq) (min ifcLen len)
        (Nat.add_le_add_right (Nat.min_le_right _ _) _)

def getIfconf (answers : List ConfAnswer) : Except Failure Ifconf :=
  sizeLoop answers (100 * sizeofIfreq) 0 (by decide)

/-! ### One record -/

/-- A socket address of an answer. -/
structure Sockaddr where
  bytes : List Byte
  length_bytes : bytes.length = sizeofSockaddr

/-- The other requests, answered for the name; `none` is an error. -/
structure Ioctls where
  flags : CString → Option (BitVec 16)
  mtu : CString → Option (BitVec 32)
  brdaddr : CString → Option Sockaddr
  dstaddr : CString → Option Sockaddr

/-- `struct ifi_info`, without the link to the next one. -/
structure IfiInfo where
  name : List Byte
  index : ℤ
  mtu : BitVec 16
  haddr : List Byte
  hlen : ℕ
  flags : BitVec 16
  myflags : BitVec 16
  addr : Option (List Byte)
  brdaddr : Option (List Byte)
  dstaddr : Option (List Byte)
  deriving DecidableEq

/-- `Ioctl`. -/
def ask {α : Type} : Option α → Except Failure α
  | none => .error .errSys
  | some a => .ok a

/-- `ifr_addr.sa_family` of the record at `ptr`. -/
def saFamily (buf : Memory Byte) (ptr : ℕ) : ℤ := word16 .little (buf (ptr + 16)) (buf (ptr + 17))

/-- `ifr_name` as it is stored, and as a string. -/
def ifrName (buf : Memory Byte) (ptr : ℕ) : List Byte := buf.slice ptr (ptr + IFNAMSIZ)

/-- `strchr` from `p` on, with `n` bytes to the end of the buffer: the first `none` is a scan that leaves it. -/
def strchr (buf : Memory Byte) (c : Byte) : ℕ → ℕ → Option (Option ℕ)
  | 0, _ => none
  | n + 1, p => if buf p = c then some (some p) else if buf p = 0 then some none else strchr buf c n (p + 1)

/-- The colon is replaced. -/
def cutColon (c : Ifconf) (buf : Memory Byte) (ptr : ℕ) : Except Failure (Memory Byte) :=
  match strchr buf 58 (c.size - ptr) ptr with
  | none => .error .outside
  | some none => .ok buf
  | some (some cptr) => .ok (buf.store cptr [0])

/-- An answer in `ifrcopy`, in the place of the address. -/
def answered (ifrcopy : Memory Byte) (sa : Sockaddr) : Memory Byte := ifrcopy.store IFNAMSIZ sa.bytes

/-- The addresses of the new entry. `ifrcopy` is followed by other memory, of which the copy of a
`struct sockaddr_in6` takes four bytes. -/
def addresses (io : Ioctls) (name : CString) (flags : BitVec 16) (buf ifrcopy : Memory Byte) (ptr : ℕ) :
    Except Failure (Option (List Byte) × Option (List Byte) × Option (List Byte)) := do
  if saFamily buf ptr = AF_INET then
    let mut ifrcopy := ifrcopy
    let mut brdaddr := none
    let mut dstaddr := none
    if flags &&& IFF_BROADCAST ≠ 0 then
      ifrcopy := answered ifrcopy (← ask (io.brdaddr name))
      brdaddr := some (ifrcopy.slice IFNAMSIZ (IFNAMSIZ + sizeofSockaddr))
    if flags &&& IFF_POINTOPOINT ≠ 0 then
      ifrcopy := answered ifrcopy (← ask (io.dstaddr name))
      dstaddr := some (ifrcopy.slice IFNAMSIZ (IFNAMSIZ + sizeofSockaddr))
    return (some (buf.slice (ptr + IFNAMSIZ) (ptr + IFNAMSIZ + sizeofSockaddr)), brdaddr, dstaddr)
  else if saFamily buf ptr = AF_INET6 then
    let mut ifrcopy := ifrcopy
    let mut dstaddr := none
    if flags &&& IFF_POINTOPOINT ≠ 0 then
      ifrcopy := answered ifrcopy (← ask (io.dstaddr name))
      dstaddr := some (ifrcopy.slice IFNAMSIZ (IFNAMSIZ + sizeofSockaddrIn6))
    return (some (buf.slice (ptr + IFNAMSIZ) (ptr + IFNAMSIZ + sizeofSockaddrIn6)), none, dstaddr)
  else return (none, none, none)

/-- The entry for a record, unless the interface is down. Without a `sockaddr_dl` there is never an index or a
hardware address. -/
def newEntry (io : Ioctls) (stack buf : Memory Byte) (ptr : ℕ) (myflags : BitVec 16) :
    Except Failure (Option IfiInfo) := do
  let name := stringOf (ifrName buf ptr)
  let ifrcopy := stack.store 0 (buf.slice ptr (ptr + sizeofIfreq))
  let flags ← ask (io.flags name)
  if flags &&& IFF_UP = 0 then return none
  let mtu ← ask (io.mtu name)
  let (addr, brdaddr, dstaddr) ← addresses io name flags buf ifrcopy ptr
  return some
    { name := (ifrName buf ptr).set (IFNAMSIZ - 1) 0, index := 0, mtu := mtu.setWidth 16,
      haddr := List.replicate IFI_HADDR 0, hlen := 0, flags, myflags, addr, brdaddr, dstaddr }

/-! ### The walk -/

/-- The buffer with its cuts, the list so far, and the offsets that were visited. -/
structure Walk where
  buf : Memory Byte
  lastname : List Byte
  list : List IfiInfo
  visited : List ℕ

/-- What is done with the record at `ptr`. -/
def visit (io : Ioctls) (stack : Memory Byte) (c : Ifconf) (family : ℤ) (doaliases : Bool) (ptr : ℕ) (w : Walk) :
    Except Failure Walk :=
  let w := { w with visited := w.visited ++ [ptr] }
  if saFamily w.buf ptr ≠ family then .ok w
  else
    match cutColon c w.buf ptr with
    | .error e => .error e
    | .ok buf =>
      let known := strncmp w.lastname (ifrName buf ptr) IFNAMSIZ
      if known ∧ doaliases = false then .ok { w with buf }
      else
        match newEntry io stack buf ptr (if known then IFI_ALIAS else 0) with
        | .error e => .error e
        | .ok entry => .ok { w with buf, lastname := ifrName buf ptr, list := w.list ++ entry.toList }

/-- The size of the socket address of a record. -/
def addrLen (family : ℤ) : ℕ := if family = AF_INET6 then sizeofSockaddrIn6 else sizeofSockaddr

def walk (io : Ioctls) (stack : Memory Byte) (c : Ifconf) (family : ℤ) (doaliases : Bool) (ptr : ℕ) (w : Walk) :
    Except Failure Walk :=
  if ptr < c.ifcLen then
    match visit io stack c family doaliases ptr w with
    | .error e => .error e
    | .ok w' => walk io stack c family doaliases (ptr + (IFNAMSIZ + addrLen (saFamily w.buf ptr))) w'
  else .ok w
termination_by c.ifcLen - ptr
decreasing_by
  simp only [IFNAMSIZ]
  omega

/-- `stack` is the memory from `ifrcopy` on. -/
def getIfiInfo (io : Ioctls) (stack : Memory Byte) (answers : List ConfAnswer) (family : ℤ) (doaliases : Bool) :
    Except Failure Walk :=
  match getIfconf answers with
  | .error e => .error e
  | .ok c => walk io stack c family doaliases 0 ⟨c.buf, [0], [], []⟩

section Visits

variable {io : Ioctls} {stack : Memory Byte} {c : Ifconf} {family : ℤ} {doaliases : Bool} {ptr : ℕ} {w w' : Walk}

theorem visit_cases (h : visit io stack c family doaliases ptr w = .ok w') :
    (saFamily w.buf ptr ≠ family ∧ w' = { w with visited := w.visited ++ [ptr] }) ∨
    ∃ buf, saFamily w.buf ptr = family ∧ cutColon c w.buf ptr = .ok buf ∧
      ((strncmp w.lastname (ifrName buf ptr) IFNAMSIZ ∧ doaliases = false ∧
          w' = { w with buf := buf, visited := w.visited ++ [ptr] }) ∨
        ∃ entry, ¬ (strncmp w.lastname (ifrName buf ptr) IFNAMSIZ ∧ doaliases = false) ∧
          newEntry io stack buf ptr (if strncmp w.lastname (ifrName buf ptr) IFNAMSIZ then IFI_ALIAS else 0) =
            .ok entry ∧
          w' = ⟨buf, ifrName buf ptr, w.list ++ entry.toList, w.visited ++ [ptr]⟩) := by
  unfold visit at h
  dsimp only at h
  by_cases hfamily : saFamily w.buf ptr = family
  · refine .inr ?_
    rw [if_neg (not_not_intro hfamily)] at h
    cases hcut : cutColon c w.buf ptr with
    | error e =>
      rw [hcut] at h
      cases h
    | ok buf =>
      refine ⟨buf, hfamily, rfl, ?_⟩
      rw [hcut] at h
      dsimp only at h
      by_cases hknown : strncmp w.lastname (ifrName buf ptr) IFNAMSIZ ∧ doaliases = false
      · rw [if_pos hknown] at h
        exact .inl ⟨hknown.1, hknown.2, (Except.ok.inj h).symm⟩
      · rw [if_neg hknown] at h
        cases hentry : newEntry io stack buf ptr
            (if strncmp w.lastname (ifrName buf ptr) IFNAMSIZ then IFI_ALIAS else 0) with
        | error e =>
          rw [hentry] at h
          cases h
        | ok entry =>
          rw [hentry] at h
          exact .inr ⟨entry, hknown, rfl, (Except.ok.inj h).symm⟩
  · rw [if_pos hfamily] at h
    exact .inl ⟨hfamily, (Except.ok.inj h).symm⟩

theorem visited_visit (h : visit io stack c family doaliases ptr w = .ok w') : w'.visited = w.visited ++ [ptr] := by
  rcases visit_cases h with ⟨-, rfl⟩ | ⟨buf, -, -, ⟨-, -, rfl⟩ | ⟨entry, -, -, rfl⟩⟩ <;> rfl

theorem visited_walk (h : walk io stack c family doaliases ptr w = .ok w') : w.visited <+: w'.visited := by
  fun_induction walk io stack c family doaliases ptr w with
  | case1 ptr w hlt e hvisit => cases h
  | case2 ptr w hlt w₁ hvisit ih =>
    have hfirst := visited_visit hvisit
    exact (List.prefix_append _ _).trans (hfirst ▸ ih h)
  | case3 ptr w hge => exact Except.ok.inj h ▸ List.prefix_rfl

theorem visited_two {len : ℕ} (hlen : IFNAMSIZ + addrLen (saFamily w.buf ptr) = len) (hlt : ptr + len < c.ifcLen)
    (h : walk io stack c family doaliases ptr w = .ok w') : w.visited ++ [ptr] ++ [ptr + len] <+: w'.visited := by
  rw [walk, if_pos (by omega)] at h
  cases hfirst : visit io stack c family doaliases ptr w with
  | error e =>
    rw [hfirst] at h
    cases h
  | ok w₁ =>
    rw [hfirst, hlen] at h
    dsimp only at h
    rw [walk, if_pos hlt] at h
    cases hsecond : visit io stack c family doaliases (ptr + len) w₁ with
    | error e =>
      rw [hsecond] at h
      cases h
    | ok w₂ =>
      rw [hsecond] at h
      rw [← visited_visit hfirst, ← visited_visit hsecond]
      exact visited_walk h

theorem visited_second {k : ℕ} (hk : k ≠ 0) (hlen : c.ifcLen = sizeofIfreq * k)
    (hinet : ∀ i < k, saFamily c.buf (sizeofIfreq * i) = AF_INET)
    (h : walk io stack c family doaliases 0 ⟨c.buf, [0], [], []⟩ = .ok w) : w.visited[1]? = some 32 := by
  have hstep : IFNAMSIZ + addrLen (saFamily c.buf 0) = 32 := by
    have hfamily : saFamily c.buf 0 = AF_INET := hinet 0 (Nat.pos_of_ne_zero hk)
    rw [hfamily]
    rfl
  have hsize : c.ifcLen = 40 * k := hlen
  obtain ⟨rest, hrest⟩ := visited_two hstep (by omega) h
  rw [← hrest]
  rfl

theorem visited_ne_records {k : ℕ} (hk : k ≠ 0) (hlen : c.ifcLen = sizeofIfreq * k)
    (hinet : ∀ i < k, saFamily c.buf (sizeofIfreq * i) = AF_INET)
    (h : walk io stack c family doaliases 0 ⟨c.buf, [0], [], []⟩ = .ok w) :
    w.visited ≠ (List.range k).map (sizeofIfreq * ·) := by
  intro hvisited
  have hsecond := visited_second hk hlen hinet h
  rw [hvisited, List.getElem?_map] at hsecond
  obtain ⟨i, -, hi⟩ := Option.map_eq_some_iff.mp hsecond
  have hi : 40 * i = 32 := hi
  omega

end Visits

/-- **The records that are visited.** `SIOCGIFCONF` gives `k` records of 40 bytes, and the walk goes on by 32: it
visits just these records when there are none. -/
theorem visits_records_iff (io : Ioctls) (stack : Memory Byte) (answers : List ConfAnswer) (family : ℤ)
    (doaliases : Bool) (c : Ifconf) (k : ℕ) (hconf : getIfconf answers = .ok c) (hlen : c.ifcLen = sizeofIfreq * k)
    (hinet : ∀ i < k, saFamily c.buf (sizeofIfreq * i) = AF_INET) :
    (∃ w, getIfiInfo io stack answers family doaliases = .ok w ∧
      w.visited = (List.range k).map (sizeofIfreq * ·)) ↔ k = 0 := by
  rw [getIfiInfo, hconf]
  dsimp only
  constructor
  · rintro ⟨w, hw, hvisited⟩
    by_contra hk
    exact visited_ne_records hk hlen hinet hw hvisited
  · rintro rfl
    refine ⟨⟨c.buf, [0], [], []⟩, ?_, rfl⟩
    have hge : ¬ 0 < c.ifcLen := Nat.not_lt.mpr (Nat.le_of_eq hlen)
    rw [walk, if_neg hge]

/-- The records of two interfaces, `l` and `e`. -/
def twoRecords : Memory Byte := fun i =>
  if i = 0 then 108 else if i = 40 then 101 else if i = 16 ∨ i = 56 then 2 else 0

/-- Requests for interfaces that are up. -/
def allUp : Ioctls :=
  ⟨fun _ => some IFF_UP, fun _ => some 1500, fun _ => some ⟨List.replicate 16 0, rfl⟩,
    fun _ => some ⟨List.replicate 16 0, rfl⟩⟩

theorem getIfconf_twoRecords :
    getIfconf [.filled 80 twoRecords, .filled 80 twoRecords] = .ok ⟨twoRecords, 80, 4400, by decide⟩ := rfl

theorem twoRecords_inet : ∀ i < 2, saFamily twoRecords (sizeofIfreq * i) = AF_INET := by decide

theorem visits_records_iff_sample :
    getIfconf [.filled 80 twoRecords, .filled 80 twoRecords] = .ok ⟨twoRecords, 80, 4400, by decide⟩ ∧
    ((∃ w, getIfiInfo allUp (fun _ => 0) [.filled 80 twoRecords, .filled 80 twoRecords] AF_INET true = .ok w ∧
      w.visited = (List.range 2).map (sizeofIfreq * ·)) ↔ 2 = 0) :=
  ⟨rfl, visits_records_iff allUp (fun _ => 0) _ AF_INET true _ 2 getIfconf_twoRecords rfl twoRecords_inet⟩

/-- Their walk: it meets the first record, and never the second. -/
theorem visits_two_records :
    ∃ w, getIfiInfo allUp (fun _ => 0) [.filled 80 twoRecords, .filled 80 twoRecords] AF_INET true = .ok w ∧
      w.visited = [0, 32, 64] ∧ w.visited ≠ (List.range 2).map (sizeofIfreq * ·) := by
  have hrun : (getIfiInfo allUp (fun _ => 0) [.filled 80 twoRecords, .filled 80 twoRecords] AF_INET true).toOption.map
      (·.visited) = some [0, 32, 64] := by
    decide +kernel
  cases hget : getIfiInfo allUp (fun _ => 0) [.filled 80 twoRecords, .filled 80 twoRecords] AF_INET true with
  | error e =>
    rw [hget] at hrun
    cases hrun
  | ok w =>
    rw [hget] at hrun
    have hvisited : w.visited = [0, 32, 64] := Option.some.inj hrun
    exact ⟨w, rfl, hvisited, by rw [hvisited]; decide⟩

end UnixNetProg.Ifi
