import UnixNetProg.Ifi.GetIfiInfo

/-!
# Aliases on and off

`get_ifi_info(family, 0)` and `get_ifi_info(family, 1)` on the same records. The two runs cut the same names and
visit the same offsets. Their `lastname` need not have the same bytes, since a record that is passed over leaves
it alone, but it is the same string (`Sim`).
-/

namespace UnixNetProg.Ifi

open Lib

/-- An entry that is not marked as an alias. -/
def IfiInfo.primary (ifi : IfiInfo) : Bool := ifi.myflags &&& IFI_ALIAS = 0

/-- No request fails. -/
structure Ioctls.Answer (io : Ioctls) : Prop where
  flags : ∀ name, (io.flags name).isSome
  mtu : ∀ name, (io.mtu name).isSome
  brdaddr : ∀ name, (io.brdaddr name).isSome
  dstaddr : ∀ name, (io.dstaddr name).isSome

/-! ### One entry -/

section Entry

variable {io : Ioctls} {stack buf : Memory Byte} {ptr : ℕ}

theorem newEntry_myflags {myflags : BitVec 16} {entry : Option IfiInfo}
    (h : newEntry io stack buf ptr myflags = .ok entry) : ∀ ifi ∈ entry.toList, ifi.myflags = myflags := by
  simp only [newEntry, bind, Except.bind, pure, Except.pure] at h
  split at h
  · cases h
  · split at h
    · obtain rfl := Except.ok.inj h
      exact fun ifi hifi => absurd hifi List.not_mem_nil
    · split at h
      · cases h
      · split at h
        · cases h
        · obtain rfl := Except.ok.inj h
          intro ifi hifi
          rw [Option.toList_some, List.mem_singleton] at hifi
          rw [hifi]

theorem filter_newEntry {known : Bool} {entry : Option IfiInfo}
    (h : newEntry io stack buf ptr (if known then IFI_ALIAS else 0) = .ok entry) :
    entry.toList.filter IfiInfo.primary = if known then [] else entry.toList := by
  have hmark := newEntry_myflags h
  cases known with
  | true =>
    refine List.filter_eq_nil_iff.mpr fun ifi hifi => ?_
    rw [IfiInfo.primary, hmark ifi hifi]
    decide
  | false =>
    refine List.filter_eq_self.mpr fun ifi hifi => ?_
    rw [IfiInfo.primary, hmark ifi hifi]
    rfl

theorem exists_ask {α : Type} {answer : Option α} (h : answer.isSome) : ∃ a, ask answer = .ok a := by
  obtain ⟨a, ha⟩ := Option.isSome_iff_exists.mp h
  exact ⟨a, by rw [ha]; rfl⟩

theorem exists_addresses (hio : io.Answer) (buf : Memory Byte) (ptr : ℕ) (name : CString)
    (flags : BitVec 16) (ifrcopy : Memory Byte) :
    ∃ addrs, addresses io name flags buf ifrcopy ptr = .ok addrs := by
  obtain ⟨brd, hbrd⟩ := exists_ask (hio.brdaddr name)
  obtain ⟨dst, hdst⟩ := exists_ask (hio.dstaddr name)
  simp only [addresses, hbrd, hdst, bind, Except.bind, pure, Except.pure]
  split_ifs <;> exact ⟨_, rfl⟩

theorem exists_newEntry (hio : io.Answer) (stack buf : Memory Byte) (ptr : ℕ) (myflags : BitVec 16) :
    ∃ entry, newEntry io stack buf ptr myflags = .ok entry := by
  obtain ⟨flags, hflags⟩ := exists_ask (hio.flags (stringOf (ifrName buf ptr)))
  obtain ⟨mtu, hmtu⟩ := exists_ask (hio.mtu (stringOf (ifrName buf ptr)))
  obtain ⟨addrs, haddrs⟩ := exists_addresses hio buf ptr (stringOf (ifrName buf ptr)) flags
    (stack.store 0 (buf.slice ptr (ptr + sizeofIfreq)))
  simp only [newEntry, hflags, hmtu, haddrs, bind, Except.bind, pure, Except.pure]
  split_ifs <;> exact ⟨_, rfl⟩

end Entry

/-! ### The two runs -/

/-- The run without aliases on the left. -/
structure Sim (w₀ w₁ : Walk) : Prop where
  buf : w₀.buf = w₁.buf
  lastname : stringOf (w₀.lastname.take IFNAMSIZ) = stringOf (w₁.lastname.take IFNAMSIZ)
  list : w₀.list = w₁.list.filter IfiInfo.primary
  visited : w₀.visited = w₁.visited

section Runs

variable {io : Ioctls} {stack : Memory Byte} {c : Ifconf} {family : ℤ} {ptr : ℕ} {w₀ w₁ w₁' : Walk}

theorem visit_sim (h : visit io stack c family true ptr w₁ = .ok w₁') (hsim : Sim w₀ w₁) :
    ∃ w₀', visit io stack c family false ptr w₀ = .ok w₀' ∧ Sim w₀' w₁' := by
  have hvisited := congrArg (· ++ [ptr]) hsim.visited
  rcases visit_cases h with ⟨hfamily, rfl⟩ | ⟨buf, hfamily, hcut, ⟨-, hoff, -⟩ | ⟨entry, -, hentry, rfl⟩⟩
  · refine ⟨{ w₀ with visited := w₀.visited ++ [ptr] }, ?_, ⟨hsim.buf, hsim.lastname, hsim.list, hvisited⟩⟩
    rw [← hsim.buf] at hfamily
    rw [visit, if_pos hfamily]
  · cases hoff
  · rw [← hsim.buf] at hfamily hcut
    -- both runs take the name for the same one as before, or for a new one
    have hknown : strncmp w₀.lastname (ifrName buf ptr) IFNAMSIZ = strncmp w₁.lastname (ifrName buf ptr) IFNAMSIZ := by
      rw [strncmp, strncmp, hsim.lastname]
    have hfilter := filter_newEntry hentry
    cases hk : strncmp w₁.lastname (ifrName buf ptr) IFNAMSIZ with
    | true =>
      rw [hk] at hknown hfilter
      refine ⟨⟨buf, w₀.lastname, w₀.list, w₀.visited ++ [ptr]⟩, ?_, rfl, ?_, ?_, hvisited⟩
      · rw [visit, if_neg (not_not_intro hfamily)]
        dsimp only
        rw [hcut]
        dsimp only
        rw [hknown, if_pos ⟨rfl, rfl⟩]
      · exact of_decide_eq_true hknown
      · rw [List.filter_append, hfilter, if_pos rfl, List.append_nil]
        exact hsim.list
    | false =>
      rw [hk] at hknown hfilter hentry
      refine ⟨⟨buf, ifrName buf ptr, w₀.list ++ entry.toList, w₀.visited ++ [ptr]⟩, ?_, rfl, rfl, ?_, hvisited⟩
      · rw [visit, if_neg (not_not_intro hfamily)]
        dsimp only
        rw [hcut]
        dsimp only
        rw [hknown, if_neg (fun h => Bool.false_ne_true h.1), hentry]
      · rw [List.filter_append, hfilter, if_neg Bool.false_ne_true, hsim.list]

theorem walk_sim (h : walk io stack c family true ptr w₁ = .ok w₁') (hsim : Sim w₀ w₁) :
    ∃ w₀', walk io stack c family false ptr w₀ = .ok w₀' ∧ Sim w₀' w₁' := by
  fun_induction walk io stack c family true ptr w₁ generalizing w₀ with
  | case1 ptr w₁ hlt e hvisit => cases h
  | case2 ptr w₁ hlt w₂ hvisit ih =>
    obtain ⟨w₀', hvisit', hsim'⟩ := visit_sim hvisit hsim
    obtain ⟨w₀'', hwalk, hsim''⟩ := ih h hsim'
    refine ⟨w₀'', ?_, hsim''⟩
    rw [walk, if_pos hlt, hvisit', hsim.buf]
    exact hwalk
  | case3 ptr w₁ hge =>
    obtain rfl := Except.ok.inj h
    refine ⟨w₀, ?_, hsim⟩
    rw [walk, if_neg hge]

/-! ### The walk returns -/

theorem strchr_isSome {buf : Memory Byte} (ch : Byte) {n p : ℕ} (h : ∃ i < n, buf (p + i) = 0) :
    ∃ r, strchr buf ch n p = some r := by
  induction n generalizing p with
  | zero =>
    obtain ⟨i, hi, -⟩ := h
    exact absurd hi (Nat.not_lt_zero i)
  | succ n ih =>
    rw [strchr]
    split_ifs with hch hzero
    · exact ⟨_, rfl⟩
    · exact ⟨_, rfl⟩
    · obtain ⟨i, hi, hnul⟩ := h
      cases i with
      | zero => exact absurd hnul hzero
      | succ i => exact ih ⟨i, Nat.lt_of_succ_lt_succ hi, by rw [← hnul, Nat.add_assoc, Nat.add_comm 1]⟩

theorem exists_cutColon (hfamily : saFamily w₁.buf ptr < 256) (hptr : ptr < c.ifcLen) :
    ∃ buf, cutColon c w₁.buf ptr = .ok buf := by
  have hroom : c.ifcLen + 400 ≤ c.size := c.room
  have hhigh : w₁.buf (ptr + 17) = 0 := by
    rw [saFamily, word16] at hfamily
    have hzero : (w₁.buf (ptr + 17)).toNat = 0 := by omega
    exact UInt8.toNat_inj.mp hzero
  obtain ⟨r, hr⟩ := strchr_isSome 58 ⟨17, (by omega : 17 < c.size - ptr), hhigh⟩
  rw [cutColon, hr]
  cases r with
  | none => exact ⟨_, rfl⟩
  | some cptr => exact ⟨_, rfl⟩

theorem exists_visit (hio : io.Answer) (hfamily : family < 256) (hptr : ptr < c.ifcLen) (stack : Memory Byte)
    (doaliases : Bool) (w₁ : Walk) : ∃ w, visit io stack c family doaliases ptr w₁ = .ok w := by
  rw [visit]
  dsimp only
  by_cases h : saFamily w₁.buf ptr = family
  · obtain ⟨buf, hbuf⟩ := exists_cutColon (h ▸ hfamily) hptr
    obtain ⟨entry, hentry⟩ := exists_newEntry hio stack buf ptr
      (if strncmp w₁.lastname (ifrName buf ptr) IFNAMSIZ then IFI_ALIAS else 0)
    rw [if_neg (not_not_intro h), hbuf]
    dsimp only
    rw [hentry]
    split_ifs <;> exact ⟨_, rfl⟩
  · rw [if_pos h]
    exact ⟨_, rfl⟩

theorem exists_walk (hio : io.Answer) (hfamily : family < 256) (doaliases : Bool) :
    ∃ w, walk io stack c family doaliases ptr w₁ = .ok w := by
  fun_induction walk io stack c family doaliases ptr w₁ with
  | case1 ptr w₁ hlt e hvisit =>
    obtain ⟨w, hw⟩ := exists_visit hio hfamily hlt stack doaliases w₁
    rw [hvisit] at hw
    cases hw
  | case2 ptr w₁ hlt w₂ hvisit ih => exact ih
  | case3 ptr w₁ hge => exact ⟨_, rfl⟩

end Runs

/-- **Aliases on and off.** When `get_ifi_info(family, 1)` returns a list, `get_ifi_info(family, 0)` returns the
entries of it that are not marked as aliases; and it does return when the requests are answered. -/
theorem getIfiInfo_aliases (io : Ioctls) (stack : Memory Byte) (answers : List ConfAnswer) (family : ℤ)
    (hfamily : family = AF_INET ∨ family = AF_INET6) :
    (∀ w₁, getIfiInfo io stack answers family true = .ok w₁ →
      ∃ w₀, getIfiInfo io stack answers family false = .ok w₀ ∧ w₀.list = w₁.list.filter IfiInfo.primary) ∧
    ∀ c, getIfconf answers = .ok c → io.Answer → ∃ w₁, getIfiInfo io stack answers family true = .ok w₁ := by
  constructor
  · intro w₁ h
    unfold getIfiInfo at h ⊢
    cases hconf : getIfconf answers with
    | error e =>
      rw [hconf] at h
      cases h
    | ok c =>
      rw [hconf] at h
      obtain ⟨w₀, hw₀, hsim⟩ := walk_sim h ⟨rfl, rfl, rfl, rfl⟩
      exact ⟨w₀, hw₀, hsim.list⟩
  · intro c hconf hio
    have hsmall : family < 256 := by
      rcases hfamily with rfl | rfl <;> decide
    rw [getIfiInfo, hconf]
    exact exists_walk hio hsmall true

/-- Two records of `l`, the second of them as `l:`. -/
def aliasRecords : Memory Byte := fun i =>
  if i = 0 ∨ i = 32 then 108 else if i = 33 then 58 else if i = 16 ∨ i = 48 then 2 else 0

theorem getIfiInfo_aliases_sample :
    ∃ w₀ w₁, getIfiInfo allUp (fun _ => 0) [.filled 64 aliasRecords, .filled 64 aliasRecords] AF_INET false = .ok w₀ ∧
      getIfiInfo allUp (fun _ => 0) [.filled 64 aliasRecords, .filled 64 aliasRecords] AF_INET true = .ok w₁ ∧
      w₀.list = w₁.list.filter IfiInfo.primary := by
  have hio : allUp.Answer := ⟨fun _ => rfl, fun _ => rfl, fun _ => rfl, fun _ => rfl⟩
  have h := getIfiInfo_aliases allUp (fun _ => 0) [.filled 64 aliasRecords, .filled 64 aliasRecords] AF_INET (.inl rfl)
  obtain ⟨w₁, hw₁⟩ := h.2 _ rfl hio
  obtain ⟨w₀, hw₀, hlist⟩ := h.1 w₁ hw₁
  exact ⟨w₀, w₁, hw₀, hw₁, hlist⟩

end UnixNetProg.Ifi
