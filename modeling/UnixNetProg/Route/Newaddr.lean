import UnixNetProg.Route.GetIfiInfo

/-!
# The addresses of an interface

With each `RTM_NEWADDR` message the last entry gets the addresses of the message, or a copy of it does, or they
are left out. What the entry becomes does not depend on the ones before it.
-/

namespace UnixNetProg.Route

open Lib Libroute

section Addresses

variable {w : ℕ}

def HasIfa (msg : RtMsg w) : Prop := (msg.sas RTAX_IFA).isSome

/-- The message has something that is stored for an interface with these flags. -/
def Contributes (flags : BitVec 32) (msg : RtMsg w) : Prop :=
  HasIfa msg ∨ (flags &&& IFF_BROADCAST ≠ 0 ∨ flags &&& IFF_POINTOPOINT ≠ 0) ∧ (msg.sas RTAX_BRD).isSome

/-- All addresses of an entry. -/
def Entry.origins (en : Entry) : List Origin := en.addr.toList ++ en.brdaddr.toList ++ en.dstaddr.toList

/-- The addresses of the list, by their messages. -/
def addrTags (list : List Entry) : List (ℕ × ℕ) := list.filterMap fun en => en.addr.map fun o => (o.iface, o.msg)

theorem addrTags_append (l₁ l₂ : List Entry) : addrTags (l₁ ++ l₂) = addrTags l₁ ++ addrTags l₂ :=
  List.filterMap_append

theorem addrTags_of_none {en : Entry} (h : en.addr = none) : addrTags [en] = [] := by
  rw [addrTags, List.filterMap_cons_none (by rw [h]; rfl)]
  rfl

end Addresses

/-! ### One message -/

section Messages

variable {w : ℕ} {doaliases : Bool} {i j : ℕ} {x : RtMsg w} {s s' : State}

/-- An address of a message, with where it is from. -/
def originOf (i j : ℕ) (x : RtMsg w) (k : ℕ) : Option Origin := (x.sas k).map fun sa => ⟨i, j, sa.value⟩

theorem attach_eq (flags : BitVec 32) (ifi : Entry) :
    attach w i j flags x ifi =
      { ifi with
        addr := (originOf i j x RTAX_IFA).or ifi.addr
        brdaddr := if flags &&& IFF_BROADCAST ≠ 0 then (originOf i j x RTAX_BRD).or ifi.brdaddr else ifi.brdaddr
        dstaddr :=
          if flags &&& IFF_POINTOPOINT ≠ 0 then (originOf i j x RTAX_BRD).or ifi.dstaddr else ifi.dstaddr } := by
  have horigin : ∀ k < RTAX_MAX, (rtiInfo w x.addrs x.body k).map (fun sa => (⟨i, j, saBytes x.body sa⟩ : Origin)) =
      originOf i j x k := by
    intro k hk
    have hvalue := congrArg (Option.map fun bytes => (⟨i, j, bytes⟩ : Origin)) (x.saBytes_eq hk)
    rw [Option.map_map, Option.map_map] at hvalue
    exact hvalue
  dsimp only [attach]
  rw [horigin RTAX_IFA (by decide), horigin RTAX_BRD (by decide)]
  split_ifs <;> rfl

theorem attach_of_not_contributes {flags : BitVec 32} (h : ¬Contributes flags x) (ifi : Entry) :
    attach w i j flags x ifi = ifi := by
  obtain ⟨hifa, hbrd⟩ := not_or.mp h
  have haddr : originOf i j x RTAX_IFA = none := by
    rw [originOf, Option.not_isSome_iff_eq_none.mp hifa]
    rfl
  have hother : ∀ old : Option Origin, (flags &&& IFF_BROADCAST ≠ 0 ∨ flags &&& IFF_POINTOPOINT ≠ 0) →
      (originOf i j x RTAX_BRD).or old = old := by
    intro old hflags
    rw [originOf, Option.not_isSome_iff_eq_none.mp fun hsome => hbrd ⟨hflags, hsome⟩]
    rfl
  rw [attach_eq, haddr]
  by_cases hb : flags &&& IFF_BROADCAST ≠ 0
  · rw [if_pos hb, hother _ (.inl hb)]
    by_cases hp : flags &&& IFF_POINTOPOINT ≠ 0
    · rw [if_pos hp, hother _ (.inl hb)]
      rfl
    · rw [if_neg hp]
      rfl
  · rw [if_neg hb]
    by_cases hp : flags &&& IFF_POINTOPOINT ≠ 0
    · rw [if_pos hp, hother _ (.inr hp)]
      rfl
    · rw [if_neg hp]
      rfl

/-- Whom an entry is for. -/
def Entry.id (en : Entry) : ℕ × ℤ × CString := (en.owner, en.index, en.name)

theorem id_attach (flags : BitVec 32) (ifi : Entry) : (attach w i j flags x ifi).id = ifi.id := by
  rw [attach_eq]
  rfl

/-- Each address of an entry, with its number in a message, is as `P` says. -/
def Entry.All (P : ℕ → Origin → Prop) (en : Entry) : Prop :=
  (∀ o ∈ en.addr, P RTAX_IFA o) ∧ (∀ o ∈ en.brdaddr, P RTAX_BRD o) ∧ ∀ o ∈ en.dstaddr, P RTAX_BRD o

theorem Entry.All.of_mem_origins {P : Origin → Prop} {en : Entry} (h : en.All fun _ => P) {o : Origin}
    (ho : o ∈ en.origins) : P o := by
  rcases List.mem_append.mp ho with ho | ho
  · rcases List.mem_append.mp ho with ho | ho
    · exact h.1 o (Option.mem_toList.mp ho)
    · exact h.2.1 o (Option.mem_toList.mp ho)
  · exact h.2.2 o (Option.mem_toList.mp ho)

theorem all_attach {P : ℕ → Origin → Prop} {flags : BitVec 32} {ifi : Entry}
    (hnew : ∀ k, ∀ o ∈ originOf i j x k, P k o) (h : ifi.All P) : (attach w i j flags x ifi).All P := by
  have hor : ∀ k (old : Option Origin), (∀ o ∈ old, P k o) → ∀ o ∈ (originOf i j x k).or old, P k o := by
    intro k old hold o ho
    rcases Option.or_eq_some_iff.mp ho with ho | ⟨-, ho⟩
    · exact hnew k o ho
    · exact hold o ho
  rw [attach_eq]
  refine ⟨hor _ _ h.1, ?_, ?_⟩
  · dsimp only
    split_ifs
    · exact hor _ _ h.2.1
    · exact h.2.1
  · dsimp only
    split_ifs
    · exact hor _ _ h.2.2
    · exact h.2.2

theorem exists_origin_attach {flags : BitVec 32} (h : Contributes flags x) (ifi : Entry) :
    ∃ o ∈ (attach w i j flags x ifi).origins, o.iface = i := by
  have hfirst : ∀ k (old : Option Origin), (x.sas k).isSome →
      ∃ o, (originOf i j x k).or old = some o ∧ o.iface = i := by
    intro k old hsome
    obtain ⟨sa, hsa⟩ := Option.isSome_iff_exists.mp hsome
    refine ⟨⟨i, j, sa.value⟩, ?_, rfl⟩
    rw [originOf, hsa]
    rfl
  rw [attach_eq, Entry.origins]
  rcases h with hifa | ⟨hb | hp, hbrd⟩
  · obtain ⟨o, ho, hi⟩ := hfirst RTAX_IFA ifi.addr hifa
    exact ⟨o, List.mem_append_left _ (List.mem_append_left _ (Option.mem_toList.mpr ho)), hi⟩
  · obtain ⟨o, ho, hi⟩ := hfirst RTAX_BRD ifi.brdaddr hbrd
    refine ⟨o, List.mem_append_left _ (List.mem_append_right _ (Option.mem_toList.mpr ?_)), hi⟩
    dsimp only
    rw [if_pos hb]
    exact ho
  · obtain ⟨o, ho, hi⟩ := hfirst RTAX_BRD ifi.dstaddr hbrd
    refine ⟨o, List.mem_append_right _ (Option.mem_toList.mpr ?_), hi⟩
    dsimp only
    rw [if_pos hp]
    exact ho

/-- An address of one kind of interface is replaced only by one of the interface of the message. -/
theorem exists_origin_attach_of_exists {D : ℕ → Prop} {flags : BitVec 32} {ifi : Entry} (hi : D i)
    (h : ∃ o ∈ ifi.origins, D o.iface) : ∃ o ∈ (attach w i j flags x ifi).origins, D o.iface := by
  by_cases hc : Contributes flags x
  · obtain ⟨o, ho, rfl⟩ := exists_origin_attach (i := i) (j := j) hc ifi
    exact ⟨o, ho, hi⟩
  · rw [attach_of_not_contributes hc]
    exact h

theorem isSome_addr_attach (flags : BitVec 32) (ifi : Entry) :
    (attach w i j flags x ifi).addr.isSome ↔ HasIfa x ∨ ifi.addr.isSome := by
  rw [attach_eq]
  dsimp only
  rw [Option.isSome_or, Bool.or_eq_true, originOf, Option.isSome_map, HasIfa]

end Messages

/-! ### The messages of an interface -/

section Growing

variable {w : ℕ} {doaliases : Bool} {i j : ℕ} {flags : BitVec 32} {msgs : List (RtMsg w)} {en : Entry}
  {list : List Entry}

/-- What the last entry becomes with the `RTM_NEWADDR` messages from number `j` on. -/
inductive Grows (doaliases : Bool) (i : ℕ) (flags : BitVec 32) : ℕ → List (RtMsg w) → Entry → List Entry → Prop
  | done (j : ℕ) (en : Entry) : Grows doaliases i flags j [] en [en]
  | skip {j x msgs en list} : en.addr.isSome → doaliases = false → Grows doaliases i flags (j + 1) msgs en list →
      Grows doaliases i flags j (x :: msgs) en list
  | another {j x msgs en list} : en.addr.isSome → doaliases = true →
      Grows doaliases i flags (j + 1) msgs (attach w i j flags x en.another) list →
      Grows doaliases i flags j (x :: msgs) en (en :: list)
  | store {j x msgs en list} : en.addr = none →
      Grows doaliases i flags (j + 1) msgs (attach w i j flags x en) list →
      Grows doaliases i flags j (x :: msgs) en list

theorem Grows.ne_nil (h : Grows doaliases i flags j msgs en list) : list ≠ [] := by
  induction h with
  | done j en => exact List.cons_ne_nil _ _
  | skip _ _ _ ih => exact ih
  | another _ _ _ _ => exact List.cons_ne_nil _ _
  | store _ _ ih => exact ih

theorem Grows.getLast?_append (h : Grows doaliases i flags j msgs en list) (before : List Entry) :
    (before ++ list).getLast? = list.getLast? := by
  rw [List.getLast?_append, List.getLast?_eq_some_getLast h.ne_nil, Option.some_or]

theorem exists_grows {s : State} (hifi : s.ifi = some en) (j : ℕ) (msgs : List (RtMsg w)) :
    ∃ list s', Grows doaliases i s.flags j msgs en list ∧ newaddrs w doaliases i j msgs s = some s' ∧
      s'.list = s.before ++ list ∧ s'.ifi = list.getLast? := by
  induction msgs generalizing s en j with
  | nil =>
    refine ⟨[en], s, .done j en, rfl, ?_, hifi⟩
    rw [State.list, hifi]
    rfl
  | cons x msgs ih =>
    rw [newaddrs, newaddr, hifi]
    dsimp only
    by_cases haddr : en.addr.isSome
    · rw [if_pos haddr]
      cases hd : doaliases with
      | false =>
        obtain ⟨list, s', hgrow, hrun, hlist, hlast⟩ := ih hifi (j + 1)
        rw [hd] at hgrow hrun
        exact ⟨list, s', .skip haddr rfl hgrow, hrun, hlist, hlast⟩
      | true =>
        obtain ⟨list, s', hgrow, hrun, hlist, hlast⟩ := ih
          (s := { s with before := s.before ++ [en], ifi := some (attach w i j s.flags x en.another) }) rfl (j + 1)
        rw [hd] at hgrow hrun
        refine ⟨en :: list, s', .another haddr rfl hgrow, hrun, ?_, ?_⟩
        · rw [hlist, List.append_assoc]
          rfl
        · rw [hlast]
          exact (hgrow.getLast?_append [en]).symm
    · rw [if_neg haddr]
      obtain ⟨list, s', hgrow, hrun, hlist, hlast⟩ := ih
        (s := { s with ifi := some (attach w i j s.flags x en) }) rfl (j + 1)
      exact ⟨list, s', .store (Option.not_isSome_iff_eq_none.mp haddr) hgrow, hrun, hlist, hlast⟩

theorem Grows.id_eq (h : Grows doaliases i flags j msgs en list) : ∀ en' ∈ list, en'.id = en.id := by
  induction h with
  | done j en =>
    intro en' h'
    rw [List.mem_singleton.mp h']
  | skip _ _ _ ih => exact ih
  | another _ _ _ ih =>
    intro en' h'
    rcases List.mem_cons.mp h' with rfl | h'
    · rfl
    · exact (ih en' h').trans (id_attach _ _)
  | store _ _ ih => exact fun en' h' => (ih en' h').trans (id_attach _ _)

theorem Grows.all {P : ℕ → Origin → Prop} (h : Grows doaliases i flags j msgs en list)
    (hnew : ∀ n msg, msgs[n]? = some msg → ∀ k, ∀ o ∈ originOf i (j + n) msg k, P k o) (hall : en.All P) :
    ∀ en' ∈ list, en'.All P := by
  induction h with
  | done j en =>
    intro en' h'
    rw [List.mem_singleton.mp h']
    exact hall
  | skip _ _ _ ih => exact ih (fun n msg hmsg => Nat.succ_add_eq_add_succ _ n ▸ hnew (n + 1) msg hmsg) hall
  | another _ _ _ ih =>
    intro en' h'
    rcases List.mem_cons.mp h' with rfl | h'
    · exact hall
    · refine ih (fun n msg hmsg => Nat.succ_add_eq_add_succ _ n ▸ hnew (n + 1) msg hmsg)
        (all_attach (hnew 0 _ rfl) ⟨?_, ?_, ?_⟩) en' h' <;> exact fun _ ho => nomatch ho
  | store _ _ ih =>
    exact ih (fun n msg hmsg => Nat.succ_add_eq_add_succ _ n ▸ hnew (n + 1) msg hmsg) (all_attach (hnew 0 _ rfl) hall)

theorem Grows.kept (h : Grows doaliases i flags j msgs en list)
    (hkeep : ∀ msg ∈ msgs, Contributes flags msg → doaliases = false ∧ en.addr.isSome) :
    ∀ en' ∈ list, en' = en ∨ en' = en.another := by
  induction h with
  | done j en => exact fun en' h' => .inl (List.mem_singleton.mp h')
  | skip _ _ _ ih => exact ih fun msg hmsg => hkeep msg (List.mem_cons_of_mem _ hmsg)
  | @another j x msgs en list _ hd _ ih =>
    have hnone : ∀ msg ∈ x :: msgs, ¬Contributes flags msg := by
      intro msg hmsg hc
      exact Bool.false_ne_true ((hkeep msg hmsg hc).1.symm.trans hd)
    rw [attach_of_not_contributes (hnone x List.mem_cons_self)] at ih
    intro en' h'
    rcases List.mem_cons.mp h' with rfl | h'
    · exact .inl rfl
    · exact .inr ((ih (fun msg hmsg hc => absurd hc (hnone msg (List.mem_cons_of_mem _ hmsg))) en' h').elim id id)
  | @store j x msgs en list haddr _ ih =>
    have hnone : ∀ msg ∈ x :: msgs, ¬Contributes flags msg := by
      intro msg hmsg hc
      have hsome := (hkeep msg hmsg hc).2
      rw [haddr] at hsome
      exact Bool.false_ne_true hsome
    rw [attach_of_not_contributes (hnone x List.mem_cons_self)] at ih
    exact ih fun msg hmsg hc => absurd hc (hnone msg (List.mem_cons_of_mem _ hmsg))

theorem Grows.single (h : Grows false i flags j msgs en list) :
    ∃ en', list = [en'] ∧ (en'.addr.isSome ↔ en.addr.isSome ∨ ∃ msg ∈ msgs, HasIfa msg) := by
  generalize hd : false = d at h
  induction h with
  | done j en =>
    refine ⟨en, rfl, .inl, ?_⟩
    rintro (h | ⟨_, h, -⟩)
    · exact h
    · cases h
  | skip haddr _ _ ih =>
    obtain ⟨en', hlist, hiff⟩ := ih
    exact ⟨en', hlist, fun _ => .inl haddr, fun _ => hiff.mpr (.inl haddr)⟩
  | another _ htrue _ _ => exact absurd (hd.trans htrue) Bool.false_ne_true
  | store haddr _ ih =>
    obtain ⟨en', hlist, hiff⟩ := ih
    refine ⟨en', hlist, hiff.trans ?_⟩
    rw [isSome_addr_attach, haddr, List.exists_mem_cons_iff]
    simp only [Option.isSome_none, Bool.false_eq_true, or_false, false_or]

theorem Grows.exists_origin {D : ℕ → Prop} (h : Grows doaliases i flags j msgs en list) (hi : D i)
    (horigin : ∃ o ∈ en.origins, D o.iface) : ∃ en' ∈ list, ∃ o ∈ en'.origins, D o.iface := by
  induction h with
  | done j en => exact ⟨en, List.mem_cons_self, horigin⟩
  | skip _ _ _ ih => exact ih horigin
  | another _ _ _ _ => exact ⟨_, List.mem_cons_self, horigin⟩
  | store _ _ ih => exact ih (exists_origin_attach_of_exists hi horigin)

theorem Grows.harm {D : ℕ → Prop} (h : Grows doaliases i flags j msgs en list) (hi : D i) {msg : RtMsg w}
    (hmsg : msg ∈ msgs) (hc : Contributes flags msg) (hopen : ¬(doaliases = false ∧ en.addr.isSome)) :
    ∃ en' ∈ list, ∃ o ∈ en'.origins, D o.iface := by
  have hown : ∀ {j x ifi}, Contributes flags x → ∃ o ∈ (attach w i j flags x ifi).origins, D o.iface := by
    intro j x ifi hx
    obtain ⟨o, ho, rfl⟩ := exists_origin_attach (i := i) (j := j) hx ifi
    exact ⟨o, ho, hi⟩
  induction h with
  | done j en => cases hmsg
  | skip haddr hd _ _ => exact absurd ⟨hd, haddr⟩ hopen
  | @another j x msgs en list _ hd hgrow ih =>
    have hrest : ∃ en' ∈ list, ∃ o ∈ en'.origins, D o.iface := by
      rcases List.mem_cons.mp hmsg with rfl | hmsg
      · exact hgrow.exists_origin hi (hown hc)
      · exact ih hmsg fun hboth => Bool.false_ne_true (hboth.1.symm.trans hd)
    obtain ⟨en', h', ho⟩ := hrest
    exact ⟨en', List.mem_cons_of_mem _ h', ho⟩
  | @store j x msgs en list haddr hgrow ih =>
    by_cases hx : Contributes flags x
    · exact hgrow.exists_origin hi (hown hx)
    · rcases List.mem_cons.mp hmsg with rfl | hmsg
      · exact absurd hc hx
      · rw [attach_of_not_contributes hx] at ih
        exact ih hmsg hopen

/-- The messages with an address, from number `j` on. -/
def ifaTags (i : ℕ) : ℕ → List (RtMsg w) → List (ℕ × ℕ)
  | _, [] => []
  | j, x :: msgs => ((x.sas RTAX_IFA).map fun _ => (i, j)).toList ++ ifaTags i (j + 1) msgs

theorem mem_ifaTags {tag : ℕ × ℕ} (h : tag ∈ ifaTags i j msgs) : tag.1 = i ∧ j ≤ tag.2 := by
  induction msgs generalizing j with
  | nil => cases h
  | cons x msgs ih =>
    rcases List.mem_append.mp h with h | h
    · obtain ⟨_, -, rfl⟩ := Option.map_eq_some_iff.mp (Option.mem_toList.mp h)
      exact ⟨rfl, Nat.le_refl j⟩
    · obtain ⟨hi, hj⟩ := ih h
      exact ⟨hi, Nat.le_of_succ_le hj⟩

theorem count_ifaTags {n : ℕ} {msg : RtMsg w} (hmsg : msgs[n]? = some msg) (hifa : HasIfa msg) :
    (ifaTags i j msgs).count (i, j + n) = 1 := by
  induction msgs generalizing j n with
  | nil => cases hmsg
  | cons x msgs ih =>
    rw [ifaTags, List.count_append]
    cases n with
    | zero =>
      obtain rfl : x = msg := Option.some.inj hmsg
      obtain ⟨sa, hsa⟩ := Option.isSome_iff_exists.mp hifa
      have hlater : (i, j + 0) ∉ ifaTags i (j + 1) msgs := by
        intro hmem
        exact Nat.not_succ_le_self j (mem_ifaTags hmem).2
      rw [List.count_eq_zero_of_not_mem hlater, hsa]
      exact List.count_singleton_self
    | succ n =>
      have hfirst : (i, j + (n + 1)) ∉ ((x.sas RTAX_IFA).map fun _ => (i, j)).toList := by
        intro hmem
        obtain ⟨_, -, heq⟩ := Option.map_eq_some_iff.mp (Option.mem_toList.mp hmem)
        have hj := congrArg Prod.snd heq
        omega
      have hrest := ih (j := j + 1) (n := n) hmsg
      rw [Nat.succ_add_eq_add_succ] at hrest
      rw [List.count_eq_zero_of_not_mem hfirst, hrest]

theorem Grows.addrTags_eq (h : Grows true i flags j msgs en list) :
    addrTags list = addrTags [en] ++ ifaTags i j msgs := by
  generalize hd : true = d at h
  have hempty : ∀ {j : ℕ} {x : RtMsg w} {ifi : Entry}, ifi.addr = none →
      addrTags [attach w i j flags x ifi] = ((x.sas RTAX_IFA).map fun _ => (i, j)).toList := by
    intro j x ifi hnone
    rw [attach_eq, hnone, addrTags, originOf]
    cases x.sas RTAX_IFA <;> rfl
  induction h with
  | done j en => exact (List.append_nil _).symm
  | skip _ hfalse _ _ => exact absurd (hd.trans hfalse).symm Bool.false_ne_true
  | @another j x msgs en list _ _ _ ih =>
    have hcons : addrTags (en :: list) = addrTags [en] ++ addrTags list := addrTags_append [en] list
    rw [hcons, ih, hempty rfl, ifaTags]
  | @store j x msgs en list haddr _ ih =>
    rw [ih, hempty haddr, addrTags_of_none haddr, ifaTags]
    rfl

end Growing

end UnixNetProg.Route
