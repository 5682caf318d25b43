import UnixNetProg.Icmpd.Icmpd

/-!
# Who gets the ICMP errors (`icmpd`)

`clientdone` frees a slot without clearing its family and port, and `readable_listen` fills in just
`connfd`. So a new connection in a used slot is sent the errors of the socket that the last one passed,
until it passes one itself. The daemon does not look at the type of the socket that it is passed either.
-/

namespace UnixNetProg.Icmpd

open Lib

/-- The connection in the slot has been answered with "1". -/
def Answered (s : Daemon) (i : ℕ) : Prop := ∃ r ∈ s.registered, r.conn = s.owner i

instance (s : Daemon) (i : ℕ) : Decidable (Answered s i) := inferInstanceAs (Decidable (∃ r ∈ _, _))

/-- The connection has passed the UDP socket that the quoted datagram comes from. -/
def Owned (s : Daemon) (d : Delivery) : Prop :=
  ∃ r ∈ s.registered, r.conn = d.conn ∧ r.udp ∧ r.family = d.quoted.family ∧ r.lport = d.quoted.sport

instance (s : Daemon) (d : Delivery) : Decidable (Owned s d) := inferInstanceAs (Decidable (∃ r ∈ _, _))

/-- Each connection whose slot fits the quoted datagram has been answered with "1". -/
def AllAnswered (s : Daemon) : Parsed → Prop
  | .quoted q => ∀ i ∈ s.targets q, Answered s i
  | .quit | .ignored => True

instance (s : Daemon) : ∀ p, Decidable (AllAnswered s p)
  | .quoted _ => inferInstanceAs (Decidable (∀ i ∈ _, _))
  | .quit | .ignored => inferInstanceAs (Decidable True)

/-- An ICMP error finds that, and a socket that is passed is a UDP socket. -/
def OwnerStep (s : Daemon) : IcmpdAction → Prop
  | .v4 buf n => AllAnswered s (parseV4 buf n)
  | .v6 buf n => AllAnswered s (parseV6 buf n)
  | .conn _ (.passed sock) => sock.udp = true
  | .conn _ .eof | .conn _ .noFd | .conn _ .error | .listen _ => True

instance (s : Daemon) : ∀ a, Decidable (OwnerStep s a)
  | .v4 buf n => inferInstanceAs (Decidable (AllAnswered s (parseV4 buf n)))
  | .v6 buf n => inferInstanceAs (Decidable (AllAnswered s (parseV6 buf n)))
  | .conn _ (.passed _) => inferInstanceAs (Decidable (_ = true))
  | .conn _ .eof | .conn _ .noFd | .conn _ .error | .listen _ => inferInstanceAs (Decidable True)

/-- The runs in which all steps are so. -/
def icmpdOwned (fdSetsize : ℕ) : TransitionSystem Daemon :=
  .ofActions (· = icmpdStart) (fun s a => IcmpdEnabled s a ∧ OwnerStep s a) (icmpdNext fdSetsize)

/-- An answered connection is the one that its slot describes. -/
structure OwnerInv (s : Daemon) : Prop where
  owner_lt : ∀ i, 0 ≤ (s.client i).connfd → s.owner i < s.accepted
  distinct : ∀ i j, 0 ≤ (s.client i).connfd → 0 ≤ (s.client j).connfd → s.owner i = s.owner j → i = j
  registered_lt : ∀ r ∈ s.registered, r.conn < s.accepted
  entry : ∀ i, 0 ≤ (s.client i).connfd → Answered s i → ∃ r ∈ s.registered,
    r.conn = s.owner i ∧ r.udp ∧ r.family = (s.client i).family ∧ r.lport = (s.client i).lport
  written : ∀ d ∈ s.written, Owned s d

section Steps

variable {s : Daemon} {fdSetsize : ℕ}

theorem ownerInv_start : OwnerInv icmpdStart :=
  ⟨fun _ h => absurd h (show ¬ (0 : ℤ) ≤ -1 by decide), fun _ _ h => absurd h (show ¬ (0 : ℤ) ≤ -1 by decide),
    nofun, fun _ h => absurd h (show ¬ (0 : ℤ) ≤ -1 by decide), nofun⟩

theorem ownerInv_slot (h : OwnerInv s) {s' : Daemon} (i : ℕ)
    (hother : ∀ j ≠ i, s'.client j = s.client j ∧ s'.owner j = s.owner j) (haccepted : s.accepted ≤ s'.accepted)
    (hsub : s.registered ⊆ s'.registered)
    (hnew : ∀ r ∈ s'.registered, r ∈ s.registered ∨ 0 ≤ (s'.client i).connfd ∧ r.conn = s'.owner i)
    (hslot : 0 ≤ (s'.client i).connfd → s'.owner i < s'.accepted ∧
      (∀ j ≠ i, 0 ≤ (s.client j).connfd → s.owner j ≠ s'.owner i) ∧
      (Answered s' i → ∃ r ∈ s'.registered, r.conn = s'.owner i ∧ r.udp ∧ r.family = (s'.client i).family ∧
        r.lport = (s'.client i).lport))
    (hwritten : s'.written = s.written) : OwnerInv s' := by
  refine ⟨fun j hj => ?_, fun j k hj hk heq => ?_, fun r hr => ?_, fun j hj hans => ?_, fun d hd => ?_⟩
  · by_cases hji : j = i
    · rw [hji] at hj ⊢
      exact (hslot hj).1
    · rw [(hother j hji).1] at hj
      rw [(hother j hji).2]
      exact Nat.lt_of_lt_of_le (h.owner_lt j hj) haccepted
  · by_cases hji : j = i
    · by_contra hne
      have hki : k ≠ i := fun hki => hne (hji.trans hki.symm)
      rw [hji] at hj heq
      rw [(hother k hki).1] at hk
      rw [(hother k hki).2] at heq
      exact (hslot hj).2.1 k hki hk heq.symm
    · rw [(hother j hji).1] at hj
      rw [(hother j hji).2] at heq
      by_cases hki : k = i
      · rw [hki] at hk heq
        exact absurd heq ((hslot hk).2.1 j hji hj)
      · rw [(hother k hki).1] at hk
        rw [(hother k hki).2] at heq
        exact h.distinct j k hj hk heq
  · rcases hnew r hr with hr | ⟨hi, hconn⟩
    · exact Nat.lt_of_lt_of_le (h.registered_lt r hr) haccepted
    · rw [hconn]
      exact (hslot hi).1
  · by_cases hji : j = i
    · rw [hji] at hj hans ⊢
      exact (hslot hj).2.2 hans
    · obtain ⟨r, hr, hconn⟩ := hans
      rw [(hother j hji).1] at hj ⊢
      rw [(hother j hji).2] at hconn ⊢
      have hr' : r ∈ s.registered := by
        rcases hnew r hr with hr | ⟨hi, hconn'⟩
        · exact hr
        · exact absurd (hconn.symm.trans hconn') ((hslot hi).2.1 j hji hj)
      obtain ⟨r', hmem, hspec⟩ := h.entry j hj ⟨r, hr', hconn⟩
      exact ⟨r', hsub hmem, hspec⟩
  · rw [hwritten] at hd
    obtain ⟨r, hr, hspec⟩ := h.written d hd
    exact ⟨r, hsub hr, hspec⟩

theorem ownerInv_listen (h : OwnerInv s) (connfd : ℕ) : OwnerInv (readableListen fdSetsize s connfd) := by
  unfold readableListen
  cases hslot : firstSlot (fun i => (s.client i).connfd < 0) fdSetsize with
  | none =>
    refine ⟨fun i hi => Nat.lt_succ_of_lt (h.owner_lt i hi), h.distinct, fun r hr => ?_, h.entry, h.written⟩
    exact Nat.lt_succ_of_lt (h.registered_lt r hr)
  | some i =>
    have howner : Function.update s.owner i s.accepted i = s.accepted := Function.update_self ..
    apply ownerInv_slot h i
    · exact fun j hj => ⟨Function.update_of_ne hj _ _, Function.update_of_ne hj _ _⟩
    · exact Nat.le_succ s.accepted
    · exact List.Subset.refl _
    · exact fun r hr => .inl hr
    · intro _
      dsimp only
      rw [howner]
      refine ⟨Nat.lt_succ_self _, fun j _ hj => Nat.ne_of_lt (h.owner_lt j hj), ?_⟩
      -- the new connection has not been answered yet
      rintro ⟨r, hr, hconn⟩
      exact absurd (hconn.trans howner) (Nat.ne_of_lt (h.registered_lt r hr))
    · rfl

theorem ownerInv_done (h : OwnerInv s) {i : ℕ} {c : Client} (hc : c.connfd < 0) :
    OwnerInv { s with client := Function.update s.client i c } := by
  apply ownerInv_slot h i
  · exact fun j hj => ⟨Function.update_of_ne hj _ _, rfl⟩
  · exact Nat.le_refl _
  · exact List.Subset.refl _
  · exact fun r hr => .inl hr
  · intro hi
    change 0 ≤ (Function.update s.client i c i).connfd at hi
    rw [Function.update_self] at hi
    omega
  · rfl

theorem ownerInv_register (h : OwnerInv s) {i : ℕ} (hi : 0 ≤ (s.client i).connfd) (family lport : ℤ) :
    OwnerInv { s with
      client := Function.update s.client i { s.client i with family := family, lport := lport }
      registered := s.registered ++ [⟨s.owner i, family, lport, true⟩] } := by
  have hself : Function.update s.client i { s.client i with family := family, lport := lport } i =
      { s.client i with family := family, lport := lport } := Function.update_self ..
  apply ownerInv_slot h i
  · exact fun j hj => ⟨Function.update_of_ne hj _ _, rfl⟩
  · exact Nat.le_refl _
  · exact List.subset_append_left _ _
  · intro r hr
    dsimp only
    rw [hself]
    rcases List.mem_append.mp hr with hr | hr
    · exact .inl hr
    · exact .inr ⟨hi, congrArg Registration.conn (List.mem_singleton.mp hr)⟩
  · intro _
    dsimp only
    rw [hself]
    refine ⟨h.owner_lt i hi, fun j hji hj heq => hji (h.distinct j i hj hi heq), fun _ => ?_⟩
    exact ⟨_, List.mem_append_right _ (List.mem_singleton_self _), rfl, rfl, rfl, rfl⟩
  · rfl

theorem ownerInv_conn (h : OwnerInv s) {i : ℕ} (hi : 0 ≤ (s.client i).connfd) {msg : ConnMsg}
    (hudp : OwnerStep s (.conn i msg)) : OwnerInv (readableConn s i msg) := by
  have hdone : OwnerInv (clientDone s i) := ownerInv_done h (show (-1 : ℤ) < 0 by decide)
  unfold readableConn
  cases msg with
  | eof => exact hdone
  | noFd => exact hdone
  | error => exact ⟨h.owner_lt, h.distinct, h.registered_lt, h.entry, h.written⟩
  | passed sock =>
    change sock.udp = true at hudp
    dsimp only
    cases hname : sock.name with
    | none => exact hdone
    | some name =>
      obtain ⟨family, port⟩ := name
      dsimp only
      by_cases herr : sockGetPort family port = 0 ∧ localPort family port sock.bound ≤ 0
      · -- the family and the port stay behind in a slot that is freed
        rw [if_pos herr, clientDone]
        dsimp only
        rw [Function.update_self, Function.update_idem]
        exact ownerInv_done h (show (-1 : ℤ) < 0 by decide)
      · rw [if_neg herr, hudp]
        exact ownerInv_register h hi family (localPort family port sock.bound)

theorem owned_deliveries_iff (h : OwnerInv s) (q : Quoted) :
    (∀ d ∈ s.deliveries q, Owned s d) ↔ ∀ i ∈ s.targets q, Answered s i := by
  constructor
  · intro howned i hi
    obtain ⟨r, hr, hconn, -⟩ := howned ⟨s.owner i, q⟩ (List.mem_map.mpr ⟨i, hi, rfl⟩)
    exact ⟨r, hr, hconn⟩
  · intro hans d hd
    obtain ⟨i, hi, rfl⟩ := List.mem_map.mp hd
    obtain ⟨-, hopen, hfamily, hlport⟩ := mem_targets_iff.mp hi
    obtain ⟨r, hr, hconn, hudp, hrfamily, hrlport⟩ := h.entry i hopen (hans i hi)
    exact ⟨r, hr, hconn, hudp, hrfamily.trans hfamily, hrlport.trans hlport⟩

theorem ownerInv_report (h : OwnerInv s) {p : Parsed} (hans : AllAnswered s p) : OwnerInv (report s p) := by
  cases p with
  | quit => exact ⟨h.owner_lt, h.distinct, h.registered_lt, h.entry, h.written⟩
  | ignored => exact h
  | quoted q =>
    refine ⟨h.owner_lt, h.distinct, h.registered_lt, h.entry, fun d hd => ?_⟩
    rcases List.mem_append.mp hd with hd | hd
    · exact h.written d hd
    · exact (owned_deliveries_iff h q).mpr hans d hd

theorem ownerInv_reachable (h : (icmpdOwned fdSetsize).Reachable s) : OwnerInv s := by
  refine TransitionSystem.invariant ?_ ?_ h
  · intro s hs
    rw [hs]
    exact ownerInv_start
  · intro s s' _ hinv hstep
    obtain ⟨a, ⟨ha, howner⟩, rfl⟩ := hstep
    cases a with
    | listen connfd => exact ownerInv_listen hinv connfd
    | conn i msg => exact ownerInv_conn hinv ha.2.2 howner
    | v4 buf n => exact ownerInv_report hinv howner
    | v6 buf n => exact ownerInv_report hinv howner

/-- **When errors go to their owner.** In every run in which only UDP sockets are passed, and each ICMP
error finds that every connection whose slot fits it has been answered with "1", an error is only written
to a connection that has passed a UDP socket with the family and the port of the quoted datagram. The next
error is written to such connections only just when it finds that too. -/
theorem errors_to_owner (fdSetsize : ℕ) {s : Daemon} (h : (icmpdOwned fdSetsize).Reachable s) :
    (∀ d ∈ s.written, Owned s d) ∧
    ∀ q, (∀ d ∈ s.deliveries q, Owned s d) ↔ ∀ i ∈ s.targets q, Answered s i :=
  ⟨(ownerInv_reachable h).written, owned_deliveries_iff (ownerInv_reachable h)⟩

end Steps

/-- Port 53 is unreachable for a datagram from port 1234. -/
def sampleMessage : List Byte :=
  [0x45] ++ List.replicate 19 0 ++ [3, 3, 0, 0, 0, 0, 0, 0] ++ [0x45] ++ List.replicate 8 0 ++ [17] ++
    List.replicate 10 0 ++ [4, 210, 0, 53] ++ List.replicate 4 0

def sampleBuf (k : ℕ) : Byte := sampleMessage.getD k 0

/-- An IPv4 UDP socket that is bound to port 1234. -/
def sampleSock : PassedSock := ⟨true, some (AF_INET, 1234), none⟩

/-- A client passes its socket and gets the error. -/
theorem errors_to_owner_sample :
    let acts : List IcmpdAction := [.listen 5, .conn 0 (.passed sampleSock), .v4 sampleBuf 56]
    let s := acts.foldl (icmpdNext 1024) icmpdStart
    s.written.map Delivery.conn = [0] ∧ ∀ d ∈ s.written, Owned s d := by
  intro acts s
  have h₀ : (icmpdOwned 1024).Reachable icmpdStart := TransitionSystem.reachable_init rfl
  have h : (icmpdOwned 1024).Reachable s := h₀.actions (by decide)
  exact ⟨by decide, (errors_to_owner 1024 h).1⟩

/-- The client goes away; the next one gets its slot and, before it passes any socket, its errors. -/
theorem errors_to_stranger :
    ¬ ∀ fdSetsize s, (icmpd fdSetsize).Reachable s → ∀ d ∈ s.written, Owned s d := by
  intro hall
  have h₀ : (icmpd 1024).Reachable icmpdStart := TransitionSystem.reachable_init rfl
  have h₁ := h₀.action (a := IcmpdAction.listen 5) (by decide)
  have h₂ := h₁.action (a := IcmpdAction.conn 0 (.passed sampleSock)) (by decide)
  have h₃ := h₂.action (a := IcmpdAction.conn 0 .eof) (by decide)
  have h₄ := h₃.action (a := IcmpdAction.listen 5) (by decide)
  have h₅ := h₄.action (a := IcmpdAction.v4 sampleBuf 56) (by decide)
  have howned := hall 1024 _ h₅
  revert howned
  decide

end UnixNetProg.Icmpd
