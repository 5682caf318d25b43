import Mathlib.Logic.Function.Basic
import UnixNetProg.Lib.Memory
import UnixNetProg.Lib.Transition
import UnixNetProg.Libc

/-!
# The table of ARP replies (`examples/arp`)

A step of the system is one turn of the loop of `thr_fn1`, with what `recvmsg` returns. The buffer is not
initialized, and a receive changes only the bytes that it got. No step looks at `frames`, the frames that were
received so far.
-/

namespace UnixNetProg.Arp

open Lib

/-- `sizeof(recvbuf)`. -/
def sizeofRecvbuf : ℕ := 1024

/-- An Ethernet header and a `struct ether_arp`. -/
def sizeofArpFrame : ℕ := 14 + 28

/-- `ARP_TAB_T`. -/
structure ArpTab where
  ipAddr : CString
  hwAddr : List Byte
  deriving DecidableEq, Repr

structure ThrFn1 where
  recvbuf : Memory Byte
  previousIpAddr : CString
  arpTabs : ℕ → ArpTab
  count : ℕ
  exited : Bool
  frames : List (List Byte)

/-- What `recvmsg` meets: a frame, `errno == EINTR`, or another error. -/
inductive Recv where
  | frame (bytes : List Byte)
  | eintr
  | error
  deriving DecidableEq, Repr

/-- `arp_op == htons(ARPOP_REPLY)`. -/
def isReply (m : Memory Byte) : Bool := m 20 == 0 && m 21 == 2

/-- `tmpIpAddr`, made of `arp_spa`. -/
def tmpIpAddr (m : Memory Byte) : CString := snprintf 16 (dottedQuad (m 28) (m 29) (m 30) (m 31))

/-- `arp_sha`. -/
def arpSha (m : Memory Byte) : List Byte := m.slice 22 28

/-- What `recvmsg` stores. -/
def recvmsg (s : ThrFn1) : Recv → ThrFn1
  | .frame bytes =>
    { s with recvbuf := s.recvbuf.store 0 (bytes.take sizeofRecvbuf), frames := s.frames ++ [bytes] }
  | .eintr => s
  | .error => s

/-- The turn behind `recvmsg`. -/
def checkReply (s : ThrFn1) : ThrFn1 :=
  if isReply s.recvbuf then
    let tmp := tmpIpAddr s.recvbuf
    let s :=
      if s.previousIpAddr ≠ tmp then
        { s with
          arpTabs := Function.update s.arpTabs s.count ⟨tmp, arpSha s.recvbuf⟩
          previousIpAddr := tmp
          count := s.count + 1 }
      else s
    if s.count = 5 then { s with exited := true } else s
  else s

def turn (s : ThrFn1) : Recv → ThrFn1
  | .eintr => recvmsg s .eintr
  | r => checkReply (recvmsg s r)

def noAddr : CString := cstr "255.255.255.0"

def start (recvbuf : Memory Byte) (arpTabs : ℕ → ArpTab) : ThrFn1 := ⟨recvbuf, noAddr, arpTabs, 0, false, []⟩

/-- The thread, with receives that the guard allows. -/
def thrFn1 (guard : ThrFn1 → Recv → Prop) : TransitionSystem ThrFn1 :=
  .ofActions (fun s => ∃ recvbuf arpTabs, s = start recvbuf arpTabs) (fun s r => s.exited = false ∧ guard s r) turn

/-! ### What the table is to hold -/

/-- The bytes of a frame. -/
def frameBytes (frame : List Byte) : Memory Byte := fun k => frame.getD k 0

/-- An ARP reply that was received completely. -/
structure Complete (frame : List Byte) : Prop where
  whole : sizeofArpFrame ≤ frame.length
  reply : isReply (frameBytes frame) = true

def sender (m : Memory Byte) : ArpTab := ⟨dottedQuad (m 28) (m 29) (m 30) (m 31), arpSha m⟩

structure TableOk (s : ThrFn1) : Prop where
  distinct : ∀ i < s.count, ∀ j < s.count, (s.arpTabs i).ipAddr = (s.arpTabs j).ipAddr → i = j
  single : ∀ i < s.count, ∃ frame ∈ s.frames, Complete frame ∧ s.arpTabs i = sender (frameBytes frame)
  le_five : s.count ≤ 5
  exits : s.exited = true ↔ s.count = 5

/-- Where the buffer shows a reply of another sender than the last one, it was received completely just now, and
its sender is not in the table. -/
def NewSender (s : ThrFn1) (r : Recv) : Prop :=
  r ≠ .eintr → isReply (recvmsg s r).recvbuf = true → s.previousIpAddr ≠ tmpIpAddr (recvmsg s r).recvbuf →
    (∃ bytes, r = .frame bytes ∧ sizeofArpFrame ≤ bytes.length) ∧
      ∀ i < s.count, (s.arpTabs i).ipAddr ≠ tmpIpAddr (recvmsg s r).recvbuf

/-! ### One turn -/

section Turn

variable {s : ThrFn1} {r : Recv} {m m' : Memory Byte}

theorem tmpIpAddr_eq (m : Memory Byte) : tmpIpAddr m = (sender m).ipAddr :=
  List.take_of_length_le (length_dottedQuad_le _ _ _ _)

theorem isReply_congr (h : ∀ k < sizeofArpFrame, m k = m' k) : isReply m = isReply m' := by
  rw [isReply, isReply, h 20 (by decide), h 21 (by decide)]

theorem sender_congr (h : ∀ k < sizeofArpFrame, m k = m' k) : sender m = sender m' := by
  have hsha : arpSha m = arpSha m' := Memory.slice_congr fun k _ hk => h k (Nat.lt_trans hk (by decide))
  rw [sender, sender, hsha, h 28 (by decide), h 29 (by decide), h 30 (by decide), h 31 (by decide)]

theorem recvbuf_eq {bytes : List Byte} (h : sizeofArpFrame ≤ bytes.length) :
    ∀ k < sizeofArpFrame, (recvmsg s (.frame bytes)).recvbuf k = frameBytes bytes k := by
  intro k hk
  have hbuf : k < sizeofRecvbuf := Nat.lt_trans hk (by decide)
  have hlt : k < (bytes.take sizeofRecvbuf).length := by
    rw [List.length_take]
    omega
  show (s.recvbuf.store 0 (bytes.take sizeofRecvbuf)) k = bytes.getD k 0
  rw [Memory.store_zero_of_lt _ 0 hlt, List.getD_eq_getElem?_getD, List.getD_eq_getElem?_getD,
    List.getElem?_take_of_lt hbuf]

/-- The state with one more entry. -/
def added (s : ThrFn1) : ThrFn1 :=
  { s with
    arpTabs := Function.update s.arpTabs s.count ⟨tmpIpAddr s.recvbuf, arpSha s.recvbuf⟩
    previousIpAddr := tmpIpAddr s.recvbuf
    count := s.count + 1
    exited := decide (s.count + 1 = 5) }

theorem checkReply_cases (hexit : s.exited = false) (hcount : s.count < 5) :
    (checkReply s = s ∧ (isReply s.recvbuf = true → s.previousIpAddr = tmpIpAddr s.recvbuf)) ∨
      (checkReply s = added s ∧ isReply s.recvbuf = true ∧ s.previousIpAddr ≠ tmpIpAddr s.recvbuf) := by
  unfold checkReply
  by_cases hreply : isReply s.recvbuf = true
  · rw [if_pos hreply]
    by_cases hprev : s.previousIpAddr = tmpIpAddr s.recvbuf
    · left
      simp only [hprev, ne_eq, not_true_eq_false, if_false, implies_true, and_true]
      rw [if_neg (by omega)]
    · right
      refine ⟨?_, hreply, hprev⟩
      simp only [ne_eq, hprev, not_false_eq_true, if_true]
      by_cases hfive : s.count + 1 = 5
      · rw [if_pos hfive, added, decide_eq_true hfive]
      · rw [if_neg hfive, added, decide_eq_false hfive, ← hexit]
  · left
    rw [if_neg hreply]
    exact ⟨rfl, fun h => absurd h hreply⟩

/-- What a turn does: it takes in what was received, or an entry is added besides. -/
theorem turn_cases (hexit : s.exited = false) (hcount : s.count < 5) (r : Recv) :
    (turn s r = recvmsg s r ∧
        (r ≠ .eintr → isReply (recvmsg s r).recvbuf = true → s.previousIpAddr = tmpIpAddr (recvmsg s r).recvbuf)) ∨
      (turn s r = added (recvmsg s r) ∧ r ≠ .eintr ∧ isReply (recvmsg s r).recvbuf = true ∧
        s.previousIpAddr ≠ tmpIpAddr (recvmsg s r).recvbuf) := by
  cases r with
  | eintr => exact .inl ⟨rfl, fun h => absurd rfl h⟩
  | error =>
    rcases checkReply_cases hexit hcount with ⟨heq, hsame⟩ | ⟨heq, hreply, hprev⟩
    · exact .inl ⟨heq, fun _ => hsame⟩
    · exact .inr ⟨heq, nofun, hreply, hprev⟩
  | frame bytes =>
    rcases checkReply_cases (s := recvmsg s (.frame bytes)) hexit hcount with ⟨heq, hsame⟩ | ⟨heq, hreply, hprev⟩
    · exact .inl ⟨heq, fun _ => hsame⟩
    · exact .inr ⟨heq, nofun, hreply, hprev⟩

theorem frames_recvmsg : ∀ frame ∈ s.frames, frame ∈ (recvmsg s r).frames := by
  intro frame h
  cases r with
  | frame bytes => exact List.mem_append_left _ h
  | eintr => exact h
  | error => exact h

theorem arpTabs_recvmsg : (recvmsg s r).arpTabs = s.arpTabs := by
  cases r <;> rfl

theorem count_recvmsg : (recvmsg s r).count = s.count := by
  cases r <;> rfl

theorem previousIpAddr_recvmsg : (recvmsg s r).previousIpAddr = s.previousIpAddr := by
  cases r <;> rfl

theorem exited_recvmsg : (recvmsg s r).exited = s.exited := by
  cases r <;> rfl

theorem TableOk.recvmsg (h : TableOk s) (r : Recv) : TableOk (recvmsg s r) := by
  refine ⟨?_, ?_, ?_, ?_⟩
  · rw [arpTabs_recvmsg, count_recvmsg]
    exact h.distinct
  · intro i hi
    rw [count_recvmsg] at hi
    obtain ⟨frame, hframe, hsingle⟩ := h.single i hi
    rw [arpTabs_recvmsg]
    exact ⟨frame, frames_recvmsg frame hframe, hsingle⟩
  · rw [count_recvmsg]
    exact h.le_five
  · rw [count_recvmsg, exited_recvmsg]
    exact h.exits

theorem tableOk_added_iff (h : TableOk s) (hcount : s.count < 5) :
    TableOk (added s) ↔ (∀ i < s.count, (s.arpTabs i).ipAddr ≠ tmpIpAddr s.recvbuf) ∧
      ∃ frame ∈ s.frames, Complete frame ∧ sender s.recvbuf = sender (frameBytes frame) := by
  have hnew : (added s).arpTabs s.count = sender s.recvbuf := by
    show Function.update s.arpTabs s.count _ s.count = _
    rw [Function.update_self, tmpIpAddr_eq]
    rfl
  have hold : ∀ i < s.count, (added s).arpTabs i = s.arpTabs i := fun i hi => Function.update_of_ne hi.ne _ _
  constructor
  · intro hadded
    constructor
    · intro i hi heq
      have hlt := hadded.distinct i (Nat.lt_succ_of_lt hi) s.count (Nat.lt_succ_self _)
        (by rw [hold i hi, hnew, heq, tmpIpAddr_eq])
      omega
    · obtain ⟨frame, hframe, hcomplete, hsender⟩ := hadded.single s.count (Nat.lt_succ_self _)
      exact ⟨frame, hframe, hcomplete, hnew.symm.trans hsender⟩
  · intro ⟨hfresh, frame, hframe, hcomplete, hsender⟩
    refine ⟨?_, ?_, Nat.succ_le_of_lt hcount, decide_eq_true_iff⟩
    · intro i hi j hj heq
      rcases Nat.lt_succ_iff_lt_or_eq.mp hi with hi | rfl <;> rcases Nat.lt_succ_iff_lt_or_eq.mp hj with hj | rfl
      · rw [hold i hi, hold j hj] at heq
        exact h.distinct i hi j hj heq
      · rw [hold i hi, hnew, ← tmpIpAddr_eq] at heq
        exact absurd heq (hfresh i hi)
      · rw [hold j hj, hnew, ← tmpIpAddr_eq] at heq
        exact absurd heq.symm (hfresh j hj)
      · rfl
    · intro i hi
      rcases Nat.lt_succ_iff_lt_or_eq.mp hi with hi | rfl
      · rw [hold i hi]
        exact h.single i hi
      · rw [hnew]
        exact ⟨frame, hframe, hcomplete, hsender⟩

end Turn

/-! ### Runs -/

section Runs

variable {s : ThrFn1} {r : Recv}

/-- What the turns keep: the last sender and the sender of every reply so far are in the table. -/
structure Kept (s : ThrFn1) : Prop where
  table : TableOk s
  last : s.previousIpAddr = noAddr ∨ ∃ i < s.count, (s.arpTabs i).ipAddr = s.previousIpAddr
  entered : ∀ frame ∈ s.frames, Complete frame → tmpIpAddr (frameBytes frame) = noAddr ∨
    ∃ i < s.count, (s.arpTabs i).ipAddr = tmpIpAddr (frameBytes frame)

theorem kept_start (recvbuf : Memory Byte) (arpTabs : ℕ → ArpTab) : Kept (start recvbuf arpTabs) :=
  ⟨⟨nofun, nofun, Nat.zero_le 5, ⟨nofun, nofun⟩⟩, .inl rfl, nofun⟩

theorem TableOk.count_lt (h : TableOk s) (hexit : s.exited = false) : s.count < 5 := by
  refine Nat.lt_of_le_of_ne h.le_five fun hfive => ?_
  rw [h.exits.mpr hfive] at hexit
  cases hexit

theorem mem_frames_recvmsg {frame : List Byte} (h : frame ∈ (recvmsg s r).frames) :
    frame ∈ s.frames ∨ r = .frame frame := by
  cases r with
  | frame bytes =>
    rcases List.mem_append.mp h with h | h
    · exact .inl h
    · exact .inr (congrArg _ (List.mem_singleton.mp h).symm)
  | eintr => exact .inl h
  | error => exact .inl h

theorem Complete.shown {frame : List Byte} (h : Complete frame) :
    isReply (recvmsg s (.frame frame)).recvbuf = true ∧
      sender (recvmsg s (.frame frame)).recvbuf = sender (frameBytes frame) :=
  ⟨(isReply_congr (recvbuf_eq h.whole)).trans h.reply, sender_congr (recvbuf_eq h.whole)⟩

theorem exists_frame_recvmsg {bytes : List Byte} (hwhole : sizeofArpFrame ≤ bytes.length)
    (hreply : isReply (recvmsg s (.frame bytes)).recvbuf = true) :
    ∃ frame ∈ (recvmsg s (.frame bytes)).frames, Complete frame ∧
      sender (recvmsg s (.frame bytes)).recvbuf = sender (frameBytes frame) := by
  have hshown := recvbuf_eq (s := s) hwhole
  refine ⟨bytes, List.mem_append_right _ (List.mem_singleton.mpr rfl), ⟨hwhole, ?_⟩, sender_congr hshown⟩
  exact (isReply_congr hshown).symm.trans hreply

/-- The exact condition for a turn, unless the buffer shows the address that `previousIpAddr` started with. -/
theorem Kept.table_turn_iff (h : Kept s) (hexit : s.exited = false)
    (hshown : tmpIpAddr (recvmsg s r).recvbuf ≠ noAddr) : TableOk (turn s r) ↔ NewSender s r := by
  have htable := h.table.recvmsg r
  rcases turn_cases hexit (h.table.count_lt hexit) r with ⟨heq, hsame⟩ | ⟨heq, hr, hreply, hprev⟩
  · rw [heq]
    exact iff_of_true htable fun hr hreply hne => absurd (hsame hr hreply) hne
  · rw [heq, tableOk_added_iff htable (by rw [count_recvmsg]; exact h.table.count_lt hexit), arpTabs_recvmsg,
      count_recvmsg]
    constructor
    · intro ⟨hfresh, frame, hframe, hcomplete, hsender⟩ _ _ _
      refine ⟨?_, hfresh⟩
      rcases mem_frames_recvmsg hframe with hframe | rfl
      · have haddr : tmpIpAddr (recvmsg s r).recvbuf = tmpIpAddr (frameBytes frame) := by
          rw [tmpIpAddr_eq, tmpIpAddr_eq, hsender]
        rw [haddr] at hshown hfresh
        rcases h.entered frame hframe hcomplete with hno | ⟨i, hi, hi'⟩
        · exact absurd hno hshown
        · exact absurd hi' (hfresh i hi)
      · exact ⟨frame, rfl, hcomplete.whole⟩
    · intro hnew
      obtain ⟨⟨bytes, rfl, hwhole⟩, hfresh⟩ := hnew hr hreply hprev
      exact ⟨hfresh, exists_frame_recvmsg hwhole hreply⟩

theorem Kept.turn (h : Kept s) (hexit : s.exited = false) (hnew : NewSender s r) : Kept (turn s r) := by
  have hcount := h.table.count_lt hexit
  rcases turn_cases hexit hcount r with ⟨heq, hsame⟩ | ⟨heq, hr, hreply, hprev⟩
  · rw [heq]
    refine ⟨h.table.recvmsg r, ?_, ?_⟩
    · rw [previousIpAddr_recvmsg, count_recvmsg, arpTabs_recvmsg]
      exact h.last
    · intro frame hframe hcomplete
      rw [count_recvmsg, arpTabs_recvmsg]
      rcases mem_frames_recvmsg hframe with hframe | rfl
      · exact h.entered frame hframe hcomplete
      · obtain ⟨hreply, hsender⟩ := hcomplete.shown (s := s)
        rw [tmpIpAddr_eq, ← hsender, ← tmpIpAddr_eq, ← hsame nofun hreply]
        exact h.last
  · obtain ⟨⟨bytes, rfl, hwhole⟩, hfresh⟩ := hnew hr hreply hprev
    have htable : TableOk (added (recvmsg s (.frame bytes))) :=
      (tableOk_added_iff (h.table.recvmsg (.frame bytes)) hcount).mpr ⟨hfresh, exists_frame_recvmsg hwhole hreply⟩
    have hentry : ((added (recvmsg s (.frame bytes))).arpTabs s.count).ipAddr =
        tmpIpAddr (recvmsg s (.frame bytes)).recvbuf :=
      congrArg ArpTab.ipAddr (Function.update_self s.count _ s.arpTabs)
    rw [heq]
    refine ⟨htable, .inr ⟨s.count, Nat.lt_succ_self _, hentry⟩, ?_⟩
    intro frame hframe hcomplete
    rcases mem_frames_recvmsg hframe with hframe | hframe
    · rcases h.entered frame hframe hcomplete with hno | ⟨i, hi, hi'⟩
      · exact .inl hno
      · refine .inr ⟨i, Nat.lt_succ_of_lt hi, ?_⟩
        exact (congrArg ArpTab.ipAddr (Function.update_of_ne hi.ne _ _)).trans hi'
    · obtain rfl := Recv.frame.inj hframe
      refine .inr ⟨s.count, Nat.lt_succ_self _, ?_⟩
      rw [hentry, tmpIpAddr_eq, tmpIpAddr_eq, hcomplete.shown.2]

theorem kept_of_reachable (h : (thrFn1 NewSender).Reachable s) : Kept s := by
  refine TransitionSystem.invariant ?_ ?_ h
  · rintro s ⟨recvbuf, arpTabs, rfl⟩
    exact kept_start recvbuf arpTabs
  · rintro s s' - ih ⟨r, ⟨hexit, hnew⟩, rfl⟩
    exact ih.turn hexit hnew

/-- **The table.** In every run in which each new sender's reply is received completely and is not in the table yet,
the table is right in every state; and in the next turn it stays right exactly if this holds of that turn, unless the
buffer shows 255.255.255.0. -/
theorem arp_table (h : (thrFn1 NewSender).Reachable s) :
    TableOk s ∧ ∀ r, s.exited = false → tmpIpAddr (recvmsg s r).recvbuf ≠ noAddr →
      (TableOk (turn s r) ↔ NewSender s r) :=
  ⟨(kept_of_reachable h).table, fun _ hexit hshown => (kept_of_reachable h).table_turn_iff hexit hshown⟩

/-- A reply from 10.0.0.`host`. -/
def replyFrom (host : Byte) : List Byte :=
  List.replicate 20 0 ++ [0, 2] ++ [2, 0, 0, 0, 0, host] ++ [10, 0, 0, host] ++ List.replicate 10 0

/-- A reply, the same once more, and one of another host. -/
def sampleReplies : List Recv := [.frame (replyFrom 1), .frame (replyFrom 1), .frame (replyFrom 2)]

theorem arp_table_sample : (sampleReplies.foldl turn (start (fun _ => 0) fun _ => ⟨[], []⟩)).count = 2 ∧
    TableOk (sampleReplies.foldl turn (start (fun _ => 0) fun _ => ⟨[], []⟩)) := by
  have hstart : (thrFn1 NewSender).Reachable (start (fun _ => 0) fun _ => ⟨[], []⟩) :=
    TransitionSystem.reachable_init ⟨_, _, rfl⟩
  have hrun : (thrFn1 NewSender).Reachable (sampleReplies.foldl turn (start (fun _ => 0) fun _ => ⟨[], []⟩)) := by
    refine hstart.actions ⟨⟨rfl, ?_⟩, ⟨?_, ?_⟩, ⟨?_, ?_⟩, trivial⟩
    · exact fun _ _ _ => ⟨⟨_, rfl, by decide⟩, nofun⟩
    · decide +kernel
    · exact fun _ _ hne => absurd (by decide +kernel) hne
    · decide +kernel
    · exact fun _ _ _ => ⟨⟨_, rfl, by decide⟩, by decide +kernel⟩
  exact ⟨by decide +kernel, (arp_table hrun).1⟩

/-- Two hosts that answer in turn. -/
theorem arp_table_repeats : ∃ s, (thrFn1 fun _ _ => True).Reachable s ∧ ¬ TableOk s := by
  refine ⟨[Recv.frame (replyFrom 1), .frame (replyFrom 2), .frame (replyFrom 1)].foldl turn
    (start (fun _ => 0) fun _ => ⟨[], []⟩), ?_, ?_⟩
  · have hstart : (thrFn1 fun _ _ => True).Reachable (start (fun _ => 0) fun _ => ⟨[], []⟩) :=
      TransitionSystem.reachable_init ⟨_, _, rfl⟩
    exact hstart.actions (by decide +kernel)
  · intro h
    have heq := h.distinct 0 (by decide +kernel) 2 (by decide +kernel) (by decide +kernel)
    cases heq

end Runs

end UnixNetProg.Arp
