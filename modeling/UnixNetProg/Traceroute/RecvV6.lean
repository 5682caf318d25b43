import UnixNetProg.Traceroute.Recv

/-!
# The answers over IPv6 (`traceroute/recv_v6.c`)

The kernel removes the IPv6 header of a message, and the one that it quotes has 40 bytes. In the branch for
time exceeded in transit the `if` around the three comparisons has no braces: `ret = -2` depends on them, and
the `break` behind it does not. So a message that quotes a datagram of somebody else ends the wait too, and
`ret` is returned without ever having been assigned.
-/

namespace UnixNetProg.Traceroute

open Lib
open Icmpd (ICMP6_DST_UNREACH ICMP6_TIME_EXCEEDED ICMP6_DST_UNREACH_NOPORT)

def ICMP6_TIME_EXCEED_TRANSIT : Byte := 0

/-- `sizeof(struct ip6_hdr)`. -/
def sizeofIp6 : ℕ := 40

/-- The body of the loop, behind `recvfrom`. -/
def lookV6 (p : Probe) (buf : Memory Byte) (n : ℕ) : Look :=
  let type := buf 0
  let code := buf 1
  let hip6 := 8
  let udp := 8 + sizeofIp6
  if n < 8 then .again
  else if type = ICMP6_TIME_EXCEEDED ∧ code = ICMP6_TIME_EXCEED_TRANSIT then
    if n < 8 + sizeofIp6 + 4 then .again
    -- `break` in both cases, and `ret` has not been assigned before
    else .leave (if p.IsQuoted buf (hip6 + 6) udp then some (-2) else none)
  else if type = ICMP6_DST_UNREACH then
    if n < 8 + sizeofIp6 + 4 then .again
    else if p.IsQuoted buf (hip6 + 6) udp then
      .leave (some (if code = ICMP6_DST_UNREACH_NOPORT then -1 else code.toNat))
    else .again
  else .again

def recvV6 (p : Probe) (recvbuf : Memory Byte) (turns : List Turn) : Option Outcome :=
  recvLoop (lookV6 p) recvbuf turns

/-- The message holds the header and the ports that it quotes. -/
def FullV6 (got : List Byte) : Prop := 8 + sizeofIp6 + 4 ≤ got.length

/-- It quotes the probe. -/
def QuotedV6 (p : Probe) (got : List Byte) : Prop := p.QuotedIn got (8 + 6) (8 + sizeofIp6)

/-- Time exceeded in transit. -/
def TransitV6 (got : List Byte) : Prop :=
  got.getD 0 0 = ICMP6_TIME_EXCEEDED ∧ got.getD 1 0 = ICMP6_TIME_EXCEED_TRANSIT

def UnreachV6 (got : List Byte) : Prop := got.getD 0 0 = ICMP6_DST_UNREACH

/-- The value for destination unreachable. -/
def unreachRet (got : List Byte) : ℤ :=
  if got.getD 1 0 = ICMP6_DST_UNREACH_NOPORT then -1 else (got.getD 1 0).toNat

/-- The message is an answer to the probe, and `v` the value for its type and code. -/
def AnswersV6 (p : Probe) (got : List Byte) (v : ℤ) : Prop :=
  FullV6 got ∧ QuotedV6 p got ∧ (TransitV6 got ∧ v = -2 ∨ UnreachV6 got ∧ v = unreachRet got)

/-- Time exceeded in transit for the datagram of somebody else. -/
def StrayV6 (p : Probe) (got : List Byte) : Prop := FullV6 got ∧ TransitV6 got ∧ ¬ QuotedV6 p got

instance (got : List Byte) : Decidable (FullV6 got) := inferInstanceAs (Decidable (_ ≤ _))

instance (p : Probe) (got : List Byte) : Decidable (QuotedV6 p got) :=
  inferInstanceAs (Decidable (p.QuotedIn _ _ _))

instance (got : List Byte) : Decidable (TransitV6 got) := inferInstanceAs (Decidable (_ ∧ _))

instance (got : List Byte) : Decidable (UnreachV6 got) := inferInstanceAs (Decidable (_ = _))

instance (p : Probe) (got : List Byte) (v : ℤ) : Decidable (AnswersV6 p got v) :=
  inferInstanceAs (Decidable (_ ∧ _))

instance (p : Probe) (got : List Byte) : Decidable (StrayV6 p got) := inferInstanceAs (Decidable (_ ∧ _))

/-- What the code does with `ret`. -/
def RetV6 (p : Probe) (got : List Byte) (ret : Option ℤ) : Prop :=
  (∃ v, ret = some v ∧ AnswersV6 p got v) ∨ ret = none ∧ StrayV6 p got

/-- A value other than -3 is returned because of an answer, which is read while the loop still waits. -/
def BecauseV6 (p : Probe) (recvbuf : Memory Byte) (turns : List Turn) (v : ℤ) : Prop :=
  ∃ pre bytes post, turns = pre ++ ⟨false, .datagram bytes⟩ :: post ∧ recvV6 p recvbuf pre = none ∧
    AnswersV6 p (received bytes) v

/-- `ret` has been assigned when it is returned, and the value has its reason. -/
def SoundV6 (p : Probe) (recvbuf : Memory Byte) (turns : List Turn) : Prop :=
  ∀ ret, recvV6 p recvbuf turns = some (.returns ret) →
    ∃ v, ret = some v ∧ (v ≠ -3 → BecauseV6 p recvbuf turns v)

/-- No alarm, no error and no answer. -/
def QuietV6 (p : Probe) : Turn → Prop := Passes fun got ret => ∃ v, ret = some v ∧ AnswersV6 p got v

/-- No stray message is read before the alarm, an error or an answer. -/
def NoStrayV6 (p : Probe) (turns : List Turn) : Prop :=
  ∀ pre bytes post, turns = pre ++ ⟨false, .datagram bytes⟩ :: post → (∀ u ∈ pre, QuietV6 p u) →
    ¬ StrayV6 p (received bytes)

section Look

variable {p : Probe} {got : List Byte}

theorem not_unreach_of_transit (h : TransitV6 got) : ¬ UnreachV6 got := by
  intro hunreach
  rw [UnreachV6, h.1] at hunreach
  exact absurd hunreach (by decide)

theorem lookV6_eq (p : Probe) (buf : Memory Byte) (got : List Byte) :
    lookV6 p (buf.store 0 got) got.length =
      if FullV6 got then
        if TransitV6 got then .leave (if QuotedV6 p got then some (-2) else none)
        else if UnreachV6 got then
          if QuotedV6 p got then .leave (some (unreachRet got)) else .again
        else .again
      else .again := by
  unfold lookV6
  by_cases hfull : FullV6 got
  · have hlen : 8 + 40 + 4 ≤ got.length := hfull
    have hquoted : p.IsQuoted (buf.store 0 got) (8 + 6) (8 + sizeofIp6) ↔ QuotedV6 p got :=
      isQuoted_iff p buf (by omega) hlen
    rw [if_pos hfull, if_neg (by omega), if_neg (Nat.not_lt.mpr hfull), if_neg (Nat.not_lt.mpr hfull),
      buf.store_zero_of_lt 0 (by omega), buf.store_zero_of_lt 0 (by omega)]
    simp only [hquoted]
    rfl
  · have hshort : got.length < 8 + sizeofIp6 + 4 := Nat.not_le.mp hfull
    simp [hshort, hfull]

theorem lookV6_iff (p : Probe) (buf : Memory Byte) (got : List Byte) (ret : Option ℤ) :
    lookV6 p (buf.store 0 got) got.length = .leave ret ↔ RetV6 p got ret := by
  rw [lookV6_eq, RetV6]
  by_cases hfull : FullV6 got
  · by_cases htime : TransitV6 got
    · have hunreach := not_unreach_of_transit htime
      by_cases hq : QuotedV6 p got
      · simp [AnswersV6, StrayV6, hfull, htime, hunreach, hq, eq_comm]
      · simp [AnswersV6, StrayV6, hfull, htime, hq, eq_comm]
    · by_cases hunreach : UnreachV6 got
      · by_cases hq : QuotedV6 p got
        · simp [AnswersV6, StrayV6, hfull, htime, hunreach, hq, eq_comm]
        · simp [AnswersV6, StrayV6, htime, hunreach, hq]
      · simp [AnswersV6, StrayV6, htime, hunreach]
  · simp [AnswersV6, StrayV6, hfull]

theorem quiet_of_passes {t : Turn} (h : Passes (RetV6 p) t) : QuietV6 p t := by
  obtain ⟨halarm, hres⟩ := h
  refine ⟨halarm, ?_⟩
  cases ht : t.res with
  | eintr => trivial
  | error =>
    rw [ht] at hres
    exact hres
  | datagram bytes =>
    rw [ht] at hres
    exact fun ret hans => hres ret (.inl hans)

theorem ends_or_passes_of_quiet {t : Turn} (h : QuietV6 p t) :
    Ends (RetV6 p) t (.returns none) ∨ Passes (RetV6 p) t := by
  obtain ⟨halarm, hres⟩ := h
  rw [Ends, Passes, halarm, if_neg Bool.false_ne_true]
  cases ht : t.res with
  | eintr => exact .inr ⟨rfl, trivial⟩
  | error =>
    rw [ht] at hres
    exact hres.elim
  | datagram bytes =>
    rw [ht] at hres
    by_cases hstray : StrayV6 p (received bytes)
    · exact .inl ⟨none, .inr ⟨rfl, hstray⟩, rfl⟩
    · refine .inr ⟨rfl, fun ret hret => ?_⟩
      rcases hret with hans | ⟨-, h⟩
      · exact hres ret hans
      · exact hstray h

end Look

section Runs

variable (p : Probe) (recvbuf : Memory Byte)

theorem recvV6_iff (turns : List Turn) (out : Outcome) :
    recvV6 p recvbuf turns = some out ↔ FirstEnds (RetV6 p) turns out :=
  recvLoop_iff (fun buf got _ => lookV6_iff p buf got) recvbuf turns out

theorem firstEnds_of_stray (pre post : List Turn) {bytes : List Byte} (hpre : ∀ u ∈ pre, QuietV6 p u)
    (hstray : StrayV6 p (received bytes)) :
    FirstEnds (RetV6 p) (pre ++ ⟨false, .datagram bytes⟩ :: post) (.returns none) := by
  induction pre with
  | nil =>
    rw [List.nil_append, firstEnds_cons]
    exact .inl ⟨none, .inr ⟨rfl, hstray⟩, rfl⟩
  | cons u pre ih =>
    rw [List.cons_append, firstEnds_cons]
    rcases ends_or_passes_of_quiet (hpre u List.mem_cons_self) with hends | hpass
    · exact .inl hends
    · exact .inr ⟨hpass, ih fun x hx => hpre x (List.mem_cons_of_mem _ hx)⟩

/-- `recv_v6` returns what an answer says, or -3, just when it does not get to a stray message. -/
theorem recvV6_sound_iff (turns : List Turn) : SoundV6 p recvbuf turns ↔ NoStrayV6 p turns := by
  constructor
  · intro hsound pre bytes post hsplit hpre hstray
    have hrun : recvV6 p recvbuf turns = some (.returns none) := by
      rw [recvV6_iff, hsplit]
      exact firstEnds_of_stray p pre post hpre hstray
    obtain ⟨v, hv, -⟩ := hsound none hrun
    cases hv
  · intro hnone ret hrun
    obtain ⟨pre, ⟨gotalarm, res⟩, post, hsplit, hpre, hends⟩ := (recvV6_iff p recvbuf turns _).mp hrun
    cases gotalarm with
    | true => exact ⟨-3, Outcome.returns.inj hends, fun h => absurd rfl h⟩
    | false =>
      cases res with
      | eintr => exact hends.elim
      | error => cases hends
      | datagram bytes =>
        obtain ⟨ret', hret, hout⟩ := hends
        obtain rfl := Outcome.returns.inj hout
        rcases hret with ⟨v, hv, hans⟩ | ⟨-, hstray⟩
        · have hwaits : recvV6 p recvbuf pre = none :=
            recvLoop_eq_none (fun buf got _ => lookV6_iff p buf got) recvbuf hpre
          exact ⟨v, hv, fun _ => ⟨pre, bytes, post, hsplit, hwaits, hans⟩⟩
        · exact absurd hstray (hnone pre bytes post hsplit fun u hu => quiet_of_passes (hpre u hu))

end Runs

def sampleProbeV6 : Probe := ⟨33768, 33434, 1⟩

/-- Time exceeded in transit for a TCP segment. -/
def strayMessage : List Byte :=
  [3, 0, 0, 0, 0, 0, 0, 0] ++ [96, 0, 0, 0, 0, 4, 6, 0] ++ List.replicate 32 0 ++ [0, 80, 130, 155]

/-- One stray message is read, and the alarm has not gone off. -/
theorem recvV6_returns_unassigned :
    recvV6 sampleProbeV6 (fun _ => 0) [⟨false, .datagram strayMessage⟩] = some (.returns none) ∧
      ¬ SoundV6 sampleProbeV6 (fun _ => 0) [⟨false, .datagram strayMessage⟩] := by
  have hrun : recvV6 sampleProbeV6 (fun _ => 0) [⟨false, .datagram strayMessage⟩] = some (.returns none) := by
    decide
  refine ⟨hrun, fun hsound => ?_⟩
  obtain ⟨v, hv, -⟩ := hsound none hrun
  cases hv

end UnixNetProg.Traceroute
