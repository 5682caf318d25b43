import UnixNetProg.Traceroute.Recv

/-!
# The answers over IPv4 (`traceroute/recv_v4.c`)

A message starts with the IP header of its sender, and an ICMP error quotes the IP header of the datagram
that it is about with at least eight bytes behind it. The length of both headers is taken from the message.
`recv_v4` wants all 20 bytes of the quoted header without options before it looks at it, also when the
header says that it is shorter.
-/

namespace UnixNetProg.Traceroute

open Lib
open Icmpd (ipHlen ICMP_UNREACH ICMP_TIMXCEED ICMP_UNREACH_PORT)

def ICMP_TIMXCEED_INTRANS : Byte := 0

/-- What both kinds of ICMP error do after their type is known: `icmplen` is compared as a `size_t` first. -/
def lookQuoted (p : Probe) (buf : Memory Byte) (hlen1 : ℕ) (icmplen ret : ℤ) : Look :=
  if toSize icmplen < 8 + sizeofIp then .again
  else
    let hip := hlen1 + 8
    let hlen2 := ipHlen (buf hip)
    if icmplen < 8 + hlen2 + 4 then .again
    else if p.IsQuoted buf (hip + 9) (hip + hlen2) then .leave (some ret)
    else .again

/-- The body of the loop, behind `recvfrom`. -/
def lookV4 (p : Probe) (buf : Memory Byte) (n : ℕ) : Look :=
  let hlen1 := ipHlen (buf 0)
  let icmplen : ℤ := n - hlen1
  let type := buf hlen1
  let code := buf (hlen1 + 1)
  if icmplen < 8 then .again
  else if type = ICMP_TIMXCEED ∧ code = ICMP_TIMXCEED_INTRANS then lookQuoted p buf hlen1 icmplen (-2)
  else if type = ICMP_UNREACH then
    lookQuoted p buf hlen1 icmplen (if code = ICMP_UNREACH_PORT then -1 else code.toNat)
  else .again

def recvV4 (p : Probe) (recvbuf : Memory Byte) (turns : List Turn) : Option Outcome :=
  recvLoop (lookV4 p) recvbuf turns

/-- The message is an answer to the probe: it holds the first `room` bytes of the IP header that it quotes
and the ports behind that header, and `v` is the value for its type and code. -/
def AnswersV4 (room : ℕ) (p : Probe) (got : List Byte) (v : ℤ) : Prop :=
  let icmp := ipHlen (got.getD 0 0)
  let hip := icmp + 8
  let udp := hip + ipHlen (got.getD hip 0)
  hip + room ≤ got.length ∧ udp + 4 ≤ got.length ∧ p.QuotedIn got (hip + 9) udp ∧
    (got.getD icmp 0 = ICMP_TIMXCEED ∧ got.getD (icmp + 1) 0 = ICMP_TIMXCEED_INTRANS ∧ v = -2 ∨
      got.getD icmp 0 = ICMP_UNREACH ∧
        v = if got.getD (icmp + 1) 0 = ICMP_UNREACH_PORT then -1 else ((got.getD (icmp + 1) 0).toNat : ℤ))

instance (room : ℕ) (p : Probe) (got : List Byte) (v : ℤ) : Decidable (AnswersV4 room p got v) :=
  inferInstanceAs (Decidable (_ ∧ _))

/-- The same, for the variable `ret`. -/
def RetV4 (room : ℕ) (p : Probe) (got : List Byte) (ret : Option ℤ) : Prop :=
  ∃ v, ret = some v ∧ AnswersV4 room p got v

theorem toSize_eq {i : ℤ} (h0 : 0 ≤ i) (h : i ≤ BUFSIZE) : (toSize i : ℤ) = i := by
  unfold BUFSIZE at h
  unfold toSize
  omega

section Look

variable (p : Probe) (buf : Memory Byte) {got : List Byte}

theorem lookQuoted_iff {hlen1 : ℕ} (hgot : got.length ≤ BUFSIZE) (hlen : hlen1 + 8 ≤ got.length) (v : ℤ)
    (ret : Option ℤ) :
    lookQuoted p (buf.store 0 got) hlen1 (got.length - hlen1) v = .leave ret ↔
      ret = some v ∧ hlen1 + 8 + sizeofIp ≤ got.length ∧
        hlen1 + 8 + ipHlen (got.getD (hlen1 + 8) 0) + 4 ≤ got.length ∧
        p.QuotedIn got (hlen1 + 8 + 9) (hlen1 + 8 + ipHlen (got.getD (hlen1 + 8) 0)) := by
  have hsize := toSize_eq (i := got.length - hlen1) (by omega) (by omega)
  unfold lookQuoted
  by_cases hip : hlen1 + 8 + sizeofIp ≤ got.length
  · have hhip : hlen1 + 8 + 20 ≤ got.length := hip
    rw [if_neg (by omega)]
    dsimp only
    rw [buf.store_zero_of_lt 0 (by omega)]
    generalize ipHlen (got.getD (hlen1 + 8) 0) = hlen2
    by_cases hudp : hlen1 + 8 + hlen2 + 4 ≤ got.length
    · rw [if_neg (by omega)]
      have hquoted : p.IsQuoted (buf.store 0 got) (hlen1 + 8 + 9) _ ↔ _ := isQuoted_iff p buf (by omega) hudp
      by_cases hq : p.QuotedIn got (hlen1 + 8 + 9) (hlen1 + 8 + hlen2)
      · rw [if_pos (hquoted.mpr hq)]
        simp [hip, hudp, hq, eq_comm]
      · rw [if_neg (mt hquoted.mp hq)]
        simp [hq]
    · rw [if_pos (by omega)]
      simp [hudp]
  · have hshort : ¬ hlen1 + 8 + 20 ≤ got.length := hip
    rw [if_pos (by unfold sizeofIp; omega)]
    simp [hip]

theorem lookV4_short (hshort : got = [] ∨ got.length < ipHlen (got.getD 0 0) + 8) :
    lookV4 p (buf.store 0 got) got.length = .again := by
  refine if_pos ?_
  by_cases hne : got = []
  · rw [hne, List.length_nil]
    omega
  · have hlt := hshort.resolve_left hne
    rw [buf.store_zero_of_lt 0 (List.length_pos_iff.mpr hne)]
    omega

theorem lookV4_eq (hne : got ≠ []) (hlen : ipHlen (got.getD 0 0) + 8 ≤ got.length) :
    lookV4 p (buf.store 0 got) got.length =
      let hlen1 := ipHlen (got.getD 0 0)
      let code := got.getD (hlen1 + 1) 0
      if got.getD hlen1 0 = ICMP_TIMXCEED ∧ code = ICMP_TIMXCEED_INTRANS then
        lookQuoted p (buf.store 0 got) hlen1 (got.length - hlen1) (-2)
      else if got.getD hlen1 0 = ICMP_UNREACH then
        lookQuoted p (buf.store 0 got) hlen1 (got.length - hlen1) (if code = ICMP_UNREACH_PORT then -1 else code.toNat)
      else .again := by
  unfold lookV4
  rw [buf.store_zero_of_lt 0 (List.length_pos_iff.mpr hne)]
  dsimp only
  rw [if_neg (by omega), buf.store_zero_of_lt 0 (by omega), buf.store_zero_of_lt 0 (by omega)]

theorem lookV4_iff (hgot : got.length ≤ BUFSIZE) (ret : Option ℤ) :
    lookV4 p (buf.store 0 got) got.length = .leave ret ↔ RetV4 sizeofIp p got ret := by
  by_cases hshort : got = [] ∨ got.length < ipHlen (got.getD 0 0) + 8
  · rw [lookV4_short p buf hshort]
    refine iff_of_false nofun fun h => ?_
    obtain ⟨v, -, hip, hudp, -⟩ := h
    rcases hshort with hnil | hlt
    · rw [hnil, List.length_nil] at hudp
      omega
    · omega
  obtain ⟨hne, hlen⟩ := not_or.mp hshort
  rw [lookV4_eq p buf hne (by omega)]
  unfold RetV4 AnswersV4
  generalize ipHlen (got.getD 0 0) = hlen1 at hlen ⊢
  dsimp only
  by_cases htime : got.getD hlen1 0 = ICMP_TIMXCEED ∧ got.getD (hlen1 + 1) 0 = ICMP_TIMXCEED_INTRANS
  · have hunreach : ¬ got.getD hlen1 0 = ICMP_UNREACH := by
      rw [htime.1]
      decide
    rw [if_pos htime, lookQuoted_iff p buf hgot (by omega)]
    constructor
    · intro ⟨hret, hip, hudp, hq⟩
      exact ⟨-2, hret, hip, hudp, hq, .inl ⟨htime.1, htime.2, rfl⟩⟩
    · intro ⟨v, hret, hip, hudp, hq, hv⟩
      rcases hv with ⟨-, -, rfl⟩ | ⟨h, -⟩
      · exact ⟨hret, hip, hudp, hq⟩
      · exact absurd h hunreach
  rw [if_neg htime]
  by_cases hunreach : got.getD hlen1 0 = ICMP_UNREACH
  · rw [if_pos hunreach, lookQuoted_iff p buf hgot (by omega)]
    constructor
    · intro ⟨hret, hip, hudp, hq⟩
      exact ⟨_, hret, hip, hudp, hq, .inr ⟨hunreach, rfl⟩⟩
    · intro ⟨v, hret, hip, hudp, hq, hv⟩
      rcases hv with ⟨h₁, h₂, -⟩ | ⟨-, rfl⟩
      · exact absurd ⟨h₁, h₂⟩ htime
      · exact ⟨hret, hip, hudp, hq⟩
  · rw [if_neg hunreach]
    refine iff_of_false nofun fun h => ?_
    obtain ⟨v, -, -, -, -, ⟨h₁, h₂, -⟩ | ⟨h, -⟩⟩ := h
    · exact htime ⟨h₁, h₂⟩
    · exact hunreach h

end Look

theorem answersV4_ne {room : ℕ} {p : Probe} {got : List Byte} {v : ℤ} (h : AnswersV4 room p got v) : v ≠ -3 := by
  obtain ⟨-, -, -, ⟨-, -, rfl⟩ | ⟨-, rfl⟩⟩ := h
  · decide
  · split_ifs
    · decide
    · omega

/-- `recv_v4` returns at the first answer that it reads, with the value for it, and with -3 just when it finds
`gotalarm` set before that. Bytes behind those that were received have no influence. -/
theorem recvV4_first_answer (p : Probe) (recvbuf : Memory Byte) (turns : List Turn) :
    (∀ out, recvV4 p recvbuf turns = some out ↔ FirstEnds (RetV4 sizeofIp p) turns out) ∧
      (recvV4 p recvbuf turns = some (.returns (some (-3))) ↔ ∃ pre t post, turns = pre ++ t :: post ∧
        (∀ u ∈ pre, Passes (RetV4 sizeofIp p) u) ∧ t.gotalarm = true) ∧
      (∀ recvbuf', recvV4 p recvbuf' turns = recvV4 p recvbuf turns) ∧
      ∀ mem mem' n, n ≤ BUFSIZE → (∀ k < n, mem k = mem' k) → lookV4 p mem n = lookV4 p mem' n := by
  have hlook : ∀ buf got, got.length ≤ BUFSIZE → ∀ ret,
      lookV4 p (Memory.store buf 0 got) got.length = .leave ret ↔ RetV4 sizeofIp p got ret :=
    fun buf got hgot ret => lookV4_iff p buf hgot ret
  have hrun := recvLoop_iff hlook
  have hne : ∀ got, ¬ RetV4 sizeofIp p got (some (-3)) := by
    intro got h
    obtain ⟨v, hv, hans⟩ := h
    exact answersV4_ne hans (Option.some.inj hv).symm
  refine ⟨hrun recvbuf turns, ?_, fun recvbuf' => ?_, fun mem mem' n hn h => look_congr hlook hn h⟩
  · rw [recvV4, hrun]
    refine exists_congr fun pre => exists_congr fun t => exists_congr fun post => ?_
    refine and_congr_right fun _ => and_congr_right fun _ => ?_
    exact ends_timeout_iff hne t
  · apply Option.ext
    intro out
    rw [recvV4, recvV4, hrun, hrun]

def sampleProbe : Probe := ⟨33768, 33434, 1⟩

/-- A time exceeded message of 44 bytes, from a probe whose IP header says that it has 12 bytes. -/
def shortHeader : List Byte :=
  [69, 0, 0, 44, 0, 0, 0, 0, 64, 1, 0, 0, 10, 0, 0, 1, 10, 0, 0, 2] ++ [11, 0, 0, 0, 0, 0, 0, 0] ++
    [67, 0, 0, 44, 0, 0, 0, 0, 1, 17, 0, 0] ++ [131, 232, 130, 155]

/-- The message holds the protocol and the ports, but it is read without an answer. -/
theorem recvV4_skips_short_header :
    FirstEnds (RetV4 10 sampleProbe) [⟨false, .datagram shortHeader⟩, ⟨true, .eintr⟩] (.returns (some (-2))) ∧
      recvV4 sampleProbe (fun _ => 0) [⟨false, .datagram shortHeader⟩, ⟨true, .eintr⟩] =
        some (.returns (some (-3))) :=
  ⟨⟨[], _, _, rfl, nofun, some (-2), ⟨-2, rfl, by decide⟩, rfl⟩, by decide⟩

end UnixNetProg.Traceroute
