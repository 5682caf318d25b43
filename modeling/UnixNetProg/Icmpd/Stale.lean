import UnixNetProg.Icmpd.Icmpd

/-!
# What stands behind a message (`icmpd`)

The buffer of `readable_v4` and `readable_v6` is on the stack, and a message fills just the first `n` bytes
of it. The check for the quoted headers is `icmplen < 8 + 20 + 8` over IPv4, which is right for an IP header
without options, and `icmp6len < 8 + 8` over IPv6, which leaves out the IPv6 header. So the ports of the
quoted datagram, over IPv6 its destination address too, can be bytes that nobody has sent: they decide
which clients are written to and what they are told.
-/

namespace UnixNetProg.Icmpd

open Lib

/-- What is written to which client, or `none` when the daemon quits. -/
def sent (s : Daemon) : Parsed → Option (List (ℕ × IcmpdErr))
  | .quit => none
  | .ignored => some []
  | .quoted q => some ((s.targets q).map fun i => (i, q.err))

/-- The two buffers of `MAXLINE` bytes hold the same message of `n` bytes. -/
def SameMessage (n : ℕ) (buf buf' : Memory Byte) : Prop := ∀ k, k < n ∨ MAXLINE ≤ k → buf k = buf' k

/-- The message alone decides what is written. -/
def ReportsReceived (s : Daemon) (parse : Memory Byte → ℕ → Parsed) (buf : Memory Byte) (n : ℕ) : Prop :=
  ∀ buf₁ buf₂, SameMessage n buf buf₁ → SameMessage n buf buf₂ → sent s (parse buf₁ n) = sent s (parse buf₂ n)

/-- A port that the received bytes at `udp` leave possible. -/
def PortFits (buf : Memory Byte) (n udp : ℕ) (lport : ℤ) : Prop :=
  0 ≤ lport ∧ lport < 65536 ∧ (udp < n → lport / 256 = (buf udp).toNat) ∧
    (udp + 1 < n → lport % 256 = (buf (udp + 1)).toNat)

instance (buf : Memory Byte) (n udp : ℕ) (lport : ℤ) : Decidable (PortFits buf n udp lport) :=
  inferInstanceAs (Decidable (_ ∧ _))

/-- The four bytes of the ports at `udp` were not all received, and there is a client that they can be for. -/
def StalePorts (s : Daemon) (family : ℤ) (buf : Memory Byte) (n udp : ℕ) : Prop :=
  n < udp + 4 ∧ ∃ i : ℕ, i ≤ s.maxi ∧ 0 ≤ (s.client i).connfd ∧ (s.client i).family = family ∧
    PortFits buf n udp (s.client i).lport

def StaleV4 (s : Daemon) (buf : Memory Byte) (n : ℕ) : Prop :=
  let hlen1 := ipHlen (buf 0)
  let hip := hlen1 + 8
  (buf hlen1 = ICMP_UNREACH ∨ buf hlen1 = ICMP_TIMXCEED ∨ buf hlen1 = ICMP_SOURCEQUENCH) ∧
    hlen1 + (8 + 20 + 8) ≤ n ∧ buf (hip + 9) = IPPROTO_UDP ∧ StalePorts s AF_INET buf n (hip + ipHlen (buf hip))

def StaleV6 (s : Daemon) (buf : Memory Byte) (n : ℕ) : Prop :=
  (buf 0 = ICMP6_DST_UNREACH ∨ buf 0 = ICMP6_PACKET_TOO_BIG ∨ buf 0 = ICMP6_TIME_EXCEEDED) ∧
    8 + 8 ≤ n ∧ buf 14 = IPPROTO_UDP ∧ StalePorts s AF_INET6 buf n 48

section Sent

variable {s : Daemon}

theorem report_written (s : Daemon) (p : Parsed) :
    (report s p).written.map (fun d => (d.conn, d.quoted.err)) =
      s.written.map (fun d => (d.conn, d.quoted.err)) ++
        ((sent s p).getD []).map fun w => (s.owner w.1, w.2) := by
  cases p with
  | quit => simp [report, sent]
  | ignored => simp [report, sent]
  | quoted q => simp [report, sent, Daemon.deliveries]

theorem report_quit (s : Daemon) (p : Parsed) : (report s p).quit = (s.quit || (sent s p).isNone) := by
  cases p with
  | quit => simp [report, sent]
  | ignored => simp [report, sent]
  | quoted q => simp [report, sent]

theorem portAt_congr {b b' : Memory Byte} {k : ℕ} (h : b k = b' k) (h' : b (k + 1) = b' (k + 1)) :
    portAt b k = portAt b' k := by
  rw [portAt, portAt, h, h']

variable {buf : Memory Byte} {n udp : ℕ}

theorem portFits_portAt {b : Memory Byte} (h : SameMessage n buf b) : PortFits buf n udp (portAt b udp) := by
  have h₀ := (b udp).toNat_lt
  have h₁ := (b (udp + 1)).toNat_lt
  unfold portAt
  refine ⟨by omega, by omega, fun hudp => ?_, fun hudp => ?_⟩
  · rw [h udp (.inl hudp)]
    omega
  · rw [h (udp + 1) (.inl hudp)]
    omega

/-- The buffer with a source port behind the message. -/
def withPort (buf : Memory Byte) (n udp : ℕ) (lport : ℤ) : Memory Byte := fun k =>
  if k < n then buf k
  else if k = udp then UInt8.ofNat (lport / 256).toNat
  else if k = udp + 1 then UInt8.ofNat (lport % 256).toNat
  else buf k

theorem sameMessage_withPort (hudp : udp + 4 ≤ MAXLINE) (lport : ℤ) :
    SameMessage n buf (withPort buf n udp lport) := by
  intro k hk
  unfold withPort
  rcases hk with hk | hk
  · rw [if_pos hk]
  · rw [if_neg (show ¬ k = udp by omega), if_neg (show ¬ k = udp + 1 by omega), ite_self]

theorem portAt_withPort {lport : ℤ} (h : PortFits buf n udp lport) : portAt (withPort buf n udp lport) udp = lport := by
  obtain ⟨h0, hlt, hhi, hlo⟩ := h
  have hhi' : ((withPort buf n udp lport udp).toNat : ℤ) = lport / 256 := by
    unfold withPort
    by_cases hn : udp < n
    · rw [if_pos hn, hhi hn]
    · rw [if_neg hn, if_pos rfl, UInt8.toNat_ofNat']
      omega
  have hlo' : ((withPort buf n udp lport (udp + 1)).toNat : ℤ) = lport % 256 := by
    unfold withPort
    by_cases hn : udp + 1 < n
    · rw [if_pos hn, hlo hn]
    · rw [if_neg hn, if_neg (Nat.succ_ne_self udp), if_pos rfl, UInt8.toNat_ofNat']
      omega
  rw [portAt, hhi', hlo']
  omega

theorem exists_two_contents {lport : ℤ} (hn : n < udp + 4) (hudp : udp + 4 ≤ MAXLINE)
    (hfits : PortFits buf n udp lport) :
    ∃ b₁ b₂, SameMessage n buf b₁ ∧ SameMessage n buf b₂ ∧ portAt b₁ udp = lport ∧ portAt b₂ udp = lport ∧
      portAt b₁ (udp + 2) ≠ portAt b₂ (udp + 2) := by
  obtain ⟨b, hb⟩ : ∃ b, b = withPort buf n udp lport := ⟨_, rfl⟩
  have hsame : SameMessage n buf b := hb ▸ sameMessage_withPort hudp lport
  have hport : portAt b udp = lport := hb ▸ portAt_withPort hfits
  -- the last byte of the destination port was not received
  have hother : ∀ k ≠ udp + 3, Function.update b (udp + 3) (b (udp + 3) + 1) k = b k :=
    fun k hk => Function.update_of_ne hk _ _
  refine ⟨b, Function.update b (udp + 3) (b (udp + 3) + 1), hsame, fun k hk => ?_, hport, ?_, fun heq => ?_⟩
  · rw [hother k (by omega)]
    exact hsame k hk
  · rw [← hport]
    exact portAt_congr (hother udp (by omega)) (hother (udp + 1) (by omega))
  · rw [portAt, portAt, hother (udp + 2) (by omega), Nat.add_assoc, Function.update_self, UInt8.toNat_add] at heq
    have hlt := (b (udp + 3)).toNat_lt
    simp only [UInt8.reduceToNat] at heq
    omega

theorem targets_eq_nil {family : ℤ} {q : Quoted} {b : Memory Byte} (hb : SameMessage n buf b)
    (hfamily : q.family = family) (hsport : q.sport = portAt b udp) (hn : n < udp + 4)
    (hstale : ¬ StalePorts s family buf n udp) : s.targets q = [] := by
  rw [List.eq_nil_iff_forall_not_mem]
  intro i hi
  obtain ⟨hmaxi, hopen, hfam, hport⟩ := mem_targets_iff.mp hi
  refine hstale ⟨hn, i, hmaxi, hopen, hfam.trans hfamily, ?_⟩
  rw [hport, hsport]
  exact portFits_portAt hb

theorem reportsReceived_iff {parse : Memory Byte → ℕ → Parsed} {family : ℤ} (q : Memory Byte → Quoted)
    (hparse : ∀ b, SameMessage n buf b → parse b n = .quoted (q b)) (hfamily : ∀ b, (q b).family = family)
    (hsport : ∀ b, (q b).sport = portAt b udp) (hdport : ∀ b, (q b).err.dest.port = portAt b (udp + 2))
    (hwhole : udp + 4 ≤ n → ∀ b, SameMessage n buf b → q b = q buf) (hudp : udp + 4 ≤ MAXLINE) :
    ReportsReceived s parse buf n ↔ ¬ StalePorts s family buf n udp := by
  constructor
  · rintro hreports ⟨hn, i, hmaxi, hopen, hfam, hfits⟩
    obtain ⟨b₁, b₂, hsame₁, hsame₂, hport₁, hport₂, hne⟩ := exists_two_contents hn hudp hfits
    have hmem : i ∈ s.targets (q b₁) :=
      mem_targets_iff.mpr ⟨hmaxi, hopen, hfam.trans (hfamily b₁).symm, hport₁.symm.trans (hsport b₁).symm⟩
    have hsent := hreports b₁ b₂ hsame₁ hsame₂
    rw [hparse b₁ hsame₁, hparse b₂ hsame₂] at hsent
    have hlist := Option.some.inj hsent
    have hin : (i, (q b₁).err) ∈ (s.targets (q b₂)).map fun j => (j, (q b₂).err) := by
      rw [← hlist]
      exact List.mem_map.mpr ⟨i, hmem, rfl⟩
    obtain ⟨j, -, hj⟩ := List.mem_map.mp hin
    apply hne
    rw [← hdport b₁, ← hdport b₂, (Prod.mk.inj hj).2]
  · intro hstale b₁ b₂ h₁ h₂
    rw [hparse b₁ h₁, hparse b₂ h₂]
    by_cases hn : udp + 4 ≤ n
    · rw [hwhole hn b₁ h₁, hwhole hn b₂ h₂]
    · have hlt : n < udp + 4 := Nat.not_le.mp hn
      rw [sent, sent, targets_eq_nil h₁ (hfamily b₁) (hsport b₁) hlt hstale,
        targets_eq_nil h₂ (hfamily b₂) (hsport b₂) hlt hstale]
      rfl

theorem reportsReceived_checks {parse : Memory Byte → ℕ → Parsed} {family : ℤ} (q : Memory Byte → Quoted)
    {short isError cut isUdp : Prop} [Decidable short] [Decidable isError] [Decidable cut] [Decidable isUdp]
    (hparse : ∀ b, SameMessage n buf b → parse b n =
      if short then .quit
      else if isError then if cut then .quit else if isUdp then .quoted (q b) else .ignored
      else .ignored)
    (hfamily : ∀ b, (q b).family = family) (hsport : ∀ b, (q b).sport = portAt b udp)
    (hdport : ∀ b, (q b).err.dest.port = portAt b (udp + 2))
    (hwhole : udp + 4 ≤ n → ∀ b, SameMessage n buf b → q b = q buf) (hudp : udp + 4 ≤ MAXLINE) :
    ReportsReceived s parse buf n ↔
      ¬ (¬ short ∧ isError ∧ ¬ cut ∧ isUdp ∧ StalePorts s family buf n udp) := by
  by_cases hquoted : ¬ short ∧ isError ∧ ¬ cut ∧ isUdp
  · obtain ⟨hshort, herror, hcut, hproto⟩ := hquoted
    have hparse' : ∀ b, SameMessage n buf b → parse b n = .quoted (q b) := by
      intro b h
      rw [hparse b h, if_neg hshort, if_pos herror, if_neg hcut, if_pos hproto]
    rw [reportsReceived_iff q hparse' hfamily hsport hdport hwhole hudp]
    exact not_congr ⟨fun h => ⟨hshort, herror, hcut, hproto, h⟩, fun h => h.2.2.2.2⟩
  · refine iff_of_true (fun b₁ b₂ h₁ h₂ => ?_) fun h => hquoted ⟨h.1, h.2.1, h.2.2.1, h.2.2.2.1⟩
    rw [hparse b₁ h₁, hparse b₂ h₂]
    split_ifs with hshort herror hcut hproto
    · rfl
    · rfl
    · exact absurd ⟨hshort, herror, hcut, hproto⟩ hquoted
    · rfl
    · rfl

end Sent

/-! ### The two handlers -/

section Handlers

variable {buf b : Memory Byte} {n : ℕ}

theorem ipHlen_le (x : Byte) : ipHlen x ≤ 60 := by
  unfold ipHlen
  omega

theorem SameMessage.eq (h : SameMessage n buf b) {k : ℕ} (hk : k < n) : b k = buf k := (h k (.inl hk)).symm

theorem SameMessage.slice_eq (h : SameMessage n buf b) {i j : ℕ} (hj : j ≤ n) : b.slice i j = buf.slice i j :=
  Memory.slice_congr fun _ _ hk => h.eq (by omega)

/-- What `readable_v4` makes of a message in `buf`, with the ports that it finds in `b`. -/
def quotedV4 (buf b : Memory Byte) : Quoted :=
  let hlen1 := ipHlen (buf 0)
  let hip := hlen1 + 8
  let udp := hip + ipHlen (buf hip)
  let type := buf hlen1
  let code := buf (hlen1 + 1)
  ⟨AF_INET, portAt b udp,
    ⟨errnoV4 type code, type, code, 16, ⟨AF_INET, buf.slice (hip + 16) (hip + 20), portAt b (udp + 2)⟩⟩⟩

theorem parseV4_same (h : SameMessage n buf b) :
    parseV4 b n =
      if n < ipHlen (buf 0) + 8 then .quit
      else if buf (ipHlen (buf 0)) = ICMP_UNREACH ∨ buf (ipHlen (buf 0)) = ICMP_TIMXCEED ∨
          buf (ipHlen (buf 0)) = ICMP_SOURCEQUENCH then
        if n < ipHlen (buf 0) + (8 + 20 + 8) then .quit
        else if buf (ipHlen (buf 0) + 8 + 9) = IPPROTO_UDP then .quoted (quotedV4 buf b)
        else .ignored
      else .ignored := by
  unfold parseV4
  by_cases hn : n < ipHlen (buf 0) + 8
  · -- of an empty message not even the first byte was received
    have hshort : (n : ℤ) - ipHlen (b 0) < 8 := by
      by_cases h0 : n = 0
      · omega
      · rw [h.eq (show 0 < n by omega)]
        omega
    rw [if_pos hn]
    exact if_pos hshort
  · rw [h.eq (show 0 < n by omega), if_neg hn]
    dsimp only
    rw [h.eq (show ipHlen (buf 0) < n by omega), h.eq (show ipHlen (buf 0) + 1 < n by omega), if_neg (by omega)]
    by_cases hip : n < ipHlen (buf 0) + (8 + 20 + 8)
    · have hlt : (n : ℤ) - ipHlen (buf 0) < 8 + 20 + 8 := by omega
      rw [if_pos hip, if_pos hlt]
    · have hge : ¬ (n : ℤ) - ipHlen (buf 0) < 8 + 20 + 8 := by omega
      rw [if_neg hip, if_neg hge, h.eq (show ipHlen (buf 0) + 8 < n by omega),
        h.eq (show ipHlen (buf 0) + 8 + 9 < n by omega), h.slice_eq (by omega)]
      rfl

theorem reportsReceived_v4 (s : Daemon) (buf : Memory Byte) (n : ℕ) :
    ReportsReceived s parseV4 buf n ↔ ¬ StaleV4 s buf n := by
  have hlen1 := ipHlen_le (buf 0)
  have hlen2 := ipHlen_le (buf (ipHlen (buf 0) + 8))
  have hwhole : ipHlen (buf 0) + 8 + ipHlen (buf (ipHlen (buf 0) + 8)) + 4 ≤ n →
      ∀ b, SameMessage n buf b → quotedV4 buf b = quotedV4 buf buf := by
    intro hudp b h
    unfold quotedV4
    dsimp only
    rw [portAt_congr (h.eq (by omega)) (h.eq (by omega)), portAt_congr (h.eq (by omega)) (h.eq (by omega))]
  have hbuf : ipHlen (buf 0) + 8 + ipHlen (buf (ipHlen (buf 0) + 8)) + 4 ≤ MAXLINE := by
    unfold MAXLINE
    omega
  rw [reportsReceived_checks (quotedV4 buf) (fun _ h => parseV4_same h) (fun _ => rfl) (fun _ => rfl) (fun _ => rfl)
    hwhole hbuf]
  apply not_congr
  constructor
  · intro ⟨_, htype, hcut, hproto, hstale⟩
    exact ⟨htype, Nat.not_lt.mp hcut, hproto, hstale⟩
  · intro ⟨htype, hcut, hproto, hstale⟩
    exact ⟨by omega, htype, Nat.not_lt.mpr hcut, hproto, hstale⟩

/-- What `readable_v6` makes of a message in `buf`, with what it finds in `b` of the destination. -/
def quotedV6 (buf b : Memory Byte) : Quoted :=
  ⟨AF_INET6, portAt b 48,
    ⟨errnoV6 (buf 0) (buf 1), buf 0, buf 1, 28, ⟨AF_INET6, b.slice 32 48, portAt b (48 + 2)⟩⟩⟩

theorem parseV6_same (h : SameMessage n buf b) :
    parseV6 b n =
      if n < 8 then .quit
      else if buf 0 = ICMP6_DST_UNREACH ∨ buf 0 = ICMP6_PACKET_TOO_BIG ∨ buf 0 = ICMP6_TIME_EXCEEDED then
        if n < 8 + 8 then .quit
        else if buf 14 = IPPROTO_UDP then .quoted (quotedV6 buf b)
        else .ignored
      else .ignored := by
  unfold parseV6
  by_cases hn : n < 8
  · rw [if_pos hn, if_pos hn]
  · dsimp only
    rw [if_neg hn, if_neg hn, h.eq (show 0 < n by omega), h.eq (show 1 < n by omega)]
    by_cases hip : n < 8 + 8
    · rw [if_pos hip, if_pos hip]
    · rw [if_neg hip, if_neg hip, h.eq (show 8 + 6 < n by omega)]
      rfl

theorem reportsReceived_v6 (s : Daemon) (buf : Memory Byte) (n : ℕ) :
    ReportsReceived s parseV6 buf n ↔ ¬ StaleV6 s buf n := by
  have hwhole : 48 + 4 ≤ n → ∀ b, SameMessage n buf b → quotedV6 buf b = quotedV6 buf buf := by
    intro hudp b h
    unfold quotedV6
    rw [portAt_congr (h.eq (by omega)) (h.eq (by omega)), h.slice_eq (by omega),
      portAt_congr (h.eq (by omega)) (h.eq (by omega))]
  rw [reportsReceived_checks (quotedV6 buf) (fun _ h => parseV6_same h) (fun _ => rfl) (fun _ => rfl) (fun _ => rfl)
    hwhole (by decide)]
  apply not_congr
  constructor
  · intro ⟨_, htype, hcut, hproto, hstale⟩
    exact ⟨htype, Nat.not_lt.mp hcut, hproto, hstale⟩
  · intro ⟨htype, hcut, hproto, hstale⟩
    exact ⟨by omega, htype, Nat.not_lt.mpr hcut, hproto, hstale⟩

end Handlers

/-- **When only received bytes are reported.** For every client table and every message, both handlers write
the same errors to the same clients whatever stands behind the message, or quit, unless the message is an
error about a UDP datagram that passes the length check without holding all of the quoted ports, and these
can be the ports of a client's socket. -/
theorem readable_received_iff (s : Daemon) (buf : Memory Byte) (n : ℕ) :
    (ReportsReceived s parseV4 buf n ↔ ¬ StaleV4 s buf n) ∧ (ReportsReceived s parseV6 buf n ↔ ¬ StaleV6 s buf n) :=
  ⟨reportsReceived_v4 s buf n, reportsReceived_v6 s buf n⟩

/-- A client has passed an IPv6 UDP socket that is bound to port 1234. -/
def sampleTable : Daemon :=
  icmpdNext 1024 (icmpdNext 1024 icmpdStart (.listen 5)) (.conn 0 (.passed ⟨true, some (AF_INET6, 1234), none⟩))

/-- Destination unreachable, with the first 8 bytes of the IPv6 header of a UDP datagram. -/
def shortMessage : List Byte := [1, 4, 0, 0, 0, 0, 0, 0, 96, 0, 0, 0, 0, 8, 17, 64]

/-- The bytes of an earlier call tell the client about a datagram to port `port` that nobody has sent. -/
def staleBuf (port : Byte) (k : ℕ) : Byte :=
  (shortMessage ++ List.replicate 32 0 ++ [4, 210, 0, port]).getD k 0

/-- One message of 16 bytes, and two errors for the client. -/
theorem readable_reports_stale :
    ¬ ReportsReceived sampleTable parseV6 (staleBuf 53) 16 ∧
      sent sampleTable (parseV6 (staleBuf 53) 16) ≠ sent sampleTable (parseV6 (staleBuf 69) 16) := by
  have hne : sent sampleTable (parseV6 (staleBuf 53) 16) ≠ sent sampleTable (parseV6 (staleBuf 69) 16) := by
    decide
  have hmessage : ∀ k < 16, staleBuf 53 k = staleBuf 69 k := by decide
  refine ⟨fun h => hne (h (staleBuf 53) (staleBuf 69) (fun _ _ => rfl) fun k hk => ?_), hne⟩
  rcases hk with hk | hk
  · exact hmessage k hk
  · have hlen : ∀ port : Byte, (shortMessage ++ List.replicate 32 0 ++ [4, 210, 0, port]).length ≤ k :=
      fun port => Nat.le_trans (show 52 ≤ MAXLINE by decide) hk
    rw [staleBuf, staleBuf, List.getD_eq_default _ _ (hlen 53), List.getD_eq_default _ _ (hlen 69)]

end UnixNetProg.Icmpd
