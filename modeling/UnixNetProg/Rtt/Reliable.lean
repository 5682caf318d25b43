import UnixNetProg.Rtt.Jump

/-!
# Request and reply match

Every datagram that a call transmits carries the number of the call as its sequence number, modulo
2^32, and the timestamp of its transmission. A reply that is accepted is therefore an echo of a datagram
of the current call, or of one a multiple of 2^32 calls before; if it is of the current call, the
timestamp in it was made with the current base. `Inv` is the invariant; it also counts the transmissions
of each call against `rtt_nrexmt`.
-/

namespace UnixNetProg.Rtt

open Lib

/-! ### Headers on the wire -/

theorem ofLe32_le32_append (v : BitVec 32) (rest : List Byte) : ofLe32 (le32 v ++ rest) = v := by
  apply BitVec.eq_of_toNat_eq
  have hlt := v.isLt
  simp only [le32, ofLe32, List.cons_append, List.nil_append, List.getD_cons_zero, List.getD_cons_succ,
    UInt8.toNat_ofNat', BitVec.toNat_ofNat]
  omega

theorem Hdr.length_bytes (hdr : Hdr) : hdr.bytes.length = HDR_SIZE := rfl

theorem Hdr.ofBytes_bytes_append (hdr : Hdr) (rest : List Byte) : ofBytes (hdr.bytes ++ rest) = hdr := by
  have hseq : (hdr.bytes ++ rest).take 4 = le32 hdr.seq ++ [] := rfl
  have hts : (hdr.bytes ++ rest).drop 4 = le32 hdr.ts ++ rest := rfl
  rw [ofBytes, hseq, hts, ofLe32_le32_append, ofLe32_le32_append]

theorem Hdr.overwrite_bytes (old hdr : Hdr) (rest : List Byte) :
    old.overwrite (hdr.bytes ++ rest) = hdr := by
  have htake : (hdr.bytes ++ rest).take HDR_SIZE = hdr.bytes := by
    rw [← hdr.length_bytes, List.take_left]
  rw [overwrite, htake, ofBytes_bytes_append]

/-- What follows the header. -/
def Dgram.payload (dgram : Dgram) : List Byte := dgram.bytes.drop HDR_SIZE

theorem dgEcho_bytes {dgram : Dgram} {hdr : Hdr} (h : dgram.bytes = hdr.bytes ++ dgram.payload) :
    (dgEcho dgram).bytes = hdr.bytes ++ dgram.payload.take (MAXLINE - HDR_SIZE) := by
  show dgram.bytes.take MAXLINE = _
  rw [h, List.take_append, hdr.length_bytes, List.take_of_length_le]
  rw [hdr.length_bytes]
  decide

/-- What a call gets of the payload of a datagram: the server cuts the datagram, then the client does. -/
def received (payload : List Byte) (inbytes : ℕ) : List Byte :=
  (payload.take (MAXLINE - HDR_SIZE)).take inbytes

/-- The client's receive buffers after an echo has been stored in them. -/
structure Stored (s : State) (d : Dgram) : Prop where
  echo : s.echo = some (dgEcho d)
  n : s.n = HDR_SIZE + (received d.payload s.inbytes).length
  data : s.inbuff.slice 0 (received d.payload s.inbytes).length = received d.payload s.inbytes

variable {s : State}

theorem stored_recvmsg {d : Dgram} {hdr : Hdr} (h : d.bytes = hdr.bytes ++ d.payload) :
    Stored (recvmsg s (dgEcho d)) d := by
  have hdata : ((dgEcho d).bytes.drop HDR_SIZE).take s.inbytes = received d.payload s.inbytes := by
    rw [dgEcho_bytes h, ← hdr.length_bytes, List.drop_left]
    rfl
  refine ⟨rfl, ?_, ?_⟩
  · show min (dgEcho d).bytes.length (HDR_SIZE + s.inbytes) = HDR_SIZE + (received d.payload s.inbytes).length
    rw [← hdata, List.length_take, List.length_drop, dgEcho_bytes h, List.length_append, Hdr.length_bytes]
    omega
  · show (s.inbuff.store 0 (((dgEcho d).bytes.drop HDR_SIZE).take s.inbytes)).slice 0 _ = _
    rw [hdata]
    have hslice := Memory.slice_store s.inbuff (le_refl 0) (received d.payload s.inbytes)
    rw [Nat.zero_add, Memory.slice_self, List.nil_append] at hslice
    exact hslice

/-! ### The invariant -/

/-- The number of datagrams that the call `c` has transmitted. -/
def transmissions (s : State) (c : ℕ) : ℕ := s.toServer.countP fun d => d.call = c

/-- A transmitted datagram; those of the last call have a timestamp of the current base. -/
def Wire (s : State) (d : Dgram) : Prop :=
  d.call ≤ s.ncalls ∧ ∃ ts, d.bytes = Hdr.bytes ⟨BitVec.ofNat 32 d.call, ts⟩ ++ d.payload ∧
    (d.call = s.ncalls → ts = rttTs s.rttinfo d.sentAt)

/-- The datagram that was accepted is an echo of `d`. -/
structure Held (s : State) (d : Dgram) : Prop extends Stored s d where
  mem : d ∈ s.toServer
  seq : BitVec.ofNat 32 d.call = BitVec.ofNat 32 s.ncalls
  ts : d.call = s.ncalls → s.recvhdr.ts = rttTs s.rttinfo d.sentAt

/-- The reply to the call of `r` is an echo of `d`, which has the sequence number of that call. -/
structure EchoOf (r : Result) (reply : Reply) (d : Dgram) : Prop where
  le : d.call ≤ r.call
  seq : BitVec.ofNat 32 d.call = BitVec.ofNat 32 r.call
  echo : reply.echo = some (dgEcho d)
  ms : d.call = r.call → reply.ms = BitVec.ofInt 32 (reply.stoppedAt.ms - d.sentAt.ms)
  data : reply.data = received d.payload r.inbytes
  n : reply.n = reply.data.length

structure Inv (s : State) : Prop where
  seq : s.sendhdr.seq = BitVec.ofNat 32 s.ncalls
  wire : ∀ d ∈ s.toServer, Wire s d
  echoed : ∀ e ∈ s.toClient, ∃ d ∈ s.toServer, e = dgEcho d
  count : ∀ c, transmissions s c ≤ RTT_MAXNREXMT + 1
  active : s.pc ≠ .idle → s.pc ≠ .wild → s.rttinfo.rttNrexmt ≤ RTT_MAXNREXMT ∧
    transmissions s s.ncalls = s.rttinfo.rttNrexmt + if s.pc = .sendagain then 0 else 1
  held : s.pc = .accepted ∨ s.pc = .stopping → ∃ d, Held s d
  results : ∀ r ∈ s.results, r.call ≤ s.ncalls ∧
    ∀ reply, r.reply = some reply → ∃ d ∈ s.toServer, EchoOf r reply d

/-- Between `Sendmsg` and the return the current datagram is counted. -/
theorem Inv.counted (h : Inv s)
    (hpc : s.pc = .sent ∨ s.pc = .armed ∨ s.pc = .receiving ∨ s.pc = .accepted) :
    s.rttinfo.rttNrexmt ≤ RTT_MAXNREXMT ∧ transmissions s s.ncalls = s.rttinfo.rttNrexmt + 1 := by
  have hne : s.pc ≠ .idle ∧ s.pc ≠ .wild ∧ s.pc ≠ .sendagain := by
    rcases hpc with hpc | hpc | hpc | hpc <;> rw [hpc] <;> decide
  have hactive := h.active hne.1 hne.2.1
  rw [if_neg hne.2.2] at hactive
  exact hactive

theorem inv_start : Inv start := by
  refine ⟨rfl, fun _ hd => absurd hd List.not_mem_nil, fun _ he => absurd he List.not_mem_nil, fun c => ?_,
    fun h => absurd rfl h, nofun, fun _ hr => absurd hr List.not_mem_nil⟩
  exact Nat.zero_le _

theorem inv_startCall (h : Inv s) (outbuff : List Byte) (inbuff : Memory Byte) (inbytes : ℕ)
    (now : TimeOfDay) : Inv (startCall s outbuff inbuff inbytes now) := by
  have hnew : transmissions s (s.ncalls + 1) = 0 := by
    refine List.countP_eq_zero.mpr fun d hd => ?_
    have hle := (h.wire d hd).1
    simp only [decide_eq_true_eq]
    omega
  refine ⟨?_, fun d hd => ?_, h.echoed, h.count, fun _ _ => ⟨Nat.zero_le _, hnew⟩, nofun, fun r hr => ?_⟩
  · show s.sendhdr.seq + 1 = BitVec.ofNat 32 (s.ncalls + 1)
    rw [h.seq, BitVec.ofNat_add]
    rfl
  · obtain ⟨hle, ts, hbytes, -⟩ := h.wire d hd
    refine ⟨Nat.le_succ_of_le hle, ts, hbytes, fun hcall => ?_⟩
    simp only [startCall] at hcall
    omega
  · obtain ⟨hle, hecho⟩ := h.results r hr
    exact ⟨Nat.le_succ_of_le hle, hecho⟩

theorem inv_sendmsg (h : Inv s) (hpc : s.pc = .sendagain) (now : TimeOfDay) : Inv (sendmsg s now) := by
  obtain ⟨hmax, hcount⟩ := h.active (by rw [hpc]; exact nofun) (by rw [hpc]; exact nofun)
  rw [if_pos hpc] at hcount
  have hmem : ∀ d ∈ s.toServer, d ∈ (sendmsg s now).toServer := fun d hd => List.mem_append_left _ hd
  have hsent : ∀ c, transmissions (sendmsg s now) c =
      transmissions s c + if s.ncalls = c then 1 else 0 := by
    intro c
    simp [transmissions, sendmsg, List.countP_append, List.countP_cons]
  refine ⟨h.seq, fun d hd => ?_, fun e he => ?_, fun c => ?_, fun _ _ => ⟨hmax, ?_⟩, nofun,
    fun r hr => ⟨(h.results r hr).1, fun reply hreply => ?_⟩⟩
  · rcases List.mem_append.mp hd with hd | hd
    · exact h.wire d hd
    · rw [List.mem_singleton.mp hd]
      refine ⟨le_refl _, rttTs s.rttinfo now, ?_, fun _ => rfl⟩
      rw [← h.seq]
      rfl
  · obtain ⟨d, hd, rfl⟩ := h.echoed e he
    exact ⟨d, hmem d hd, rfl⟩
  · rw [hsent c]
    split_ifs with hc
    · rw [← hc]
      omega
    · exact h.count c
  · show transmissions (sendmsg s now) s.ncalls = s.rttinfo.rttNrexmt + 1
    rw [hsent, if_pos rfl, hcount]
  · obtain ⟨d, hd, hecho⟩ := (h.results r hr).2 reply hreply
    exact ⟨d, hmem d hd, hecho⟩

theorem held_recvmsg (h : Inv s) {d : Dgram} (hd : d ∈ s.toServer)
    (hseq : (s.recvhdr.overwrite (dgEcho d).bytes).seq = s.sendhdr.seq) :
    Held (recvmsg s (dgEcho d)) d := by
  obtain ⟨-, ts, hbytes, hcur⟩ := h.wire d hd
  have hhdr : s.recvhdr.overwrite (dgEcho d).bytes = ⟨BitVec.ofNat 32 d.call, ts⟩ := by
    rw [dgEcho_bytes hbytes, Hdr.overwrite_bytes]
  rw [hhdr, h.seq] at hseq
  refine ⟨stored_recvmsg hbytes, hd, hseq, fun hcall => ?_⟩
  show (s.recvhdr.overwrite (dgEcho d).bytes).ts = rttTs s.rttinfo d.sentAt
  rw [hhdr]
  exact hcur hcall

theorem inv_recvmsg (h : Inv s) (hpc : s.pc = .receiving) {dgram : Dgram}
    (hfrom : dgram ∈ s.toClient ∨ dgram.bytes.length < HDR_SIZE) : Inv (recvmsg s dgram) := by
  have hactive := h.counted (.inr (.inr (.inl hpc)))
  have hne : (recvmsg s dgram).pc ≠ .sendagain ∧ (recvmsg s dgram).pc ≠ .stopping := by
    rcases recvmsg_pc s dgram with hpc' | hpc' <;> rw [hpc'] <;> exact ⟨nofun, nofun⟩
  refine ⟨h.seq, h.wire, h.echoed, h.count, fun _ _ => ?_, fun hpc' => ?_, h.results⟩
  · rw [if_neg hne.1]
    exact hactive
  · -- the loop was left: the datagram has a whole header, so the server sent it
    have hacc : (recvmsg s dgram).pc = .accepted := hpc'.resolve_right hne.2
    have hcond : ¬ (min dgram.bytes.length (HDR_SIZE + s.inbytes) < HDR_SIZE ∨
        (s.recvhdr.overwrite dgram.bytes).seq ≠ s.sendhdr.seq) := by
      intro hc
      have hrec : (recvmsg s dgram).pc = .receiving := if_pos hc
      rw [hrec] at hacc
      exact nomatch hacc
    rw [not_or, not_not] at hcond
    obtain ⟨hlen, hseq⟩ := hcond
    rcases hfrom with hmem | hshort
    · obtain ⟨d, hd, rfl⟩ := h.echoed dgram hmem
      exact ⟨d, held_recvmsg h hd hseq⟩
    · omega

theorem inv_stop (h : Inv s) (hpc : s.pc = .stopping) (now : TimeOfDay) : Inv (stop s now) := by
  refine ⟨h.seq, h.wire, h.echoed, h.count, fun hne => absurd rfl hne, nofun, fun r hr => ?_⟩
  rcases List.mem_append.mp hr with hr | hr
  · exact h.results r hr
  · obtain ⟨d, hheld⟩ := h.held (.inr hpc)
    have hn : s.n - HDR_SIZE = (received d.payload s.inbytes).length := by
      rw [hheld.n]
      omega
    rw [List.mem_singleton.mp hr]
    refine ⟨le_refl _, fun reply hreply => ⟨d, hheld.mem, ?_⟩⟩
    obtain rfl := Option.some.inj hreply
    refine ⟨(h.wire d hheld.mem).1, hheld.seq, hheld.echo, fun hcall => ?_, ?_, ?_⟩
    · show rttTs s.rttinfo now - s.recvhdr.ts = _
      rw [hheld.ts hcall, rttTs_sub_rttTs]
    · show s.inbuff.slice 0 (s.n - HDR_SIZE) = _
      rw [hn, hheld.data]
    · show s.n - HDR_SIZE = (s.inbuff.slice 0 (s.n - HDR_SIZE)).length
      rw [Memory.length_slice]
      rfl

theorem inv_sigalrm (h : Inv s) (hjmp : JmpInv s) (halarm : s.alarm ≠ 0) : Inv (sigalrm s) := by
  unfold sigalrm
  split_ifs with hsafe
  · obtain ⟨hmax, hcount⟩ := h.counted (.inr (hjmp.timer halarm))
    unfold timeout
    dsimp only
    split_ifs with hgiveUp
    · refine ⟨h.seq, h.wire, h.echoed, h.count, fun hne => absurd rfl hne, nofun, fun r hr => ?_⟩
      rcases List.mem_append.mp hr with hr | hr
      · exact h.results r hr
      · rw [List.mem_singleton.mp hr]
        exact ⟨le_refl _, fun reply hreply => absurd hreply (Option.some_ne_none reply).symm⟩
    · refine ⟨h.seq, h.wire, h.echoed, h.count, fun _ _ => ⟨?_, hcount⟩, nofun, h.results⟩
      rw [rttTimeout, decide_eq_true_eq, not_lt] at hgiveUp
      exact hgiveUp
  · exact ⟨h.seq, h.wire, h.echoed, h.count, fun _ hne => absurd rfl hne, nofun, h.results⟩

theorem inv_next {a : Action} (h : Inv s) (hjmp : JmpInv s) (ha : Enabled s a) : Inv (next s a) := by
  cases a with
  | call outbuff inbuff inbytes now => exact inv_startCall h outbuff inbuff inbytes now
  | sendmsg now => exact inv_sendmsg h ha now
  | alarm =>
    exact ⟨h.seq, h.wire, h.echoed, h.count, fun _ _ => h.counted (.inl ha), nofun, h.results⟩
  | sigsetjmp =>
    exact ⟨h.seq, h.wire, h.echoed, h.count, fun _ _ => h.counted (.inr (.inl ha)), nofun, h.results⟩
  | recvmsg dgram => exact inv_recvmsg h ha.1 ha.2
  | alarmOff =>
    have hactive := h.counted (.inr (.inr (.inr ha)))
    obtain ⟨d, hheld⟩ := h.held (.inl ha)
    refine ⟨h.seq, h.wire, h.echoed, h.count, fun _ _ => hactive, fun _ => ⟨d, ?_⟩, h.results⟩
    exact ⟨⟨hheld.echo, hheld.n, hheld.data⟩, hheld.mem, hheld.seq, hheld.ts⟩
  | stop now => exact inv_stop h ha now
  | sigalrm => exact inv_sigalrm h hjmp ha
  | echo dgram =>
    refine ⟨h.seq, h.wire, fun e he => ?_, h.count, h.active, fun hpc => ?_, h.results⟩
    · rcases List.mem_append.mp he with he | he
      · exact h.echoed e he
      · exact ⟨dgram, ha, List.mem_singleton.mp he⟩
    · obtain ⟨d, hheld⟩ := h.held hpc
      exact ⟨d, ⟨hheld.echo, hheld.n, hheld.data⟩, hheld.mem, hheld.seq, hheld.ts⟩

theorem inv_reachable (h : dgSendRecv.Reachable s) : Inv s := by
  refine TransitionSystem.invariant ?_ ?_ h
  · rintro s rfl
    exact inv_start
  · rintro s s' hr hinv ⟨a, ha, rfl⟩
    exact inv_next hinv (jmpInv_reachable hr) ha

/-! ### The protocol -/

theorem mod_eq_of_seq_eq {c c' : ℕ} (h : BitVec.ofNat 32 c = BitVec.ofNat 32 c') :
    c % 2 ^ 32 = c' % 2 ^ 32 := by
  have hnat := congrArg BitVec.toNat h
  rw [BitVec.toNat_ofNat, BitVec.toNat_ofNat] at hnat
  exact hnat

/-- The runs in which each `SIGALRM` arrives after the `sigsetjmp` of the current transmission. -/
def dgSendRecvAfterSetjmp : TransitionSystem State :=
  .ofActions (· = start) (fun s a => Enabled s a ∧ (a = .sigalrm → s.pc ≠ .armed)) next

/-- **Reliable request and reply.** In every run of fewer than 2^32 calls, over a network that loses,
duplicates, reorders and delays datagrams: a call that returns `n >= 0` has accepted an echo of a
datagram `d` that it transmitted itself, and has handed to `rtt_stop` the milliseconds since that
transmission, modulo 2^32; and no call transmits more than `RTT_MAXNREXMT + 1` datagrams. -/
theorem dgSendRecv_reliable {s : State} (h : dgSendRecvAfterSetjmp.Reachable s)
    (hcalls : s.ncalls < 2 ^ 32) :
    (∀ r ∈ s.results, ∀ reply, r.reply = some reply →
      ∃ d ∈ s.toServer, d.call = r.call ∧ reply.echo = some (dgEcho d) ∧
        reply.ms = BitVec.ofInt 32 (reply.stoppedAt.ms - d.sentAt.ms)) ∧
    ∀ c, transmissions s c ≤ RTT_MAXNREXMT + 1 := by
  have hr : dgSendRecv.Reachable s := h.mono fun _ _ => And.left
  have hinv := inv_reachable hr
  refine ⟨fun r hmem reply hreply => ?_, hinv.count⟩
  obtain ⟨hle, hreplies⟩ := hinv.results r hmem
  obtain ⟨d, hd, hecho⟩ := hreplies reply hreply
  have hcall : d.call = r.call := by
    have hmod := mod_eq_of_seq_eq hecho.seq
    have hle' := hecho.le
    omega
  exact ⟨d, hd, hcall, hecho.echo, hecho.ms hcall⟩

/-! ### A call returns when nothing is lost -/

/-- An action that is neither a call nor a timeout. -/
def QuietStep (s s' : State) : Prop :=
  ∃ a : Action, (a.isCall = false ∧ a ≠ .sigalrm) ∧ Enabled s a ∧ s' = next s a

theorem recvmsg_accepts {d : Dgram} {ts : BitVec 32}
    (h : d.bytes = Hdr.bytes ⟨s.sendhdr.seq, ts⟩ ++ d.payload) :
    (recvmsg s (dgEcho d)).pc = .accepted := by
  refine if_neg ?_
  rw [dgEcho_bytes h, Hdr.overwrite_bytes, List.length_append, Hdr.length_bytes, not_or, not_not]
  exact ⟨by omega, rfl⟩

/-- The reply to a call for which an echo of `d` is accepted. -/
def replyOf (s : State) (d : Dgram) (now : TimeOfDay) : Reply where
  n := (received d.payload s.inbytes).length
  data := received d.payload s.inbytes
  echo := some (dgEcho d)
  ms := rttTs s.rttinfo now - (s.recvhdr.overwrite (dgEcho d).bytes).ts
  stoppedAt := now

/-- **If an echo with the sequence number of the call arrives, the call returns it.** -/
theorem quiet_exchange (hpc : s.pc = .sendagain) (now : TimeOfDay) {d : Dgram} {ts : BitVec 32}
    (hd : d ∈ (sendmsg s now).toServer) (h : d.bytes = Hdr.bytes ⟨s.sendhdr.seq, ts⟩ ++ d.payload) :
    ∃ s', Relation.ReflTransGen QuietStep s s' ∧ s'.pc = .idle ∧ s'.ncalls = s.ncalls ∧
      s'.toServer = (sendmsg s now).toServer ∧
      s'.results = s.results ++ [⟨s.ncalls, s.outbuff, s.inbytes, some (replyOf s d now)⟩] := by
  let s₁ := next s (.sendmsg now)
  let s₂ := next s₁ .alarm
  let s₃ := next s₂ .sigsetjmp
  let s₄ := next s₃ (.echo d)
  let s₅ := next s₄ (.recvmsg (dgEcho d))
  let s₆ := next s₅ .alarmOff
  have h₁ : QuietStep s s₁ := ⟨.sendmsg now, ⟨rfl, nofun⟩, hpc, rfl⟩
  have h₂ : QuietStep s₁ s₂ := ⟨.alarm, ⟨rfl, nofun⟩, rfl, rfl⟩
  have h₃ : QuietStep s₂ s₃ := ⟨.sigsetjmp, ⟨rfl, nofun⟩, rfl, rfl⟩
  have h₄ : QuietStep s₃ s₄ := ⟨.echo d, ⟨rfl, nofun⟩, hd, rfl⟩
  have h₅ : QuietStep s₄ s₅ := by
    refine ⟨.recvmsg (dgEcho d), ⟨rfl, nofun⟩, ⟨rfl, .inl ?_⟩, rfl⟩
    exact List.mem_append_right _ (List.mem_singleton.mpr rfl)
  have hacc : s₅.pc = .accepted := recvmsg_accepts (s := s₄) h
  have h₆ : QuietStep s₅ s₆ := ⟨.alarmOff, ⟨rfl, nofun⟩, hacc, rfl⟩
  have h₇ : QuietStep s₆ (next s₆ (.stop now)) := ⟨.stop now, ⟨rfl, nofun⟩, rfl, rfl⟩
  have hrun : Relation.ReflTransGen QuietStep s (next s₆ (.stop now)) :=
    ((((((Relation.ReflTransGen.single h₁).tail h₂).tail h₃).tail h₄).tail h₅).tail h₆).tail h₇
  -- the reply is what `Recvmsg` has stored
  have hstored : Stored s₅ d := stored_recvmsg (s := s₄) h
  have hn : s₅.n - HDR_SIZE = (received d.payload s.inbytes).length := by
    rw [hstored.n]
    exact Nat.add_sub_cancel_left ..
  have hdata : s₅.inbuff.slice 0 (s₅.n - HDR_SIZE) = received d.payload s.inbytes := by
    rw [hn]
    exact hstored.data
  refine ⟨next s₆ (.stop now), hrun, rfl, rfl, rfl, ?_⟩
  show s.results ++ [⟨s.ncalls, s.outbuff, s.inbytes, some ⟨s₅.n - HDR_SIZE,
    s₅.inbuff.slice 0 (s₅.n - HDR_SIZE), some (dgEcho d), _, now⟩⟩] = _
  rw [hdata, hn]
  rfl

/-- One call, answered at once. -/
theorem dgSendRecv_reliable_sample : ∃ s, dgSendRecvAfterSetjmp.Reachable s ∧ s.ncalls < 2 ^ 32 ∧
    s.results ≠ [] ∧
    (∀ r ∈ s.results, ∀ reply, r.reply = some reply →
      ∃ d ∈ s.toServer, d.call = r.call ∧ reply.echo = some (dgEcho d) ∧
        reply.ms = BitVec.ofInt 32 (reply.stoppedAt.ms - d.sentAt.ms)) ∧
    ∀ c, transmissions s c ≤ RTT_MAXNREXMT + 1 := by
  have h₀ : dgSendRecvAfterSetjmp.Reachable start := TransitionSystem.reachable_init rfl
  have h₁ : dgSendRecvAfterSetjmp.Reachable (startCall start [120] (fun _ => 0) 16 sampleTime) :=
    h₀.step ⟨.call [120] (fun _ => 0) 16 sampleTime, ⟨rfl, nofun⟩, rfl⟩
  obtain ⟨s, hrun, -, hcalls, -, hresults⟩ :=
    quiet_exchange (s := startCall start [120] (fun _ => 0) 16 sampleTime) rfl sampleTime
      (List.mem_append_right _ (List.mem_singleton.mpr rfl)) rfl
  have hr : dgSendRecvAfterSetjmp.Reachable s := by
    refine h₁.trans (Relation.ReflTransGen.mono ?_ _ _ hrun)
    rintro s s' ⟨a, ⟨-, hne⟩, ha, rfl⟩
    exact ⟨a, ⟨ha, fun h => absurd h hne⟩, rfl⟩
  have hlt : s.ncalls < 2 ^ 32 := by
    rw [hcalls]
    decide
  refine ⟨s, hr, hlt, ?_, dgSendRecv_reliable hr hlt⟩
  rw [hresults]
  exact nofun

end UnixNetProg.Rtt
