import UnixNetProg.Libc
import UnixNetProg.Rtt.Reliable

/-!
# The line echo client (`rtt/dg_cli.c`)

Each line of the input is sent with `Dg_send_recv` and the reply is printed. The state keeps the whole
of `dg_send_recv` and the network, which go on by themselves between the steps of `dg_cli`. The server
receives into `MAXLINE` bytes, header included, so a line of more than `MAXLINE - sizeof(struct hdr)`
bytes comes back cut. `CliInv` says what comes back for each line, and `dgCli_serves` that it can come
back.
-/

namespace UnixNetProg.Rtt

open Lib

/-- Where `dg_cli` is: at `Fgets`, in `Dg_send_recv`, returned at the end of the input, or ended by
`err_quit`. -/
inductive CliPc where
  | reading
  | waiting
  | returned
  | quit
  deriving DecidableEq, Repr

/-- A return of `Dg_send_recv`: the string in `sendline`, `n`, and `recvline[0..n)`. -/
structure Echoed where
  sendline : CString
  n : ℕ
  recvline : List Byte

structure CliState where
  pc : CliPc
  fp : List Byte
  sendline : CString
  net : State
  stdout : List Byte
  history : List Echoed

inductive CliAction where
  | fgets (recvline : Memory Byte) (now : TimeOfDay)
  | net (a : Action)
  | returned

/-- Read a line and call `Dg_send_recv`. -/
def readLine (c : CliState) (recvline : Memory Byte) (now : TimeOfDay) : CliState :=
  match fgets MAXLINE c.fp with
  | none => { c with pc := .returned }
  | some (line, rest) =>
    { c with
      pc := .waiting
      fp := rest
      sendline := stringOf line
      net := startCall c.net (stringOf line) recvline MAXLINE now }

/-- `Dg_send_recv` has returned: print the reply, or quit. -/
def printReply (c : CliState) : CliState :=
  match c.net.results.getLast?.bind Result.reply with
  | none => { c with pc := .quit }
  | some reply =>
    { c with
      pc := .reading
      stdout := c.stdout ++ stringOf reply.data
      history := c.history ++ [⟨c.sendline, reply.n, reply.data⟩] }

def CliEnabled (c : CliState) : CliAction → Prop
  | .fgets _ _ => c.pc = .reading
  | .net a => a.isCall = false ∧ Enabled c.net a
  | .returned => c.pc = .waiting ∧ c.net.pc = .idle

def cliNext (c : CliState) : CliAction → CliState
  | .fgets recvline now => readLine c recvline now
  | .net a => { c with net := next c.net a }
  | .returned => printReply c

def cliStart (input : List Byte) : CliState := ⟨.reading, input, [], start, [], []⟩

def dgCli (input : List Byte) : TransitionSystem CliState :=
  .ofActions (· = cliStart input) CliEnabled cliNext

/-! ### What `dg_send_recv` leaves behind -/

variable {s : State}

theorem next_args {a : Action} (ha : a.isCall = false) :
    (next s a).outbuff = s.outbuff ∧ (next s a).inbytes = s.inbytes ∧ (next s a).ncalls = s.ncalls := by
  cases a with
  | call outbuff inbuff inbytes now => exact nomatch ha
  | sigalrm =>
    obtain ⟨houtbuff, hinbytes, hncalls, -⟩ := sigalrm_keeps s
    exact ⟨houtbuff, hinbytes, hncalls⟩
  | _ => exact ⟨rfl, rfl, rfl⟩

theorem mem_toServer_next {a : Action} (ha : Enabled s a) {d : Dgram} (hd : d ∈ (next s a).toServer) :
    d ∈ s.toServer ∨ s.pc = .sendagain ∧ d.call = s.ncalls ∧ d.payload = s.outbuff := by
  cases a with
  | sendmsg now =>
    rcases List.mem_append.mp hd with hd | hd
    · exact .inl hd
    · rw [List.mem_singleton.mp hd]
      exact .inr ⟨ha, rfl, rfl⟩
  | sigalrm =>
    obtain ⟨-, -, -, hserver⟩ := sigalrm_keeps s
    rw [next, hserver] at hd
    exact .inl hd
  | _ => exact .inl hd

theorem idle_next {a : Action} (h : JmpInv s) (hpc : s.pc = .idle) (ha : Enabled s a)
    (hcall : a.isCall = false) : (next s a).pc = .idle := by
  cases a with
  | call outbuff inbuff inbytes now => exact nomatch hcall
  | echo dgram => exact hpc
  | sigalrm => exact absurd ha (h.not_alarm (.inl hpc))
  | recvmsg dgram => exact nomatch hpc.symm.trans ha.1
  | _ => exact nomatch hpc.symm.trans ha

/-- Between two calls the last result is that of the last call. -/
def LastResult (s : State) : Prop :=
  s.pc = .idle → s.ncalls ≠ 0 → ∃ r, s.results.getLast? = some r ∧ r.call = s.ncalls ∧
    r.inbytes = s.inbytes

theorem lastResult_next {a : Action} (h : LastResult s) : LastResult (next s a) := by
  cases a with
  | stop now =>
    intro _ _
    exact ⟨_, List.getLast?_concat .., rfl, rfl⟩
  | sigalrm =>
    show LastResult (sigalrm s)
    unfold sigalrm timeout
    dsimp only
    split_ifs
    · intro _ _
      exact ⟨_, List.getLast?_concat .., rfl, rfl⟩
    · exact nofun
    · exact nofun
  | recvmsg dgram =>
    intro hidle
    rcases recvmsg_pc s dgram with hpc' | hpc' <;> exact nomatch hpc'.symm.trans hidle
  | echo dgram => exact h
  | _ => exact nofun

theorem lastResult_reachable (h : dgSendRecv.Reachable s) : LastResult s := by
  refine TransitionSystem.invariant ?_ ?_ h
  · rintro s rfl
    exact fun _ hne => absurd rfl hne
  · rintro s s' - hlast ⟨a, -, rfl⟩
    exact lastResult_next hlast

/-! ### What comes back -/

theorem fgets_of_head? {fp : List Byte} {line : CString} (h : (sendlines fp).head? = some line) :
    ∃ text rest, fgets MAXLINE fp = some (text, rest) ∧ stringOf text = line := by
  cases hread : fgets MAXLINE fp with
  | none =>
    rw [sendlines_of_none hread] at h
    exact nomatch h
  | some p =>
    rw [sendlines_of_some hread] at h
    exact ⟨p.1, p.2, rfl, Option.some.inj h⟩

variable {input : List Byte} {c : CliState}

/-- The call number `i + 1` sends line number `i`. -/
def SentLine (input : List Byte) (d : Dgram) : Prop :=
  ∃ i, d.call = i + 1 ∧ (sendlines input)[i]? = some d.payload

/-- Line number `j` went out, and a line with the same sequence number came back. -/
def EchoedLine (input : List Byte) (j : ℕ) (e : Echoed) : Prop :=
  (sendlines input)[j]? = some e.sendline ∧ ∃ i ≤ j, i % 2 ^ 32 = j % 2 ^ 32 ∧
    ∃ line, (sendlines input)[i]? = some line ∧ e.recvline = received line MAXLINE ∧
      e.n = e.recvline.length

structure CliInv (input : List Byte) (c : CliState) : Prop where
  net : dgSendRecv.Reachable c.net
  idle : c.pc ≠ .waiting → c.net.pc = .idle
  unread : sendlines c.fp = (sendlines input).drop c.net.ncalls
  reading : c.pc = .reading → c.net.ncalls = c.history.length
  waiting : c.pc = .waiting → c.net.ncalls = c.history.length + 1 ∧
    (sendlines input)[c.history.length]? = some c.sendline ∧ c.net.outbuff = c.sendline ∧
      c.net.inbytes = MAXLINE
  wire : ∀ d ∈ c.net.toServer, SentLine input d
  history : ∀ j e, c.history[j]? = some e → EchoedLine input j e

theorem cliInv_start (input : List Byte) : CliInv input (cliStart input) :=
  ⟨TransitionSystem.reachable_init rfl, fun _ => rfl, rfl, fun _ => rfl, nofun, fun _ hd => absurd hd List.not_mem_nil,
    nofun⟩

theorem cliInv_readLine (h : CliInv input c) (hpc : c.pc = .reading) (recvline : Memory Byte)
    (now : TimeOfDay) : CliInv input (readLine c recvline now) := by
  have hidle : c.net.pc = .idle := h.idle (by rw [hpc]; exact nofun)
  unfold readLine
  split
  · exact ⟨h.net, fun _ => hidle, h.unread, nofun, nofun, h.wire, h.history⟩
  · rename_i line rest hread
    have hunread := h.unread
    rw [sendlines_of_some hread, h.reading hpc] at hunread
    have hline : (sendlines input)[c.history.length]? = some (stringOf line) := by
      rw [← List.head?_drop, ← hunread, List.head?_cons]
    refine ⟨reachable_next h.net (.call (stringOf line) recvline MAXLINE now) hidle, fun hne => absurd rfl hne,
      ?_, nofun, fun _ => ⟨?_, hline, rfl, rfl⟩, h.wire, h.history⟩
    · show sendlines rest = (sendlines input).drop (c.net.ncalls + 1)
      rw [h.reading hpc, ← List.tail_drop, ← hunread, List.tail_cons]
    · show c.net.ncalls + 1 = _
      rw [h.reading hpc]

theorem cliInv_net (h : CliInv input c) {a : Action} (hcall : a.isCall = false) (ha : Enabled c.net a) :
    CliInv input { c with net := next c.net a } := by
  obtain ⟨houtbuff, hinbytes, hncalls⟩ := next_args (s := c.net) hcall
  refine ⟨reachable_next h.net a ha, fun hpc => idle_next (jmpInv_reachable h.net) (h.idle hpc) ha hcall,
    ?_, fun hpc => ?_, fun hpc => ?_, fun d hd => ?_, h.history⟩
  · rw [hncalls]
    exact h.unread
  · rw [hncalls]
    exact h.reading hpc
  · rw [hncalls, houtbuff, hinbytes]
    exact h.waiting hpc
  · rcases mem_toServer_next ha hd with hd | ⟨hpc, hcall, hpayload⟩
    · exact h.wire d hd
    · have hwaiting : c.pc = .waiting := by
        by_contra hne
        exact nomatch hpc.symm.trans (h.idle hne)
      obtain ⟨hcalls, hline, hout, -⟩ := h.waiting hwaiting
      refine ⟨c.history.length, hcall.trans hcalls, ?_⟩
      rw [hpayload, hout]
      exact hline

theorem cliInv_printReply (h : CliInv input c) (hpc : c.pc = .waiting) (hidle : c.net.pc = .idle) :
    CliInv input (printReply c) := by
  obtain ⟨hcalls, hline, -, hinbytes⟩ := h.waiting hpc
  unfold printReply
  split
  · exact ⟨h.net, fun _ => hidle, h.unread, nofun, nofun, h.wire, h.history⟩
  · rename_i reply hreply
    refine ⟨h.net, fun _ => hidle, h.unread, fun _ => ?_, nofun, h.wire, fun j e he => ?_⟩
    · rw [hcalls, List.length_append]
      rfl
    · by_cases hj : j < c.history.length
      · rw [List.getElem?_append_left hj] at he
        exact h.history j e he
      · -- the new entry: the last result is that of the call that has just returned
        rw [List.getElem?_append_right (Nat.le_of_not_lt hj), List.getElem?_singleton] at he
        split_ifs at he with hzero
        obtain rfl : j = c.history.length := by omega
        obtain rfl := Option.some.inj he
        obtain ⟨r, hr, hrcall, hrbytes⟩ := lastResult_reachable h.net hidle (by omega)
        rw [hr] at hreply
        have hinv := inv_reachable h.net
        obtain ⟨d, hd, hecho⟩ := (hinv.results r (List.mem_of_getLast? hr)).2 reply hreply
        obtain ⟨i, hi, hsent⟩ := h.wire d hd
        have hle := hecho.le
        have hmod := mod_eq_of_seq_eq hecho.seq
        refine ⟨hline, i, by omega, by omega, d.payload, hsent, ?_, hecho.n⟩
        rw [hecho.data, hrbytes, hinbytes]

theorem cliInv_reachable (h : (dgCli input).Reachable c) : CliInv input c := by
  refine TransitionSystem.invariant ?_ ?_ h
  · rintro c rfl
    exact cliInv_start input
  · rintro c c' - hinv ⟨a, ha, rfl⟩
    cases a with
    | fgets recvline now => exact cliInv_readLine hinv ha recvline now
    | net a => exact cliInv_net hinv ha.1 ha.2
    | returned => exact cliInv_printReply hinv ha.1 ha.2

/-! ### It can come back -/

theorem reachable_cliNext (h : (dgCli input).Reachable c) (a : CliAction) (ha : CliEnabled c a) :
    (dgCli input).Reachable (cliNext c a) := h.action ha

theorem reachable_quiet {s : State} (h : (dgCli input).Reachable c)
    (hrun : Relation.ReflTransGen QuietStep c.net s) : (dgCli input).Reachable { c with net := s } := by
  induction hrun with
  | refl => exact h
  | tail _ hstep ih =>
    obtain ⟨a, ⟨hcall, -⟩, ha, rfl⟩ := hstep
    exact reachable_cliNext ih (.net a) ⟨hcall, ha⟩

/-- Each line so far has been transmitted by its own call. -/
def Served (c : CliState) : Prop := ∀ i < c.history.length, ∃ d ∈ c.net.toServer, d.call = i + 1

theorem reachable_fgets (h : (dgCli input).Reachable c) (hpc : c.pc = .reading) {text rest : CString}
    (hread : fgets MAXLINE c.fp = some (text, rest)) :
    (dgCli input).Reachable { c with
      pc := .waiting
      fp := rest
      sendline := stringOf text
      net := startCall c.net (stringOf text) (fun _ => 0) MAXLINE sampleTime } := by
  have hstep := reachable_cliNext h (.fgets (fun _ => 0) sampleTime) hpc
  change (dgCli input).Reachable (readLine c (fun _ => 0) sampleTime) at hstep
  rw [readLine, hread] at hstep
  exact hstep

theorem served_sendmsg (hserved : Served c) (hcalls : c.net.ncalls = c.history.length) (line : CString) :
    ∀ k ≤ c.history.length, ∃ d ∈ (sendmsg (startCall c.net line (fun _ => 0) MAXLINE sampleTime) sampleTime).toServer,
      d.call = k + 1 := by
  intro k hk
  rcases Nat.lt_or_eq_of_le hk with hk | rfl
  · obtain ⟨d, hd, hcall⟩ := hserved k hk
    exact ⟨d, List.mem_append_left _ hd, hcall⟩
  · refine ⟨_, List.mem_append_right _ (List.mem_singleton.mpr rfl), ?_⟩
    exact congrArg Nat.succ hcalls

/-- The next line is read and sent, and an echo of a line with the same sequence number comes back. -/
theorem dgCli_exchange (h : (dgCli input).Reachable c) (hpc : c.pc = .reading) (hserved : Served c)
    {line earlier : CString} (hline : (sendlines input)[c.history.length]? = some line) {i : ℕ}
    (hle : i ≤ c.history.length) (hmod : i % 2 ^ 32 = c.history.length % 2 ^ 32)
    (hi : (sendlines input)[i]? = some earlier) :
    ∃ c', (dgCli input).Reachable c' ∧ c'.pc = .reading ∧ Served c' ∧
      c'.history = c.history ++ [⟨line, (received earlier MAXLINE).length, received earlier MAXLINE⟩] := by
  have hinv := cliInv_reachable h
  have hcalls := hinv.reading hpc
  rw [← List.head?_drop, ← hcalls, ← hinv.unread] at hline
  obtain ⟨text, rest, hread, rfl⟩ := fgets_of_head? hline
  -- `Fgets` and the call
  let s := startCall c.net (stringOf text) (fun _ => 0) MAXLINE sampleTime
  let c₁ : CliState := { c with pc := .waiting, fp := rest, sendline := stringOf text, net := s }
  have h₁ : (dgCli input).Reachable c₁ := reachable_fgets h hpc hread
  have hsent := served_sendmsg hserved hcalls (stringOf text)
  -- the datagram whose echo arrives
  obtain ⟨d, hd, hcall⟩ := hsent i hle
  have h₂ : (dgCli input).Reachable { c₁ with net := sendmsg s sampleTime } :=
    reachable_cliNext h₁ (.net (.sendmsg sampleTime)) ⟨rfl, rfl⟩
  have hinv₂ := cliInv_reachable h₂
  obtain ⟨-, ts, hbytes, -⟩ := (inv_reachable hinv₂.net).wire d hd
  have hseq : BitVec.ofNat 32 d.call = s.sendhdr.seq := by
    rw [(inv_reachable (cliInv_reachable h₁).net).seq]
    apply BitVec.eq_of_toNat_eq
    show (BitVec.ofNat 32 d.call).toNat = (BitVec.ofNat 32 (c.net.ncalls + 1)).toNat
    rw [BitVec.toNat_ofNat, BitVec.toNat_ofNat]
    omega
  have hpayload : d.payload = earlier := by
    obtain ⟨k, hk, hsent⟩ := hinv₂.wire d hd
    obtain rfl : k = i := by omega
    exact Option.some.inj (hsent.symm.trans hi)
  rw [hseq] at hbytes
  obtain ⟨s', hrun, hidle, -, hserver, hresults⟩ := quiet_exchange rfl sampleTime hd hbytes
  have h₃ : (dgCli input).Reachable (printReply { c₁ with net := s' }) :=
    reachable_cliNext (reachable_quiet h₁ hrun) .returned ⟨rfl, hidle⟩
  have hprint : printReply { c₁ with net := s' } = { c₁ with
      pc := .reading
      net := s'
      stdout := c.stdout ++ stringOf (received earlier MAXLINE)
      history := c.history ++
        [⟨stringOf text, (received earlier MAXLINE).length, received earlier MAXLINE⟩] } := by
    rw [printReply]
    dsimp only
    rw [hresults, List.getLast?_concat, Option.bind_some, ← hpayload]
    rfl
  rw [hprint] at h₃
  refine ⟨_, h₃, rfl, fun k hk => ?_, rfl⟩
  rw [List.length_append, List.length_singleton, Nat.lt_succ_iff] at hk
  rw [hserver]
  exact hsent k hk

theorem dgCli_serves {k : ℕ} (hk : k ≤ (sendlines input).length) :
    ∃ c, (dgCli input).Reachable c ∧ c.pc = .reading ∧ Served c ∧ c.history.length = k := by
  induction k with
  | zero => exact ⟨cliStart input, TransitionSystem.reachable_init rfl, rfl, nofun, rfl⟩
  | succ k ih =>
    obtain ⟨c, h, hpc, hserved, rfl⟩ := ih (Nat.le_of_succ_le hk)
    have hline := List.getElem?_eq_getElem hk
    obtain ⟨c', h', hpc', hserved', hhistory⟩ := dgCli_exchange h hpc hserved hline (le_refl _) rfl hline
    refine ⟨c', h', hpc', hserved', ?_⟩
    rw [hhistory, List.length_append]
    rfl

/-- Line number `j` can be answered with any line of the same sequence number. -/
theorem dgCli_answers {i j : ℕ} {line earlier : CString} (hj : (sendlines input)[j]? = some line)
    (hle : i ≤ j) (hmod : i % 2 ^ 32 = j % 2 ^ 32) (hi : (sendlines input)[i]? = some earlier) :
    ∃ c, (dgCli input).Reachable c ∧
      c.history[j]? = some ⟨line, (received earlier MAXLINE).length, received earlier MAXLINE⟩ := by
  obtain ⟨hlt, -⟩ := List.getElem?_eq_some_iff.mp hj
  obtain ⟨c, h, hpc, hserved, rfl⟩ := dgCli_serves hlt.le
  obtain ⟨c', h', -, -, hhistory⟩ := dgCli_exchange h hpc hserved hj hle hmod hi
  refine ⟨c', h', ?_⟩
  rw [hhistory, List.getElem?_append_right (le_refl _), Nat.sub_self]
  rfl

/-! ### When the echo is the line -/

theorem received_maxline (line : List Byte) : received line MAXLINE = line.take (MAXLINE - HDR_SIZE) := by
  refine List.take_of_length_le ?_
  rw [List.length_take]
  exact le_trans (Nat.min_le_left _ _) (Nat.sub_le _ _)

/-- **Echo.** In every run, what comes back for line number `j` is the line and `n` is its length, exactly
when the line leaves room for the header in the `MAXLINE` bytes of the server, and the lines sent a
multiple of 2^32 calls earlier, cut to that size, were the same. -/
theorem dgCli_echo_iff {j : ℕ} {line : CString} (hj : (sendlines input)[j]? = some line) :
    (∀ c, (dgCli input).Reachable c → ∀ e, c.history[j]? = some e →
      e.sendline = line ∧ e.n = line.length ∧ e.recvline = line) ↔
    line.length ≤ MAXLINE - HDR_SIZE ∧ ∀ i < j, i % 2 ^ 32 = j % 2 ^ 32 →
      ∀ earlier, (sendlines input)[i]? = some earlier → earlier.take (MAXLINE - HDR_SIZE) = line := by
  constructor
  · intro hall
    have hcut : ∀ i ≤ j, i % 2 ^ 32 = j % 2 ^ 32 → ∀ earlier, (sendlines input)[i]? = some earlier →
        earlier.take (MAXLINE - HDR_SIZE) = line := by
      intro i hle hmod earlier hi
      obtain ⟨c, h, he⟩ := dgCli_answers hj hle hmod hi
      rw [← received_maxline]
      exact (hall c h _ he).2.2
    refine ⟨?_, fun i hlt => hcut i hlt.le⟩
    rw [← List.take_eq_self_iff]
    exact hcut j (le_refl j) rfl line hj
  · rintro ⟨hlen, hearlier⟩ c h e he
    obtain ⟨hsend, i, hle, hmod, earlier, hi, hrecv, hn⟩ := (cliInv_reachable h).history j e he
    have hline : e.sendline = line := Option.some.inj (hsend.symm.trans hj)
    have hcut : earlier.take (MAXLINE - HDR_SIZE) = line := by
      rcases Nat.lt_or_eq_of_le hle with hlt | rfl
      · exact hearlier i hlt hmod earlier hi
      · rw [Option.some.inj (hi.symm.trans hj), List.take_of_length_le hlen]
    rw [received_maxline, hcut] at hrecv
    refine ⟨hline, ?_, hrecv⟩
    rw [hn, hrecv]

theorem sendlines_single (hne : input ≠ []) (hnl : 10 ∉ input) (hnul : 0 ∉ input)
    (hlen : input.length < MAXLINE) : sendlines input = [input] := by
  rw [sendlines_of_some (fgets_of_not_mem hne hnl hlen), sendlines_of_none rfl, stringOf_of_not_mem hnul]

/-- A short line comes back whole. -/
theorem dgCli_echo_short : (∃ c, (dgCli [104, 105]).Reachable c ∧ c.history ≠ []) ∧
    ∀ c, (dgCli [104, 105]).Reachable c → ∀ e, c.history[0]? = some e →
      e.sendline = [104, 105] ∧ e.n = 2 ∧ e.recvline = [104, 105] := by
  have hlines : sendlines [104, 105] = [[104, 105]] :=
    sendlines_single (by decide) (by decide) (by decide) (by decide)
  have hj : (sendlines [104, 105])[0]? = some [104, 105] := by
    rw [hlines]
    rfl
  refine ⟨?_, (dgCli_echo_iff hj).mpr ⟨by decide, nofun⟩⟩
  obtain ⟨c, h, he⟩ := dgCli_answers hj (le_refl 0) rfl hj
  refine ⟨c, h, ?_⟩
  rintro hnil
  rw [hnil] at he
  exact nomatch he

/-- A line of 4095 bytes comes back with 4088. -/
theorem dgCli_echo_cut : ¬ ∀ input c, (dgCli input).Reachable c → ∀ e ∈ c.history,
    e.n = e.sendline.length ∧ e.recvline = e.sendline := by
  intro hall
  have hlines : sendlines (List.replicate 4095 97) = [List.replicate 4095 97] := by
    apply sendlines_single
    · exact nofun
    · rw [List.mem_replicate]
      decide
    · rw [List.mem_replicate]
      decide
    · rw [List.length_replicate]
      decide
  have hj : (sendlines (List.replicate 4095 97))[0]? = some (List.replicate 4095 97) := by
    rw [hlines]
    rfl
  obtain ⟨c, h, he⟩ := dgCli_answers hj (le_refl 0) rfl hj
  have hn := (hall _ c h _ (List.mem_of_getElem? he)).1
  rw [received_maxline, List.length_take, List.length_replicate] at hn
  revert hn
  decide

end UnixNetProg.Rtt
