import UnixNetProg.Lib.History
import UnixNetProg.Nonblock.StrCli

/-!
# What the nonblocking `str_cli` relays

`Flows rfd wfd m o i calls` is the contract of one direction: the window `[o, i)` lies inside the
array, and what was written to `wfd` followed by the window is what was read from `rfd`. A read, a
partial write and the pointer reset each keep it. `Inv` holds of every reachable state: both
directions flow, and a descriptor whose bit is still to be tested was put into the read set with room
in its buffer.

The half-close adds `FinInv`: the FIN has been sent exactly when standard input is at its end and the
buffer is empty. The normal return has no such condition on the other buffer, and
`strCli_return_delivers_iff` says when it loses nothing.
-/

namespace UnixNetProg.Nonblock

open Lib

/-! ### One direction -/

def Flows (rfd wfd : ℕ) (m : Memory Byte) (o i : ℕ) (calls : List Call) : Prop :=
  o ≤ i ∧ i ≤ MAXLINE ∧ writtenTo wfd calls ++ m.slice o i = readFrom rfd calls

namespace Flows
variable {rfd wfd o i : ℕ} {m : Memory Byte} {calls : List Call}

theorem other {c : Call} (h : Flows rfd wfd m o i calls) (hfrom : c.bytesFrom rfd = [])
    (hto : c.bytesTo wfd = []) : Flows rfd wfd m o i (calls ++ [c]) := by
  obtain ⟨hle, hmax, hdata⟩ := h
  refine ⟨hle, hmax, ?_⟩
  simpa [hfrom, hto] using hdata

theorem read {bytes : List Byte} (len : ℕ) (h : Flows rfd wfd m o i calls)
    (hroom : bytes.length ≤ MAXLINE - i) :
    Flows rfd wfd (m.store i bytes) o (i + bytes.length)
      (calls ++ [.read rfd len (.data bytes)]) := by
  obtain ⟨hle, hmax, hdata⟩ := h
  refine ⟨by omega, by omega, ?_⟩
  rw [Memory.slice_store m hle, writtenTo_append, readFrom_append, ← hdata]
  simp [Call.bytesFrom, Call.bytesTo]

theorem write {nwritten : ℕ} (h : Flows rfd wfd m o i calls) (hn : nwritten ≤ i - o) :
    Flows rfd wfd m (o + nwritten) i
      (calls ++ [.write wfd (m.slice o i) (.accepted nwritten)]) := by
  obtain ⟨hle, hmax, hdata⟩ := h
  refine ⟨by omega, hmax, ?_⟩
  rw [Memory.slice_add_left, writtenTo_append, readFrom_append, ← hdata]
  simp [Call.bytesFrom, Call.bytesTo]

theorem reset (h : Flows rfd wfd m o o calls) : Flows rfd wfd m 0 0 calls := by
  obtain ⟨-, -, hdata⟩ := h
  refine ⟨le_refl 0, Nat.zero_le _, ?_⟩
  simpa using hdata

theorem drained_iff (h : Flows rfd wfd m o i calls) :
    writtenTo wfd calls = readFrom rfd calls ↔ o = i := by
  obtain ⟨hle, -, hdata⟩ := h
  rw [← hdata, List.self_eq_append_right, Memory.slice_eq_nil_iff]
  omega

end Flows

/-! ### The invariant of the loop -/

/-- A `read` that asks for at least one byte: its result 0 does mean end of file. -/
def AsksForData : Call → Prop
  | .read _ len _ => 0 < len
  | _ => True

variable (sockfd : SockFd)

structure Inv (s : State) : Prop where
  to_flows : Flows STDIN_FILENO sockfd.fd s.toBuf s.tooptr s.toiptr s.calls
  fr_flows : Flows sockfd.fd STDOUT_FILENO s.frBuf s.froptr s.friptr s.calls
  stdin_set : s.pc = .stdinRead → STDIN_FILENO ∈ s.rset → s.stdineof = false ∧ s.toiptr < MAXLINE
  sock_set : s.pc = .stdinRead ∨ s.pc = .sockRead → sockfd.fd ∈ s.rset → s.friptr < MAXLINE
  asks : ∀ c ∈ s.calls, AsksForData c

theorem inv_start (toBuf frBuf : Memory Byte) : Inv sockfd (start toBuf frBuf) := by
  constructor <;> simp [start, Flows]

variable {sockfd}

theorem stdin_ne_sock : STDIN_FILENO ≠ sockfd.fd := Ne.symm sockfd.ne_stdin

theorem stdout_ne_sock : STDOUT_FILENO ≠ sockfd.fd := Ne.symm sockfd.ne_stdout

theorem asks_snoc {calls : List Call} {c : Call} (h : ∀ c ∈ calls, AsksForData c)
    (hc : AsksForData c) : ∀ c' ∈ calls ++ [c], AsksForData c' := by
  intro c' hmem
  rcases List.mem_append.mp hmem with hmem | hmem
  · exact h c' hmem
  · rw [List.mem_singleton.mp hmem]
    exact hc

theorem inv_stdinRead {s : State} {res : ReadRes} (h : Inv sockfd s) (hpc : s.pc = .stdinRead)
    (hset : STDIN_FILENO ∈ s.rset) (hres : res.Valid (MAXLINE - s.toiptr)) :
    Inv sockfd (stdinRead sockfd s res) := by
  obtain ⟨-, hroom⟩ := h.stdin_set hpc hset
  have hsock := h.sock_set (.inl hpc)
  have hasks := asks_snoc (c := .read STDIN_FILENO (MAXLINE - s.toiptr) res) h.asks
    (show 0 < MAXLINE - s.toiptr by omega)
  have hfr := h.fr_flows.other (c := .read STDIN_FILENO (MAXLINE - s.toiptr) res)
    (by cases res <;> simp [Call.bytesFrom, stdin_ne_sock]) rfl
  cases res with
  | wouldBlock => exact ⟨h.to_flows.other rfl rfl, hfr, nofun, fun _ => hsock, hasks⟩
  | error => exact ⟨h.to_flows.other rfl rfl, hfr, nofun, nofun, hasks⟩
  | eof =>
    have hto := h.to_flows.other (c := .read STDIN_FILENO (MAXLINE - s.toiptr) .eof) rfl rfl
    simp only [stdinRead]
    split_ifs
    · exact ⟨hto.other rfl rfl, hfr.other rfl rfl, nofun, fun _ => hsock, asks_snoc hasks trivial⟩
    · exact ⟨hto, hfr, nofun, fun _ => hsock, hasks⟩
  | data bytes => exact ⟨h.to_flows.read _ hres.2, hfr, nofun, fun _ => hsock, hasks⟩

theorem inv_sockRead {s : State} {res : ReadRes} (h : Inv sockfd s) (hpc : s.pc = .sockRead)
    (hset : sockfd.fd ∈ s.rset) (hres : res.Valid (MAXLINE - s.friptr)) :
    Inv sockfd (sockRead sockfd s res) := by
  have hroom := h.sock_set (.inr hpc) hset
  have hasks := asks_snoc (c := .read sockfd.fd (MAXLINE - s.friptr) res) h.asks
    (show 0 < MAXLINE - s.friptr by omega)
  have hto := h.to_flows.other (c := .read sockfd.fd (MAXLINE - s.friptr) res)
    (by cases res <;> simp [Call.bytesFrom, sockfd.ne_stdin]) rfl
  cases res with
  | wouldBlock => exact ⟨hto, h.fr_flows.other rfl rfl, nofun, nofun, hasks⟩
  | error => exact ⟨hto, h.fr_flows.other rfl rfl, nofun, nofun, hasks⟩
  | eof =>
    simp only [sockRead]
    split_ifs
    · exact ⟨hto, h.fr_flows.other rfl rfl, nofun, nofun, hasks⟩
    · exact ⟨hto, h.fr_flows.other rfl rfl, nofun, nofun, hasks⟩
  | data bytes => exact ⟨hto, h.fr_flows.read _ hres.2, nofun, nofun, hasks⟩

theorem inv_stdoutWrite {s : State} {res : WriteRes} (h : Inv sockfd s)
    (hres : res.Valid (s.friptr - s.froptr)) : Inv sockfd (stdoutWrite s res) := by
  have hasks := asks_snoc (c := .write STDOUT_FILENO (s.frBuf.slice s.froptr s.friptr) res) h.asks
    trivial
  have hto := h.to_flows.other (c := .write STDOUT_FILENO (s.frBuf.slice s.froptr s.friptr) res)
    rfl (by cases res <;> simp [Call.bytesTo, stdout_ne_sock])
  cases res with
  | wouldBlock => exact ⟨hto, h.fr_flows.other rfl rfl, nofun, nofun, hasks⟩
  | error => exact ⟨hto, h.fr_flows.other rfl rfl, nofun, nofun, hasks⟩
  | accepted nwritten =>
    have hfr := h.fr_flows.write hres
    simp only [stdoutWrite]
    split_ifs with heq
    · rw [heq] at hfr
      exact ⟨hto, hfr.reset, nofun, nofun, hasks⟩
    · exact ⟨hto, hfr, nofun, nofun, hasks⟩

theorem inv_sockWrite {s : State} {res : WriteRes} (h : Inv sockfd s)
    (hres : res.Valid (s.toiptr - s.tooptr)) : Inv sockfd (sockWrite sockfd s res) := by
  have hasks := asks_snoc (c := .write sockfd.fd (s.toBuf.slice s.tooptr s.toiptr) res) h.asks
    trivial
  have hfr := h.fr_flows.other (c := .write sockfd.fd (s.toBuf.slice s.tooptr s.toiptr) res)
    rfl (by cases res <;> simp [Call.bytesTo, sockfd.ne_stdout])
  cases res with
  | wouldBlock => exact ⟨h.to_flows.other rfl rfl, hfr, nofun, nofun, hasks⟩
  | error => exact ⟨h.to_flows.other rfl rfl, hfr, nofun, nofun, hasks⟩
  | accepted nwritten =>
    have hto := h.to_flows.write hres
    simp only [sockWrite]
    split_ifs with heq heof
    · rw [heq] at hto
      exact ⟨hto.reset.other rfl rfl, hfr.other rfl rfl, nofun, nofun, asks_snoc hasks trivial⟩
    · rw [heq] at hto
      exact ⟨hto.reset, hfr, nofun, nofun, hasks⟩
    · exact ⟨hto, hfr, nofun, nofun, hasks⟩

theorem inv_select {s : State} {rset wset : Finset ℕ} (h : Inv sockfd s)
    (hr : rset ⊆ selectRset sockfd s) :
    Inv sockfd { s with pc := .stdinRead, rset := rset, wset := wset } := by
  refine ⟨h.to_flows, h.fr_flows, fun _ hin => ?_, fun _ hin => ?_, h.asks⟩
  · have := hr hin
    simp only [selectRset, Finset.mem_union] at this
    split_ifs at this with h1 h2
    all_goals simp_all [stdin_ne_sock]
  · have := hr hin
    simp only [selectRset, Finset.mem_union] at this
    split_ifs at this with h1 h2
    all_goals simp_all [sockfd.ne_stdin]

theorem inv_step {s s' : State} (h : Inv sockfd s) (hs : Step sockfd s s') : Inv sockfd s' := by
  cases hs with
  | select rset wset hpc hr hw => exact inv_select h hr
  | stdinReady res hpc hset hres => exact inv_stdinRead h hpc hset hres
  | stdinIdle hpc hset =>
    exact ⟨h.to_flows, h.fr_flows, nofun, fun _ => h.sock_set (.inl hpc), h.asks⟩
  | sockReady res hpc hset hres => exact inv_sockRead h hpc hset hres
  | sockIdle hpc hset => exact ⟨h.to_flows, h.fr_flows, nofun, nofun, h.asks⟩
  | stdoutReady res hpc hset hn hres => exact inv_stdoutWrite h hres
  | stdoutIdle hpc hset => exact ⟨h.to_flows, h.fr_flows, nofun, nofun, h.asks⟩
  | sockWriteReady res hpc hset hn hres => exact inv_sockWrite h hres
  | sockWriteIdle hpc hset => exact ⟨h.to_flows, h.fr_flows, nofun, nofun, h.asks⟩

theorem inv_reachable {s : State} (h : (strCli sockfd).Reachable s) : Inv sockfd s := by
  refine TransitionSystem.invariant ?_ ?_ h
  · rintro s ⟨toBuf, frBuf, rfl⟩
    exact inv_start sockfd toBuf frBuf
  · intro s s' _ hinv hs
    exact inv_step hinv hs

/-! A sample run on descriptor 3: standard input ends at once, the server sends one byte, the write
of that byte to standard output returns `res`, and the server closes. -/

def sampleFd : SockFd := ⟨3, by decide, by decide⟩

def sampleEof : State :=
  stdinRead sampleFd { start (fun _ => 0) (fun _ => 0) with pc := .stdinRead, rset := {STDIN_FILENO} } .eof

def sampleData : State :=
  sockRead sampleFd { sampleEof with rset := {3} } (.data [120])

/-- After the write, before the `read` that finds the server's EOF. -/
def sampleWritten (res : WriteRes) : State :=
  { stdoutWrite sampleData res with pc := .sockRead, rset := {3}, wset := ∅ }

theorem sampleEof_reachable : (strCli sampleFd).Reachable sampleEof := by
  have h0 : (strCli sampleFd).Reachable (start (fun _ => 0) (fun _ => 0)) :=
    TransitionSystem.reachable_init ⟨_, _, rfl⟩
  have h1 := h0.step (Step.select {STDIN_FILENO} ∅ rfl (by decide) (by decide))
  exact h1.step (Step.stdinReady .eof rfl (by decide) trivial)

theorem sampleData_reachable : (strCli sampleFd).Reachable sampleData := by
  have h1 := sampleEof_reachable.step (Step.sockIdle rfl (by decide))
  have h2 := h1.step (Step.stdoutIdle rfl (by decide))
  have h3 := h2.step (Step.sockWriteIdle rfl (by decide))
  have h4 := h3.step (Step.select {3} ∅ rfl (by decide) (by decide))
  have h5 := h4.step (Step.stdinIdle rfl (by decide))
  exact h5.step (Step.sockReady (.data [120]) rfl (by decide) (by decide))

theorem sampleBlocked_reachable : (strCli sampleFd).Reachable (sampleWritten .wouldBlock) := by
  have h1 := sampleData_reachable.step (Step.stdoutReady .wouldBlock rfl (by decide) (by decide)
    trivial)
  have h2 := h1.step (Step.sockWriteIdle rfl (by decide))
  have h3 := h2.step (Step.select {3} ∅ rfl (by decide) (by decide))
  exact h3.step (Step.stdinIdle rfl (by decide))

theorem sampleAccepted_reachable : (strCli sampleFd).Reachable (sampleWritten (.accepted 1)) := by
  have h1 := sampleData_reachable.step (Step.stdoutReady (.accepted 1) rfl (by decide) (by decide)
    (by decide))
  have h2 := h1.step (Step.sockWriteIdle rfl (by decide))
  have h3 := h2.step (Step.select {3} ∅ rfl (by decide) (by decide))
  exact h3.step (Step.stdinIdle rfl (by decide))

/-- **Both buffers relay.** After every step of every run the pointers are ordered and inside their
arrays, the bytes written followed by the bytes buffered are the bytes read, in both directions, and
no `read` has asked for zero bytes. -/
theorem strCli_relays {s : State} (h : (strCli sockfd).Reachable s) :
    (0 ≤ s.tooptr ∧ s.tooptr ≤ s.toiptr ∧ s.toiptr ≤ MAXLINE) ∧
    (0 ≤ s.froptr ∧ s.froptr ≤ s.friptr ∧ s.friptr ≤ MAXLINE) ∧
    writtenTo sockfd.fd s.calls ++ s.toBuf.slice s.tooptr s.toiptr =
      readFrom STDIN_FILENO s.calls ∧
    writtenTo STDOUT_FILENO s.calls ++ s.frBuf.slice s.froptr s.friptr =
      readFrom sockfd.fd s.calls ∧
    ∀ fd len res, Call.read fd len res ∈ s.calls → 0 < len := by
  obtain ⟨⟨hto, htoMax, htoData⟩, ⟨hfr, hfrMax, hfrData⟩, -, -, hasks⟩ := inv_reachable h
  refine ⟨⟨Nat.zero_le _, hto, htoMax⟩, ⟨Nat.zero_le _, hfr, hfrMax⟩, htoData, hfrData, ?_⟩
  intro fd len res hmem
  exact hasks _ hmem

/-- After the sample read the one byte of the server waits in `fr`. -/
theorem strCli_relays_sampleData :
    readFrom 3 sampleData.calls = [120] ∧ writtenTo STDOUT_FILENO sampleData.calls ++
      sampleData.frBuf.slice sampleData.froptr sampleData.friptr = readFrom 3 sampleData.calls :=
  ⟨by decide, (strCli_relays sampleData_reachable).2.2.2.1⟩

/-! ### The half-close -/

variable (sockfd) in
/-- What the history says about the FIN: it was sent at most once, after the end of standard input
and after every byte ever read from it, and nothing was written to the socket afterwards. -/
structure FinTrace (calls : List Call) : Prop where
  once : calls.count (.shutdown sockfd.fd) ≤ 1
  split : ∀ pre post, calls = pre ++ .shutdown sockfd.fd :: post →
    (∃ len, .read STDIN_FILENO len .eof ∈ pre) ∧
      writtenTo sockfd.fd pre = readFrom STDIN_FILENO calls ∧
      ∀ buf res, .write sockfd.fd buf res ∉ post

theorem FinTrace.other {calls : List Call} {c : Call} (h : FinTrace sockfd calls)
    (hne : c ≠ .shutdown sockfd.fd)
    (hafter : .shutdown sockfd.fd ∈ calls →
      c.bytesFrom STDIN_FILENO = [] ∧ ∀ buf res, c ≠ .write sockfd.fd buf res) :
    FinTrace sockfd (calls ++ [c]) := by
  constructor
  · rw [List.count_append, List.count_singleton, if_neg (by simpa using hne)]
    exact h.once
  · intro pre post hsplit
    rcases snoc_eq_split hsplit with ⟨post', rfl, hold⟩ | ⟨-, heq, -⟩
    · obtain ⟨heof, hall, hpost⟩ := h.split pre post' hold
      obtain ⟨hfrom, hwrite⟩ := hafter (by rw [hold]; simp)
      refine ⟨heof, by simpa [hfrom] using hall, fun buf res hmem => ?_⟩
      rcases List.mem_append.mp hmem with hmem | hmem
      · exact hpost buf res hmem
      · exact hwrite buf res (List.mem_singleton.mp hmem).symm
    · exact absurd heq hne

theorem FinTrace.fin {calls : List Call} (hnone : .shutdown sockfd.fd ∉ calls)
    (heof : ∃ len, .read STDIN_FILENO len .eof ∈ calls)
    (hall : writtenTo sockfd.fd calls = readFrom STDIN_FILENO calls) :
    FinTrace sockfd (calls ++ [.shutdown sockfd.fd]) := by
  constructor
  · rw [List.count_append, List.count_eq_zero.mpr hnone]
    simp
  · intro pre post hsplit
    rcases snoc_eq_split hsplit with ⟨post', -, hold⟩ | ⟨rfl, -, rfl⟩
    · exact absurd (by rw [hold]; simp) hnone
    · exact ⟨heof, by simpa [Call.bytesFrom] using hall, by simp⟩

variable (sockfd) in
structure FinInv (s : State) : Prop where
  trace : FinTrace sockfd s.calls
  fin_iff : .shutdown sockfd.fd ∈ s.calls ↔ s.stdineof = true ∧ s.tooptr = s.toiptr
  eof_mem : s.stdineof = true → ∃ len, .read STDIN_FILENO len .eof ∈ s.calls

theorem finInv_start (toBuf frBuf : Memory Byte) : FinInv sockfd (start toBuf frBuf) := by
  refine ⟨⟨by simp [start], ?_⟩, by simp [start], by simp [start]⟩
  intro pre post h
  simp [start] at h

theorem FinInv.snoc {s s' : State} {c : Call} (h : FinInv sockfd s)
    (hcalls : s'.calls = s.calls ++ [c]) (heof : s'.stdineof = s.stdineof)
    (ho : s'.tooptr = s.tooptr) (hi : s'.toiptr = s.toiptr) (hne : c ≠ .shutdown sockfd.fd)
    (hafter : .shutdown sockfd.fd ∈ s.calls →
      c.bytesFrom STDIN_FILENO = [] ∧ ∀ buf res, c ≠ .write sockfd.fd buf res) :
    FinInv sockfd s' := by
  refine ⟨hcalls ▸ h.trace.other hne hafter, ?_, ?_⟩
  · rw [hcalls, heof, ho, hi, ← h.fin_iff]
    simp [hne.symm]
  · intro htrue
    obtain ⟨len, hmem⟩ := h.eof_mem (heof ▸ htrue)
    exact ⟨len, by rw [hcalls]; exact List.mem_append_left _ hmem⟩

theorem finInv_stdinRead {s : State} {res : ReadRes} (hinv : Inv sockfd s) (h : FinInv sockfd s)
    (hpc : s.pc = .stdinRead) (hset : STDIN_FILENO ∈ s.rset) :
    FinInv sockfd (stdinRead sockfd s res) := by
  -- standard input is read only before its end, so the FIN has not been sent
  obtain ⟨hopen, -⟩ := hinv.stdin_set hpc hset
  have hnone : .shutdown sockfd.fd ∉ s.calls := by
    rw [h.fin_iff, hopen]
    simp
  cases res with
  | wouldBlock => exact h.snoc rfl rfl rfl rfl nofun (absurd · hnone)
  | error => exact h.snoc rfl rfl rfl rfl nofun (absurd · hnone)
  | data bytes =>
    refine ⟨h.trace.other nofun (absurd · hnone), ?_, ?_⟩
    · simp [stdinRead, hnone, hopen]
    · simp [stdinRead, hopen]
  | eof =>
    have htrace := h.trace.other (c := .read STDIN_FILENO (MAXLINE - s.toiptr) .eof) nofun
      (absurd · hnone)
    have hflows := hinv.to_flows.other (c := .read STDIN_FILENO (MAXLINE - s.toiptr) .eof) rfl rfl
    have hnone' : .shutdown sockfd.fd ∉
        s.calls ++ [.read STDIN_FILENO (MAXLINE - s.toiptr) .eof] := by simp [hnone]
    simp only [stdinRead]
    split_ifs with heq
    · refine ⟨.fin hnone' ⟨MAXLINE - s.toiptr, by simp⟩ (hflows.drained_iff.mpr heq), ?_, fun _ => ?_⟩
      · simp [heq]
      · exact ⟨MAXLINE - s.toiptr, by simp⟩
    · refine ⟨htrace, ?_, fun _ => ⟨MAXLINE - s.toiptr, by simp⟩⟩
      simp [hnone, heq]

theorem finInv_sockWrite {s : State} {res : WriteRes} (hinv : Inv sockfd s) (h : FinInv sockfd s)
    (hn : 0 < s.toiptr - s.tooptr) (hres : res.Valid (s.toiptr - s.tooptr)) :
    FinInv sockfd (sockWrite sockfd s res) := by
  -- the buffer is not empty, so the FIN has not been sent
  have hnone : .shutdown sockfd.fd ∉ s.calls := by
    rw [h.fin_iff]
    omega
  cases res with
  | wouldBlock => exact h.snoc rfl rfl rfl rfl nofun (absurd · hnone)
  | error => exact h.snoc rfl rfl rfl rfl nofun (absurd · hnone)
  | accepted nwritten =>
    let c : Call := .write sockfd.fd (s.toBuf.slice s.tooptr s.toiptr) (.accepted nwritten)
    have htrace : FinTrace sockfd (s.calls ++ [c]) := h.trace.other nofun (absurd · hnone)
    have hflows : Flows STDIN_FILENO sockfd.fd s.toBuf (s.tooptr + nwritten) s.toiptr
        (s.calls ++ [c]) := hinv.to_flows.write hres
    have hnone' : .shutdown sockfd.fd ∉ s.calls ++ [c] := by simp [c, hnone]
    have heofMem : s.stdineof = true → ∃ len, .read STDIN_FILENO len .eof ∈ s.calls ++ [c] := by
      intro htrue
      obtain ⟨len, hmem⟩ := h.eof_mem htrue
      exact ⟨len, List.mem_append_left _ hmem⟩
    simp only [sockWrite]
    split_ifs with heq heof
    · refine ⟨.fin hnone' (heofMem heof) (hflows.drained_iff.mpr heq), by simp [heof], fun _ => ?_⟩
      obtain ⟨len, hmem⟩ := heofMem heof
      exact ⟨len, List.mem_append_left _ hmem⟩
    · exact ⟨htrace, iff_of_false hnone' (by simp [heof]), heofMem⟩
    · exact ⟨htrace, iff_of_false hnone' (by simp [heq]), heofMem⟩

theorem finInv_sockRead {s : State} {res : ReadRes} (h : FinInv sockfd s) :
    FinInv sockfd (sockRead sockfd s res) := by
  have hafter : (Call.read sockfd.fd (MAXLINE - s.friptr) res).bytesFrom STDIN_FILENO = [] := by
    cases res <;> simp [Call.bytesFrom, sockfd.ne_stdin]
  cases res with
  | eof =>
    simp only [sockRead]
    split_ifs
    · exact h.snoc rfl rfl rfl rfl nofun fun _ => ⟨hafter, nofun⟩
    · exact h.snoc rfl rfl rfl rfl nofun fun _ => ⟨hafter, nofun⟩
  | wouldBlock => exact h.snoc rfl rfl rfl rfl nofun fun _ => ⟨hafter, nofun⟩
  | error => exact h.snoc rfl rfl rfl rfl nofun fun _ => ⟨hafter, nofun⟩
  | data bytes => exact h.snoc rfl rfl rfl rfl nofun fun _ => ⟨hafter, nofun⟩

theorem finInv_stdoutWrite {s : State} {res : WriteRes} (h : FinInv sockfd s) :
    FinInv sockfd (stdoutWrite s res) := by
  have hother : ∀ buf res', Call.write STDOUT_FILENO (s.frBuf.slice s.froptr s.friptr) res ≠
      .write sockfd.fd buf res' := by
    intro buf res' heq
    exact stdout_ne_sock (Call.write.inj heq).1
  cases res with
  | accepted nwritten =>
    simp only [stdoutWrite]
    split_ifs
    · exact h.snoc rfl rfl rfl rfl nofun fun _ => ⟨rfl, hother⟩
    · exact h.snoc rfl rfl rfl rfl nofun fun _ => ⟨rfl, hother⟩
  | wouldBlock => exact h.snoc rfl rfl rfl rfl nofun fun _ => ⟨rfl, hother⟩
  | error => exact h.snoc rfl rfl rfl rfl nofun fun _ => ⟨rfl, hother⟩

theorem finInv_step {s s' : State} (hinv : Inv sockfd s) (h : FinInv sockfd s)
    (hs : Step sockfd s s') : FinInv sockfd s' := by
  cases hs with
  | stdinReady res hpc hset hres => exact finInv_stdinRead hinv h hpc hset
  | sockReady res hpc hset hres => exact finInv_sockRead h
  | stdoutReady res hpc hset hn hres => exact finInv_stdoutWrite h
  | sockWriteReady res hpc hset hn hres => exact finInv_sockWrite hinv h hn hres
  | select rset wset hpc hr hw => exact ⟨h.trace, h.fin_iff, h.eof_mem⟩
  | stdinIdle hpc hset => exact ⟨h.trace, h.fin_iff, h.eof_mem⟩
  | sockIdle hpc hset => exact ⟨h.trace, h.fin_iff, h.eof_mem⟩
  | stdoutIdle hpc hset => exact ⟨h.trace, h.fin_iff, h.eof_mem⟩
  | sockWriteIdle hpc hset => exact ⟨h.trace, h.fin_iff, h.eof_mem⟩

theorem finInv_reachable {s : State} (h : (strCli sockfd).Reachable s) : FinInv sockfd s := by
  refine TransitionSystem.invariant ?_ ?_ h
  · rintro s ⟨toBuf, frBuf, rfl⟩
    exact finInv_start toBuf frBuf
  · intro s s' hr hfin hs
    exact finInv_step (inv_reachable hr) hfin hs

/-- **The half-close.** In every run the FIN is sent at most once, after standard input has returned
EOF and every byte ever read from it has been written; nothing is written to the socket after it;
and at the top of the loop an ended standard input with an empty buffer means it has been sent. -/
theorem strCli_half_close {s : State} (h : (strCli sockfd).Reachable s) :
    s.calls.count (.shutdown sockfd.fd) ≤ 1 ∧
    (∀ pre post, s.calls = pre ++ .shutdown sockfd.fd :: post →
      (∃ len, .read STDIN_FILENO len .eof ∈ pre) ∧
        writtenTo sockfd.fd pre = readFrom STDIN_FILENO s.calls ∧
        ∀ buf res, .write sockfd.fd buf res ∉ post) ∧
    (s.pc = .top → s.stdineof = true → s.tooptr = s.toiptr → .shutdown sockfd.fd ∈ s.calls) := by
  obtain ⟨⟨honce, hsplit⟩, hiff, -⟩ := finInv_reachable h
  exact ⟨honce, hsplit, fun _ heof heq => hiff.mpr ⟨heof, heq⟩⟩

/-- In the sample run the FIN follows the EOF on standard input, before the server's byte. -/
theorem strCli_half_close_sampleData :
    sampleData.calls = [.read STDIN_FILENO MAXLINE .eof] ++
      .shutdown 3 :: [.read 3 MAXLINE (.data [120])] ∧
    (∃ len, .read STDIN_FILENO len .eof ∈ [Call.read STDIN_FILENO MAXLINE .eof]) ∧
    ∀ buf res, Call.write 3 buf res ∉ [Call.read 3 MAXLINE (.data [120])] := by
  obtain ⟨heof, -, hnone⟩ := (strCli_half_close sampleData_reachable).2.1
    [.read STDIN_FILENO MAXLINE .eof] [.read 3 MAXLINE (.data [120])] rfl
  exact ⟨rfl, heof, hnone⟩

/-! ### The normal return -/

theorem stdinRead_pc_ne (s : State) (res : ReadRes) : (stdinRead sockfd s res).pc ≠ .returned := by
  cases res with
  | eof =>
    simp only [stdinRead]
    split_ifs <;> simp
  | _ => simp [stdinRead]

theorem stdoutWrite_pc_ne (s : State) (res : WriteRes) : (stdoutWrite s res).pc ≠ .returned := by
  cases res with
  | accepted nwritten =>
    simp only [stdoutWrite]
    split_ifs <;> simp
  | _ => simp [stdoutWrite]

theorem sockWrite_pc_ne (s : State) (res : WriteRes) : (sockWrite sockfd s res).pc ≠ .returned := by
  cases res with
  | accepted nwritten =>
    simp only [sockWrite]
    split_ifs <;> simp
  | _ => simp [sockWrite]

/-- The loop returns only from the socket read, on EOF, and leaves the buffers as they are. -/
theorem step_returned {s s' : State} (hs : Step sockfd s s') (hret : s'.pc = .returned) :
    s'.froptr = s.froptr ∧ s'.friptr = s.friptr := by
  cases hs with
  | sockReady res hpc hset hres =>
    cases res with
    | eof =>
      simp only [sockRead]
      split_ifs <;> exact ⟨rfl, rfl⟩
    | wouldBlock => cases hret
    | error => cases hret
    | data bytes => cases hret
  | stdinReady res hpc hset hres => exact absurd hret (stdinRead_pc_ne _ _)
  | stdoutReady res hpc hset hn hres => exact absurd hret (stdoutWrite_pc_ne _ _)
  | sockWriteReady res hpc hset hn hres => exact absurd hret (sockWrite_pc_ne _ _)
  | select rset wset hpc hr hw => cases hret
  | stdinIdle hpc hset => cases hret
  | sockIdle hpc hset => cases hret
  | stdoutIdle hpc hset => cases hret
  | sockWriteIdle hpc hset => cases hret

variable (sockfd) in
/-- Every byte read from the socket has been written to standard output. -/
def Delivered (s : State) : Prop := writtenTo STDOUT_FILENO s.calls = readFrom sockfd.fd s.calls

variable (sockfd) in
/-- The runs in which the socket's EOF finds the buffer `fr` empty. -/
def strCliDrained : TransitionSystem State :=
  (strCli sockfd).restrict fun s s' => s'.pc = .returned → s.froptr = s.friptr

theorem delivered_iff_of_step {s s' : State} (hr : (strCli sockfd).Reachable s)
    (hs : Step sockfd s s') (hret : s'.pc = .returned) :
    Delivered sockfd s' ↔ s.froptr = s.friptr := by
  have hflows := (inv_reachable (hr.step hs)).fr_flows
  obtain ⟨ho, hi⟩ := step_returned hs hret
  rw [Delivered, hflows.drained_iff, ho, hi]

/-- **When the normal return loses nothing.** A run that returns has delivered every byte read from
the socket exactly when the buffer `fr` was empty before the `read` that found the socket's EOF; so
a run that meets this condition at each of its steps never returns with a byte undelivered. -/
theorem strCli_return_delivers_iff :
    (∀ s s', (strCli sockfd).Reachable s → Step sockfd s s' → s'.pc = .returned →
      (Delivered sockfd s' ↔ s.froptr = s.friptr)) ∧
    (∀ s, (strCliDrained sockfd).Reachable s → s.pc = .returned → Delivered sockfd s) := by
  refine ⟨fun s s' hr hs hret => delivered_iff_of_step hr hs hret, fun s hr hret => ?_⟩
  rcases hr.cases_last with ⟨toBuf, frBuf, rfl⟩ | ⟨s', hr', hs, hdrained⟩
  · cases hret
  · exact (delivered_iff_of_step hr'.of_restrict hs hret).mpr (hdrained hret)

/-- A `write` to standard output that would block, followed by the server's EOF, loses the byte. -/
theorem strCli_return_loses :
    ¬ ∀ s, (strCli sampleFd).Reachable s → s.pc = .returned → Delivered sampleFd s := by
  intro h
  have hr := sampleBlocked_reachable.step (Step.sockReady .eof rfl (by decide) trivial)
  have hlost := h _ hr rfl
  unfold Delivered at hlost
  revert hlost
  decide

/-- The same run with the byte accepted returns with nothing lost. -/
theorem strCli_return_delivers_sample :
    Delivered sampleFd (sockRead sampleFd (sampleWritten (.accepted 1)) .eof) :=
  (strCli_return_delivers_iff.1 _ _ sampleAccepted_reachable
    (Step.sockReady .eof rfl (by decide) trivial) rfl).mpr rfl

end UnixNetProg.Nonblock
