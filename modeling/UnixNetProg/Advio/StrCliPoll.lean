import UnixNetProg.Lib.Loop
import UnixNetProg.Unp

/-!
# The `/dev/poll` and `kqueue` clients (`advio/str_cli_poll03.c`, `advio/str_cli_kqueue04.c`)

A run is given by the replies of the kernel: for each `DP_POLL` (or `kevent`) the entries it reports, with what
`Read` then finds on the descriptor; no bytes are EOF. Where `Read`, `Write`, `Writen` or `Shutdown` fails, the
process ends, and the run with it.

Both programs register `stdin` and the socket. The first never removes one, so `stdin` at EOF is in every later
reply; the second removes `stdin`.
-/

namespace UnixNetProg.Advio

open Lib

/-- `fileno(fp)` and `sockfd`. -/
inductive Fd where
  | input
  | sock
  deriving DecidableEq, Repr

inductive Call where
  | read (fd : Fd) (bytes : List Byte)
  | write (bytes : List Byte)
  | writen (bytes : List Byte)
  | shutdown
  | evDelete
  | ret
  | quit
  deriving DecidableEq, Repr

/-- An entry of `dp_fds`. -/
structure Ready where
  fd : Fd
  bytes : List Byte
  deriving DecidableEq, Repr

/-! ### With `/dev/poll` -/

/-- The body of the loop through ready file descriptors: its calls, and `stdineof` unless it leaves `str_cli`. -/
def pollEntry : Bool → Ready → List Call × Option Bool
  | stdineof, ⟨.sock, []⟩ => ([.read .sock [], if stdineof then .ret else .quit], none)
  | stdineof, ⟨.sock, bytes⟩ => ([.read .sock bytes, .write bytes], some stdineof)
  | _, ⟨.input, []⟩ => ([.read .input [], .shutdown], some true)
  | stdineof, ⟨.input, bytes⟩ => ([.read .input bytes, .writen bytes], some stdineof)

def strCliPoll (replies : List (List Ready)) : List Call := (loop (loop pollEntry) false replies).1

/-- A registered descriptor is in a reply at most once, and one at EOF is in every later reply. -/
structure Reports (replies : List (List Ready)) : Prop where
  once : ∀ fds ∈ replies, fds.Pairwise fun r r' => r.fd ≠ r'.fd
  stays : replies.Pairwise fun fds later => ∀ r ∈ fds, r.bytes = [] → r ∈ later

/-- One FIN at most, and no `Read` of `stdin` behind one that found EOF. -/
structure OneFin (calls : List Call) : Prop where
  shutdown : calls.count .shutdown ≤ 1
  reads : calls.Pairwise fun c later => c = .read .input [] → ∀ bytes, later ≠ .read .input bytes

/-- The first reply with a descriptor at EOF has the socket at EOF, or it is the last, or the next one starts with
the socket at EOF. -/
def EndsInTime : List (List Ready) → Prop
  | [] => True
  | fds :: replies =>
    if ⟨.sock, []⟩ ∈ fds then True
    else if ⟨.input, []⟩ ∈ fds then ∀ next ∈ replies.head?, next.head? = some ⟨.sock, []⟩
    else EndsInTime replies

/-! ### With `kqueue` -/

structure Kevent where
  fd : Fd
  bytes : List Byte
  data : ℕ
  deriving DecidableEq, Repr

/-- `n == 0 || (isfile && n == kev[i].data)`. -/
def Kevent.last (isfile : Bool) (kev : Kevent) : Bool :=
  kev.bytes.length == 0 || (isfile && kev.bytes.length == kev.data)

def keventEntry (isfile stdineof : Bool) : Kevent → List Call × Option Bool
  | ⟨.sock, [], _⟩ => ([.read .sock [], if stdineof then .ret else .quit], none)
  | ⟨.sock, bytes, _⟩ => ([.read .sock bytes, .write bytes], some stdineof)
  | ⟨.input, bytes, data⟩ =>
    let calls := .read .input bytes :: if 0 < bytes.length then [.writen bytes] else []
    if Kevent.last isfile ⟨.input, bytes, data⟩ then (calls ++ [.shutdown, .evDelete], some true)
    else (calls, some stdineof)

def strCliKqueue (isfile : Bool) (replies : List (List Kevent)) : List Call :=
  (loop (loop (keventEntry isfile)) false replies).1

/-- An event is in a reply at most once, and not in one behind its removal. -/
structure KqReports (isfile : Bool) (replies : List (List Kevent)) : Prop where
  once : ∀ evs ∈ replies, evs.Pairwise fun e e' => e.fd ≠ e'.fd
  removed : replies.Pairwise fun evs later =>
    ∀ e ∈ evs, e.fd = .input → e.last isfile → ∀ e' ∈ later, e'.fd ≠ .input

/-! ### Which calls are made -/

section Calls

/-- No FIN, and `stdin` not found at EOF. -/
def Call.early (c : Call) : Prop := c ≠ .shutdown ∧ c ≠ .read .input []

/-- No FIN, and no `Read` of `stdin`. -/
def Call.quiet (c : Call) : Prop := c ≠ .shutdown ∧ ∀ bytes, c ≠ .read .input bytes

variable {calls later : List Call}

theorem Call.quiet.early {c : Call} (h : c.quiet) : c.early := ⟨h.1, h.2 []⟩

theorem oneFin_append_iff (h : ∀ c ∈ calls, c.early) : OneFin (calls ++ later) ↔ OneFin later := by
  have hcount : calls.count .shutdown = 0 := List.count_eq_zero.mpr fun hmem => (h _ hmem).1 rfl
  constructor
  · intro hfin
    have hshut := hfin.shutdown
    rw [List.count_append, hcount, Nat.zero_add] at hshut
    exact ⟨hshut, (List.pairwise_append.mp hfin.reads).2.1⟩
  · intro hfin
    refine ⟨?_, List.pairwise_append.mpr ⟨?_, hfin.reads, ?_⟩⟩
    · rw [List.count_append, hcount, Nat.zero_add]
      exact hfin.shutdown
    · exact List.pairwise_of_forall_mem_list fun c hc _ _ hread => absurd hread (h c hc).2
    · exact fun c hc _ _ hread => absurd hread (h c hc).2

theorem oneFin_of_early (h : ∀ c ∈ calls, c.early) : OneFin calls := by
  rw [← List.append_nil calls, oneFin_append_iff h]
  exact ⟨Nat.zero_le _, List.Pairwise.nil⟩

theorem oneFin_shutdown (h : ∀ c ∈ later, c.quiet) : OneFin (.shutdown :: later) := by
  have hcount : later.count .shutdown = 0 := List.count_eq_zero.mpr fun hmem => (h _ hmem).1 rfl
  refine ⟨?_, List.pairwise_cons.mpr ⟨fun _ _ h => absurd h (by decide), ?_⟩⟩
  · apply Nat.le_of_eq
    rw [List.count_cons_self, hcount]
  · exact (oneFin_of_early fun c hc => (h c hc).early).reads

theorem oneFin_eof_iff : OneFin (.read .input [] :: .shutdown :: later) ↔ ∀ c ∈ later, c.quiet := by
  constructor
  · intro hfin c hc
    have hshut := hfin.shutdown
    rw [List.count_cons_of_ne (by decide), List.count_cons_self] at hshut
    refine ⟨fun heq => ?_, (List.pairwise_cons.mp hfin.reads).1 c (List.mem_cons_of_mem _ hc) rfl⟩
    have hpos := List.count_pos_iff.mpr (heq ▸ hc)
    omega
  · intro h
    have hfin := oneFin_shutdown h
    refine ⟨?_, List.pairwise_cons.mpr ⟨fun c hc _ bytes => ?_, hfin.reads⟩⟩
    · rw [List.count_cons_of_ne (by decide)]
      exact hfin.shutdown
    · rcases List.mem_cons.mp hc with heq | hc
      · rw [heq]
        exact Call.noConfusion
      · exact (h c hc).2 bytes

end Calls

/-! ### Runs with `/dev/poll` -/

section Poll

variable {stdineof : Bool} {fds rest : List Ready} {replies : List (List Ready)}

theorem pollEntry_early {s : Bool} {r : Ready} (h : r ≠ ⟨.input, []⟩) : ∀ c ∈ (pollEntry s r).1, c.early := by
  obtain ⟨fd, bytes⟩ := r
  cases fd with
  | sock => cases bytes <;> cases s <;> simp [pollEntry, Call.early]
  | input =>
    cases bytes with
    | nil => exact absurd rfl h
    | cons b bytes => simp [pollEntry, Call.early]

theorem pollEntry_quiet {s : Bool} {r : Ready} (h : r.fd = .sock) : ∀ c ∈ (pollEntry s r).1, c.quiet := by
  obtain ⟨fd, bytes⟩ := r
  obtain rfl : fd = .sock := h
  cases bytes <;> cases s <;> simp [pollEntry, Call.quiet]

theorem pollEntry_goes_on {s : Bool} {r : Ready} (h : r ≠ ⟨.sock, []⟩) : (pollEntry s r).2 ≠ none := by
  obtain ⟨fd, bytes⟩ := r
  cases fd with
  | input => cases bytes <;> simp [pollEntry]
  | sock =>
    cases bytes with
    | nil => exact absurd rfl h
    | cons b bytes => simp [pollEntry]

theorem early_of_not_mem (h : ⟨.input, []⟩ ∉ fds) : ∀ c ∈ (loop pollEntry stdineof fds).1, c.early :=
  loop_outputs fun _ _ hr => pollEntry_early fun heq => h (heq ▸ hr)

theorem loop_of_eof (stdineof : Bool) {pre post : List Ready}
    (honce : (pre ++ ⟨.input, []⟩ :: post).Pairwise fun r r' => r.fd ≠ r'.fd) :
    (∀ c ∈ (loop pollEntry stdineof pre).1, c.early) ∧ (∀ c ∈ (loop pollEntry true post).1, c.quiet) ∧
      ∀ s, (loop pollEntry stdineof pre).2 = some s →
        (loop pollEntry stdineof (pre ++ ⟨.input, []⟩ :: post)).1 =
          (loop pollEntry stdineof pre).1 ++ .read .input [] :: .shutdown :: (loop pollEntry true post).1 := by
  obtain ⟨-, hpost, hpre⟩ := List.pairwise_append.mp honce
  refine ⟨early_of_not_mem fun hmem => hpre _ hmem _ List.mem_cons_self rfl, loop_outputs fun s r hr => ?_, ?_⟩
  · have hne := (List.pairwise_cons.mp hpost).1 r hr
    refine pollEntry_quiet ?_
    cases hfd : r.fd with
    | input => exact absurd hfd.symm hne
    | sock => rfl
  · intro s hs
    rw [loop_append_of_some hs, loop_cons_of_some (show pollEntry s ⟨.input, []⟩ = _ from rfl)]
    rfl

theorem oneFin_reply (honce : fds.Pairwise fun r r' => r.fd ≠ r'.fd) : OneFin (loop pollEntry stdineof fds).1 := by
  by_cases hin : ⟨.input, []⟩ ∈ fds
  · obtain ⟨pre, post, rfl⟩ := List.append_of_mem hin
    obtain ⟨hpre, hpost, hcalls⟩ := loop_of_eof stdineof honce
    cases hend : (loop pollEntry stdineof pre).2 with
    | none =>
      rw [loop_append_of_none hend]
      exact oneFin_of_early hpre
    | some s =>
      rw [hcalls s hend, oneFin_append_iff hpre, oneFin_eof_iff]
      exact hpost
  · exact oneFin_of_early (early_of_not_mem hin)

theorem read_mem_of_input {bytes : List Byte} :
    .read .input bytes ∈ (loop pollEntry stdineof (⟨.input, bytes⟩ :: rest)).1 := by
  cases bytes with
  | nil =>
    rw [loop_cons_of_some (show pollEntry stdineof ⟨.input, []⟩ = _ from rfl)]
    exact List.mem_cons_self
  | cons b bytes =>
    rw [loop_cons_of_some (show pollEntry stdineof ⟨.input, b :: bytes⟩ = _ from rfl)]
    exact List.mem_cons_self

theorem quiet_iff (stdineof : Bool) (rest : List Ready) (honce : fds.Pairwise fun r r' => r.fd ≠ r'.fd)
    (hin : ⟨.input, []⟩ ∈ fds) :
    (∀ c ∈ (loop pollEntry stdineof (fds ++ rest)).1, c.quiet) ↔ fds.head? = some ⟨.sock, []⟩ := by
  match fds, honce, hin with
  | ⟨.input, bytes⟩ :: fds, _, _ =>
    refine iff_of_false (fun h => ?_) (by simp)
    exact (h _ read_mem_of_input).2 bytes rfl
  | ⟨.sock, []⟩ :: fds, _, _ =>
    refine iff_of_true ?_ rfl
    rw [List.cons_append, loop_cons_of_none (show pollEntry stdineof ⟨.sock, []⟩ = _ from rfl)]
    cases stdineof <;> simp [Call.quiet]
  | ⟨.sock, b :: bytes⟩ :: fds, honce, hin =>
    refine iff_of_false (fun h => ?_) (by simp)
    rcases List.mem_cons.mp hin with hin | hin
    · cases hin
    match fds, honce, hin with
    | ⟨.input, more⟩ :: fds, _, _ =>
      rw [List.cons_append, loop_cons_of_some (show pollEntry stdineof ⟨.sock, b :: bytes⟩ = _ from rfl)] at h
      exact (h _ (List.mem_append_right _ read_mem_of_input)).2 more rfl
    | ⟨.sock, more⟩ :: fds, honce, _ =>
      exact absurd rfl ((List.pairwise_cons.mp honce).1 ⟨.sock, more⟩ List.mem_cons_self)

theorem oneFin_loop_iff (h : Reports replies) :
    OneFin (loop pollEntry stdineof replies.flatten).1 ↔ EndsInTime replies := by
  induction replies generalizing stdineof with
  | nil => exact iff_of_true (oneFin_of_early nofun) trivial
  | cons fds replies ih =>
    obtain ⟨hstays, hrest⟩ := List.pairwise_cons.mp h.stays
    have honce := h.once fds List.mem_cons_self
    have hreports : Reports replies := ⟨fun next hnext => h.once next (List.mem_cons_of_mem _ hnext), hrest⟩
    rw [List.flatten_cons, EndsInTime]
    by_cases hsock : ⟨.sock, []⟩ ∈ fds
    · have hend : (loop pollEntry stdineof fds).2 = none := loop_left hsock fun _ => rfl
      rw [if_pos hsock, loop_append_of_none hend]
      exact iff_of_true (oneFin_reply honce) trivial
    · have hgoes : ∀ {l : List Ready} (s : Bool), ⟨.sock, []⟩ ∉ l → ∃ s', (loop pollEntry s l).2 = some s' :=
        fun s hl => loop_goes_on fun _ r hr => pollEntry_goes_on fun heq => hl (heq ▸ hr)
      obtain ⟨s', hs'⟩ := hgoes stdineof hsock
      rw [if_neg hsock, loop_append_of_some hs']
      by_cases hin : ⟨.input, []⟩ ∈ fds
      · obtain ⟨pre, post, rfl⟩ := List.append_of_mem hin
        obtain ⟨hpre, hpost, hcalls⟩ := loop_of_eof stdineof honce
        obtain ⟨s, hs⟩ := hgoes stdineof fun hmem => hsock (List.mem_append_left _ hmem)
        rw [if_pos hin, hcalls s hs, List.append_assoc, List.cons_append, List.cons_append,
          oneFin_append_iff hpre, oneFin_eof_iff]
        cases replies with
        | nil =>
          refine iff_of_true ?_ nofun
          simpa [loop] using hpost
        | cons next replies =>
          have hnext : ⟨.input, []⟩ ∈ next := hstays next List.mem_cons_self _ hin rfl
          have hquiet := quiet_iff s' replies.flatten (hreports.once next List.mem_cons_self) hnext
          rw [List.flatten_cons, List.forall_mem_append, hquiet]
          constructor
          · intro hall next' hnext'
            obtain rfl := Option.some.inj hnext'
            exact hall.2
          · exact fun hall => ⟨hpost, hall next rfl⟩
      · rw [if_neg hin, oneFin_append_iff (early_of_not_mem hin)]
        exact ih hreports

/-- In a run that goes on behind the end of `stdin`, the second FIN and the second `Read` come with the next
reply. -/
theorem poll_one_fin_iff (h : Reports replies) : OneFin (strCliPoll replies) ↔ EndsInTime replies := by
  rw [strCliPoll, loop_loop]
  exact oneFin_loop_iff h

theorem poll_one_fin_iff_sample :
    OneFin (strCliPoll [[⟨.input, [97]⟩], [⟨.sock, [97]⟩, ⟨.input, []⟩], [⟨.sock, []⟩, ⟨.input, []⟩]]) :=
  (poll_one_fin_iff ⟨by decide, by decide⟩).mpr (by simp [EndsInTime])

/-- `stdin` is at its end before the server has sent anything. -/
theorem poll_two_fins :
    Reports [[⟨.input, []⟩], [⟨.input, []⟩, ⟨.sock, [97]⟩], [⟨.input, []⟩, ⟨.sock, []⟩]] ∧
      ¬ OneFin (strCliPoll [[⟨.input, []⟩], [⟨.input, []⟩, ⟨.sock, [97]⟩], [⟨.input, []⟩, ⟨.sock, []⟩]]) :=
  ⟨⟨by decide, by decide⟩, fun h => absurd h.shutdown (by decide)⟩

end Poll

/-! ### Runs with `kqueue` -/

section Kqueue

variable {isfile stdineof : Bool} {evs : List Kevent} {replies : List (List Kevent)}

theorem keventEntry_quiet {s : Bool} {kev : Kevent} (h : kev.fd = .sock) :
    ∀ c ∈ (keventEntry isfile s kev).1, c.quiet := by
  obtain ⟨fd, bytes, data⟩ := kev
  obtain rfl : fd = .sock := h
  cases bytes <;> cases s <;> simp [keventEntry, Call.quiet]

theorem oneFin_loop_keventEntry
    (h : evs.Pairwise fun e e' => e.fd = .input → e.last isfile → e'.fd ≠ .input) :
    OneFin (loop (keventEntry isfile) stdineof evs).1 := by
  induction evs generalizing stdineof with
  | nil => exact oneFin_of_early nofun
  | cons e evs ih =>
    obtain ⟨hlast, hrest⟩ := List.pairwise_cons.mp h
    have hgoes : ∀ calls : List Call, keventEntry isfile stdineof e = (calls, some stdineof) →
        (∀ c ∈ calls, c.early) → OneFin (loop (keventEntry isfile) stdineof (e :: evs)).1 := by
      intro calls heq hearly
      rw [loop_cons_of_some heq, oneFin_append_iff hearly]
      exact ih hrest
    obtain ⟨fd, bytes, data⟩ := e
    cases fd with
    | sock =>
      have hearly : ∀ c ∈ (keventEntry isfile stdineof ⟨.sock, bytes, data⟩).1, c.early :=
        fun c hc => (keventEntry_quiet rfl c hc).early
      cases bytes with
      | nil =>
        rw [loop_cons_of_none (show keventEntry isfile stdineof ⟨.sock, [], data⟩ = _ from rfl)]
        exact oneFin_of_early hearly
      | cons b bytes => exact hgoes _ rfl hearly
    | input =>
      cases hend : Kevent.last isfile ⟨.input, bytes, data⟩ with
      | false =>
        cases bytes with
        | nil => cases hend
        | cons b bytes =>
          refine hgoes _ (if_neg (by rw [hend]; decide)) ?_
          simp [Call.early]
      | true =>
        have hquiet : ∀ c ∈ (loop (keventEntry isfile) true evs).1, c.quiet := by
          refine loop_outputs fun s e' he' => keventEntry_quiet ?_
          have hne := hlast e' he' rfl hend
          cases hfd : e'.fd with
          | input => exact absurd hfd hne
          | sock => rfl
        have hquiet' : ∀ c ∈ Call.evDelete :: (loop (keventEntry isfile) true evs).1, c.quiet :=
          List.forall_mem_cons.mpr ⟨⟨by decide, nofun⟩, hquiet⟩
        rw [loop_cons_of_some (if_pos hend)]
        cases bytes with
        | nil => exact oneFin_eof_iff.mpr hquiet'
        | cons b bytes =>
          show OneFin ([.read .input (b :: bytes), .writen (b :: bytes)] ++ .shutdown :: .evDelete :: _)
          rw [oneFin_append_iff (by simp [Call.early])]
          exact oneFin_shutdown hquiet'

theorem kqueue_one_fin (h : KqReports isfile replies) : OneFin (strCliKqueue isfile replies) := by
  rw [strCliKqueue, loop_loop]
  refine oneFin_loop_keventEntry (List.pairwise_flatten.mpr ⟨fun evs hevs => ?_, ?_⟩)
  · refine (h.once evs hevs).imp fun hne hfd _ hfd' => hne (hfd.trans hfd'.symm)
  · exact h.removed.imp fun hremoved e he e' he' hfd hlast => hremoved e he hfd hlast e' he'

end Kqueue

end UnixNetProg.Advio
