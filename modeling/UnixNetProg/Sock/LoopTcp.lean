import UnixNetProg.Sock.Crlf

/-!
# Copying between the terminal and the connection (`sock/looptcp.c`)

A turn of the loop of `loop_tcp` is what `select` finds ready, with what the calls then return. `readlen` and
`writelen` are the sizes of `rbuf` and `wbuf`, which are set by two options. The loop ends with the process
or with the connection; what has been read and written so far is kept beside its state.
-/

namespace UnixNetProg.Sock

open Lib

/-- The options that `loop_tcp` looks at. -/
structure LoopOpts where
  crlf : Bool
  halfclose : Bool
  msgpeek : Bool
  readlen : Size
  writelen : Size

/-- The results of `read` and `recv`: an error, or the bytes that are there, of which `readlen` are taken. With
none the call returns 0. -/
inductive Arrival where
  | error
  | bytes (data : List Byte)
  deriving DecidableEq, Repr

/-- A call with what it is answered, and whether the calls that follow from it succeed. -/
structure Ready where
  arrival : Arrival
  ok : Bool
  deriving DecidableEq, Repr

/-- What `select` finds: standard input, the socket, or both; `again` is for the second `recv` after a peek. -/
structure LoopTurn where
  stdin : Option Ready
  sock : Option Ready
  again : Ready
  deriving DecidableEq, Repr

inductive LoopEnd where
  | errSys
  | quitAdd
  | quitStrip
  | overflow
  | closed
  deriving DecidableEq, Repr

structure LoopState where
  stdineof : Bool
  wbuf : Memory Byte
  typed : List Byte
  sent : List Byte
  received : List Byte
  printed : List Byte

/-- The part behind `FD_ISSET(STDIN_FILENO, &rset)`; the flag is set when it goes back to `select`. -/
def fromStdin (o : LoopOpts) (s : LoopState) (r : Ready) : Except LoopEnd (LoopState × Bool) :=
  match r.arrival with
  | .error => .error .errSys
  | .bytes data =>
    let got := data.take o.readlen.val
    if got = [] then
      if o.halfclose then
        if r.ok then .ok ({ s with stdineof := true }, true) else .error .errSys
      else .error .closed
    else if o.crlf then
      let run := crlfAdd o.writelen s.wbuf got
      match run.ended with
      | .quit => .error .quitAdd
      | .overflow => .error .overflow
      | .returns _ =>
        if r.ok then
          .ok ({ s with wbuf := run.dst, typed := s.typed ++ got, sent := s.sent ++ run.output }, false)
        else .error .errSys
    else if r.ok then .ok ({ s with typed := s.typed ++ got, sent := s.sent ++ got }, false)
    else .error .errSys

/-- One `recv`, and what is done with the data. -/
def fromSock (o : LoopOpts) (s : LoopState) (r : Ready) : Except LoopEnd LoopState :=
  match r.arrival with
  | .error => .error .errSys
  | .bytes data =>
    let got := data.take o.readlen.val
    if got = [] then .error .closed
    else if o.crlf then
      let run := crlfStrip o.writelen s.wbuf got
      match run.ended with
      | .quit => .error .quitStrip
      | .overflow => .error .overflow
      | .returns _ =>
        if r.ok then
          .ok { s with wbuf := run.dst, received := s.received ++ got, printed := s.printed ++ run.output }
        else .error .errSys
    else if r.ok then .ok { s with received := s.received ++ got, printed := s.printed ++ got }
    else .error .errSys

/-- The part behind `FD_ISSET(sockfd, &rset)`, with the label `oncemore`. -/
def sockTurn (o : LoopOpts) (s : LoopState) (t : LoopTurn) : Except LoopEnd LoopState :=
  match t.sock with
  | none => .ok s
  | some r =>
    match fromSock o s r with
    | .error e => .error e
    | .ok s' => if o.msgpeek then fromSock o s' t.again else .ok s'

/-- After the end of file `select` is not asked about standard input any more. -/
def loopTurn (o : LoopOpts) (s : LoopState) (t : LoopTurn) : Except LoopEnd LoopState :=
  match if s.stdineof then none else t.stdin with
  | none => sockTurn o s t
  | some r =>
    match fromStdin o s r with
    | .error e => .error e
    | .ok (s', true) => .ok s'
    | .ok (s', false) => sockTurn o s' t

/-- The turns so far: the loop has ended, or it is in this state. -/
def loopTcp (o : LoopOpts) : LoopState → List LoopTurn → Except LoopEnd LoopState
  | s, [] => .ok s
  | s, t :: turns =>
    match loopTurn o s t with
    | .error e => .error e
    | .ok s' => loopTcp o s' turns

def loopStart (wbuf : Memory Byte) : LoopState := ⟨false, wbuf, [], [], [], []⟩

/-! ### What is copied -/

/-- All that was typed has been sent, and all that was received has been printed. -/
structure Copied (o : LoopOpts) (s : LoopState) : Prop where
  sent : s.sent = if o.crlf then addReturns s.typed else s.typed
  printed : s.printed = if o.crlf then stripReturns s.received else s.received

section Copy

variable {o : LoopOpts} {s s' : LoopState}

theorem fromStdin_cases {r : Ready} {back : Bool} (h : fromStdin o s r = .ok (s', back)) :
    s' = { s with stdineof := true } ∨
    (∃ got lenout, o.crlf ∧ (crlfAdd o.writelen s.wbuf got).ended = .returns lenout ∧
      s' = { s with wbuf := (crlfAdd o.writelen s.wbuf got).dst, typed := s.typed ++ got,
                    sent := s.sent ++ (crlfAdd o.writelen s.wbuf got).output }) ∨
    ∃ got, ¬ o.crlf ∧ s' = { s with typed := s.typed ++ got, sent := s.sent ++ got } := by
  unfold fromStdin at h
  cases harrival : r.arrival with
  | error =>
    rw [harrival] at h
    cases h
  | bytes data =>
    rw [harrival] at h
    dsimp only at h
    generalize data.take o.readlen.val = got at h
    by_cases hgot : got = []
    · rw [if_pos hgot] at h
      split_ifs at h
      obtain ⟨rfl, -⟩ := Prod.mk.inj (Except.ok.inj h)
      exact .inl rfl
    · rw [if_neg hgot] at h
      by_cases hcrlf : o.crlf
      · rw [if_pos hcrlf] at h
        cases hend : (crlfAdd o.writelen s.wbuf got).ended with
        | returns lenout =>
          rw [hend] at h
          dsimp only at h
          split_ifs at h
          obtain ⟨rfl, -⟩ := Prod.mk.inj (Except.ok.inj h)
          exact .inr (.inl ⟨got, lenout, hcrlf, hend, rfl⟩)
        | quit =>
          rw [hend] at h
          cases h
        | overflow =>
          rw [hend] at h
          cases h
      · rw [if_neg hcrlf] at h
        split_ifs at h
        obtain ⟨rfl, -⟩ := Prod.mk.inj (Except.ok.inj h)
        exact .inr (.inr ⟨got, hcrlf, rfl⟩)

theorem fromSock_cases {r : Ready} (h : fromSock o s r = .ok s') :
    (∃ got lenout, o.crlf ∧ (crlfStrip o.writelen s.wbuf got).ended = .returns lenout ∧
      s' = { s with wbuf := (crlfStrip o.writelen s.wbuf got).dst, received := s.received ++ got,
                    printed := s.printed ++ (crlfStrip o.writelen s.wbuf got).output }) ∨
    ∃ got, ¬ o.crlf ∧ s' = { s with received := s.received ++ got, printed := s.printed ++ got } := by
  unfold fromSock at h
  cases harrival : r.arrival with
  | error =>
    rw [harrival] at h
    cases h
  | bytes data =>
    rw [harrival] at h
    dsimp only at h
    generalize data.take o.readlen.val = got at h
    by_cases hgot : got = []
    · rw [if_pos hgot] at h
      cases h
    · rw [if_neg hgot] at h
      by_cases hcrlf : o.crlf
      · rw [if_pos hcrlf] at h
        cases hend : (crlfStrip o.writelen s.wbuf got).ended with
        | returns lenout =>
          rw [hend] at h
          dsimp only at h
          split_ifs at h
          obtain rfl := Except.ok.inj h
          exact .inl ⟨got, lenout, hcrlf, hend, rfl⟩
        | quit =>
          rw [hend] at h
          cases h
        | overflow =>
          rw [hend] at h
          cases h
      · rw [if_neg hcrlf] at h
        split_ifs at h
        obtain rfl := Except.ok.inj h
        exact .inr ⟨got, hcrlf, rfl⟩

theorem copied_fromStdin {r : Ready} {back : Bool} (h : fromStdin o s r = .ok (s', back)) (hs : Copied o s) :
    Copied o s' := by
  have hsent := hs.sent
  rcases fromStdin_cases h with rfl | ⟨got, lenout, hcrlf, hend, rfl⟩ | ⟨got, hcrlf, rfl⟩
  · exact ⟨hsent, hs.printed⟩
  · refine ⟨?_, hs.printed⟩
    rw [if_pos hcrlf] at hsent
    dsimp only
    rw [hsent, ((crlfAdd_translates o.writelen s.wbuf got).returned lenout hend).2, if_pos hcrlf, addReturns_append]
  · refine ⟨?_, hs.printed⟩
    rw [if_neg hcrlf] at hsent
    dsimp only
    rw [hsent, if_neg hcrlf]

theorem copied_fromSock {r : Ready} (h : fromSock o s r = .ok s') (hs : Copied o s) : Copied o s' := by
  have hprinted := hs.printed
  rcases fromSock_cases h with ⟨got, lenout, hcrlf, hend, rfl⟩ | ⟨got, hcrlf, rfl⟩
  · refine ⟨hs.sent, ?_⟩
    rw [if_pos hcrlf] at hprinted
    dsimp only
    rw [hprinted, ((crlfStrip_translates o.writelen s.wbuf got).returned lenout hend).2, if_pos hcrlf,
      stripReturns_append]
  · refine ⟨hs.sent, ?_⟩
    rw [if_neg hcrlf] at hprinted
    dsimp only
    rw [hprinted, if_neg hcrlf]

theorem copied_sockTurn {t : LoopTurn} (h : sockTurn o s t = .ok s') (hs : Copied o s) : Copied o s' := by
  unfold sockTurn at h
  cases hsock : t.sock with
  | none =>
    rw [hsock] at h
    exact Except.ok.inj h ▸ hs
  | some r =>
    rw [hsock] at h
    dsimp only at h
    cases hfirst : fromSock o s r with
    | error e =>
      rw [hfirst] at h
      cases h
    | ok mid =>
      have hmid := copied_fromSock hfirst hs
      rw [hfirst] at h
      dsimp only at h
      split_ifs at h with hpeek
      · exact copied_fromSock h hmid
      · exact Except.ok.inj h ▸ hmid

theorem copied_loopTurn {t : LoopTurn} (h : loopTurn o s t = .ok s') (hs : Copied o s) : Copied o s' := by
  unfold loopTurn at h
  cases hstdin : (if s.stdineof then none else t.stdin) with
  | none =>
    rw [hstdin] at h
    exact copied_sockTurn h hs
  | some r =>
    rw [hstdin] at h
    dsimp only at h
    cases hread : fromStdin o s r with
    | error e =>
      rw [hread] at h
      cases h
    | ok mid =>
      obtain ⟨mid, back⟩ := mid
      have hmid := copied_fromStdin hread hs
      rw [hread] at h
      cases back with
      | true => exact Except.ok.inj h ▸ hmid
      | false => exact copied_sockTurn h hmid

/-- **While the loop runs nothing is lost**: the peer gets all that was typed and the terminal all that came,
each in its translation, however `read` and `recv` cut the data. -/
theorem copied_loopTcp (turns : List LoopTurn) (h : loopTcp o s turns = .ok s') (hs : Copied o s) : Copied o s' := by
  induction turns generalizing s with
  | nil => exact Except.ok.inj h ▸ hs
  | cons t turns ih =>
    rw [loopTcp] at h
    cases hturn : loopTurn o s t with
    | error e =>
      rw [hturn] at h
      cases h
    | ok mid =>
      rw [hturn] at h
      exact ih h (copied_loopTurn hturn hs)

end Copy

/-! ### When the loop quits -/

section Quit

variable {o : LoopOpts} {s : LoopState}

theorem fromStdin_ne_quitStrip (r : Ready) : fromStdin o s r ≠ .error .quitStrip := by
  intro h
  unfold fromStdin at h
  cases harrival : r.arrival with
  | error =>
    rw [harrival] at h
    cases h
  | bytes data =>
    rw [harrival] at h
    dsimp only at h
    cases hend : (crlfAdd o.writelen s.wbuf (data.take o.readlen.val)).ended with
    | returns lenout =>
      rw [hend] at h
      dsimp only at h
      split_ifs at h <;> cases h
    | quit =>
      rw [hend] at h
      dsimp only at h
      split_ifs at h <;> cases h
    | overflow =>
      rw [hend] at h
      dsimp only at h
      split_ifs at h <;> cases h

theorem stripStops_of_fromSock {r : Ready} (h : fromSock o s r = .error .quitStrip) :
    o.crlf ∧ ∃ got : List Byte, got.length ≤ o.readlen.val ∧ StripStops o.writelen got := by
  unfold fromSock at h
  cases harrival : r.arrival with
  | error =>
    rw [harrival] at h
    cases h
  | bytes data =>
    rw [harrival] at h
    dsimp only at h
    have hlen : (data.take o.readlen.val).length ≤ o.readlen.val := List.length_take_le _ _
    generalize data.take o.readlen.val = got at h hlen
    by_cases hcrlf : o.crlf
    · refine ⟨hcrlf, got, hlen, ?_⟩
      by_contra hstops
      rw [if_pos hcrlf, crlfStrip_eq o.writelen s.wbuf got hstops] at h
      dsimp only at h
      split_ifs at h <;> cases h
    · rw [if_neg hcrlf] at h
      split_ifs at h <;> cases h

theorem exists_of_sockTurn_error {t : LoopTurn} {e : LoopEnd} (h : sockTurn o s t = .error e) :
    ∃ mid r, fromSock o mid r = .error e := by
  unfold sockTurn at h
  cases hsock : t.sock with
  | none =>
    rw [hsock] at h
    cases h
  | some r =>
    rw [hsock] at h
    dsimp only at h
    cases hfirst : fromSock o s r with
    | error e' =>
      rw [hfirst] at h
      obtain rfl := Except.error.inj h
      exact ⟨s, r, hfirst⟩
    | ok mid =>
      rw [hfirst] at h
      dsimp only at h
      split_ifs at h
      exact ⟨mid, t.again, h⟩

theorem exists_of_loopTurn_error {t : LoopTurn} {e : LoopEnd} (h : loopTurn o s t = .error e) :
    ∃ mid r, fromStdin o mid r = .error e ∨ fromSock o mid r = .error e := by
  unfold loopTurn at h
  cases hstdin : (if s.stdineof then none else t.stdin) with
  | none =>
    rw [hstdin] at h
    obtain ⟨mid, r, hsock⟩ := exists_of_sockTurn_error h
    exact ⟨mid, r, .inr hsock⟩
  | some r =>
    rw [hstdin] at h
    dsimp only at h
    cases hread : fromStdin o s r with
    | error e' =>
      rw [hread] at h
      obtain rfl := Except.error.inj h
      exact ⟨s, r, .inl hread⟩
    | ok mid =>
      obtain ⟨mid, back⟩ := mid
      rw [hread] at h
      cases back with
      | true => cases h
      | false =>
        obtain ⟨mid', r', hsock⟩ := exists_of_sockTurn_error h
        exact ⟨mid', r', .inr hsock⟩

theorem exists_of_loopTcp_error (turns : List LoopTurn) {e : LoopEnd} (h : loopTcp o s turns = .error e) :
    ∃ mid r, fromStdin o mid r = .error e ∨ fromSock o mid r = .error e := by
  induction turns generalizing s with
  | nil => cases h
  | cons t turns ih =>
    rw [loopTcp] at h
    cases hturn : loopTurn o s t with
    | error e' =>
      rw [hturn] at h
      obtain rfl := Except.error.inj h
      exact exists_of_loopTurn_error hturn
    | ok mid =>
      rw [hturn] at h
      exact ih h

theorem stripStops_of_loopTcp (turns : List LoopTurn) (h : loopTcp o s turns = .error .quitStrip) :
    o.crlf ∧ ∃ got : List Byte, got.length ≤ o.readlen.val ∧ StripStops o.writelen got := by
  obtain ⟨mid, r, hstdin | hsock⟩ := exists_of_loopTcp_error turns h
  · exact absurd hstdin (fromStdin_ne_quitStrip r)
  · exact stripStops_of_fromSock hsock

theorem loopTcp_quitStrip (hcrlf : o.crlf) {data : List Byte} (hdata : data.length ≤ o.readlen.val)
    (hstops : StripStops o.writelen data) (r : Ready) :
    loopTcp o s [⟨none, some ⟨.bytes data, true⟩, r⟩] = .error .quitStrip := by
  have hne : data ≠ [] := by
    rintro rfl
    exact hstops.1 rfl
  have hsock : fromSock o s ⟨.bytes data, true⟩ = .error .quitStrip := by
    simp only [fromSock]
    rw [List.take_of_length_le hdata, if_neg hne, if_pos hcrlf, crlfStrip_ended o.writelen s.wbuf data hstops]
  have hturn : loopTurn o s ⟨none, some ⟨.bytes data, true⟩, r⟩ = .error .quitStrip := by
    simp only [loopTurn, ite_self, sockTurn, hsock]
  rw [loopTcp, hturn]

end Quit

/-- No run of the loop quits in `crlf_strip`. -/
def NeverQuitsInStrip (o : LoopOpts) : Prop :=
  ∀ wbuf turns, loopTcp o (loopStart wbuf) turns ≠ .error .quitStrip

theorem neverQuitsInStrip_iff (o : LoopOpts) :
    NeverQuitsInStrip o ↔ ¬ o.crlf ∨ o.readlen.val < o.writelen.val ∨ o.readlen.val = 0 := by
  constructor
  · intro hnever
    by_contra hsizes
    rw [not_or, not_not, not_or] at hsizes
    obtain ⟨hcrlf, hlt, hpos⟩ := hsizes
    have hstrip : stripReturns (List.replicate o.readlen.val 97) = List.replicate o.readlen.val 97 :=
      List.filter_replicate_of_pos rfl
    have hstops : StripStops o.writelen (List.replicate o.readlen.val 97) := by
      rw [StripStops, hstrip, List.length_replicate]
      exact ⟨fun h => hpos (List.replicate_eq_nil_iff 97 |>.mp h), Nat.not_lt.mp hlt⟩
    exact hnever default _ (loopTcp_quitStrip hcrlf (Nat.le_of_eq List.length_replicate) hstops ⟨.error, true⟩)
  · intro hsizes wbuf turns hquit
    obtain ⟨hcrlf, got, hgot, hne, hfull⟩ := stripStops_of_loopTcp turns hquit
    have hlen := length_stripReturns got
    have hpos := List.length_pos_iff.mpr hne
    rcases hsizes with hno | hlt | hzero
    · exact hno hcrlf
    · omega
    · omega

/-- **When the translations quit.** `crlf_add` quits for nothing when its output has a newline and fills the
destination, and it does not quit when that takes the count past an `int`; `crlf_strip` quits for nothing when
its output fills the destination. Buffers of one size are then enough for `loop_tcp` to quit. -/
theorem crlf_quits_iff (dstsize : Size) (dst : Memory Byte) (src : List Byte) (o : LoopOpts) :
    (QuitsWhenMust dstsize src addReturns (crlfAdd dstsize dst src) ↔
      ¬ (10 ∈ src ∧ (src.length + src.count 10 = dstsize.val ∨ src.length = INT_MAX ∧ dstsize.val = INT_MAX))) ∧
    (QuitsWhenMust dstsize src stripReturns (crlfStrip dstsize dst src) ↔
      ¬ (0 < dstsize.val ∧ src.length = dstsize.val + src.count 13)) ∧
    (NeverQuitsInStrip o ↔ ¬ o.crlf ∨ o.readlen.val < o.writelen.val ∨ o.readlen.val = 0) :=
  ⟨crlfAdd_quitsWhenMust dstsize dst src, crlfStrip_quitsWhenMust dstsize dst src, neverQuitsInStrip_iff o⟩

/-- One byte for a destination of one byte, a newline for one of two bytes, and buffers of 1024 bytes. -/
theorem crlf_quits_exact_fit :
    ¬ QuitsWhenMust ⟨1, by decide⟩ [97] stripReturns (crlfStrip ⟨1, by decide⟩ default [97]) ∧
    ¬ QuitsWhenMust ⟨2, by decide⟩ [10] addReturns (crlfAdd ⟨2, by decide⟩ default [10]) ∧
    ¬ NeverQuitsInStrip ⟨true, false, false, ⟨1024, by decide⟩, ⟨1024, by decide⟩⟩ := by
  refine ⟨?_, ?_, ?_⟩
  · rw [crlfStrip_quitsWhenMust]
    decide
  · rw [crlfAdd_quitsWhenMust]
    decide
  · rw [neverQuitsInStrip_iff]
    decide

end UnixNetProg.Sock
