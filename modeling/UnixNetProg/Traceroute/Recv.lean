import UnixNetProg.Icmpd.Icmpd
import UnixNetProg.Lib.Endian
import UnixNetProg.Libc

/-!
# Waiting for the answer to a probe (`traceroute`)

`recv_v4` and `recv_v6` are the same loop around `recvfrom`, and differ in how they look at a message.
`recvbuf` is static: a message overwrites the first bytes of it, and behind these stand the bytes of
earlier ones. The loop is left when `gotalarm` is found set, when `recvfrom` fails, or when the look at a
message says so, and it is left at the first of these (`recvLoop_iff`).

What is printed with `verbose`, the address of the sender and the time of arrival are left out.
-/

namespace UnixNetProg.Traceroute

open Lib

def BUFSIZE : ℕ := 1500

/-- The probe that is waited for: the globals `sport` and `dport`, and `seq`. -/
structure Probe where
  sport : BitVec 16
  dport : BitVec 16
  seq : ℤ
  deriving DecidableEq, Repr

/-- The argument of `htons(dport + seq)`. -/
def Probe.destPort (p : Probe) : BitVec 16 := BitVec.ofInt 16 (p.dport.toNat + p.seq)

/-- The results of `recvfrom`: `n < 0` with `errno == EINTR`, a datagram, and any other error. -/
inductive RecvRes where
  | eintr
  | datagram (bytes : List Byte)
  | error
  deriving DecidableEq, Repr

/-- A turn of the loop: what it finds in `gotalarm`, and what `recvfrom` gives when it is called then. -/
structure Turn where
  gotalarm : Bool
  res : RecvRes
  deriving DecidableEq, Repr

/-- How the look at a message ends: with the next turn, or with `break` and what `ret` holds, which is
`none` as long as nothing has been assigned to it. -/
inductive Look where
  | again
  | leave (ret : Option ℤ)
  deriving DecidableEq, Repr

inductive Outcome where
  | returns (ret : Option ℤ)
  | errSys
  deriving DecidableEq, Repr

/-- What `recvfrom` stores of a datagram. -/
def received (bytes : List Byte) : List Byte := bytes.take BUFSIZE

theorem length_received (bytes : List Byte) : (received bytes).length ≤ BUFSIZE := List.length_take_le _ _

/-- The loop; `none` while it still waits. -/
def recvLoop (look : Memory Byte → ℕ → Look) (recvbuf : Memory Byte) : List Turn → Option Outcome
  | [] => none
  | t :: turns =>
    if t.gotalarm then some (.returns (some (-3)))
    else
      match t.res with
      | .eintr => recvLoop look recvbuf turns
      | .error => some .errSys
      | .datagram bytes =>
        match look (recvbuf.store 0 (received bytes)) (received bytes).length with
        | .again => recvLoop look (recvbuf.store 0 (received bytes)) turns
        | .leave ret => some (.returns ret)

/-- The comparisons with the protocol and the ports that a message quotes. -/
def Probe.IsQuoted (p : Probe) (buf : Memory Byte) (proto udp : ℕ) : Prop :=
  buf proto = IPPROTO_UDP ∧ buf.load16 .little udp = (htons p.sport).toNat ∧
    buf.load16 .little (udp + 2) = (htons p.destPort).toNat

instance (p : Probe) (buf : Memory Byte) (proto udp : ℕ) : Decidable (p.IsQuoted buf proto udp) :=
  inferInstanceAs (Decidable (_ ∧ _))

/-! ### What a message quotes -/

/-- The number in network byte order at offset `k` of a message. -/
def netWord (got : List Byte) (k : ℕ) : ℕ := word16 .big (got.getD k 0) (got.getD (k + 1) 0)

/-- The message has the protocol UDP and the ports of the probe at these offsets. -/
def Probe.QuotedIn (p : Probe) (got : List Byte) (proto udp : ℕ) : Prop :=
  got.getD proto 0 = IPPROTO_UDP ∧ netWord got udp = p.sport.toNat ∧
    (netWord got (udp + 2) : ℤ) = (p.dport.toNat + p.seq) % 65536

instance (p : Probe) (got : List Byte) (proto udp : ℕ) : Decidable (p.QuotedIn got proto udp) :=
  inferInstanceAs (Decidable (_ ∧ _))

theorem word16_eq_htons (b₀ b₁ : Byte) (port : BitVec 16) :
    word16 .little b₀ b₁ = (htons port).toNat ↔ word16 .big b₀ b₁ = port.toNat := by
  have h₀ := b₀.toNat_lt
  have h₁ := b₁.toNat_lt
  have hport := port.isLt
  rw [toNat_htons]
  simp only [word16, swapBytes]
  omega

theorem load16_store_eq_htons (buf : Memory Byte) {got : List Byte} {k : ℕ} (hk : k + 2 ≤ got.length)
    (port : BitVec 16) : (buf.store 0 got).load16 .little k = (htons port).toNat ↔ netWord got k = port.toNat := by
  rw [Memory.load16, buf.store_zero_of_lt 0 (by omega), buf.store_zero_of_lt 0 (by omega), word16_eq_htons, netWord]

theorem isQuoted_iff (p : Probe) (buf : Memory Byte) {got : List Byte} {proto udp : ℕ}
    (hproto : proto < got.length) (hudp : udp + 4 ≤ got.length) :
    p.IsQuoted (buf.store 0 got) proto udp ↔ p.QuotedIn got proto udp := by
  have hdest : (p.destPort.toNat : ℤ) = (p.dport.toNat + p.seq) % 65536 := by
    rw [Probe.destPort, BitVec.toNat_ofInt]
    omega
  rw [Probe.IsQuoted, Probe.QuotedIn, buf.store_zero_of_lt 0 hproto, load16_store_eq_htons buf (by omega),
    load16_store_eq_htons buf (by omega), ← hdest, Nat.cast_inj]

/-! ### The first turn that ends the loop -/

section Loop

variable (answers : List Byte → Option ℤ → Prop)

/-- The loop goes on after the turn. -/
def Passes (t : Turn) : Prop :=
  t.gotalarm = false ∧
    match t.res with
    | .eintr => True
    | .error => False
    | .datagram bytes => ∀ ret, ¬ answers (received bytes) ret

/-- The loop ends in the turn. -/
def Ends (t : Turn) (out : Outcome) : Prop :=
  if t.gotalarm then out = .returns (some (-3))
  else
    match t.res with
    | .eintr => False
    | .error => out = .errSys
    | .datagram bytes => ∃ ret, answers (received bytes) ret ∧ out = .returns ret

/-- The first turn that does not pass ends the loop so. -/
def FirstEnds (turns : List Turn) (out : Outcome) : Prop :=
  ∃ pre t post, turns = pre ++ t :: post ∧ (∀ u ∈ pre, Passes answers u) ∧ Ends answers t out

variable {answers}

theorem firstEnds_nil (out : Outcome) : ¬ FirstEnds answers [] out := by
  rintro ⟨pre, t, post, hsplit, -⟩
  cases pre <;> cases hsplit

theorem not_passes_of_ends {t : Turn} {out : Outcome} (h : Ends answers t out) : ¬ Passes answers t := by
  rintro ⟨halarm, hres⟩
  rw [Ends, halarm, if_neg Bool.false_ne_true] at h
  cases ht : t.res with
  | eintr =>
    rw [ht] at h
    exact h
  | error =>
    rw [ht] at hres
    exact hres
  | datagram bytes =>
    rw [ht] at h hres
    obtain ⟨ret, hans, -⟩ := h
    exact hres ret hans

theorem ends_timeout_iff (hans : ∀ got, ¬ answers got (some (-3))) (t : Turn) :
    Ends answers t (.returns (some (-3))) ↔ t.gotalarm = true := by
  unfold Ends
  cases halarm : t.gotalarm with
  | true => simp
  | false =>
    simp only [Bool.false_eq_true, if_false, iff_false]
    cases t.res with
    | eintr => exact id
    | error => nofun
    | datagram bytes =>
      rintro ⟨ret, h, hret⟩
      rw [← Outcome.returns.inj hret] at h
      exact hans _ h

theorem firstEnds_cons (t : Turn) (turns : List Turn) (out : Outcome) :
    FirstEnds answers (t :: turns) out ↔
      Ends answers t out ∨ Passes answers t ∧ FirstEnds answers turns out := by
  constructor
  · rintro ⟨pre, u, post, hsplit, hpre, hends⟩
    cases pre with
    | nil =>
      obtain ⟨rfl, -⟩ := List.cons.inj hsplit
      exact .inl hends
    | cons w pre =>
      obtain ⟨rfl, rfl⟩ := List.cons.inj hsplit
      exact .inr ⟨hpre _ List.mem_cons_self,
        pre, u, post, rfl, fun x hx => hpre x (List.mem_cons_of_mem _ hx), hends⟩
  · rintro (hends | ⟨hpass, pre, u, post, rfl, hpre, hends⟩)
    · exact ⟨[], t, turns, rfl, nofun, hends⟩
    · refine ⟨t :: pre, u, post, rfl, fun x hx => ?_, hends⟩
      rcases List.mem_cons.mp hx with rfl | hx
      · exact hpass
      · exact hpre x hx

variable {look : Memory Byte → ℕ → Look}
  (hlook : ∀ buf got, got.length ≤ BUFSIZE → ∀ ret,
    look (Memory.store buf 0 got) got.length = .leave ret ↔ answers got ret)

include hlook

/-- The loop ends as the first turn that does not pass says, whatever stood in the buffer. -/
theorem recvLoop_iff (recvbuf : Memory Byte) (turns : List Turn) (out : Outcome) :
    recvLoop look recvbuf turns = some out ↔ FirstEnds answers turns out := by
  induction turns generalizing recvbuf with
  | nil => simp [recvLoop, firstEnds_nil]
  | cons t turns ih =>
    rw [firstEnds_cons, recvLoop, Ends, Passes]
    cases halarm : t.gotalarm with
    | true => simp [eq_comm]
    | false =>
      simp only [Bool.false_eq_true, if_false, true_and]
      cases hres : t.res with
      | eintr => simpa using ih recvbuf
      | error => simp [eq_comm]
      | datagram bytes =>
        have hsame := hlook recvbuf _ (length_received bytes)
        dsimp only
        cases hl : look (recvbuf.store 0 (received bytes)) (received bytes).length with
        | again =>
          have hnone : ∀ ret, ¬ answers (received bytes) ret := by
            intro ret hans
            rw [(hsame ret).mpr hans] at hl
            cases hl
          simp [hnone, ih]
        | leave ret =>
          have hans := (hsame ret).mp hl
          have hunique : ∀ ret', answers (received bytes) ret' → ret' = ret := by
            intro ret' h
            rw [(hsame ret').mpr h] at hl
            exact Look.leave.inj hl
          dsimp only
          constructor
          · intro h
            exact .inl ⟨ret, hans, (Option.some.inj h).symm⟩
          · rintro (⟨ret', hans', rfl⟩ | ⟨hpass, -⟩)
            · rw [hunique ret' hans']
            · exact absurd hans (hpass ret)

theorem recvLoop_eq_none (recvbuf : Memory Byte) {turns : List Turn} (h : ∀ t ∈ turns, Passes answers t) :
    recvLoop look recvbuf turns = none := by
  cases hrun : recvLoop look recvbuf turns with
  | none => rfl
  | some out =>
    obtain ⟨pre, t, post, rfl, -, hends⟩ := (recvLoop_iff hlook recvbuf turns out).mp hrun
    exact absurd (h t (by simp)) (not_passes_of_ends hends)

theorem look_congr {mem mem' : Memory Byte} {n : ℕ} (hn : n ≤ BUFSIZE) (h : ∀ k < n, mem k = mem' k) :
    look mem n = look mem' n := by
  have hslice : mem.slice 0 n = mem'.slice 0 n := Memory.slice_congr fun k _ hk => h k hk
  have hlen : (mem.slice 0 n).length = n := by simp
  have hiff : ∀ ret, look mem n = .leave ret ↔ look mem' n = .leave ret := by
    intro ret
    have hmem := hlook mem (mem.slice 0 n) (by omega) ret
    have hmem' := hlook mem' (mem.slice 0 n) (by omega) ret
    rw [Memory.store_slice, hlen] at hmem
    rw [hslice, Memory.store_slice, ← hslice, hlen] at hmem'
    rw [hmem, hmem']
  cases hl : look mem n with
  | leave ret => rw [(hiff ret).mp hl]
  | again =>
    cases hl' : look mem' n with
    | again => rfl
    | leave ret =>
      rw [(hiff ret).mpr hl'] at hl
      cases hl

end Loop

end UnixNetProg.Traceroute
