import UnixNetProg.Lib.Double
import UnixNetProg.Lib.Endian
import UnixNetProg.Libc

/-!
# What `ping` prints for a message (`ping/proc_v4.c`, `ping/proc_v6.c`)

`recvbuf` holds the message and behind it what was there before. Both functions get the buffer and the length of the
message, and print a line or nothing. On LP64 the `struct timeval` in the data of a reply has 16 bytes.
-/

namespace UnixNetProg.Ping

open Lib

/-- `sizeof(recvbuf)`. -/
def BUFSIZE : ℕ := 1500

def IPPROTO_ICMP : Byte := 1
def ICMP_ECHOREPLY : Byte := 0
def ICMP6_ECHO_REPLY : Byte := 129
def IPPROTO_IPV6 : ℤ := 41
def IPV6_HOPLIMIT : ℤ := 52

/-- A control message, with the integer at `CMSG_DATA`. -/
structure Cmsg where
  level : ℤ
  type : ℤ
  data : ℤ
  deriving DecidableEq, Repr

/-- What the line depends on besides the message: `pid`, `verbose`, the sender as `Sock_ntop_host` writes it, the
control messages, and the time of arrival. -/
structure Env where
  pid : ℕ
  verbose : Bool
  sender : CString
  cmsgs : List Cmsg
  tvrecv : Timeval

/-- `long` arithmetic. -/
def long (n : ℤ) : ℤ := n.bmod (2 ^ 64)

/-- `%d`. -/
def signed (n : ℤ) : CString := if n < 0 then cstr "-" ++ decimal n.natAbs else decimal n.natAbs

/-- `%.3f`. -/
def fixed3 (x : ℚ) : CString :=
  let thousandths := (roundEven (|x| * 1000)).toNat
  (if x < 0 then cstr "-" else []) ++ (decimal (thousandths / 1000) ++ (cstr "." ++
    zeroPad 3 (decimal (thousandths % 1000))))

/-- `tv_sub(tvrecv, tvsend)`. -/
def tvSub (out inn : Timeval) : Timeval :=
  let usec := long (out.tvUsec - inn.tvUsec)
  if usec < 0 then ⟨long (out.tvSec - 1 - inn.tvSec), usec + 1000000⟩ else ⟨long (out.tvSec - inn.tvSec), usec⟩

/-- `tv_sec * 1000.0 + tv_usec / 1000.0`. -/
def millis (tv : Timeval) : ℚ := double (double (double tv.tvSec * 1000) + double (double tv.tvUsec / 1000))

/-- The `struct timeval` at `p`. -/
def timevalAt (e : Endian) (m : Memory Byte) (p : ℕ) : Timeval := ⟨long (m.load64 e p), long (m.load64 e (p + 8))⟩

/-- The round-trip time of a reply with its data at `p`. -/
def rtt (e : Endian) (env : Env) (m : Memory Byte) (p : ℕ) : ℚ := millis (tvSub env.tvrecv (timevalAt e m p))

def bytesFrom (env : Env) (n : ℤ) : CString := signed n ++ cstr " bytes from " ++ env.sender

def otherMessage (env : Env) (n : ℤ) (type code : Byte) : CString :=
  cstr "  " ++ bytesFrom env n ++ cstr ": type = " ++ decimal type.toNat ++ cstr ", code = " ++ decimal code.toNat ++
    cstr "\n"

def procV4 (e : Endian) (env : Env) (ptr : Memory Byte) (len : ℕ) : Option CString :=
  let hlen1 := (ptr 0).toNat % 16 * 4
  if ptr 9 ≠ IPPROTO_ICMP then none
  else
    let icmplen := toInt32 (toSize ((len : ℤ) - hlen1))
    if icmplen < 8 then none
    else if ptr hlen1 = ICMP_ECHOREPLY then
      if ptr.load16 e (hlen1 + 4) ≠ env.pid then none
      else if icmplen < 16 then none
      else
        some (bytesFrom env icmplen ++ cstr ": seq=" ++ decimal (ptr.load16 e (hlen1 + 6)) ++ cstr ", ttl=" ++
          decimal (ptr 8).toNat ++ cstr ", rtt=" ++ fixed3 (rtt e env ptr (hlen1 + 8)) ++ cstr " ms\n")
    else if env.verbose then some (otherMessage env icmplen (ptr hlen1) (ptr (hlen1 + 1)))
    else none

/-- The loop over the control messages. -/
def hlim : List Cmsg → ℤ
  | [] => -1
  | cmsg :: cmsgs => if cmsg.level = IPPROTO_IPV6 ∧ cmsg.type = IPV6_HOPLIMIT then cmsg.data else hlim cmsgs

def procV6 (e : Endian) (env : Env) (ptr : Memory Byte) (len : ℕ) : Option CString :=
  if len < 8 then none
  else if ptr 0 = ICMP6_ECHO_REPLY then
    if ptr.load16 e 4 ≠ env.pid then none
    else if len < 16 then none
    else
      some (bytesFrom env len ++ cstr ": seq=" ++ decimal (ptr.load16 e 6) ++ cstr ", hlim=" ++
        (if hlim env.cmsgs = -1 then cstr "???" else signed (hlim env.cmsgs)) ++ cstr ", rtt=" ++
        fixed3 (rtt e env ptr 8) ++ cstr " ms\n")
  else if env.verbose then some (otherMessage env len (ptr 0) (ptr 1))
  else none

/-! ### The message alone -/

/-- The message in front of what the buffer held. -/
def recvbuf (msg : List Byte) (rest : Memory Byte) : Memory Byte := rest.store 0 msg

/-- The line does not depend on the rest of the buffer. -/
def Alone (proc : Memory Byte → ℕ → Option CString) (msg : List Byte) : Prop :=
  ∀ rest rest', proc (recvbuf msg rest) msg.length = proc (recvbuf msg rest') msg.length

/-- The bytes of the message. -/
def own (msg : List Byte) : Memory Byte := fun k => msg.getD k 0

/-- A reply to this process, at offset `p`, that ends inside its time. -/
structure CutTime (e : Endian) (pid : ℕ) (echoReply : Byte) (p : ℕ) (msg : List Byte) : Prop where
  type : own msg p = echoReply
  id : (own msg).load16 e (p + 4) = pid
  ge : p + 16 ≤ msg.length
  lt : msg.length < p + 24

def CutTimeV4 (e : Endian) (pid : ℕ) (msg : List Byte) : Prop :=
  own msg 9 = IPPROTO_ICMP ∧ CutTime e pid ICMP_ECHOREPLY ((own msg 0).toNat % 16 * 4) msg

def CutTimeV6 (e : Endian) (pid : ℕ) (msg : List Byte) : Prop := CutTime e pid ICMP6_ECHO_REPLY 0 msg

/-! ### Times that differ -/

section Times

theorem decimal_inj {m n : ℕ} (h : decimal m = decimal n) : m = n := by
  rw [← digitsValue_decimal m, h, digitsValue_decimal]

theorem length_thousandths (n : ℕ) : (zeroPad 3 (decimal (n % 1000))).length = 3 := by
  have hle := decimal_length (by decide) (show n % 1000 < 10 ^ 3 by omega)
  rw [zeroPad, List.length_append, List.length_replicate]
  omega

theorem abs_sub_le_of_thousandths {x y : ℚ} (hx : 0 ≤ x) (hy : 0 ≤ y)
    (h : (roundEven (x * 1000)).toNat / 1000 = (roundEven (y * 1000)).toNat / 1000) : |x - y| ≤ 1 := by
  have hround : ∀ z : ℚ, 0 ≤ z → 0 ≤ roundEven (z * 1000) := by
    intro z hz
    have hclose := (abs_le.mp (abs_roundEven_sub_le (z * 1000))).1
    have hpos : (-1 : ℚ) < roundEven (z * 1000) := by linarith
    exact_mod_cast Int.lt_iff_add_one_le.mp (by exact_mod_cast hpos : (-1 : ℤ) < roundEven (z * 1000))
  have hdiff : |(roundEven (x * 1000) : ℚ) - roundEven (y * 1000)| ≤ 999 := by
    have hint : |roundEven (x * 1000) - roundEven (y * 1000)| ≤ 999 := by
      have hx' := hround x hx
      have hy' := hround y hy
      rw [abs_le]
      omega
    exact_mod_cast hint
  have hx' := abs_le.mp (abs_roundEven_sub_le (x * 1000))
  have hy' := abs_le.mp (abs_roundEven_sub_le (y * 1000))
  have hdiff' := abs_le.mp hdiff
  rw [abs_le]
  constructor <;> linarith [hx'.1, hx'.2, hy'.1, hy'.2, hdiff'.1, hdiff'.2]

theorem fixed3_ne {x y : ℚ} (h : 1 < |x - y|) : fixed3 x ≠ fixed3 y := by
  intro heq
  simp only [fixed3] at heq
  have hdigits : ∀ {s t : CString} {m n : ℕ}, s ++ (cstr "." ++ zeroPad 3 (decimal (m % 1000))) =
      t ++ (cstr "." ++ zeroPad 3 (decimal (n % 1000))) → s = t := by
    intro s t m n hst
    refine (List.append_inj' hst ?_).1
    rw [List.length_append, List.length_append, length_thousandths, length_thousandths]
  have hsign : ∀ (n : ℕ) (s : CString), (decimal n ++ s).head? ≠ some 45 := by
    intro n s hhead
    rw [List.head?_append_of_ne_nil _ (decimal_ne_nil n)] at hhead
    have hdigit := decimal_isdigit n 45 (List.mem_of_mem_head? hhead)
    exact absurd hdigit (by decide)
  by_cases hx : x < 0 <;> by_cases hy : y < 0
  · rw [if_pos hx, if_pos hy] at heq
    have hwhole := decimal_inj (hdigits (List.append_cancel_left heq))
    rw [abs_of_neg hx, abs_of_neg hy] at hwhole
    have hclose := abs_sub_le_of_thousandths (by linarith) (by linarith) hwhole
    rw [neg_sub_neg, abs_sub_comm] at hclose
    linarith
  · rw [if_pos hx, if_neg hy] at heq
    exact hsign _ _ (congrArg List.head? heq).symm
  · rw [if_neg hx, if_pos hy] at heq
    exact hsign _ _ (congrArg List.head? heq)
  · rw [if_neg hx, if_neg hy] at heq
    have hwhole := decimal_inj (hdigits heq)
    rw [abs_of_nonneg (not_lt.mp hx), abs_of_nonneg (not_lt.mp hy)] at hwhole
    exact absurd (abs_sub_le_of_thousandths (not_lt.mp hx) (not_lt.mp hy) hwhole) (not_le.mpr h)

theorem abs_double_le {x b : ℚ} (h : |x| ≤ b) : |double x - x| ≤ b / 2 ^ 53 :=
  (abs_double_sub_le x).trans (div_le_div_of_nonneg_right h (by norm_num))

theorem abs_millis_sub_le {sec usec : ℤ} (hsec : |sec| ≤ 2 ^ 63) (husec : |usec| ≤ 2 ^ 63) :
    |millis ⟨sec, usec⟩ - (double (double sec * 1000) + usec / 1000)| ≤ 2 ^ 24 := by
  have hsecQ : |(sec : ℚ)| ≤ 2 ^ 63 := by exact_mod_cast hsec
  have husecQ : |(usec : ℚ)| ≤ 2 ^ 63 := by exact_mod_cast husec
  have hsec₁ := abs_le.mp (abs_double_le hsecQ)
  have hsec₁' := abs_le.mp hsecQ
  have hsec₂ : |double (sec : ℚ) * 1000| ≤ 2 ^ 74 := by
    rw [abs_le]
    constructor <;> linarith [hsec₁.1, hsec₁.2, hsec₁'.1, hsec₁'.2]
  have hsec₃ := abs_le.mp (abs_double_le hsec₂)
  have hsec₂' := abs_le.mp hsec₂
  have husec₁ := abs_le.mp (abs_double_le husecQ)
  have husec₁' := abs_le.mp husecQ
  have husec₂ : |double (usec : ℚ) / 1000| ≤ 2 ^ 54 := by
    rw [abs_le]
    constructor <;> linarith [husec₁.1, husec₁.2, husec₁'.1, husec₁'.2]
  have husec₃ := abs_le.mp (abs_double_le husec₂)
  have husec₂' := abs_le.mp husec₂
  have hsum : |double (double (sec : ℚ) * 1000) + double (double (usec : ℚ) / 1000)| ≤ 2 ^ 76 := by
    rw [abs_le]
    constructor <;> linarith [hsec₃.1, hsec₃.2, hsec₂'.1, hsec₂'.2, husec₃.1, husec₃.2, husec₂'.1, husec₂'.2]
  have hsum₁ := abs_le.mp (abs_double_le hsum)
  rw [millis, abs_le]
  constructor <;> linarith [hsum₁.1, hsum₁.2, husec₃.1, husec₃.2, husec₁.1, husec₁.2]

theorem long_le (n : ℤ) : |long n| ≤ 2 ^ 63 := by
  have hlo := Int.le_bmod (x := n) (m := 2 ^ 64) (by decide)
  have hhi := Int.bmod_lt (x := n) (m := 2 ^ 64) (by decide)
  rw [long, abs_le]
  omega

theorem long_of_lt {n : ℤ} (hlo : -2 ^ 63 ≤ n) (hhi : n < 2 ^ 63) : long n = n :=
  Int.bmod_eq_of_le (by omega) (by omega)

/-- The 7 low bytes of a field on a little-endian host. -/
def lowBytes (m : Memory Byte) (q : ℕ) : ℕ :=
  m.load32 .little q + 2 ^ 32 * (m.load16 .little (q + 4) + 2 ^ 16 * (m (q + 6)).toNat)

theorem lowBytes_lt (m : Memory Byte) (q : ℕ) : lowBytes m q < 2 ^ 56 := by
  have hlow := Memory.load32_lt .little m q
  have hmid : m.load16 .little (q + 4) ≤ 65535 := word16_le .little (m (q + 4)) (m (q + 4 + 1))
  have hhigh := (m (q + 6)).toNat_lt
  rw [lowBytes]
  omega

theorem lowBytes_congr {m m' : Memory Byte} {q : ℕ} (h : ∀ k < 7, m' (q + k) = m (q + k)) :
    lowBytes m' q = lowBytes m q := by
  have hlow : m'.load32 .little q = m.load32 .little q := Memory.load32_congr .little fun k hk => h k (by omega)
  have hmid : m'.load16 .little (q + 4) = m.load16 .little (q + 4) :=
    Memory.load16_congr .little (h 4 (by decide)) (h 5 (by decide))
  rw [lowBytes, lowBytes, hlow, hmid, h 6 (by decide)]

theorem load64_little (m : Memory Byte) (q : ℕ) :
    m.load64 .little q = lowBytes m q + 2 ^ 56 * (m (q + 7)).toNat := by
  have htop : m.load16 .little (q + 4 + 2) = (m (q + 6)).toNat + 256 * (m (q + 7)).toNat := rfl
  have hhigh : m.load32 .little (q + 4) = m.load16 .little (q + 4) + 2 ^ 16 * m.load16 .little (q + 4 + 2) := rfl
  have hall : m.load64 .little q = m.load32 .little q + 2 ^ 32 * m.load32 .little (q + 4) := rfl
  rw [hall, hhigh, htop, lowBytes]
  ring

theorem long_load64 {m : Memory Byte} {q low b : ℕ} (hlow : lowBytes m q = low) (htop : (m (q + 7)).toNat = b)
    (hb : 128 ≤ b) : long (m.load64 .little q) = low + 2 ^ 56 * b - 2 ^ 64 := by
  have hlt := lowBytes_lt m q
  have hbyte := (m (q + 7)).toNat_lt
  have hwrap : ((low + 2 ^ 56 * b : ℕ) : ℤ) = (low + 2 ^ 56 * b - 2 ^ 64) + ((2 ^ 64 : ℕ) : ℤ) := by
    push_cast
    ring
  rw [load64_little, hlow, htop, long, hwrap, Int.add_bmod_right]
  exact long_of_lt (by omega) (by omega)

/-- The round-trip time for such a `tv_usec`, up to the rounding. -/
theorem abs_rtt_sub_le {env : Env} (husec : 0 ≤ env.tvrecv.tvUsec) (husec' : env.tvrecv.tvUsec < 1000000)
    {m : Memory Byte} {p low b : ℕ} (hlow : lowBytes m (p + 8) = low) (htop : (m (p + 8 + 7)).toNat = b)
    (hb : 129 ≤ b) (hb' : b ≤ 192) :
    |rtt .little env m p - (double (double (long (env.tvrecv.tvSec - long (m.load64 .little p)) : ℤ) * 1000) +
      (env.tvrecv.tvUsec - (low + 2 ^ 56 * b - 2 ^ 64) : ℤ) / 1000)| ≤ 2 ^ 24 := by
  have hlt := lowBytes_lt m (p + 8)
  have husecs : long (env.tvrecv.tvUsec - (low + 2 ^ 56 * b - 2 ^ 64)) =
      env.tvrecv.tvUsec - (low + 2 ^ 56 * b - 2 ^ 64) :=
    long_of_lt (by omega) (by omega)
  have hsub : tvSub env.tvrecv (timevalAt .little m p) =
      ⟨long (env.tvrecv.tvSec - long (m.load64 .little p)), env.tvrecv.tvUsec - (low + 2 ^ 56 * b - 2 ^ 64)⟩ := by
    simp only [tvSub, timevalAt, long_load64 hlow htop (le_trans (by decide) hb), husecs]
    rw [if_neg (by omega)]
  rw [rtt, hsub]
  apply abs_millis_sub_le (long_le _)
  rw [abs_le]
  omega

theorem fixed3_rtt_ne {env : Env} (husec : 0 ≤ env.tvrecv.tvUsec) (husec' : env.tvrecv.tvUsec < 1000000)
    {m m' : Memory Byte} {p : ℕ} (h : ∀ k < 15, m' (p + k) = m (p + k)) (htop : m (p + 15) = 0x81)
    (htop' : m' (p + 15) = 0xc0) : fixed3 (rtt .little env m p) ≠ fixed3 (rtt .little env m' p) := by
  have hlow : lowBytes m' (p + 8) = lowBytes m (p + 8) := lowBytes_congr fun k hk => by
    rw [Nat.add_assoc]
    exact h (8 + k) (by omega)
  have hsec : m'.load64 .little p = m.load64 .little p := Memory.load64_congr .little fun k hk => h k (by omega)
  have herr := abs_le.mp (abs_rtt_sub_le husec husec' (m := m) (b := 129) rfl (congrArg UInt8.toNat htop) (by decide)
    (by decide))
  have herr' := abs_le.mp (abs_rtt_sub_le husec husec' hlow (b := 192) (congrArg UInt8.toNat htop') (by decide)
    (by decide))
  rw [hsec] at herr'
  apply fixed3_ne
  refine lt_of_lt_of_le ?_ (le_abs_self _)
  push_cast at herr herr'
  linarith [herr.1, herr'.2]

end Times

/-! ### Both functions -/

section Proc

variable {e : Endian} {env : Env} {msg : List Byte} {rest : Memory Byte} {p k : ℕ}

theorem recvbuf_of_lt (hk : k < msg.length) : recvbuf msg rest k = own msg k :=
  Memory.store_zero_of_lt rest 0 hk

theorem recvbuf_of_le (hk : msg.length ≤ k) : recvbuf msg rest k = rest k :=
  Memory.store_of_notMem rest (.inr (by rw [Nat.zero_add]; exact hk))

theorem load16_recvbuf (hk : k + 2 ≤ msg.length) : (recvbuf msg rest).load16 e k = (own msg).load16 e k :=
  Memory.load16_congr e (recvbuf_of_lt (by omega)) (recvbuf_of_lt (by omega))

theorem rtt_recvbuf (hp : p + 16 ≤ msg.length) : rtt e env (recvbuf msg rest) p = rtt e env (own msg) p := by
  have hsec : (recvbuf msg rest).load64 e p = (own msg).load64 e p :=
    Memory.load64_congr e fun k hk => recvbuf_of_lt (by omega)
  have husec : (recvbuf msg rest).load64 e (p + 8) = (own msg).load64 e (p + 8) :=
    Memory.load64_congr e fun k hk => recvbuf_of_lt (by omega)
  rw [rtt, rtt, timevalAt, timevalAt, hsec, husec]

theorem exists_rests (husec : 0 ≤ env.tvrecv.tvUsec) (husec' : env.tvrecv.tvUsec < 1000000) (hge : p + 8 ≤ msg.length)
    (hlt : msg.length < p + 16) : ∃ rest rest',
      fixed3 (rtt .little env (recvbuf msg rest) p) ≠ fixed3 (rtt .little env (recvbuf msg rest') p) := by
  refine ⟨fun k => if k = p + 15 then 0x81 else 0, fun k => if k = p + 15 then 0xc0 else 0,
    fixed3_rtt_ne husec husec' (fun k hk => ?_) ?_ ?_⟩
  · by_cases hin : p + k < msg.length
    · rw [recvbuf_of_lt hin, recvbuf_of_lt hin]
    · rw [recvbuf_of_le (Nat.not_lt.mp hin), recvbuf_of_le (Nat.not_lt.mp hin), if_neg (by omega), if_neg (by omega)]
  · rw [recvbuf_of_le (by omega), if_pos rfl]
  · rw [recvbuf_of_le (by omega), if_pos rfl]

theorem icmplen_eq (hlen : 20 ≤ msg.length) (hmax : msg.length ≤ BUFSIZE) (b : Byte) :
    toInt32 (toSize ((msg.length : ℤ) - (b.toNat % 16 * 4 : ℕ))) = (msg.length : ℤ) - (b.toNat % 16 * 4 : ℕ) := by
  have hsize : BUFSIZE = 1500 := rfl
  exact toInt32_toSize (by omega) (by omega)

theorem procV4_recvbuf (hlen : 20 ≤ msg.length) (hmax : msg.length ≤ BUFSIZE) (h : ¬ CutTimeV4 e env.pid msg)
    (rest : Memory Byte) : procV4 e env (recvbuf msg rest) msg.length = procV4 e env (own msg) msg.length := by
  have hfirst : recvbuf msg rest 0 = own msg 0 := recvbuf_of_lt (by omega)
  have httl : recvbuf msg rest 8 = own msg 8 := recvbuf_of_lt (by omega)
  have hproto : recvbuf msg rest 9 = own msg 9 := recvbuf_of_lt (by omega)
  simp only [procV4, hfirst, httl, hproto, icmplen_eq hlen hmax]
  by_cases hicmp : own msg 9 ≠ IPPROTO_ICMP
  · rw [if_pos hicmp, if_pos hicmp]
  rw [if_neg hicmp, if_neg hicmp]
  replace h : ¬ CutTime e env.pid ICMP_ECHOREPLY ((own msg 0).toNat % 16 * 4) msg :=
    fun hcut => h ⟨not_ne_iff.mp hicmp, hcut⟩
  generalize (own msg 0).toNat % 16 * 4 = p at h ⊢
  by_cases hshort : (msg.length : ℤ) - p < 8
  · rw [if_pos hshort, if_pos hshort]
  rw [if_neg hshort, if_neg hshort, recvbuf_of_lt (by omega), recvbuf_of_lt (by omega), load16_recvbuf (by omega),
    load16_recvbuf (by omega)]
  by_cases htype : own msg p = ICMP_ECHOREPLY
  · rw [if_pos htype, if_pos htype]
    by_cases hid : (own msg).load16 e (p + 4) ≠ env.pid
    · rw [if_pos hid, if_pos hid]
    rw [if_neg hid, if_neg hid]
    by_cases hdata : (msg.length : ℤ) - p < 16
    · rw [if_pos hdata, if_pos hdata]
    rw [if_neg hdata, if_neg hdata]
    have hwhole : p + 8 + 16 ≤ msg.length := by
      by_contra hcut
      exact h ⟨htype, not_ne_iff.mp hid, by omega, by omega⟩
    rw [rtt_recvbuf hwhole]
  · rw [if_neg htype, if_neg htype]

theorem procV6_recvbuf (h : ¬ CutTimeV6 e env.pid msg) (rest : Memory Byte) :
    procV6 e env (recvbuf msg rest) msg.length = procV6 e env (own msg) msg.length := by
  simp only [procV6]
  by_cases hshort : msg.length < 8
  · rw [if_pos hshort, if_pos hshort]
  rw [if_neg hshort, if_neg hshort, recvbuf_of_lt (by omega), recvbuf_of_lt (by omega), load16_recvbuf (by omega),
    load16_recvbuf (by omega)]
  by_cases htype : own msg 0 = ICMP6_ECHO_REPLY
  · rw [if_pos htype, if_pos htype]
    by_cases hid : (own msg).load16 e 4 ≠ env.pid
    · rw [if_pos hid, if_pos hid]
    rw [if_neg hid, if_neg hid]
    by_cases hdata : msg.length < 16
    · rw [if_pos hdata, if_pos hdata]
    rw [if_neg hdata, if_neg hdata]
    have hwhole : 8 + 16 ≤ msg.length := by
      by_contra hcut
      exact h ⟨htype, not_ne_iff.mp hid, by omega, by omega⟩
    rw [rtt_recvbuf hwhole]
  · rw [if_neg htype, if_neg htype]

theorem procV4_of_cut (hlen : 20 ≤ msg.length) (hmax : msg.length ≤ BUFSIZE) (h : CutTimeV4 e env.pid msg) :
    ∃ before p, p + 8 ≤ msg.length ∧ msg.length < p + 16 ∧ ∀ rest, procV4 e env (recvbuf msg rest) msg.length =
      some (before ++ (fixed3 (rtt e env (recvbuf msg rest) p) ++ cstr " ms\n")) := by
  obtain ⟨hicmp, hcut⟩ := h
  have hge := hcut.ge
  have hlt := hcut.lt
  refine ⟨bytesFrom env ((msg.length : ℤ) - ((own msg 0).toNat % 16 * 4 : ℕ)) ++ cstr ": seq=" ++
    decimal ((own msg).load16 e ((own msg 0).toNat % 16 * 4 + 6)) ++ cstr ", ttl=" ++ decimal (own msg 8).toNat ++
    cstr ", rtt=", (own msg 0).toNat % 16 * 4 + 8, by omega, by omega, fun rest => ?_⟩
  have hfirst : recvbuf msg rest 0 = own msg 0 := recvbuf_of_lt (by omega)
  have httl : recvbuf msg rest 8 = own msg 8 := recvbuf_of_lt (by omega)
  have hproto : recvbuf msg rest 9 = own msg 9 := recvbuf_of_lt (by omega)
  simp only [procV4, hfirst, httl, hproto, icmplen_eq hlen hmax]
  have htype := hcut.type
  have hid := hcut.id
  generalize (own msg 0).toNat % 16 * 4 = p at htype hid hge hlt ⊢
  rw [if_neg (not_not.mpr hicmp), if_neg (by omega), recvbuf_of_lt (by omega), if_pos htype, load16_recvbuf (by omega),
    if_neg (not_not.mpr hid), if_neg (by omega), load16_recvbuf (by omega)]
  simp only [List.append_assoc]

theorem procV6_of_cut (h : CutTimeV6 e env.pid msg) :
    ∃ before p, p + 8 ≤ msg.length ∧ msg.length < p + 16 ∧ ∀ rest, procV6 e env (recvbuf msg rest) msg.length =
      some (before ++ (fixed3 (rtt e env (recvbuf msg rest) p) ++ cstr " ms\n")) := by
  have hge := h.ge
  have hlt := h.lt
  have hid := h.id
  rw [Nat.zero_add] at hid
  refine ⟨bytesFrom env msg.length ++ cstr ": seq=" ++ decimal ((own msg).load16 e 6) ++ cstr ", hlim=" ++
    (if hlim env.cmsgs = -1 then cstr "???" else signed (hlim env.cmsgs)) ++ cstr ", rtt=", 8, by omega, by omega,
    fun rest => ?_⟩
  simp only [procV6]
  rw [if_neg (by omega), recvbuf_of_lt (by omega), if_pos h.type, load16_recvbuf (by omega), if_neg (not_not.mpr hid),
    if_neg (by omega), load16_recvbuf (by omega)]
  simp only [List.append_assoc]

theorem not_alone_of_cut (husec : 0 ≤ env.tvrecv.tvUsec) (husec' : env.tvrecv.tvUsec < 1000000)
    {proc : Memory Byte → ℕ → Option CString} (h : ∃ before p, p + 8 ≤ msg.length ∧ msg.length < p + 16 ∧ ∀ rest,
      proc (recvbuf msg rest) msg.length =
        some (before ++ (fixed3 (rtt .little env (recvbuf msg rest) p) ++ cstr " ms\n"))) :
    ¬ Alone proc msg := by
  intro halone
  obtain ⟨before, p, hge, hlt, hproc⟩ := h
  obtain ⟨rest, rest', hne⟩ := exists_rests husec husec' hge hlt
  have hsame := halone rest rest'
  rw [hproc, hproc] at hsame
  apply hne
  exact List.append_cancel_right (List.append_cancel_left (Option.some.inj hsame))

/-- **What `ping` prints** is a function of the message alone unless a reply to this process ends inside its time; on a
little-endian host exactly then. -/
theorem ping_alone_iff (e : Endian) (env : Env) (msg : List Byte) (hmax : msg.length ≤ BUFSIZE) :
    ((20 ≤ msg.length → ¬ CutTimeV4 e env.pid msg → Alone (procV4 e env) msg) ∧
      (¬ CutTimeV6 e env.pid msg → Alone (procV6 e env) msg)) ∧
    (e = .little → 0 ≤ env.tvrecv.tvUsec → env.tvrecv.tvUsec < 1000000 →
      (20 ≤ msg.length → Alone (procV4 e env) msg → ¬ CutTimeV4 e env.pid msg) ∧
      (Alone (procV6 e env) msg → ¬ CutTimeV6 e env.pid msg)) := by
  refine ⟨⟨fun hlen hcut rest rest' => ?_, fun hcut rest rest' => ?_⟩, fun he husec husec' => ?_⟩
  · rw [procV4_recvbuf hlen hmax hcut, procV4_recvbuf hlen hmax hcut]
  · rw [procV6_recvbuf hcut, procV6_recvbuf hcut]
  · subst he
    constructor
    · intro hlen halone hcut
      exact not_alone_of_cut husec husec' (procV4_of_cut hlen hmax hcut) halone
    · intro halone hcut
      exact not_alone_of_cut husec husec' (procV6_of_cut hcut) halone

/-- A reply of 16 bytes. -/
def shortReply : List Byte := [129, 0, 0, 0, 7, 0, 1, 0, 0, 0, 0, 0, 0, 0, 0, 0]

def atNoon : Env := ⟨7, false, cstr "::1", [], ⟨43200, 0⟩⟩

theorem ping_alone_iff_sample :
    ((20 ≤ shortReply.length → ¬ CutTimeV4 .little atNoon.pid shortReply → Alone (procV4 .little atNoon) shortReply) ∧
      (¬ CutTimeV6 .little atNoon.pid shortReply → Alone (procV6 .little atNoon) shortReply)) ∧
    (Endian.little = .little → 0 ≤ atNoon.tvrecv.tvUsec → atNoon.tvrecv.tvUsec < 1000000 →
      (20 ≤ shortReply.length → Alone (procV4 .little atNoon) shortReply → ¬ CutTimeV4 .little atNoon.pid shortReply) ∧
      (Alone (procV6 .little atNoon) shortReply → ¬ CutTimeV6 .little atNoon.pid shortReply)) :=
  ping_alone_iff .little atNoon shortReply (by decide)

/-- The same reply in two buffers: the time it prints is what the buffer held behind it. -/
theorem short_reply_prints_the_rest : ¬ Alone (procV6 .little atNoon) shortReply := by
  have hzero : procV6 .little atNoon (recvbuf shortReply fun _ => 0) 16 =
      some (cstr "16 bytes from ::1: seq=1, hlim=???, rtt=43200000.000 ms\n") := by
    decide +kernel
  have hone : procV6 .little atNoon (recvbuf shortReply fun k => if k = 17 then 1 else 0) 16 =
      some (cstr "16 bytes from ::1: seq=1, hlim=???, rtt=43199999.744 ms\n") := by
    decide +kernel
  intro halone
  have hsame := halone (fun _ => 0) (fun k => if k = 17 then 1 else 0)
  rw [show shortReply.length = 16 from rfl, hzero, hone] at hsame
  exact absurd hsame (by decide)

end Proc

end UnixNetProg.Ping
