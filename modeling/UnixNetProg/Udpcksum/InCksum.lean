import UnixNetProg.Libc
import UnixNetProg.Udpcksum.UdpWrite

/-!
# What `in_cksum` computes (`libfree/in_cksum.c`), and who tests it

The accumulator holds the plain sum of the words, the two folds make of it the sum with end-around carry,
and its complement has the same two bytes on a host of either byte order. A buffer that carries the
result in a field that was 0 adds up to 0xffff, so that `in_cksum` of it is 0: `udp_check`
(`udpcksum/udpread.c`) tests this of an IP header, and the receiver of an echo request from `send_v4`
(`ping/send_v4.c`) of the ICMP message.
-/

namespace UnixNetProg.Udpcksum

open Lib

def IPVERSION : ℕ := 4

/-- `udp_check` of the packet at `ptr`: `err_quit` with a message, or the packet, in which `ip_sum` has
been assigned. -/
def udpCheck (e : Endian) (ptr : List Byte) : Except CString (List Byte) :=
  let len := ptr.length
  let ipV := (ptr.getD 0 0).toNat / 16
  let ipHl := (ptr.getD 0 0).toNat % 16
  let hlen := ipHl * 4
  if len < sizeofIp + sizeofUdphdr then .error (cstr "len = " ++ decimal len)
  else if ipV ≠ IPVERSION then .error (cstr "ip_v = " ++ decimal ipV)
  else if hlen < sizeofIp then .error (cstr "ip_hl = " ++ decimal ipHl)
  else if len < hlen + sizeofUdphdr then
    .error (cstr "len = " ++ decimal len ++ cstr ", hlen = " ++ decimal hlen)
  else
    let ipSum := inCksum e (ptr.take hlen)
    if ipSum ≠ 0 then .error (cstr "ip checksum error")
    else if ptr.getD 9 0 = IPPROTO_UDP then .ok (ptr.take 10 ++ bytes16 e ipSum.toNat ++ ptr.drop 12)
    else .error (cstr "not a UDP packet")

def ICMP_ECHO : Byte := 8

/-- `send_v4`: the bytes that it passes to `Sendto`, `sendbuf`, and `nsent`. `tv` is what `Gettimeofday`
stores. -/
def sendV4 (e : Endian) (pid datalen : ℕ) (tv : List Byte) (sendbuf : Memory Byte) (nsent : ℕ) :
    List Byte × Memory Byte × ℕ :=
  let icmp := sendbuf.store 0 [ICMP_ECHO]
  let icmp := icmp.store 1 [0]
  let icmp := icmp.store 4 (bytes16 e (pid % 65536))
  let icmp := icmp.store 6 (bytes16 e (nsent % 65536))
  let icmp := icmp.store 8 (List.replicate datalen 0xa5)
  let icmp := icmp.store 8 tv
  let len := 8 + datalen
  let icmp := icmp.store 2 (bytes16 e 0)
  let icmp := icmp.store 2 (bytes16 e (inCksum e (icmp.slice 0 len)).toNat)
  (icmp.slice 0 len, icmp, nsent + 1)

/-! ### The sum -/

theorem toNat_sumWords_take (e : Endian) {addr : List Byte} (hlen : addr.length ≤ 65535) (k : ℕ) :
    (sumWords e 0 (addr.take k)).toNat = (wordsOf e (addr.take k)).sum := by
  have hle := sum_wordsOf_le e (addr.take k)
  have htake : (addr.take k).length ≤ addr.length := List.length_take_le' k addr
  rw [toNat_sumWords e _ 0]
  simp only [BitVec.ofNat_eq_ofNat, BitVec.toNat_ofNat]
  omega

theorem toNat_fold_carry (sum : BitVec 32) (hsum : sum.toNat ≤ 2 * 65535) :
    (sum + (sum >>> 16)).toNat = sum.toNat + sum.toNat / 65536 := by
  rw [BitVec.toNat_add, BitVec.toNat_ushiftRight, Nat.shiftRight_eq_div_pow]
  omega

theorem inCksum_bytes (e e' : Endian) {addr : List Byte} (hlen : addr.length ≤ 65535) :
    bytes16 e (inCksum e addr).toNat = bytes16 e' (inCksum e' addr).toNat := by
  have hbytes := bytes16_compl addr
  rw [toNat_inCksum e hlen, toNat_inCksum e' hlen]
  cases e <;> cases e'
  · rfl
  · exact hbytes
  · exact hbytes.symm
  · rfl

/-- **The field law**: a buffer that carries its own checksum has the checksum 0, in both byte orders. -/
theorem inCksum_field (e e' : Endian) {pre post : List Byte} (hpre : pre.length % 2 = 0)
    (hlen : (pre ++ [0, 0] ++ post).length ≤ 65535) :
    inCksum e' (pre ++ bytes16 e (inCksum e (pre ++ [0, 0] ++ post)).toNat ++ post) = 0 := by
  have hlen' : (pre ++ bytes16 e' (inCksum e' (pre ++ [0, 0] ++ post)).toNat ++ post).length ≤ 65535 := by
    simp only [List.length_append, length_bytes16, List.length_cons, List.length_nil] at hlen ⊢
    omega
  rw [inCksum_bytes e e' hlen]
  apply BitVec.eq_of_toNat_eq
  rw [toNat_inCksum e' hlen', sum_wordsOf_field e' hpre (inCksum e' _).isLt, toNat_inCksum e' hlen,
    onesRep_add_compl]
  rfl

/-! ### The IP header -/

theorem udpCheck_eq_ok {e : Endian} {ptr : List Byte} {hl : ℕ} (hfirst : (ptr.getD 0 0).toNat = 16 * IPVERSION + hl)
    (hhl : 5 ≤ hl ∧ hl < 16) (hlen : hl * 4 + 8 ≤ ptr.length) (hproto : ptr.getD 9 0 = IPPROTO_UDP)
    (hsum : inCksum e (ptr.take (hl * 4)) = 0) :
    udpCheck e ptr = .ok (ptr.take 10 ++ bytes16 e 0 ++ ptr.drop 12) := by
  have hv : (ptr.getD 0 0).toNat / 16 = IPVERSION := by
    rw [hfirst, IPVERSION]
    omega
  have hhlen : (ptr.getD 0 0).toNat % 16 = hl := by
    rw [hfirst, IPVERSION]
    omega
  have hshort : ¬ ptr.length < sizeofIp + sizeofUdphdr := by
    show ¬ ptr.length < 20 + 8
    omega
  have hhlen20 : ¬ hl * 4 < sizeofIp := by
    show ¬ hl * 4 < 20
    omega
  have hdata : ¬ ptr.length < hl * 4 + sizeofUdphdr := Nat.not_lt.mpr hlen
  simp only [udpCheck]
  rw [hv, hhlen, hsum, if_neg hshort, if_neg (not_not_intro rfl), if_neg hhlen20, if_neg hdata,
    if_neg (not_not_intro rfl), if_pos hproto]
  rfl

theorem inCksum_of_udpCheck {e : Endian} {ptr ui : List Byte} (h : udpCheck e ptr = .ok ui) :
    inCksum e (ptr.take ((ptr.getD 0 0).toNat % 16 * 4)) = 0 := by
  simp only [udpCheck] at h
  by_contra hsum
  rw [if_pos hsum] at h
  split_ifs at h

theorem udpCheck_header {e e' : Endian} {pre opts data : List Byte} (hpre : pre.length = 10) {hl : ℕ}
    (hhl : 5 ≤ hl ∧ hl < 16) (hhlen : 12 + opts.length = hl * 4)
    (hfirst : (pre.getD 0 0).toNat = 16 * IPVERSION + hl) (hproto : pre.getD 9 0 = IPPROTO_UDP)
    (hdata : sizeofUdphdr ≤ data.length) :
    udpCheck e' (pre ++ bytes16 e (inCksum e (pre ++ [0, 0] ++ opts)).toNat ++ opts ++ data) =
      .ok (pre ++ [0, 0] ++ opts ++ data) := by
  have hheader : (pre ++ [0, 0] ++ opts).length ≤ 65535 := by
    simp only [List.length_append, List.length_cons, List.length_nil]
    omega
  have hfield := inCksum_field e e' (by omega) hheader
  generalize hsum : bytes16 e (inCksum e (pre ++ [0, 0] ++ opts)).toNat = sum at hfield ⊢
  have hsumlen : sum.length = 2 := by
    rw [← hsum]
    exact length_bytes16 e _
  have hlength : (pre ++ sum ++ opts).length = hl * 4 := by
    simp only [List.length_append]
    omega
  have htake : (pre ++ sum ++ opts ++ data).take (hl * 4) = pre ++ sum ++ opts := by
    rw [← hlength]
    exact List.take_left
  have hget : ∀ i, i < 10 → (pre ++ sum ++ opts ++ data).getD i 0 = pre.getD i 0 := by
    intro i hi
    simp only [List.getD_eq_getElem?_getD, List.append_assoc]
    rw [List.getElem?_append_left (by omega)]
  have hfirst' : ((pre ++ sum ++ opts ++ data).getD 0 0).toNat = 16 * IPVERSION + hl := by
    rw [hget 0 (by decide)]
    exact hfirst
  rw [udpCheck_eq_ok hfirst' hhl]
  · have htake10 : (pre ++ sum ++ opts ++ data).take 10 = pre := by
      rw [← hpre, List.append_assoc, List.append_assoc]
      exact List.take_left
    have hdrop12 : (pre ++ sum ++ opts ++ data).drop 12 = opts ++ data := by
      have h12 : (pre ++ sum).length = 12 := by
        rw [List.length_append]
        omega
      rw [← h12, List.append_assoc (pre ++ sum)]
      exact List.drop_left
    rw [htake10, hdrop12, ← List.append_assoc]
    cases e' <;> rfl
  · rw [List.length_append, hlength]
    exact Nat.add_le_add_left hdata _
  · rw [hget 9 (by decide)]
    exact hproto
  · rw [htake]
    exact hfield

/-! ### The echo request -/

theorem slice_store_field (m : Memory Byte) {i len : ℕ} (hi : i + 2 ≤ len) {xs : List Byte} (hxs : xs.length = 2) :
    (m.store i xs).slice 0 len = m.slice 0 i ++ xs ++ m.slice (i + 2) len := by
  have hstore := Memory.slice_store m (Nat.zero_le i) xs
  rw [hxs] at hstore
  rw [← Memory.slice_append _ (Nat.zero_le (i + 2)) hi, hstore, Memory.slice_store_of_le _ (by omega)]

/-- **An echo request verifies** on a host of either byte order. -/
theorem sendV4_verifies (e e' : Endian) (pid : ℕ) {datalen : ℕ} (hlen : 8 + datalen ≤ 65535) (tv : List Byte)
    (sendbuf : Memory Byte) (nsent : ℕ) : inCksum e' (sendV4 e pid datalen tv sendbuf nsent).1 = 0 := by
  simp only [sendV4]
  generalize (((((sendbuf.store 0 [ICMP_ECHO]).store 1 [0]).store 4 (bytes16 e (pid % 65536))).store 6
    (bytes16 e (nsent % 65536))).store 8 (List.replicate datalen 0xa5)).store 8 tv = icmp
  have hzero : bytes16 e 0 = [0, 0] := by cases e <;> rfl
  have hbefore : (icmp.store 2 (bytes16 e 0)).slice 0 (8 + datalen) = _ :=
    slice_store_field icmp (by omega) (length_bytes16 e 0)
  rw [Memory.store_store icmp 2 (by simp), slice_store_field icmp (by omega) (length_bytes16 e _), hbefore, hzero]
  apply inCksum_field e e'
  · rw [Memory.length_slice]
  · simp only [List.length_append, Memory.length_slice, List.length_cons, List.length_nil]
    omega

/-! ### The checksum -/

/-- What `in_cksum` promises of a buffer on a host of byte order `e`. -/
structure CksumLaws (e : Endian) (addr : List Byte) : Prop where
  /-- The accumulator does not overflow, -/
  exact : ∀ k, (sumWords e 0 (addr.take k)).toNat = (wordsOf e (addr.take k)).sum
  /-- nor do the two folds. -/
  fold : ((sumWords e 0 addr >>> 16) + (sumWords e 0 addr &&& 0xffff)).toNat =
    (sumWords e 0 addr).toNat / 65536 + (sumWords e 0 addr).toNat % 65536
  foldCarry : ∀ sum, sum = (sumWords e 0 addr >>> 16) + (sumWords e 0 addr &&& 0xffff) →
    (sum + (sum >>> 16)).toNat = sum.toNat + sum.toNat / 65536
  value : (inCksum e addr).toNat = 65535 - onesSum (wordsOf e addr)
  /-- The result has the same bytes in memory on every host. -/
  bytes : ∀ e', bytes16 e (inCksum e addr).toNat = bytes16 e' (inCksum e' addr).toNat
  field : ∀ pre post, addr = pre ++ [0, 0] ++ post → pre.length % 2 = 0 → ∀ e',
    inCksum e' (pre ++ bytes16 e (inCksum e addr).toNat ++ post) = 0

theorem cksumLaws (e : Endian) {addr : List Byte} (hlen : addr.length ≤ 65535) : CksumLaws e addr where
  exact := toNat_sumWords_take e hlen
  fold := toNat_fold _
  foldCarry := by
    intro sum hsum
    have hfold := toNat_fold (sumWords e 0 addr)
    have hlt := (sumWords e 0 addr).isLt
    rw [← hsum] at hfold
    exact toNat_fold_carry sum (by omega)
  value := by rw [toNat_inCksum e hlen, onesSum_eq le_of_mem_wordsOf]
  bytes e' := inCksum_bytes e e' hlen
  field := by
    rintro pre post rfl hpre e'
    exact inCksum_field e e' hpre hlen

/-- **The Internet checksum.** For every buffer of at most 65535 bytes and every byte order `in_cksum` is the
complement of the ones' complement sum, and a buffer that carries it has the checksum 0. So `udp_check` lets
a well-formed UDP packet through whose IP header carries it, and nothing whose header has another sum; and
every message of `send_v4` has the checksum 0 for its receiver. -/
theorem inCksum_correct (e e' : Endian) :
    (∀ addr : List Byte, addr.length ≤ 65535 → CksumLaws e addr) ∧
    (∀ (pre opts data : List Byte) (hl : ℕ), pre.length = 10 → 5 ≤ hl ∧ hl < 16 → 12 + opts.length = hl * 4 →
      (pre.getD 0 0).toNat = 16 * IPVERSION + hl → pre.getD 9 0 = IPPROTO_UDP → sizeofUdphdr ≤ data.length →
      udpCheck e' (pre ++ bytes16 e (inCksum e (pre ++ [0, 0] ++ opts)).toNat ++ opts ++ data) =
        .ok (pre ++ [0, 0] ++ opts ++ data)) ∧
    (∀ ptr ui : List Byte, udpCheck e ptr = .ok ui →
      inCksum e (ptr.take ((ptr.getD 0 0).toNat % 16 * 4)) = 0) ∧
    ∀ (pid datalen : ℕ) (tv : List Byte) (sendbuf : Memory Byte) (nsent : ℕ), 8 + datalen ≤ 65535 →
      inCksum e' (sendV4 e pid datalen tv sendbuf nsent).1 = 0 := by
  refine ⟨fun addr hlen => cksumLaws e hlen, ?_, fun ptr ui => inCksum_of_udpCheck, ?_⟩
  · intro pre opts data hl hpre hhl hhlen hfirst hproto hdata
    exact udpCheck_header hpre hhl hhlen hfirst hproto hdata
  · intro pid datalen tv sendbuf nsent hlen
    exact sendV4_verifies e e' pid hlen tv sendbuf nsent

/-- An odd buffer with a field of zeros, and an echo request without a time. -/
theorem inCksum_correct_sample :
    bytes16 .little (inCksum .little [0x12, 0x34, 0, 0, 0x56]).toNat = [0x97, 0xcb] ∧
    inCksum .big ([0x12, 0x34] ++ [0x97, 0xcb] ++ [0x56]) = 0 ∧
    (sendV4 .little 0x1234 2 [] (fun _ => 0) 7).1 = [8, 0, 0x17, 0x48, 0x34, 0x12, 7, 0, 0xa5, 0xa5] ∧
    inCksum .big (sendV4 .little 0x1234 2 [] (fun _ => 0) 7).1 = 0 := by
  obtain ⟨hlaws, -, -, hsend⟩ := inCksum_correct .little .big
  have hsum : bytes16 .little (inCksum .little [0x12, 0x34, 0, 0, 0x56]).toNat = [0x97, 0xcb] := by decide
  have hfield := (hlaws [0x12, 0x34, 0, 0, 0x56] (by decide)).field [0x12, 0x34] [0x56] rfl rfl .big
  rw [hsum] at hfield
  exact ⟨hsum, hfield, by decide, hsend 0x1234 2 [] (fun _ => 0) 7 (by decide)⟩

end UnixNetProg.Udpcksum
