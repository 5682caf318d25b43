import UnixNetProg.Lib.Memory
import UnixNetProg.Lib.OnesComplement
import UnixNetProg.Libc

/-!
# UDP datagrams with their checksum (`udpcksum/udpwrite.c`, `libfree/in_cksum.c`)

`udp_write` lays the pseudo-header of UDP over the IP header, computes the checksum over both headers and
the data, and then fills in the rest of the IP header. The checksum is computed with the 16-bit words of the
host, in either byte order. The receiver adds up the pseudo-header, the UDP header and the data in network
byte order.

`struct udpiphdr` is that of BSD: 9 bytes that are 0, the protocol, the length, the two addresses, and the
UDP header.
-/

namespace UnixNetProg.Udpcksum

open Lib

/-- Outgoing TTL. -/
def TTL_OUT : Byte := 64

/-- The size of `struct udphdr`. -/
def sizeofUdphdr : ℕ := 8

/-- The size of `struct udpiphdr`. -/
def sizeofUdpiphdr : ℕ := 28

/-- `sin_port` and `sin_addr`, in network byte order. -/
structure SockaddrIn where
  sinPort : Byte × Byte
  sinAddr : Byte × Byte × Byte × Byte
  deriving DecidableEq, Repr

def SockaddrIn.portBytes (sa : SockaddrIn) : List Byte := [sa.sinPort.1, sa.sinPort.2]

def SockaddrIn.addrBytes (sa : SockaddrIn) : List Byte :=
  [sa.sinAddr.1, sa.sinAddr.2.1, sa.sinAddr.2.2.1, sa.sinAddr.2.2.2]

/-- `htons` of either host. -/
def htons : Endian → ℕ → ℕ
  | .little, n => (UnixNetProg.htons (BitVec.ofNat 16 n)).toNat
  | .big, n => n % 65536

/-! ### The checksum -/

/-- The two loops over the words; the accumulator has 32 bits. -/
def sumWords (e : Endian) (sum : BitVec 32) : List Byte → BitVec 32
  | [] => sum
  | [b] => sum + BitVec.ofNat 32 (word16 e b 0)
  | b₀ :: b₁ :: rest => sumWords e (sum + BitVec.ofNat 32 (word16 e b₀ b₁)) rest

/-- `in_cksum` of the bytes at `addr`. -/
def inCksum (e : Endian) (addr : List Byte) : BitVec 16 :=
  let sum := sumWords e 0 addr
  let sum := (sum >>> 16) + (sum &&& 0xffff)
  let sum := sum + (sum >>> 16)
  (~~~sum).setWidth 16

/-! ### The datagram -/

/-- The two headers before the checksum. -/
def fillUdpiphdr (e : Endian) (src dst : SockaddrIn) (buf : Memory Byte) (userlen : ℕ) : Memory Byte :=
  let uiLen := bytes16 e (htons e ((sizeofUdphdr + userlen) % 65536))
  let ui := buf.store 0 (List.replicate sizeofUdpiphdr 0)
  let ui := ui.store 10 uiLen
  let ui := ui.store 9 [IPPROTO_UDP]
  let ui := ui.store 12 src.addrBytes
  let ui := ui.store 16 dst.addrBytes
  let ui := ui.store 20 src.portBytes
  let ui := ui.store 22 dst.portBytes
  ui.store 24 (ui.slice 10 12)

/-- `ui_sum`. -/
def storeSum (e : Endian) (ui : Memory Byte) (len : ℕ) : Memory Byte :=
  let sum := inCksum e (ui.slice 0 len)
  if sum = 0 then (ui.store 26 (bytes16 e sum.toNat)).store 26 (bytes16 e 0xffff)
  else ui.store 26 (bytes16 e sum.toNat)

/-- The rest of the IP header; `ipLenNet` is set where `ip_len` is in network byte order. -/
def fillIp (e : Endian) (ipLenNet : Bool) (buf : Memory Byte) (len : ℕ) : Memory Byte :=
  let ip := buf.store 0 [0x45]
  let ip := ip.store 1 [0]
  let ip := ip.store 2 (bytes16 e (if ipLenNet then htons e (len % 65536) else len))
  let ip := ip.store 4 (bytes16 e 0)
  let ip := ip.store 6 (bytes16 e 0)
  ip.store 8 [TTL_OUT]

/-- `udp_write`: the bytes that it passes to `Sendto`. -/
def udpWrite (e : Endian) (ipLenNet : Bool) (zerosum : ℤ) (src dst : SockaddrIn) (buf : Memory Byte)
    (userlen : ℕ) : List Byte :=
  let ui := fillUdpiphdr e src dst buf userlen
  let len := userlen + sizeofUdpiphdr
  let ui := if zerosum = 0 then storeSum e ui len else ui
  (fillIp e ipLenNet ui len).slice 0 len

/-! ### What the receiver adds up -/

/-- A 16-bit number in network byte order. -/
def be16 (n : ℕ) : List Byte := bytes16 .big n

def pseudoHeader (src dst : SockaddrIn) (len : ℕ) : List Byte :=
  src.addrBytes ++ dst.addrBytes ++ [0, IPPROTO_UDP] ++ be16 len

def udpHeader (src dst : SockaddrIn) (len : ℕ) (sum : List Byte) : List Byte :=
  src.portBytes ++ dst.portBytes ++ be16 len ++ sum

theorem bytes16_htons (e : Endian) {n : ℕ} (hn : n < 65536) : bytes16 e (htons e n) = be16 n := by
  cases e with
  | little =>
    have hswap : htons .little n = swapBytes n := by
      rw [htons, toNat_htons, BitVec.toNat_ofNat, Nat.mod_eq_of_lt hn]
    have hlow : UInt8.ofNat (swapBytes n) = UInt8.ofNat (n / 256) := by
      apply UInt8.toNat_inj.mp
      simp only [swapBytes, UInt8.toNat_ofNat']
      omega
    have hdiv : swapBytes n / 256 = n % 256 := by
      unfold swapBytes
      omega
    have hhigh : UInt8.ofNat (swapBytes n / 256) = UInt8.ofNat n := by
      apply UInt8.toNat_inj.mp
      rw [hdiv]
      simp only [UInt8.toNat_ofNat']
      omega
    rw [hswap]
    simp only [bytes16, be16, hlow, hhigh]
  | big => simp only [bytes16, htons, be16, Nat.mod_eq_of_lt hn]

theorem toNat_sumWords (e : Endian) (bytes : List Byte) (sum : BitVec 32) :
    (sumWords e sum bytes).toNat = (sum.toNat + (wordsOf e bytes).sum) % 2 ^ 32 := by
  induction sum, bytes using sumWords.induct e with
  | case1 sum =>
    have hlt := sum.isLt
    simp only [sumWords, wordsOf, List.sum_nil]
    omega
  | case2 sum b =>
    simp only [sumWords, wordsOf, List.sum_singleton, BitVec.toNat_add, BitVec.toNat_ofNat]
    omega
  | case3 sum b₀ b₁ rest ih =>
    simp only [sumWords, wordsOf, List.sum_cons]
    rw [ih]
    simp only [BitVec.toNat_add, BitVec.toNat_ofNat]
    omega

theorem toNat_fold (sum : BitVec 32) :
    ((sum >>> 16) + (sum &&& 0xffff)).toNat = sum.toNat / 65536 + sum.toNat % 65536 := by
  have hlt := sum.isLt
  have hand : (sum &&& 0xffff).toNat = sum.toNat % 65536 := by
    rw [BitVec.toNat_and]
    exact Nat.and_two_pow_sub_one_eq_mod sum.toNat 16
  rw [BitVec.toNat_add, BitVec.toNat_ushiftRight, hand, Nat.shiftRight_eq_div_pow]
  omega

theorem toNat_inCksum (e : Endian) {bytes : List Byte} (hlen : bytes.length ≤ 65535) :
    (inCksum e bytes).toNat = 65535 - onesRep (wordsOf e bytes).sum := by
  have hle := sum_wordsOf_le e bytes
  have hsum : (sumWords e 0 bytes).toNat = (wordsOf e bytes).sum := by
    rw [toNat_sumWords e bytes 0]
    simp only [BitVec.ofNat_eq_ofNat, BitVec.toNat_ofNat]
    omega
  have hlt : (wordsOf e bytes).sum < 2 ^ 32 := by omega
  have hfold := toNat_fold (sumWords e 0 bytes)
  rw [hsum] at hfold
  simp only [inCksum]
  generalize hs : (sumWords e 0 bytes >>> 16) + (sumWords e 0 bytes &&& 0xffff) = folded at hfold ⊢
  rw [BitVec.toNat_setWidth, BitVec.toNat_not, BitVec.toNat_add, BitVec.toNat_ushiftRight, hfold,
    Nat.shiftRight_eq_div_pow, ← fold_fold_eq hlt]
  omega

/-! ### The layout -/

section Layout

variable (e : Endian) (src dst : SockaddrIn) (buf : Memory Byte) {userlen : ℕ}

/-- The overlay up to `ui_sum`. -/
def overlay (src dst : SockaddrIn) (len : ℕ) : List Byte :=
  List.replicate 8 0 ++ [0, IPPROTO_UDP] ++ be16 len ++ src.addrBytes ++ dst.addrBytes ++
    (src.portBytes ++ dst.portBytes ++ be16 len)

theorem slice_fillUdpiphdr (hlen : userlen + 28 ≤ 65535) :
    (fillUdpiphdr e src dst buf userlen).slice 0 26 = overlay src dst (8 + userlen) ∧
      (fillUdpiphdr e src dst buf userlen).slice 26 28 = [0, 0] ∧
      (fillUdpiphdr e src dst buf userlen).slice 28 (userlen + 28) = buf.slice 28 (userlen + 28) := by
  have hlow : (8 + userlen) % 65536 = 8 + userlen := by omega
  simp only [fillUdpiphdr, sizeofUdphdr, hlow, bytes16_htons e (show 8 + userlen < 65536 by omega)]
  refine ⟨rfl, rfl, ?_⟩
  repeat rw [Memory.slice_store_of_le _
    (by simp [be16, bytes16, SockaddrIn.addrBytes, SockaddrIn.portBytes, sizeofUdpiphdr])]

/-- What is stored in `ui_sum`. -/
def storedSum (sum : ℕ) : ℕ := if sum = 0 then 0xffff else sum

theorem storeSum_eq (ui : Memory Byte) (len : ℕ) :
    storeSum e ui len = ui.store 26 (bytes16 e (storedSum (inCksum e (ui.slice 0 len)).toNat)) := by
  have hzero : inCksum e (ui.slice 0 len) = 0 ↔ (inCksum e (ui.slice 0 len)).toNat = 0 := by
    rw [← BitVec.toNat_inj]
    simp
  simp only [storeSum, storedSum, hzero]
  by_cases h : (inCksum e (ui.slice 0 len)).toNat = 0
  · rw [if_pos h, if_pos h, Memory.store_store]
    cases e <;> simp [bytes16]
  · rw [if_neg h, if_neg h]

theorem slice_fillIp (ipLenNet : Bool) (ui : Memory Byte) (len : ℕ) :
    ∃ front : List Byte, front.length = 9 ∧
      (fillIp e ipLenNet ui (len + 28)).slice 0 (len + 28) = front ++ ui.slice 9 (len + 28) := by
  obtain ⟨x, y, hlen⟩ : ∃ x y, bytes16 e (if ipLenNet then htons e ((len + 28) % 65536) else len + 28) = [x, y] := by
    cases e <;> simp [bytes16]
  obtain ⟨x', y', hzero⟩ : ∃ x y, bytes16 e 0 = [x, y] := by
    cases e <;> simp [bytes16]
  refine ⟨[0x45, 0, x, y, x', y', x', y', TTL_OUT], rfl, ?_⟩
  rw [← Memory.slice_append _ (Nat.zero_le 9) (by omega)]
  congr 1
  · simp only [fillIp, hlen, hzero]
    rfl
  · simp only [fillIp, hlen, hzero]
    repeat rw [Memory.slice_store_of_le _ (by simp)]

/-- With the stored sum the words of the host add up to a multiple of 65535. -/
theorem sum_storedSum {bytes : List Byte} (hlen : bytes.length ≤ 65535) :
    (wordsOf e bytes).sum + storedSum (inCksum e bytes).toNat ≡ 0 [MOD 65535] := by
  have hle := onesRep_le (wordsOf e bytes).sum
  have hrep := onesRep_modEq (wordsOf e bytes).sum
  have hsum : onesRep (wordsOf e bytes).sum + storedSum (inCksum e bytes).toNat ≡ 0 [MOD 65535] := by
    rw [toNat_inCksum e hlen, storedSum, Nat.ModEq]
    by_cases hfull : 65535 - onesRep (wordsOf e bytes).sum = 0
    · rw [if_pos hfull]
      omega
    · rw [if_neg hfull]
      omega
  exact (hrep.symm.add_right _).trans hsum

/-- A sum that is not 0 leaves a checksum that is not 0 and fits. -/
theorem storedSum_bounds {bytes : List Byte} (hlen : bytes.length ≤ 65535) :
    0 < storedSum (inCksum e bytes).toNat ∧ storedSum (inCksum e bytes).toNat < 65536 := by
  rw [toNat_inCksum e hlen, storedSum]
  by_cases hfull : 65535 - onesRep (wordsOf e bytes).sum = 0
  · rw [if_pos hfull]
    omega
  · rw [if_neg hfull]
    omega

theorem slice_store_sum (hlen : userlen + 28 ≤ 65535) {sum : List Byte} (hsum : sum.length = 2) :
    ((fillUdpiphdr e src dst buf userlen).store 26 sum).slice 0 (userlen + 28) =
      overlay src dst (8 + userlen) ++ sum ++ buf.slice 28 (userlen + 28) := by
  obtain ⟨hhead, -, htail⟩ := slice_fillUdpiphdr e src dst buf hlen
  have hstore := Memory.slice_store (fillUdpiphdr e src dst buf userlen) (Nat.zero_le 26) sum
  rw [hsum, hhead] at hstore
  rw [← Memory.slice_append _ (Nat.zero_le 28) (by omega), hstore, Memory.slice_store_of_le _ (by omega), htail]

theorem length_overlay (len : ℕ) : (overlay src dst len).length = 26 := rfl

theorem sum_wordsOf_overlay (len : ℕ) (rest : List Byte) :
    (wordsOf .big (overlay src dst len ++ rest)).sum =
      (wordsOf .big (pseudoHeader src dst len ++ (src.portBytes ++ dst.portBytes ++ be16 len ++ rest))).sum := by
  simp only [overlay, pseudoHeader, be16, bytes16, SockaddrIn.addrBytes, SockaddrIn.portBytes, List.replicate,
    List.cons_append, List.nil_append, wordsOf, List.sum_cons, word16, UInt8.toNat_zero]
  omega

theorem sum_wordsOf_overlay_pos (len : ℕ) (rest : List Byte) :
    0 < (wordsOf .big (overlay src dst len ++ rest)).sum := by
  have hproto : IPPROTO_UDP.toNat = 17 := rfl
  simp only [overlay, be16, bytes16, SockaddrIn.addrBytes, SockaddrIn.portBytes, List.replicate,
    List.cons_append, List.nil_append, wordsOf, List.sum_cons, word16, hproto]
  omega

/-- The sum over the overlay with the stored checksum is 0xffff in network byte order. -/
theorem onesSum_overlay (len : ℕ) {payload : List Byte}
    (hlen : payload.length + 28 ≤ 65535) {sum : ℕ}
    (hsum : sum = storedSum (inCksum e (overlay src dst len ++ [0, 0] ++ payload)).toNat) :
    onesRep (wordsOf .big (overlay src dst len ++ bytes16 e sum ++ payload)).sum = 65535 := by
  have heven : (overlay src dst len).length % 2 = 0 := by rw [length_overlay]
  have hlength : (overlay src dst len ++ [0, 0] ++ payload).length ≤ 65535 := by
    simp only [List.length_append, length_overlay, List.length_cons, List.length_nil]
    omega
  have hbounds := storedSum_bounds e hlength
  have hzero := sum_storedSum e hlength
  rw [← hsum] at hbounds hzero
  -- the field counts with its value on this host
  have hadd : (wordsOf e (overlay src dst len ++ bytes16 e sum ++ payload)).sum = _ :=
    sum_wordsOf_field e heven hbounds.2
  rw [← hadd] at hzero
  rw [onesRep_eq_iff]
  refine ⟨?_, sum_wordsOf_big_modEq_zero hzero⟩
  rw [List.append_assoc]
  exact sum_wordsOf_overlay_pos src dst len _

/-- **The checksum of UDP.** The datagram is an IP header with the addresses and the protocol, a UDP header
with a checksum that is not 0, and the data; and the pseudo-header, the UDP header and the data add up to
0xffff in ones' complement. -/
theorem udpWrite_verifies (ipLenNet : Bool) (hlen : userlen + 28 ≤ 65535) :
    ∃ ipHeader sum, udpWrite e ipLenNet 0 src dst buf userlen =
        ipHeader ++ udpHeader src dst (8 + userlen) sum ++ buf.slice 28 (userlen + 28) ∧
      (ipHeader.length = 20 ∧ ipHeader[9]? = some IPPROTO_UDP ∧
        ipHeader.drop 12 = src.addrBytes ++ dst.addrBytes) ∧
      (sum.length = 2 ∧ sum ≠ [0, 0]) ∧
      onesSum (wordsOf .big (pseudoHeader src dst (8 + userlen) ++ udpHeader src dst (8 + userlen) sum ++
        buf.slice 28 (userlen + 28))) = 0xffff := by
  have hpayload : (buf.slice 28 (userlen + 28)).length + 28 ≤ 65535 := by
    rw [Memory.length_slice]
    omega
  obtain ⟨hhead, hfield, htail⟩ := slice_fillUdpiphdr e src dst buf hlen
  have hui : (fillUdpiphdr e src dst buf userlen).slice 0 (userlen + 28) =
      overlay src dst (8 + userlen) ++ [0, 0] ++ buf.slice 28 (userlen + 28) := by
    rw [← Memory.slice_append _ (Nat.zero_le 28) (by omega), ← Memory.slice_append _ (Nat.zero_le 26) (by omega),
      hhead, hfield, htail]
  -- the datagram, with `sum` the value in `ui_sum`
  obtain ⟨sum, hsum⟩ : ∃ sum, sum = storedSum (inCksum e (overlay src dst (8 + userlen) ++ [0, 0] ++
    buf.slice 28 (userlen + 28))).toNat := ⟨_, rfl⟩
  have hstored := slice_store_sum e src dst buf hlen (length_bytes16 e sum)
  obtain ⟨front, hfront, hip⟩ := slice_fillIp e ipLenNet
    ((fillUdpiphdr e src dst buf userlen).store 26 (bytes16 e sum)) userlen
  have hlength : (overlay src dst (8 + userlen) ++ [0, 0] ++ buf.slice 28 (userlen + 28)).length ≤ 65535 := by
    simp only [List.length_append, length_overlay, List.length_cons, List.length_nil]
    omega
  have hbounds := storedSum_bounds e hlength
  rw [← hsum] at hbounds
  refine ⟨front ++ ([IPPROTO_UDP] ++ be16 (8 + userlen) ++ src.addrBytes ++ dst.addrBytes), bytes16 e sum,
    ?_, ⟨?_, ?_, ?_⟩, ⟨length_bytes16 e sum, fun hzero => ?_⟩, ?_⟩
  · have hrest := Memory.slice_add_left ((fillUdpiphdr e src dst buf userlen).store 26 (bytes16 e sum)) 0
      (userlen + 28) 9
    rw [hstored, Nat.zero_add] at hrest
    simp only [udpWrite, sizeofUdpiphdr, if_true, storeSum_eq, hui, ← hsum, hip, hrest]
    rw [List.append_assoc front, List.append_assoc front]
    rfl
  · rw [List.length_append, hfront]
    rfl
  · rw [List.getElem?_append_right (by omega), hfront]
    rfl
  · rw [List.drop_append, hfront, List.drop_eq_nil_of_le (by omega), List.nil_append]
    rfl
  · have hvalue := sum_wordsOf_bytes16 e hbounds.2
    rw [hzero] at hvalue
    have hfield : (wordsOf e [0, 0]).sum = 0 := by cases e <;> rfl
    omega
  · have hword := onesSum_overlay e src dst (8 + userlen) hpayload hsum
    rw [List.append_assoc, sum_wordsOf_overlay] at hword
    rw [onesSum_eq le_of_mem_wordsOf]
    simp only [udpHeader, List.append_assoc] at hword ⊢
    exact hword

end Layout

/-- A source and a destination. -/
def sampleSrc : SockaddrIn := ⟨(0x30, 0x39), (192, 168, 1, 1)⟩

def sampleDst : SockaddrIn := ⟨(0, 53), (10, 0, 0, 1)⟩

/-- Three bytes of data behind an empty header. -/
def sampleBuf : Memory Byte := fun k => if k < 28 then 0 else UInt8.ofNat (k + 70)

theorem udpWrite_verifies_sample :
    udpWrite .little true 0 sampleSrc sampleDst sampleBuf 3 =
      [0x45, 0, 0, 31, 0, 0, 0, 0, 64, 17, 0, 11, 192, 168, 1, 1, 10, 0, 0, 1, 48, 57, 0, 53, 0, 11, 0x3d, 0x5c,
        98, 99, 100] ∧
    ∃ ipHeader sum, udpWrite .little true 0 sampleSrc sampleDst sampleBuf 3 =
        ipHeader ++ udpHeader sampleSrc sampleDst 11 sum ++ [98, 99, 100] ∧
      (sum.length = 2 ∧ sum ≠ [0, 0]) ∧
      onesSum (wordsOf .big (pseudoHeader sampleSrc sampleDst 11 ++ udpHeader sampleSrc sampleDst 11 sum ++
        [98, 99, 100])) = 0xffff := by
  obtain ⟨ipHeader, sum, hdatagram, -, hsum, hword⟩ :=
    udpWrite_verifies .little sampleSrc sampleDst sampleBuf true (show 3 + 28 ≤ 65535 by decide)
  exact ⟨by decide, ipHeader, sum, hdatagram, hsum, hword⟩

end UnixNetProg.Udpcksum
