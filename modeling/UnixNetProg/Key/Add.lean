import Mathlib.Algebra.Ring.Int.Defs
import Mathlib.Data.Int.Notation
import UnixNetProg.Lib.Endian
import UnixNetProg.Unp

/-!
# The SADB_ADD request (`key/add.c`)

`sadb_add` builds a PF_KEY message: a header, and extensions for the security association, the two addresses
and the key, each with its length in units of 8 bytes. The structures are those of RFC 2367. Fields of more
than one byte are in the byte order of the host, unless they are stored through `htonl`.
-/

namespace UnixNetProg.Key

open Lib

def PF_KEY_V2 : ℕ := 2
def SADB_ADD : ℕ := 3
def SADB_SASTATE_MATURE : ℕ := 1
def SADB_EALG_NONE : ℕ := 0

def SADB_EXT_RESERVED : ℕ := 0
def SADB_EXT_SA : ℕ := 1
def SADB_EXT_LIFETIME_CURRENT : ℕ := 2
def SADB_EXT_LIFETIME_HARD : ℕ := 3
def SADB_EXT_LIFETIME_SOFT : ℕ := 4
def SADB_EXT_ADDRESS_SRC : ℕ := 5
def SADB_EXT_ADDRESS_DST : ℕ := 6
def SADB_EXT_ADDRESS_PROXY : ℕ := 7
def SADB_EXT_KEY_AUTH : ℕ := 8
def SADB_EXT_KEY_ENCRYPT : ℕ := 9
def SADB_EXT_IDENTITY_SRC : ℕ := 10
def SADB_EXT_IDENTITY_DST : ℕ := 11
def SADB_EXT_SENSITIVITY : ℕ := 12
def SADB_EXT_PROPOSAL : ℕ := 13
def SADB_EXT_SUPPORTED_AUTH : ℕ := 14
def SADB_EXT_SUPPORTED_ENCRYPT : ℕ := 15
def SADB_EXT_SPIRANGE : ℕ := 16

/-- The sizes of `struct sadb_msg`, `struct sadb_sa`, `struct sadb_address` and `struct sadb_key`. -/
def sizeofMsg : ℕ := 16
def sizeofSa : ℕ := 16
def sizeofAddress : ℕ := 8
def sizeofKey : ℕ := 8

/-- An `int` in a field of 8 bits, and of 32 bits. -/
def u8 (n : ℤ) : List Byte := [UInt8.ofNat (n % 256).toNat]

def u32 (n : ℤ) : ℕ := (n % 2 ^ 32).toNat

inductive Family where
  | inet
  | inet6
  deriving DecidableEq, Repr

/-- The sizes of `struct sockaddr_in` and `struct sockaddr_in6`. -/
def Family.size : Family → ℕ
  | .inet => 16
  | .inet6 => 28

/-- A socket address as its bytes. -/
structure Sockaddr where
  family : Family
  bytes : List Byte
  length_bytes : bytes.length = family.size

def salen (sa : Sockaddr) : ℕ := sa.family.size

def prefixAll (sa : Sockaddr) : ℤ :=
  match sa.family with
  | .inet => 32
  | .inet6 => 128

/-! ### The parts of the message -/

/-- The header, without its length. -/
def putMsg (e : Endian) (m : Memory Byte) (p : ℕ) (type pid : ℤ) : Memory Byte :=
  let m := m.store p (u8 PF_KEY_V2)
  let m := m.store (p + 1) (u8 SADB_ADD)
  let m := m.store (p + 3) (u8 type)
  m.store (p + 12) (bytes32 e (u32 pid))

def putSa (e : Endian) (m : Memory Byte) (p : ℕ) (alg spi : ℤ) : Memory Byte :=
  let m := m.store p (bytes16 e (sizeofSa / 8))
  let m := m.store (p + 2) (bytes16 e SADB_EXT_SA)
  let m := m.store (p + 4) (bytes32 .big (u32 spi))
  let m := m.store (p + 8) (u8 0)
  let m := m.store (p + 9) (u8 SADB_SASTATE_MATURE)
  let m := m.store (p + 10) (u8 alg)
  let m := m.store (p + 11) (u8 SADB_EALG_NONE)
  m.store (p + 12) (bytes32 e 0)

def putAddress (e : Endian) (m : Memory Byte) (p exttype : ℕ) (sa : Sockaddr) : Memory Byte :=
  let m := m.store p (bytes16 e ((sizeofAddress + salen sa + 7) / 8))
  let m := m.store (p + 2) (bytes16 e exttype)
  let m := m.store (p + 4) (u8 0)
  let m := m.store (p + 5) (u8 (prefixAll sa))
  let m := m.store (p + 6) (bytes16 e 0)
  m.store (p + sizeofAddress) sa.bytes

/-- The key, of which `keydata` holds the bytes. -/
def putKey (e : Endian) (m : Memory Byte) (p keybits : ℕ) (keydata : Memory Byte) : Memory Byte :=
  let m := m.store p (bytes16 e ((sizeofKey + keybits / 8 + 7) / 8))
  let m := m.store (p + 2) (bytes16 e SADB_EXT_KEY_AUTH)
  let m := m.store (p + 4) (bytes16 e keybits)
  let m := m.store (p + 6) (bytes16 e 0)
  m.store (p + sizeofKey) (keydata.slice 0 (keybits / 8))

/-- `buf`, `len`, and where the extensions are. -/
structure Request where
  buf : Memory Byte
  len : ℕ
  saext : ℕ
  srcext : ℕ
  dstext : ℕ
  keyext : ℕ

/-- `bzero(&buf, sizeof(buf))`. -/
def bzero (m : Memory Byte) (size : ℕ) : Memory Byte := fun k => if k < size then 0 else m k

/-- The part of `sadb_add` that builds the request; `stack` is what was in `buf` before. -/
def sadbAdd (e : Endian) (src dst : Sockaddr) (type alg spi pid : ℤ) (keybits : ℕ) (keydata stack : Memory Byte) :
    Request :=
  let m := bzero stack 4096
  let m := putMsg e m 0 type pid
  let len := sizeofMsg
  let saext := sizeofMsg
  let m := putSa e m saext alg spi
  let len := len + m.load16 e saext * 8
  let srcext := saext + m.load16 e saext * 8
  let m := putAddress e m srcext SADB_EXT_ADDRESS_SRC src
  let len := len + m.load16 e srcext * 8
  let dstext := srcext + m.load16 e srcext * 8
  let m := putAddress e m dstext SADB_EXT_ADDRESS_DST dst
  let len := len + m.load16 e dstext * 8
  let keyext := dstext + m.load16 e dstext * 8
  let m := putKey e m keyext keybits keydata
  let len := len + m.load16 e keyext * 8
  let m := m.store 4 (bytes16 e (len / 8))
  ⟨m, len, saext, srcext, dstext, keyext⟩

/-! ### Reading the parts back -/

section Parts

variable (e : Endian) (m : Memory Byte) (p : ℕ)

@[simp] theorem length_u8 (n : ℤ) : (u8 n).length = 1 := rfl

theorem putSa_frame (alg spi : ℤ) {k : ℕ} (hk : k < p ∨ p + 16 ≤ k) : putSa e m p alg spi k = m k := by
  simp only [putSa]
  repeat rw [Memory.store_of_notMem _ (by simp; omega)]

theorem putAddress_frame (exttype : ℕ) (sa : Sockaddr) {k : ℕ} (hk : k < p ∨ p + (8 + salen sa) ≤ k) :
    putAddress e m p exttype sa k = m k := by
  have hlen := sa.length_bytes
  simp only [putAddress, sizeofAddress]
  rw [Memory.store_of_notMem _ (by unfold salen at hk; omega)]
  repeat rw [Memory.store_of_notMem _ (by simp; omega)]

theorem putKey_frame (keybits : ℕ) (keydata : Memory Byte) {k : ℕ} (hk : k < p ∨ p + (8 + keybits / 8) ≤ k) :
    putKey e m p keybits keydata k = m k := by
  simp only [putKey, sizeofKey]
  repeat rw [Memory.store_of_notMem _ (by simp; omega)]

theorem load16_putSa (alg spi : ℤ) :
    (putSa e m p alg spi).load16 e p = 2 ∧ (putSa e m p alg spi).load16 e (p + 2) = SADB_EXT_SA := by
  simp only [putSa]
  constructor
  · repeat first
      | rw [Memory.load16_store]
      | rw [Memory.load16_store_of_disjoint e _ (by simp)]
    rfl
  · repeat first
      | rw [Memory.load16_store]
      | rw [Memory.load16_store_of_disjoint e _ (by simp)]
    rfl

/-- The length of an address in units of 8 bytes. -/
def addressUnits (sa : Sockaddr) : ℕ := (15 + salen sa) / 8

theorem load16_putAddress {exttype : ℕ} (hexttype : exttype < 65536) (sa : Sockaddr) :
    (putAddress e m p exttype sa).load16 e p = addressUnits sa ∧
      (putAddress e m p exttype sa).load16 e (p + 2) = exttype := by
  have hsmall : (sizeofAddress + salen sa + 7) / 8 % 65536 = addressUnits sa := by
    simp only [sizeofAddress, addressUnits, salen]
    cases sa.family <;> rfl
  simp only [putAddress, sizeofAddress] at hsmall ⊢
  constructor
  · repeat first
      | rw [Memory.load16_store]
      | rw [Memory.load16_store_of_disjoint e _ (by simp)]
    exact hsmall
  · repeat first
      | rw [Memory.load16_store]
      | rw [Memory.load16_store_of_disjoint e _ (by simp)]
    exact Nat.mod_eq_of_lt hexttype

/-- The length of a key in units of 8 bytes. -/
def keyUnits (keybits : ℕ) : ℕ := (15 + keybits / 8) / 8

theorem load16_putKey {keybits : ℕ} (hbits : keybits < 65536) (keydata : Memory Byte) :
    (putKey e m p keybits keydata).load16 e p = keyUnits keybits ∧
      (putKey e m p keybits keydata).load16 e (p + 2) = SADB_EXT_KEY_AUTH ∧
      (putKey e m p keybits keydata).load16 e (p + 4) = keybits := by
  simp only [putKey, sizeofKey]
  refine ⟨?_, ?_, ?_⟩
  · repeat first
      | rw [Memory.load16_store]
      | rw [Memory.load16_store_of_disjoint e _ (by simp)]
    simp only [keyUnits]
    omega
  · repeat first
      | rw [Memory.load16_store]
      | rw [Memory.load16_store_of_disjoint e _ (by simp)]
    rfl
  · repeat first
      | rw [Memory.load16_store]
      | rw [Memory.load16_store_of_disjoint e _ (by simp)]
    exact Nat.mod_eq_of_lt hbits

theorem slice_putKey (keybits : ℕ) (keydata : Memory Byte) :
    (putKey e m p keybits keydata).slice (p + 8) (p + 8 + keybits / 8) = keydata.slice 0 (keybits / 8) := by
  have hstore : ∀ ext : Memory Byte, (ext.store (p + 8) (keydata.slice 0 (keybits / 8))).slice (p + 8)
      (p + 8 + keybits / 8) = keydata.slice 0 (keybits / 8) := by
    intro ext
    have hself := ext.slice_store_self (p + 8) (keydata.slice 0 (keybits / 8))
    rw [Memory.length_slice, Nat.sub_zero] at hself
    exact hself
  exact hstore _

end Parts

/-! ### The whole message -/

/-- The size of the message. -/
def messageSize (src dst : Sockaddr) (keybits : ℕ) : ℕ :=
  32 + addressUnits src * 8 + addressUnits dst * 8 + keyUnits keybits * 8

section Message

variable (e : Endian) (src dst : Sockaddr) (type alg spi pid : ℤ) {keybits : ℕ} (keydata stack : Memory Byte)

theorem keybits_lt (hfits : messageSize src dst keybits ≤ 4096) : keybits < 65536 := by
  simp only [messageSize, keyUnits] at hfits
  omega

/-- `buf` with the four extensions. -/
def extensionsBuf (keybits : ℕ) : Memory Byte :=
  let m := putSa e (putMsg e (bzero stack 4096) 0 type pid) 16 alg spi
  let m := putAddress e m 32 SADB_EXT_ADDRESS_SRC src
  let m := putAddress e m (32 + addressUnits src * 8) SADB_EXT_ADDRESS_DST dst
  putKey e m (32 + addressUnits src * 8 + addressUnits dst * 8) keybits keydata

theorem sadbAdd_eq (hfits : messageSize src dst keybits ≤ 4096) :
    sadbAdd e src dst type alg spi pid keybits keydata stack =
      ⟨(extensionsBuf e src dst type alg spi pid keydata stack keybits).store 4
          (bytes16 e (messageSize src dst keybits / 8)), messageSize src dst keybits, 16, 32,
        32 + addressUnits src * 8, 32 + addressUnits src * 8 + addressUnits dst * 8⟩ := by
  have hbits := keybits_lt src dst hfits
  have hsa := fun m => (load16_putSa e m 16 alg spi).1
  have hsrc := fun m p => (load16_putAddress e m p (show SADB_EXT_ADDRESS_SRC < 65536 by decide) src).1
  have hdst := fun m p => (load16_putAddress e m p (show SADB_EXT_ADDRESS_DST < 65536 by decide) dst).1
  have hkey := fun m p => (load16_putKey e m p hbits keydata).1
  simp only [sadbAdd, sizeofMsg, hsa, hsrc, hdst, hkey]
  rfl

theorem addressUnits_ge (sa : Sockaddr) : 8 + salen sa ≤ addressUnits sa * 8 := by
  simp only [addressUnits]
  omega

theorem keyUnits_ge (keybits : ℕ) : 8 + keybits / 8 ≤ keyUnits keybits * 8 := by
  simp only [keyUnits]
  omega

theorem load16_putAddress_of_le (m : Memory Byte) (exttype : ℕ) {p k : ℕ} (sa : Sockaddr) (hk : k + 2 ≤ p) :
    (putAddress e m p exttype sa).load16 e k = m.load16 e k := by
  apply Memory.load16_congr e
  · exact putAddress_frame e m p exttype sa (.inl (by omega))
  · exact putAddress_frame e m p exttype sa (.inl (by omega))

theorem load16_putKey_of_le (m : Memory Byte) {p k : ℕ} (keybits : ℕ) (hk : k + 2 ≤ p) :
    (putKey e m p keybits keydata).load16 e k = m.load16 e k := by
  apply Memory.load16_congr e
  · exact putKey_frame e m p keybits keydata (.inl (by omega))
  · exact putKey_frame e m p keybits keydata (.inl (by omega))

/-- The header fields of the extensions, and the bytes of the key. -/
structure Laid (buf : Memory Byte) (keybits dstext keyext : ℕ) : Prop where
  sa : buf.load16 e 16 = 2 ∧ buf.load16 e 18 = SADB_EXT_SA
  src : buf.load16 e 32 = addressUnits src ∧ buf.load16 e 34 = SADB_EXT_ADDRESS_SRC
  dst : buf.load16 e dstext = addressUnits dst ∧ buf.load16 e (dstext + 2) = SADB_EXT_ADDRESS_DST
  key : buf.load16 e keyext = keyUnits keybits ∧ buf.load16 e (keyext + 2) = SADB_EXT_KEY_AUTH
  bits : buf.load16 e (keyext + 4) = keybits
  data : buf.slice (keyext + 8) (keyext + 8 + keybits / 8) = keydata.slice 0 (keybits / 8)

theorem laid_extensionsBuf (hbits : keybits < 65536) :
    Laid e src dst keydata (extensionsBuf e src dst type alg spi pid keydata stack keybits) keybits
      (32 + addressUnits src * 8) (32 + addressUnits src * 8 + addressUnits dst * 8) := by
  have hunits := addressUnits_ge src
  have hunits' := addressUnits_ge dst
  simp only [extensionsBuf]
  generalize hm : putMsg e (bzero stack 4096) 0 type pid = m
  have hsa := load16_putSa e m 16 alg spi
  have hsrc := load16_putAddress e (putSa e m 16 alg spi) 32 (show SADB_EXT_ADDRESS_SRC < 65536 by decide) src
  have hdst := load16_putAddress e (putAddress e (putSa e m 16 alg spi) 32 SADB_EXT_ADDRESS_SRC src)
    (32 + addressUnits src * 8) (show SADB_EXT_ADDRESS_DST < 65536 by decide) dst
  constructor
  · constructor
    · rw [load16_putKey_of_le e keydata _ _ (by omega), load16_putAddress_of_le e _ _ _ (by omega),
        load16_putAddress_of_le e _ _ _ (by omega)]
      exact hsa.1
    · rw [load16_putKey_of_le e keydata _ _ (by omega), load16_putAddress_of_le e _ _ _ (by omega),
        load16_putAddress_of_le e _ _ _ (by omega)]
      exact hsa.2
  · constructor
    · rw [load16_putKey_of_le e keydata _ _ (by omega), load16_putAddress_of_le e _ _ _ (by omega)]
      exact hsrc.1
    · rw [load16_putKey_of_le e keydata _ _ (by omega), load16_putAddress_of_le e _ _ _ (by omega)]
      exact hsrc.2
  · constructor
    · rw [load16_putKey_of_le e keydata _ _ (by omega)]
      exact hdst.1
    · rw [load16_putKey_of_le e keydata _ _ (by omega)]
      exact hdst.2
  · obtain ⟨hlen, htype, -⟩ := load16_putKey e (putAddress e (putAddress e (putSa e m 16 alg spi) 32
      SADB_EXT_ADDRESS_SRC src) (32 + addressUnits src * 8) SADB_EXT_ADDRESS_DST dst)
      (32 + addressUnits src * 8 + addressUnits dst * 8) hbits keydata
    exact ⟨hlen, htype⟩
  · exact (load16_putKey e _ _ hbits keydata).2.2
  · exact slice_putKey e _ _ keybits keydata

theorem Laid.storeLen {buf : Memory Byte} {dstext keyext : ℕ} (h : Laid e src dst keydata buf keybits dstext keyext)
    (hdst : 16 ≤ dstext) (hkey : 16 ≤ keyext) (len : ℕ) :
    Laid e src dst keydata (buf.store 4 (bytes16 e len)) keybits dstext keyext := by
  have hload : ∀ k, 16 ≤ k → (buf.store 4 (bytes16 e len)).load16 e k = buf.load16 e k := by
    intro k hk
    apply Memory.load16_store_of_disjoint
    simp
    omega
  constructor
  · rw [hload 16 (by omega), hload 18 (by omega)]
    exact h.sa
  · rw [hload 32 (by omega), hload 34 (by omega)]
    exact h.src
  · rw [hload _ hdst, hload _ (by omega)]
    exact h.dst
  · rw [hload _ hkey, hload _ (by omega)]
    exact h.key
  · rw [hload _ (by omega)]
    exact h.bits
  · rw [Memory.slice_store_of_le _ (by simp)]
    exact h.data

theorem extensionsBuf_zero : extensionsBuf e src dst type alg spi pid keydata stack keybits 0 = 2 := by
  simp only [extensionsBuf]
  rw [putKey_frame e _ _ keybits keydata (.inl (by omega)), putAddress_frame e _ _ _ dst (.inl (by omega)),
    putAddress_frame e _ _ _ src (.inl (by omega)), putSa_frame e _ _ alg spi (.inl (by omega))]
  simp only [putMsg]
  rw [Memory.store_of_notMem _ (.inl (by omega)), Memory.store_of_notMem _ (.inl (by omega)),
    Memory.store_of_notMem _ (.inl (by omega))]
  rfl

end Message

end UnixNetProg.Key
