import UnixNetProg.Key.Add
import UnixNetProg.Libc

/-!
# Printing PF_KEY messages (`key/printsadbmsg.c`)

`print_sadb_msg` checks the header and walks over the extensions by their lengths. `Visit` is one turn of its
loop: where the extension is, its type, and the function that prints it. Only the text of `key_print` is
modelled.

On the request of `sadb_add` the walk finds the four extensions where `sadb_add` put them.
-/

namespace UnixNetProg.Key

open Lib

/-- `%02x`. -/
def hexByte (b : Byte) : CString :=
  let digit := fun d : ℕ => UInt8.ofNat (if d < 10 then 48 + d else 87 + d)
  [digit (b.toNat / 16), digit (b.toNat % 16)]

/-- The loop of `key_print`. -/
def hexKey (m : Memory Byte) (p bits : ℕ) : CString :=
  if 0 < bits then hexByte (m p) ++ hexKey m (p + 1) (bits - 8) else []
termination_by bits

/-- `key_print`: what it prints for the extension at `ext`. -/
def keyPrint (e : Endian) (m : Memory Byte) (ext : ℕ) : CString :=
  let bits := m.load16 e (ext + 4)
  cstr " " ++ (if m.load16 e (ext + 2) = SADB_EXT_KEY_AUTH then cstr "Authentication" else cstr "Encryption") ++
    cstr " key, " ++ decimal bits ++ cstr " bits: 0x" ++ hexKey m (ext + sizeofKey) bits ++ cstr "\n"

/-- The cases of the `switch`. -/
inductive Printer where
  | reserved
  | sa
  | lifetime
  | address
  | key (text : CString)
  | identity
  | sensitivity
  | proposal
  | supported
  | spirange
  | unknown
  deriving DecidableEq, Repr

def printerOf (e : Endian) (m : Memory Byte) (ext : ℕ) : Printer :=
  let type := m.load16 e (ext + 2)
  if type = SADB_EXT_RESERVED then .reserved
  else if type = SADB_EXT_SA then .sa
  else if type = SADB_EXT_LIFETIME_CURRENT ∨ type = SADB_EXT_LIFETIME_HARD ∨ type = SADB_EXT_LIFETIME_SOFT then
    .lifetime
  else if type = SADB_EXT_ADDRESS_SRC ∨ type = SADB_EXT_ADDRESS_DST ∨ type = SADB_EXT_ADDRESS_PROXY then .address
  else if type = SADB_EXT_KEY_AUTH ∨ type = SADB_EXT_KEY_ENCRYPT then .key (keyPrint e m ext)
  else if type = SADB_EXT_IDENTITY_SRC ∨ type = SADB_EXT_IDENTITY_DST then .identity
  else if type = SADB_EXT_SENSITIVITY then .sensitivity
  else if type = SADB_EXT_PROPOSAL then .proposal
  else if type = SADB_EXT_SUPPORTED_AUTH ∨ type = SADB_EXT_SUPPORTED_ENCRYPT then .supported
  else if type = SADB_EXT_SPIRANGE then .spirange
  else .unknown

/-- One turn of the loop over the extensions. -/
structure Visit where
  ext : ℕ
  type : ℕ
  printer : Printer
  deriving DecidableEq, Repr

/-- `while (msglen > 0)`, at most `fuel` turns: the extensions and `msglen` at the end. An extension of length
0 is visited for ever. -/
def walkExtensions (e : Endian) (m : Memory Byte) : ℕ → ℕ → ℤ → Option (List Visit × ℤ)
  | 0, _, _ => none
  | fuel + 1, ext, msglen =>
    if 0 < msglen then
      let visit := ⟨ext, m.load16 e (ext + 2), printerOf e m ext⟩
      let extLen := m.load16 e ext * 8
      match walkExtensions e m fuel (ext + extLen) (msglen - extLen) with
      | none => none
      | some (visits, left) => some (visit :: visits, left)
    else some ([], msglen)

/-- The two error messages, a message without extensions, and the walk over the extensions. -/
inductive Printed where
  | lengthError (msgLen msglen : ℤ)
  | versionError
  | header
  | extensions (visits : List Visit) (left : ℤ)
  deriving DecidableEq, Repr

/-- `print_sadb_msg`; `none` is a walk of more than `fuel` turns. -/
def printSadbMsg (e : Endian) (m : Memory Byte) (msglen : ℤ) (fuel : ℕ) : Option Printed :=
  if msglen ≠ m.load16 e 4 * 8 then some (.lengthError (m.load16 e 4 * 8) msglen)
  else if (m 0).toNat ≠ PF_KEY_V2 then some .versionError
  else if msglen = sizeofMsg then some .header
  else (walkExtensions e m fuel sizeofMsg (msglen - sizeofMsg)).map fun r => .extensions r.1 r.2

/-! ### The walk over a request -/

theorem hexKey_eq (m : Memory Byte) (p n : ℕ) : hexKey m p (8 * n) = (m.slice p (p + n)).flatMap hexByte := by
  induction n generalizing p with
  | zero => simp [hexKey]
  | succ n ih =>
    have hbits : 8 * (n + 1) - 8 = 8 * n := by omega
    have hslice : m.slice p (p + (n + 1)) = m p :: m.slice (p + 1) (p + 1 + n) := by
      have hsucc := (m.slice_append (Nat.le_add_right p 1) (Nat.le_add_right (p + 1) n)).symm
      have hone : m.slice p (p + 1) = [m p] := by simp [Memory.slice]
      rw [hone] at hsucc
      rw [show p + (n + 1) = p + 1 + n by omega, hsucc]
      rfl
    rw [hexKey, if_pos (by omega), hbits, ih, hslice, List.flatMap_cons]

section Walk

variable {e : Endian} {m : Memory Byte} {ext : ℕ} {msglen : ℤ} {fuel : ℕ}

theorem walkExtensions_step {units : ℕ} (hlen : m.load16 e ext = units) (hpos : 0 < msglen) {visits : List Visit}
    {left : ℤ} (hrest : walkExtensions e m fuel (ext + units * 8) (msglen - units * 8) = some (visits, left)) :
    walkExtensions e m (fuel + 1) ext msglen =
      some (⟨ext, m.load16 e (ext + 2), printerOf e m ext⟩ :: visits, left) := by
  simp only [walkExtensions, if_pos hpos, hlen]
  push_cast
  rw [hrest]

theorem walkExtensions_end (h : msglen ≤ 0) : walkExtensions e m (fuel + 1) ext msglen = some ([], msglen) := by
  rw [walkExtensions, if_neg (by omega)]

theorem printerOf_sa (h : m.load16 e (ext + 2) = SADB_EXT_SA) : printerOf e m ext = .sa := by
  rw [printerOf, h]
  rfl

theorem printerOf_address {type : ℕ} (htype : type = SADB_EXT_ADDRESS_SRC ∨ type = SADB_EXT_ADDRESS_DST)
    (h : m.load16 e (ext + 2) = type) : printerOf e m ext = .address := by
  rw [printerOf, h]
  rcases htype with rfl | rfl
  · rfl
  · rfl

theorem printerOf_key (h : m.load16 e (ext + 2) = SADB_EXT_KEY_AUTH) :
    printerOf e m ext = .key (keyPrint e m ext) := by
  rw [printerOf, h]
  rfl

end Walk

section Request

variable (e : Endian) (src dst : Sockaddr) (type alg spi pid : ℤ) {keybits : ℕ} (keydata stack : Memory Byte)

/-- What `key_print` prints for a key. -/
def keyText (keybits : ℕ) : CString :=
  cstr " Authentication key, " ++ decimal keybits ++ cstr " bits: 0x" ++
    (keydata.slice 0 (keybits / 8)).flatMap hexByte ++ cstr "\n"

theorem keyPrint_eq {buf : Memory Byte} {dstext keyext : ℕ} (h : Laid e src dst keydata buf keybits dstext keyext)
    (hbits : keybits % 8 = 0) : keyPrint e buf keyext = keyText keydata keybits := by
  have hkeybits : 8 * (keybits / 8) = keybits := by omega
  have hhex : hexKey buf (keyext + sizeofKey) keybits = (keydata.slice 0 (keybits / 8)).flatMap hexByte := by
    nth_rewrite 1 [← hkeybits]
    rw [hexKey_eq, sizeofKey, h.data]
  simp only [keyPrint, h.bits, h.key.2, if_true, hhex, keyText]
  simp [cstr]

theorem walkExtensions_laid {buf : Memory Byte} {dstext keyext : ℕ}
    (h : Laid e src dst keydata buf keybits dstext keyext) (hdst : dstext = 32 + addressUnits src * 8)
    (hkey : keyext = dstext + addressUnits dst * 8) (hbits : keybits % 8 = 0) (fuel : ℕ) :
    walkExtensions e buf (fuel + 5) 16 (messageSize src dst keybits - 16) = some
      ([⟨16, SADB_EXT_SA, .sa⟩, ⟨32, SADB_EXT_ADDRESS_SRC, .address⟩, ⟨dstext, SADB_EXT_ADDRESS_DST, .address⟩,
        ⟨keyext, SADB_EXT_KEY_AUTH, .key (keyText keydata keybits)⟩], 0) := by
  have hunits := addressUnits_ge src
  have hunits' := addressUnits_ge dst
  have hkeyunits := keyUnits_ge keybits
  have hsize : messageSize src dst keybits = keyext + keyUnits keybits * 8 := by
    rw [hkey, hdst]
    rfl
  have hend : walkExtensions e buf (fuel + 1) (keyext + keyUnits keybits * 8)
      (messageSize src dst keybits - keyext - keyUnits keybits * 8) = some ([], 0) := by
    rw [walkExtensions_end (by omega)]
    congr 2
    omega
  have hatKey := walkExtensions_step h.key.1 (by omega) hend
  rw [h.key.2, printerOf_key h.key.2, keyPrint_eq e src dst keydata h hbits] at hatKey
  have hleftDst : (messageSize src dst keybits : ℤ) - keyext =
      messageSize src dst keybits - dstext - addressUnits dst * 8 := by omega
  rw [hleftDst, hkey] at hatKey
  have hatDst := walkExtensions_step h.dst.1 (by omega) hatKey
  rw [h.dst.2, printerOf_address (.inr rfl) h.dst.2] at hatDst
  have hleftSrc : (messageSize src dst keybits : ℤ) - dstext =
      messageSize src dst keybits - 32 - addressUnits src * 8 := by omega
  rw [hleftSrc] at hatDst
  nth_rewrite 1 [hdst] at hatDst
  have hatSrc := walkExtensions_step h.src.1 (by omega) hatDst
  rw [h.src.2, printerOf_address (.inl rfl) h.src.2] at hatSrc
  have hleftSa : (messageSize src dst keybits : ℤ) - 32 = messageSize src dst keybits - 16 - (2 : ℕ) * 8 := by omega
  rw [hleftSa] at hatSrc
  have hatSa := walkExtensions_step h.sa.1 (by omega) hatSrc
  rw [h.sa.2, printerOf_sa h.sa.2] at hatSa
  rw [hatSa, hkey]

/-- **The printer undoes the builder.** The request of `sadb_add` has its length in the header; the walk passes
the two checks, visits the four extensions where they were put, ends with nothing left, and prints the bytes of
the key. -/
theorem printSadbMsg_sadbAdd (hbits : keybits % 8 = 0) (hfits : messageSize src dst keybits ≤ 4096) {fuel : ℕ}
    (hfuel : 5 ≤ fuel) :
    let r := sadbAdd e src dst type alg spi pid keybits keydata stack
    r.buf.load16 e 4 * 8 = r.len ∧
    printSadbMsg e r.buf r.len fuel = some (.extensions
      [⟨r.saext, SADB_EXT_SA, .sa⟩, ⟨r.srcext, SADB_EXT_ADDRESS_SRC, .address⟩,
        ⟨r.dstext, SADB_EXT_ADDRESS_DST, .address⟩,
        ⟨r.keyext, SADB_EXT_KEY_AUTH, .key (keyText keydata keybits)⟩] 0) := by
  have hkeybits := keybits_lt src dst hfits
  have hlaid := laid_extensionsBuf e src dst type alg spi pid keydata stack hkeybits
  have hlaid' := Laid.storeLen e src dst keydata hlaid (by omega) (by omega) (messageSize src dst keybits / 8)
  obtain ⟨more, rfl⟩ : ∃ more, fuel = more + 5 := ⟨fuel - 5, by omega⟩
  have hwalk := walkExtensions_laid e src dst keydata hlaid' rfl rfl hbits more
  rw [sadbAdd_eq e src dst type alg spi pid keydata stack hfits]
  generalize hbuf : extensionsBuf e src dst type alg spi pid keydata stack keybits = buf at hwalk
  have hlen : (buf.store 4 (bytes16 e (messageSize src dst keybits / 8))).load16 e 4 * 8 =
      messageSize src dst keybits := by
    rw [Memory.load16_store]
    simp only [messageSize] at hfits ⊢
    omega
  have hversion : (buf.store 4 (bytes16 e (messageSize src dst keybits / 8))) 0 = 2 := by
    rw [Memory.store_of_notMem _ (.inl (by omega)), ← hbuf]
    exact extensionsBuf_zero e src dst type alg spi pid keydata stack
  have hmore : (messageSize src dst keybits : ℤ) ≠ sizeofMsg := by
    simp only [messageSize, sizeofMsg]
    omega
  have hsame : (messageSize src dst keybits : ℤ) =
      (buf.store 4 (bytes16 e (messageSize src dst keybits / 8))).load16 e 4 * 8 := by
    omega
  refine ⟨hlen, ?_⟩
  dsimp only
  rw [printSadbMsg, if_neg (not_not.mpr hsame), hversion, if_neg (by decide), if_neg hmore]
  exact congrArg (Option.map fun r => Printed.extensions r.1 r.2) hwalk

end Request

/-- The IPv6 loopback address. -/
def sampleInet6 : Sockaddr := ⟨.inet6, [10] ++ List.replicate 26 0 ++ [1], rfl⟩

/-- A key of 5 bytes, which is padded to 8. -/
theorem printSadbMsg_sadbAdd_sample :
    let r := sadbAdd .little sampleInet6 sampleInet6 2 2 0x9876 77 40 (fun k => UInt8.ofNat (k + 0xa0)) fun _ => 7
    (r.len = 128 ∧ r.dstext = 72 ∧ r.keyext = 112) ∧
    printSadbMsg .little r.buf r.len 5 = some (.extensions
      [⟨r.saext, SADB_EXT_SA, .sa⟩, ⟨r.srcext, SADB_EXT_ADDRESS_SRC, .address⟩,
        ⟨r.dstext, SADB_EXT_ADDRESS_DST, .address⟩,
        ⟨r.keyext, SADB_EXT_KEY_AUTH, .key (keyText (fun k => UInt8.ofNat (k + 0xa0)) 40)⟩] 0) := by
  have h := printSadbMsg_sadbAdd .little sampleInet6 sampleInet6 2 2 0x9876 77 (fun k => UInt8.ofNat (k + 0xa0))
    (fun _ => 7) (show 40 % 8 = 0 by decide) (by decide) (Nat.le_refl 5)
  exact ⟨by decide, h.2⟩

end UnixNetProg.Key
