import BcmMruby.Core.Bytes
import BcmMruby.Core.Memory

/-!
# The nvram store

`bcmnvram.c`. The store is an open hash table of strings `name=value`, loaded from the last
`NVRAM_SPACE` bytes of the flash by `nvram_init` and written back by `nvram_commit`. A chain is the
list of its strings, the head of the chain first, and a pointer to a tuple is its place in the
chain. The processor is little endian.
-/

namespace BcmMruby.Nvram

open Core

def nvramMagic : BitVec 32 := 0x48534c46

def nvramVersion : BitVec 32 := 1

def sdramInit : BitVec 32 := 0x0011

def nvramSpace : ℕ := 0x8000

def hashSize : ℕ := 257

/-- The character `=`. -/
def equalsSign : Byte := 0x3d

structure Header where
  magic : BitVec 32
  len : BitVec 32
  crcVerInit : BitVec 32
  configRefresh : BitVec 32
  configNcdl : BitVec 32
  deriving DecidableEq

/-- `sizeof(nvram_header_t)`. -/
def headerSize : ℕ := 20

structure Store where
  nvHeader : Header
  hashtab : Fin hashSize → List (List Byte)
  nvPending : List (List Byte)

/-! ### Checksum -/

def crc8Table : List Byte := [
  0x00, 0xf7, 0xb9, 0x4e, 0x25, 0xd2, 0x9c, 0x6b, 0x4a, 0xbd, 0xf3, 0x04,
  0x6f, 0x98, 0xd6, 0x21, 0x94, 0x63, 0x2d, 0xda, 0xb1, 0x46, 0x08, 0xff,
  0xde, 0x29, 0x67, 0x90, 0xfb, 0x0c, 0x42, 0xb5, 0x7f, 0x88, 0xc6, 0x31,
  0x5a, 0xad, 0xe3, 0x14, 0x35, 0xc2, 0x8c, 0x7b, 0x10, 0xe7, 0xa9, 0x5e,
  0xeb, 0x1c, 0x52, 0xa5, 0xce, 0x39, 0x77, 0x80, 0xa1, 0x56, 0x18, 0xef,
  0x84, 0x73, 0x3d, 0xca, 0xfe, 0x09, 0x47, 0xb0, 0xdb, 0x2c, 0x62, 0x95,
  0xb4, 0x43, 0x0d, 0xfa, 0x91, 0x66, 0x28, 0xdf, 0x6a, 0x9d, 0xd3, 0x24,
  0x4f, 0xb8, 0xf6, 0x01, 0x20, 0xd7, 0x99, 0x6e, 0x05, 0xf2, 0xbc, 0x4b,
  0x81, 0x76, 0x38, 0xcf, 0xa4, 0x53, 0x1d, 0xea, 0xcb, 0x3c, 0x72, 0x85,
  0xee, 0x19, 0x57, 0xa0, 0x15, 0xe2, 0xac, 0x5b, 0x30, 0xc7, 0x89, 0x7e,
  0x5f, 0xa8, 0xe6, 0x11, 0x7a, 0x8d, 0xc3, 0x34, 0xab, 0x5c, 0x12, 0xe5,
  0x8e, 0x79, 0x37, 0xc0, 0xe1, 0x16, 0x58, 0xaf, 0xc4, 0x33, 0x7d, 0x8a,
  0x3f, 0xc8, 0x86, 0x71, 0x1a, 0xed, 0xa3, 0x54, 0x75, 0x82, 0xcc, 0x3b,
  0x50, 0xa7, 0xe9, 0x1e, 0xd4, 0x23, 0x6d, 0x9a, 0xf1, 0x06, 0x48, 0xbf,
  0x9e, 0x69, 0x27, 0xd0, 0xbb, 0x4c, 0x02, 0xf5, 0x40, 0xb7, 0xf9, 0x0e,
  0x65, 0x92, 0xdc, 0x2b, 0x0a, 0xfd, 0xb3, 0x44, 0x2f, 0xd8, 0x96, 0x61,
  0x55, 0xa2, 0xec, 0x1b, 0x70, 0x87, 0xc9, 0x3e, 0x1f, 0xe8, 0xa6, 0x51,
  0x3a, 0xcd, 0x83, 0x74, 0xc1, 0x36, 0x78, 0x8f, 0xe4, 0x13, 0x5d, 0xaa,
  0x8b, 0x7c, 0x32, 0xc5, 0xae, 0x59, 0x17, 0xe0, 0x2a, 0xdd, 0x93, 0x64,
  0x0f, 0xf8, 0xb6, 0x41, 0x60, 0x97, 0xd9, 0x2e, 0x45, 0xb2, 0xfc, 0x0b,
  0xbe, 0x49, 0x07, 0xf0, 0x9b, 0x6c, 0x22, 0xd5, 0xf4, 0x03, 0x4d, 0xba,
  0xd1, 0x26, 0x68, 0x9f]

/-- The bytes from offset 9 on: all but the magic number, the length and the checksum itself. -/
def nvramCrc (hdr : ℕ → Byte) (len : ℕ) : Byte :=
  (load hdr 9 (len - 9)).foldl (fun crc b => crc8Table.getD (crc ^^^ b).toNat 0) 0xff

/-! ### Chains -/

/-- Characters are signed. -/
def hashSum (name : List Byte) : BitVec 32 :=
  (name.takeWhile (· ≠ equalsSign)).foldl (fun sum c => 7 * sum + c.signExtend 32) 0

def nvramHash (name : List Byte) : Fin hashSize :=
  ⟨(hashSum name).toNat % hashSize, Nat.mod_lt _ (by decide)⟩

/-- The test of `nvram_lookup`: `memcmp` finds the name and a `=` follows. -/
def Binds (name binding : List Byte) : Prop :=
  binding.take name.length = name ∧ binding[name.length]? = some equalsSign

instance (name binding : List Byte) : Decidable (Binds name binding) :=
  inferInstanceAs (Decidable (_ ∧ _))

def nvramLookup (s : Store) (name : List Byte) : Option ℕ :=
  (s.hashtab (nvramHash name)).findIdx? fun binding => Binds name binding

def nvramInsert (s : Store) (hash : Fin hashSize) (binding : List Byte) : Store :=
  { s with hashtab := Function.update s.hashtab hash (binding :: s.hashtab hash) }

def nvramDelete (s : Store) (hash : Fin hashSize) (i : ℕ) : Store :=
  { s with hashtab := Function.update s.hashtab hash ((s.hashtab hash).eraseIdx i) }

/-- `nvram_delete`, after which the tuple goes to the head of `nv_pending`. -/
def moveToPending (s : Store) (hash : Fin hashSize) (i : ℕ) : Store :=
  { nvramDelete s hash i with
    nvPending := ((s.hashtab hash)[i]?).toList ++ s.nvPending }

/-! ### Operations -/

def nvramGet (s : Store) (name : CString) : Option (List Byte) :=
  (nvramLookup s name.chars).bind fun i =>
    ((s.hashtab (nvramHash name.chars))[i]?).map fun binding =>
      binding.drop (name.chars.length + 1)

/-- The result and the new store; `alloc` says whether `KMALLOC` succeeds. -/
def nvramSet (s : Store) (name value : CString) (alloc : Bool) : ℤ × Store :=
  if alloc then
    let hash := nvramHash name.chars
    let s' := match nvramLookup s name.chars with
      | some i => moveToPending s hash i
      | none => s
    (0, nvramInsert s' hash (name.chars ++ equalsSign :: value.chars))
  else (-1, s)

def nvramUnset (s : Store) (name : CString) : ℤ × Store :=
  match nvramLookup s name.chars with
  | some i => (0, moveToPending s (nvramHash name.chars) i)
  | none => (-1, s)

/-! ### Loading -/

def loadHeader (m : ℕ → Byte) : Header where
  magic := loadWord m 0
  len := loadWord m 4
  crcVerInit := loadWord m 8
  configRefresh := loadWord m 12
  configNcdl := loadWord m 16

/-- `(n + 3) & ~3`. -/
def wordAlign (n : ℕ) : ℕ := (n + 3) / 4 * 4

/-- The stored checksum. -/
def Header.crc (hdr : Header) : Byte := hdr.crcVerInit.setWidth 8

/-- The flash from the start of the window on. The checksum is compared, but a difference is only
reported on the console. -/
def nvramFind (window : ℕ → Byte) : Option Header :=
  if loadWord window 0 = nvramMagic then some (loadHeader window) else none

/-- The strings from `offset` on, `mem` being the memory there. Each turn moves `offset` on, so
that `fuel` may be anything from `len` on. -/
def strings (len : ℕ) : ℕ → ℕ → List Byte → List (List Byte)
  | 0, _, _ => []
  | fuel + 1, offset, mem =>
    if offset < len ∧ mem.headD 0 ≠ 0 then
      let binding := mem.takeWhile (· ≠ 0)
      binding :: strings len fuel (offset + (binding.length + 1)) (mem.drop (binding.length + 1))
    else []

/-- The words of the header and those up to `hdr->len` are copied; `behind` is what follows the
copy in memory. -/
def nvramInternalize (s : Store) (window : ℕ → Byte) (behind : List Byte) : Store :=
  let len := (loadWord window 4).toNat
  let buffer := load window 0 (max headerSize (wordAlign len)) ++ behind
  (strings len len headerSize (buffer.drop headerSize)).foldl
    (fun s binding => nvramInsert s (nvramHash binding) binding) s

def nvramInit (window : ℕ → Byte) (behind : List Byte) : Store :=
  match nvramFind window with
  | some hdr => nvramInternalize ⟨hdr, fun _ => [], []⟩ window behind
  | none =>
    ⟨⟨nvramMagic, headerSize, nvramVersion <<< 8 ||| sdramInit <<< 16, 0, 0⟩, fun _ => [], []⟩

/-! ### Writing back -/

/-- All strings, chain after chain. -/
def Store.bindings (s : Store) : List (List Byte) := (List.finRange hashSize).flatMap s.hashtab

def terminated (bindings : List (List Byte)) : List Byte := bindings.flatMap (· ++ [0])

/-- What `nvram_commit` needs: the header, the strings, two empty ones, and padding. -/
def commitSize (s : Store) : ℕ := wordAlign (headerSize + (terminated s.bindings).length + 2)

def headerBytes (hdr : Header) : List Byte :=
  leBytes hdr.magic ++ leBytes hdr.len ++ leBytes hdr.crcVerInit ++ leBytes hdr.configRefresh ++
    leBytes hdr.configNcdl

/-- The block of `len` bytes that starts with this header. -/
def block (s : Store) (hdr : Header) : List Byte :=
  let used := headerBytes hdr ++ terminated s.bindings
  used ++ List.replicate (hdr.len.toNat - used.length) 0

/-- The header that is written: the checksum is taken over a block in which it is 0. -/
def commitHeader (s : Store) : Header :=
  let hdr := { s.nvHeader with
    len := BitVec.ofNat 32 (commitSize s)
    crcVerInit := s.nvHeader.crcVerInit &&& ~~~(0xff : BitVec 32) }
  let crc := nvramCrc (fun i => (block s hdr).getD i 0) hdr.len.toNat
  { hdr with crcVerInit := hdr.crcVerInit ||| crc.setWidth 32 }

/-- The result, what is handed to `cfe_writeblk` if it is called, and the new store. -/
def nvramCommit (s : Store) (alloc : Bool) : ℤ × Option (List Byte) × Store :=
  if commitSize s > nvramSpace then (-1, none, s)
  else if alloc then
    (0, some (block s (commitHeader s)), { s with nvHeader := commitHeader s })
  else (-1, none, s)

end BcmMruby.Nvram
