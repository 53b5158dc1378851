import Mathlib.Data.List.Basic

/-!
# Descriptors, the platform, and names derived from a URL

Descriptors are lists of code units. What the cache takes from the operating system below its own
sources is collected in the class `Platform`: the folding behind `TDesC8::CompareF`, the checksum
`Mem::Crc32`, and the 64-bit real format of the stream classes. Nothing is assumed about these
beyond the width of a stored real.

`hashUrl` and `generateNameLC` are the two names the cache derives from a URL: the start of a
probe sequence, and the full path of the body file.
-/

set_option autoImplicit false

namespace SymbianWeb.HttpCache

/-- 8-bit descriptor. -/
abbrev Des8 := List UInt8

/-- 16-bit descriptor. -/
abbrev Des16 := List UInt16

/-- Operating-system functions the cache calls. -/
class Platform where
  /-- Case folding of one character, as `CompareF` applies it. -/
  fold8 : UInt8 → UInt8
  /-- `Mem::Crc32` with the checksum starting at 0. -/
  crc32 : Des8 → UInt32
  /-- `RWriteStream::WriteReal64L` of a 64-bit integer. -/
  writeReal64 : Int → List UInt8
  /-- `RReadStream::ReadReal64L`, converted back to an integer. -/
  readReal64 : List UInt8 → Int
  writeReal64_length : ∀ v, (writeReal64 v).length = 8

section Names

variable [Platform]

/-- `a.CompareF(b) == 0`. -/
def compareF (a b : Des8) : Bool :=
  a.map Platform.fold8 == b.map Platform.fold8

@[simp] theorem compareF_iff (a b : Des8) :
    compareF a b = true ↔ a.map Platform.fold8 = b.map Platform.fold8 := by
  simp [compareF]

theorem compareF_refl (a : Des8) : compareF a a = true := by simp

theorem compareF_symm {a b : Des8} (h : compareF a b = true) : compareF b a = true := by
  rw [compareF_iff] at h ⊢
  exact h.symm

theorem compareF_comm (a b : Des8) : compareF a b = compareF b a := by
  rw [Bool.eq_iff_iff, compareF_iff, compareF_iff, eq_comm]

theorem compareF_trans {a b c : Des8} (hab : compareF a b = true) (hbc : compareF b c = true) :
    compareF a c = true := by
  rw [compareF_iff] at hab hbc ⊢
  exact hab.trans hbc

/-- `KHashPHI`: the golden ratio, an arbitrary start value. -/
def kHashPHI : UInt32 := 0x9e3779b9

/-- `KHashStringLength`. -/
def kHashStringLength : Nat := 16

/-- One round of the hash: `h += c; h += (h << 10); h ^= (h << 6)`. -/
def hashRound (h : UInt32) (c : UInt32) : UInt32 :=
  let h := h + c
  let h := h + (h <<< 10)
  h ^^^ (h <<< 6)

/-- `CHttpCacheLookupTable::HashUrl` before the reduction modulo the table size. The loop runs
backwards from the last character and stops before index `len - hashStringLength`, so it reads
one character less than `hashStringLength`. -/
def hashUrl (aUrl : Des8) : UInt32 :=
  let len := aUrl.length
  let hashStringLength := if len < kHashStringLength then len else kHashStringLength
  let h := hashRound kHashPHI (UInt32.ofNat len)
  let h := (aUrl.drop (len - hashStringLength + 1)).reverse.foldl
    (fun h c => hashRound h c.toUInt32) h
  let h := h + (h <<< 3)
  let h := h ^^^ (h >>> 11)
  h + (h <<< 15)

/-- Lower-case hexadecimal digit, as `%x` prints it. -/
def hexDigit (d : UInt32) : UInt16 :=
  if d < 10 then 0x30 + d.toUInt16 else 0x61 + (d.toUInt16 - 10)

/-- `%08x`. -/
def hex8 (c : UInt32) : Des16 :=
  ([28, 24, 20, 16, 12, 8, 4, 0] : List UInt32).map fun k => hexDigit ((c >>> k) &&& 15)

/-- `KPathDelimiter`. -/
def kPathDelimiter : UInt16 := 0x5c

/-- `KCacheSubdirCount`. -/
def kCacheSubdirCount : UInt32 := 16

/-- `HttpCacheUtil::GenerateNameLC`: the base directory, the lowest nibble of the checksum as
subdirectory, and the checksum in eight digits. -/
def generateNameLC (aUrl : Des8) (aBaseDir : Des16) : Des16 :=
  let crc := Platform.crc32 aUrl
  let nibble := crc &&& (kCacheSubdirCount - 1)
  aBaseDir ++ hexDigit nibble :: kPathDelimiter :: hex8 crc

/-- `HttpCacheUtil::GetHeaderFileName`: the body file name with `.h` appended. -/
def getHeaderFileName (aBodyFileName : Des16) : Des16 :=
  aBodyFileName ++ [0x2e, 0x68]

end Names

end SymbianWeb.HttpCache
