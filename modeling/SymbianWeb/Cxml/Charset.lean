import Mathlib.Data.UInt

/-!
# Strings in the charsets of the library

`NW_String_valid` looks for the end of a string before it is read, and
`NW_String_charBuffGetLength` counts its bytes. Both get a pointer into memory. The model of the
memory is the list of the bytes that are there from the pointer on, and a read behind the end of
the list is a fault (`none`).
-/

set_option autoImplicit false

namespace SymbianWeb.Wbxml

abbrev Bytes := List UInt8

/-- The charsets that `NW_String_charsetValid` accepts. -/
inductive Charset where
  | iso10646Ucs2
  | iso88591
  | utf8
  | usAscii
  deriving DecidableEq, Repr

/-- `NW_String_charsetValid`: the charset with a MIBenum number. -/
def charsetValid (encoding : Nat) : Option Charset :=
  if encoding = 0x03E8 then some .iso10646Ucs2
  else if encoding = 0x04 then some .iso88591
  else if encoding = 0x6A then some .utf8
  else if encoding = 0x03 then some .usAscii
  else none

/-! ## Validity -/

/-- The loop of `StringValidUTF8`. The index is `skip` bytes before the next character. -/
def stringValidUTF8From : Nat → Bytes → Nat → Option Bool
  | _, _, 0 => some false
  | skip + 1, storage, length + 1 => stringValidUTF8From skip storage.tail length
  | 0, [], _ + 1 => none
  | 0, c :: storage, length + 1 =>
      if c = 0 then some true
      else if c >>> 4 < 8 then stringValidUTF8From 0 storage length
      else if c >>> 4 = 12 ∨ c >>> 4 = 13 then stringValidUTF8From 1 storage length
      else if c >>> 4 = 14 then stringValidUTF8From 2 storage length
      else if c >>> 4 = 15 then stringValidUTF8From 3 storage length
      else some false

/-- `StringValidUTF8` -/
def stringValidUTF8 (storage : Bytes) (length : Nat) : Option Bool :=
  stringValidUTF8From 0 storage length

/-- The loop of `StringValidUCS2`, with the rest of `length - 1` that it has to run through. -/
def stringValidUCS2From : Bytes → Nat → Option Bool
  | _, 0 => some false
  | c₀ :: c₁ :: _, 1 => some (c₀ = 0 && c₁ = 0)
  | c₀ :: c₁ :: storage, rest + 2 =>
      if c₀ = 0 ∧ c₁ = 0 then some true else stringValidUCS2From storage rest
  | _, _ => none

/-- `StringValidUCS2`. The bound of its loop, `length - 1`, is an unsigned number of 32 bits. -/
def stringValidUCS2 (storage : Bytes) (length : Nat) : Option Bool :=
  stringValidUCS2From storage ((length + 0xFFFFFFFF) % 0x100000000)

/-- `StringValidISO88591` and `StringValidUSASCII` -/
def stringValidSingleByte : Bytes → Nat → Option Bool
  | _, 0 => some false
  | [], _ + 1 => none
  | c :: storage, length + 1 =>
      if c = 0 then some true else stringValidSingleByte storage length

/-- `NW_String_valid` -/
def stringValid : Charset → Bytes → Nat → Option Bool
  | .iso10646Ucs2 => stringValidUCS2
  | .iso88591 => stringValidSingleByte
  | .utf8 => stringValidUTF8
  | .usAscii => stringValidSingleByte

/-! ## Characters -/

/-- What `NW_String_readChar` gives: a character and the bytes it takes, or -1. -/
inductive ReadChar where
  | char (c : UInt16) (nbytes : Nat)
  | bad
  deriving DecidableEq

/-- The payload of a continuation byte. -/
def low6 (c : UInt8) : Nat := (c &&& 0x3F).toNat

def isContinuation (c : UInt8) : Bool := c &&& 0xC0 = 0x80

/-- The rest of a character of two bytes. -/
def readTwoBytes (c₀ : UInt8) : Bytes → Option ReadChar
  | c₁ :: _ =>
      if !isContinuation c₁ then some .bad
      else some (.char (.ofNat ((c₀ &&& 0x1F).toNat * 64 + low6 c₁)) 2)
  | _ => none

def readThreeBytes (c₀ : UInt8) : Bytes → Option ReadChar
  | c₁ :: c₂ :: _ =>
      if !isContinuation c₁ && !isContinuation c₂ then some .bad
      else some (.char (.ofNat (((c₀ &&& 0x0F).toNat * 64 + low6 c₁) * 64 + low6 c₂)) 3)
  | _ => none

/-- The rest of a character of four bytes, which is cut to 16 bits. -/
def readFourBytes (c₀ : UInt8) : Bytes → Option ReadChar
  | c₁ :: c₂ :: c₃ :: _ =>
      if !isContinuation c₁ && !isContinuation c₂ && !isContinuation c₃ then some .bad
      else some (.char (.ofNat
        ((((c₀ &&& 0x07).toNat * 64 + low6 c₁) * 64 + low6 c₂) * 64 + low6 c₃)) 4)
  | _ => none

/-- `ReadUTF8Char` -/
def readUTF8Char : Bytes → Option ReadChar
  | [] => none
  | c₀ :: rest =>
      if c₀ >>> 4 < 8 then some (.char c₀.toUInt16 1)
      else if c₀ >>> 4 = 12 ∨ c₀ >>> 4 = 13 then readTwoBytes c₀ rest
      else if c₀ >>> 4 = 14 then readThreeBytes c₀ rest
      else if c₀ >>> 4 = 15 then readFourBytes c₀ rest
      else some .bad

/-- `ReadInt16Char`: a character in the byte order of the machine. -/
def readInt16Char : Bytes → Option ReadChar
  | c₀ :: c₁ :: _ => some (.char (.ofNat (c₀.toNat + 256 * c₁.toNat)) 2)
  | _ => none

/-- `ReadISO88591Char` and `ReadUSASCIIChar` -/
def readSingleByteChar : Bytes → Option ReadChar
  | c₀ :: _ => some (.char c₀.toUInt16 1)
  | [] => none

/-- `NW_String_readChar` -/
def readChar : Charset → Bytes → Option ReadChar
  | .iso10646Ucs2 => readInt16Char
  | .iso88591 => readSingleByteChar
  | .utf8 => readUTF8Char
  | .usAscii => readSingleByteChar

/-- What `NW_String_charBuffGetLength` gives: the bytes of the string with its terminator, or
-1. -/
inductive StringLength where
  | byteCount (n : Nat)
  | bad
  deriving DecidableEq

def StringLength.add (k : Nat) : StringLength → StringLength
  | .byteCount n => .byteCount (n + k)
  | .bad => .bad

/-- The loop of `NW_String_charBuffGetLength`, `skip` bytes before the next character. -/
def charBuffGetLengthFrom (charset : Charset) : Nat → Bytes → Option StringLength
  | _, [] => none
  | skip + 1, _ :: buffer => (charBuffGetLengthFrom charset skip buffer).map (.add 1)
  | 0, c :: buffer =>
      match readChar charset (c :: buffer) with
      | none => none
      | some .bad => some .bad
      | some (.char value nbytes) =>
          if value = 0 then some (.byteCount nbytes)
          else (charBuffGetLengthFrom charset (nbytes - 1) buffer).map (.add 1)

/-- `NW_String_charBuffGetLength` -/
def charBuffGetLength (charset : Charset) (buffer : Bytes) : Option StringLength :=
  charBuffGetLengthFrom charset 0 buffer

@[simp] theorem StringLength.add_add (r : StringLength) (k l : Nat) :
    (r.add k).add l = r.add (k + l) := by
  cases r with
  | byteCount n => simp [StringLength.add, Nat.add_assoc]
  | bad => rfl

/-- The bound of the loop of `StringValidUCS2`, when there is a byte at all. -/
theorem ucs2Bound {length : Nat} (hpos : length ≠ 0) (hfits : length < 0x100000000) :
    (length + 0xFFFFFFFF) % 0x100000000 = length - 1 := by
  omega

theorem charBuffGetLengthFrom_skip (charset : Charset) (skip : Nat) (buffer : Bytes) :
    charBuffGetLengthFrom charset skip buffer =
      (charBuffGetLengthFrom charset 0 (buffer.drop skip)).map (.add skip) := by
  induction skip generalizing buffer with
  | zero =>
      have hzero : StringLength.add 0 = id := by
        funext r
        cases r <;> rfl
      rw [List.drop_zero, hzero, Option.map_id, id]
  | succ skip ih =>
      cases buffer with
      | nil => simp [charBuffGetLengthFrom]
      | cons c buffer =>
          rw [charBuffGetLengthFrom, ih buffer, List.drop_succ_cons, Option.map_map]
          congr 1
          funext r
          simp [Function.comp]

end SymbianWeb.Wbxml
