import SymbianWeb.Cxml.DictionarySelection

/-!
# Between UCS-2 and UTF-8 (`string/src/char.c`, `string/src/string.c`)

`NW_String_UCS2ToUTF8` takes a number of characters, and `NW_String_stringFromUCS2` hands it the
number of bytes of the string with its terminator, so every conversion through a string reads as
many characters again behind the source. On the way back `NW_String_stringToUCS2Char` writes the
units in the byte order of the machine, and `NW_String_charToUCS2Buff` writes the high byte first.

A string comes back, with all reads and writes inside their buffers, exactly when its own length
was given, with the terminator or without, and the way back keeps the byte order or the string does
not depend on it (`conversions_iff`).

Memory is the list of the bytes of a buffer; a read or a write behind it is a fault (`none`).
Allocations succeed.
-/

set_option autoImplicit false

namespace SymbianWeb.Wbxml

/-! ## The source -/

/-- A unit of a UCS-2 string as it lies in memory, in the byte order that `readInt16Char` reads. -/
def unitBytes (c : UInt16) : Bytes := [c.toUInt8, (c >>> 8).toUInt8]

/-- `NW_String_writeUTF8Char` -/
def writeUTF8Char (c : UInt16) : Bytes :=
  if c ≤ 0x007F then [c.toUInt8]
  else if 0x07FF < c then
    [(0xE0 : UInt8) ||| ((c >>> 12) &&& 0x0F).toUInt8,
      (0x80 : UInt8) ||| ((c >>> 6) &&& 0x3F).toUInt8, (0x80 : UInt8) ||| (c &&& 0x3F).toUInt8]
  else [(0xC0 : UInt8) ||| ((c >>> 6) &&& 0x1F).toUInt8, (0x80 : UInt8) ||| (c &&& 0x3F).toUInt8]

/-- The loop of `NW_String_UCS2ToUTF8`, with so many characters left and so much written to
`tstore`, which has room for `room` bytes. What is written last is copied to the result. -/
def ucs2ToUTF8From (room : Nat) : Nat → Bytes → Bytes → Option Bytes
  | 0, _, tstore => if tstore.length < room then some (tstore ++ [0]) else none
  | length + 1, src, tstore =>
      match readInt16Char src with
      | some (.char c nbytes) =>
          if (tstore ++ writeUTF8Char c).length ≤ room then
            ucs2ToUTF8From room length (src.drop nbytes) (tstore ++ writeUTF8Char c)
          else none
      | _ => none

/-- `NW_String_UCS2ToUTF8` -/
def ucs2ToUTF8 (s : Bytes) (length : Nat) : Option Bytes :=
  ucs2ToUTF8From ((length + 1) * 3 % 0x100000000) length s []

/-- The loop of `NW_String_UCS2ToISO88591`; `storage[i]` is in a buffer of `room` bytes. -/
def ucs2ToISO88591From (room : Nat) : Nat → Bytes → Bytes → Option Bytes
  | 0, _, storage => if storage.length < room then some (storage ++ [0]) else none
  | remaining + 1, src, storage =>
      match readInt16Char src with
      | some (.char c nbytes) =>
          if storage.length < room then
            ucs2ToISO88591From room remaining (src.drop nbytes) (storage ++ [c.toUInt8])
          else none
      | _ => none

/-- `NW_String_UCS2ToISO88591` -/
def ucs2ToISO88591 (s : Bytes) (byteCount : Nat) : Option Bytes :=
  ucs2ToISO88591From ((byteCount + 1) % 0x100000000) byteCount s []

/-- `NW_String_getByteCount` -/
def getByteCount (s : NwString) : Nat := s.length.toNat % 0x80000000

/-- `NW_String_setUserOwnsStorage` -/
def setUserOwnsStorage (s : NwString) : NwString := { s with length := s.length ||| 0x80000000 }

/-- `NW_String_getUserOwnsStorage` -/
def getUserOwnsStorage (s : NwString) : Bool := s.length &&& 0x80000000 ≠ 0

/-- `NW_String_initialize` with storage that is not null, and `StringUCS2Init`; no string if the
bytes are not in the charset. -/
def initializeString (storage : Bytes) (encoding : Charset) : Option (Option NwString) :=
  (charBuffGetLength encoding storage).map fun
    | .byteCount numBytes => some ⟨storage, .ofNat numBytes⟩
    | .bad => none

/-- `NW_String_copy` -/
def copyString (source : NwString) : Option NwString :=
  if getUserOwnsStorage source then
    if source.storage.length < getByteCount source then none
    else some (setUserOwnsStorage
      ⟨source.storage.take (getByteCount source), .ofNat (getByteCount source)⟩)
  else some source

/-- `NW_String_stringFromUCS2`: no string if the status is not `NW_STAT_SUCCESS`. -/
def stringFromUCS2 (s : NwString) (outputEncoding : Charset) : Option (Option NwString) :=
  let storage :=
    match outputEncoding with
    | .iso10646Ucs2 => none
    | .utf8 | .usAscii => some (ucs2ToUTF8 s.storage (getByteCount s))
    | .iso88591 => some (ucs2ToISO88591 s.storage (getByteCount s))
  match storage with
  | none => (copyString s).map some
  | some storage =>
      storage.bind fun storage =>
        (initializeString storage outputEncoding).map fun string => string.map setUserOwnsStorage

/-- The characters that `NW_String_charBuffGetLength` counts before the terminator, in the same
loop as the bytes; no number if one of them cannot be read. -/
def charBuffCountFrom (charset : Charset) : Nat → Bytes → Option (Option Nat)
  | _, [] => none
  | skip + 1, _ :: buffer => charBuffCountFrom charset skip buffer
  | 0, c :: buffer =>
      match readChar charset (c :: buffer) with
      | none => none
      | some .bad => some none
      | some (.char value nbytes) =>
          if value = 0 then some (some 0)
          else (charBuffCountFrom charset (nbytes - 1) buffer).map fun chars => chars.map (· + 1)

/-- The loop of `NW_String_stringToUCS2Char`, with room for so many more units. -/
def copyCharsFrom (charset : Charset) : Nat → Bytes → Option (Option (List UInt16))
  | room, b =>
      match readChar charset b with
      | none => none
      | some .bad => some none
      | some (.char c nbytes) =>
          match room with
          | 0 => none
          | room + 1 =>
              if c = 0 then some (some [c])
              else
                (copyCharsFrom charset room (b.drop nbytes)).map fun data => data.map (c :: ·)

/-- `NW_String_stringToUCS2Char`: no units if the status is not `NW_STAT_SUCCESS`. -/
def stringToUCS2Char (encoding : Charset) (storage : Bytes) : Option (Option (List UInt16)) :=
  (charBuffCountFrom encoding 0 storage).bind fun
    | none => some none
    | some numChars =>
        (copyCharsFrom encoding ((numChars + 1) * 2 % 0x100000000 / 2) storage).map fun data =>
          data.map fun data => data.set numChars 0

/-- The loop of `NW_String_charToUCS2Buff`, with so many characters left; the terminator comes
last. -/
def charToUCS2BuffFrom (encoding : Charset) : Nat → Bytes → Option (Option Bytes)
  | 0, _ => some (some [0, 0])
  | length + 1, s =>
      match readChar encoding s with
      | none => none
      | some .bad => some none
      | some (.char c nbytes) =>
          (charToUCS2BuffFrom encoding length (s.drop nbytes)).map fun storage =>
            storage.map ([((c &&& 0xFF00) >>> 8).toUInt8, (c &&& 0xFF).toUInt8] ++ ·)

/-- `NW_String_charToUCS2Buff`; `none` also where its buffer is too small for the characters. -/
def charToUCS2Buff (encoding : Charset) (s : Bytes) : Option (Option Bytes) :=
  (charBuffCountFrom encoding 0 s).bind fun
    | none => some none
    | some length =>
        if (length + 1) * 2 % 0x100000000 < (length + 1) * 2 then none
        else charToUCS2BuffFrom encoding length s

/-! ## There and back -/

/-- A unit of a string before its terminator. -/
abbrev Ucs2Unit := { c : UInt16 // c ≠ 0 }

/-- The ways from a UCS-2 string to bytes in UTF-8: with the number of characters that the caller
gives, or through a string. -/
inductive FromUcs2 where
  | ucs2ToUTF8 (length : UInt32)
  | stringFromUCS2

/-- The ways back. -/
inductive ToUcs2 where
  | stringToUCS2Char
  | charToUCS2Buff
  deriving DecidableEq

/-- The bytes of the units and of the terminator. -/
def ucs2Bytes (s : List Ucs2Unit) : Bytes := s.flatMap (fun c : Ucs2Unit => unitBytes c.1) ++ [0, 0]

/-- The result of a conversion of the string `s`. -/
def FromUcs2.convert (s : List Ucs2Unit) : FromUcs2 → Option (Option Bytes)
  | .ucs2ToUTF8 length => (Wbxml.ucs2ToUTF8 (ucs2Bytes s) length.toNat).map some
  | .stringFromUCS2 =>
      (initializeString (ucs2Bytes s) .iso10646Ucs2).bind fun
        | none => some none
        | some string =>
            (Wbxml.stringFromUCS2 string .utf8).map fun string => string.map (·.storage)

/-- The bytes of the units that come back. -/
def ToUcs2.convert (storage : Bytes) : ToUcs2 → Option (Option Bytes)
  | .stringToUCS2Char =>
      (Wbxml.stringToUCS2Char .utf8 storage).map fun data => data.map (·.flatMap unitBytes)
  | .charToUCS2Buff => Wbxml.charToUCS2Buff .utf8 storage

/-- Both conversions stay in their buffers, and the string comes back. -/
def RoundTrips (there : FromUcs2) (back : ToUcs2) (s : List Ucs2Unit) : Prop :=
  ∃ storage, there.convert s = some (some storage) ∧ back.convert storage = some (some (ucs2Bytes s))

/-- When it comes back. -/
def KeepsUnits (s : List Ucs2Unit) : FromUcs2 → ToUcs2 → Prop
  | .stringFromUCS2, _ => False
  | .ucs2ToUTF8 length, back =>
      (s.length ≤ length.toNat ∧ length.toNat ≤ s.length + 1 ∧
        (length.toNat + 1) * 3 < 0x100000000) ∧
      (back = .stringToUCS2Char ∨ ∀ c ∈ s, c.1.toNat / 256 = c.1.toNat % 256)

/-! ## One character -/

/-- The high and the low byte of a unit, as numbers. -/
theorem toNat_unitBytes (c : UInt16) :
    c.toUInt8.toNat = c.toNat % 0x100 ∧ (c >>> 8).toUInt8.toNat = c.toNat / 0x100 := by
  have hlt := c.toNat_lt
  constructor
  · rw [UInt16.toNat_toUInt8]
  · rw [UInt16.toNat_toUInt8, UInt16.toNat_shiftRight]
    show c.toNat >>> 8 % 2 ^ 8 = _
    rw [Nat.shiftRight_eq_div_pow, Nat.mod_eq_of_lt (by omega)]

theorem readInt16Char_unitBytes (c : UInt16) (rest : Bytes) :
    readInt16Char (unitBytes c ++ rest) = some (.char c 2) := by
  obtain ⟨hlow, hhigh⟩ := toNat_unitBytes c
  show some (ReadChar.char (.ofNat (c.toUInt8.toNat + 256 * (c >>> 8).toUInt8.toNat)) 2) = _
  rw [hlow, hhigh, Nat.mod_add_div, UInt16.ofNat_toNat]

/-- The lower bits of a unit. -/
theorem and_lowBits (x : UInt16) {n : Nat} (hn : n < 16) :
    x &&& .ofNat (2 ^ n - 1) = .ofNat (x.toNat % 2 ^ n) := by
  have hpow : 2 ^ n < 2 ^ 16 := Nat.pow_lt_pow_right (by decide) hn
  have hmask : 2 ^ n - 1 < UInt16.size := (Nat.sub_le _ _).trans_lt hpow
  rw [← UInt16.toNat_inj, UInt16.toNat_and, UInt16.toNat_ofNat_of_lt' hmask,
    Nat.and_two_pow_sub_one_eq_mod, UInt16.toNat_ofNat_of_lt']
  exact (Nat.mod_lt _ (Nat.two_pow_pos n)).trans hpow

theorem continuation_eq (x : UInt16) :
    (0x80 : UInt8) ||| (x &&& 0x3F).toUInt8 = continuationByte x.toNat := by
  have hall : ∀ y : Fin 0x40, (0x80 : UInt8) ||| (UInt16.ofNat y).toUInt8 = .ofNat (0x80 + y) := by
    decide
  rw [show (0x3F : UInt16) = .ofNat (2 ^ 6 - 1) from rfl, and_lowBits x (by decide)]
  exact hall ⟨x.toNat % 0x40, Nat.mod_lt _ (by decide)⟩

theorem leadOfTwo_eq (x : UInt16) (h : x.toNat < 0x20) :
    (0xC0 : UInt8) ||| (x &&& 0x1F).toUInt8 = .ofNat (0xC0 + x.toNat) := by
  have hall : ∀ y : Fin 0x20, (0xC0 : UInt8) ||| (UInt16.ofNat y).toUInt8 = .ofNat (0xC0 + y) := by
    decide
  rw [show (0x1F : UInt16) = .ofNat (2 ^ 5 - 1) from rfl, and_lowBits x (by decide),
    Nat.mod_eq_of_lt (b := 2 ^ 5) h]
  exact hall ⟨x.toNat, h⟩

theorem leadOfThree_eq (x : UInt16) (h : x.toNat < 0x10) :
    (0xE0 : UInt8) ||| (x &&& 0x0F).toUInt8 = .ofNat (0xE0 + x.toNat) := by
  have hall : ∀ y : Fin 0x10, (0xE0 : UInt8) ||| (UInt16.ofNat y).toUInt8 = .ofNat (0xE0 + y) := by
    decide
  rw [show (0x0F : UInt16) = .ofNat (2 ^ 4 - 1) from rfl, and_lowBits x (by decide),
    Nat.mod_eq_of_lt (b := 2 ^ 4) h]
  exact hall ⟨x.toNat, h⟩

theorem toNat_shift (c : UInt16) :
    (c >>> 6).toNat = c.toNat / 0x40 ∧ (c >>> 12).toNat = c.toNat / 0x1000 := by
  constructor <;> rw [UInt16.toNat_shiftRight] <;> exact Nat.shiftRight_eq_div_pow _ _

/-- What is written for a unit is an encoding of it. -/
theorem encodes_writeUTF8Char (c : UInt16) : Encodes .utf8 c.toNat (writeUTF8Char c) := by
  have hlt := c.toNat_lt
  obtain ⟨hsix, htwelve⟩ := toNat_shift c
  by_cases hone : c ≤ 0x007F
  · have hsmall : c.toNat < 0x80 := Nat.lt_succ_of_le (UInt16.le_iff_toNat_le.mp hone)
    have hbyte : c.toUInt8 = .ofNat c.toNat := by
      rw [← UInt8.toNat_inj, UInt16.toNat_toUInt8, toNat_ofNat_of_lt (by omega)]
      exact Nat.mod_eq_of_lt (by omega)
    rw [writeUTF8Char, if_pos hone, hbyte]
    exact .utf8One hsmall
  · by_cases hthree : 0x07FF < c
    · rw [writeUTF8Char, if_neg hone, if_pos hthree, leadOfThree_eq _ (by omega), continuation_eq,
        continuation_eq, hsix, htwelve]
      exact .utf8Three hlt
    · have hsmall : c.toNat < 0x800 :=
        Nat.lt_succ_of_le (UInt16.le_iff_toNat_le.mp (UInt16.not_lt.mp hthree))
      rw [writeUTF8Char, if_neg hone, if_neg hthree, leadOfTwo_eq _ (by omega), continuation_eq,
        hsix]
      exact .utf8Two hsmall

/-- A unit of the string, as it is written in UTF-8 and as it lies in memory. -/
def Ucs2Unit.encoded (c : Ucs2Unit) : EncodedChar .utf8 where
  codePoint := c.1.toNat
  bytes := writeUTF8Char c.1
  encodes := encodes_writeUTF8Char c
  nonzero h := c.2 (UInt16.toNat_inj.mp h)

def Ucs2Unit.native (c : Ucs2Unit) : EncodedChar .iso10646Ucs2 where
  codePoint := c.1.toNat
  bytes := unitBytes c.1
  encodes := by
    obtain ⟨hlow, hhigh⟩ := toNat_unitBytes c.1
    have h := Encodes.iso10646Ucs2 c.1.toUInt8 (c.1 >>> 8).toUInt8
    rwa [hlow, hhigh, Nat.mod_add_div] at h
  nonzero h := c.2 (UInt16.toNat_inj.mp h)

theorem ucs2Bytes_eq (s : List Ucs2Unit) : ucs2Bytes s = stringBytes (s.map Ucs2Unit.native) := by
  rw [stringBytes, List.flatMap_map, ucs2Bytes, terminator]
  rfl

/-! ## To UTF-8 -/

/-- The conversion of units one after the other: it stays in the source as long as there are so
many, and in the buffer if there is room for the bytes and the terminator. -/
theorem ucs2ToUTF8From_eq (room length : Nat) (units : List UInt16) (tstore : Bytes) :
    ucs2ToUTF8From room length (units.flatMap unitBytes) tstore =
      if length ≤ units.length ∧
          (tstore ++ (units.take length).flatMap writeUTF8Char).length < room then
        some (tstore ++ (units.take length).flatMap writeUTF8Char ++ [0])
      else none := by
  induction length generalizing units tstore with
  | zero => simp [ucs2ToUTF8From]
  | succ length ih =>
      cases units with
      | nil => rfl
      | cons c units =>
          rw [List.flatMap_cons, ucs2ToUTF8From, readInt16Char_unitBytes]
          show (if _ then ucs2ToUTF8From room length (units.flatMap unitBytes) _ else _) = _
          rw [ih units, List.take_succ_cons, List.flatMap_cons, ← List.append_assoc]
          simp only [List.length_cons, Nat.add_le_add_iff_right]
          by_cases hroom : (tstore ++ writeUTF8Char c).length ≤ room
          · rw [if_pos hroom]
          · rw [if_neg hroom, if_neg]
            rintro ⟨-, hless⟩
            rw [List.length_append] at hless
            omega

theorem length_le_flatMap_writeUTF8Char (units : List UInt16) :
    units.length ≤ (units.flatMap writeUTF8Char).length ∧
      (units.flatMap writeUTF8Char).length ≤ 3 * units.length := by
  induction units with
  | nil => exact ⟨Nat.le_refl 0, Nat.le_refl 0⟩
  | cons c units ih =>
      have hchar : 1 ≤ (writeUTF8Char c).length ∧ (writeUTF8Char c).length ≤ 3 := by
        rw [writeUTF8Char]
        split
        · exact ⟨by simp, by simp⟩
        · split <;> exact ⟨by simp, by simp⟩
      rw [List.flatMap_cons, List.length_append, List.length_cons]
      omega

/-- So many units are converted to a well-formed string. Where the terminator is one of them, it
is there twice. -/
theorem ucs2ToUTF8_eq (s : List Ucs2Unit) (length : Nat) :
    ucs2ToUTF8 (ucs2Bytes s) length =
      if length ≤ s.length + 1 ∧
          (stringBytes ((s.take length).map Ucs2Unit.encoded) ++
            List.replicate (length - s.length) 0).length ≤ (length + 1) * 3 % 0x100000000 then
        some (stringBytes ((s.take length).map Ucs2Unit.encoded) ++
          List.replicate (length - s.length) 0)
      else none := by
  have hsource : ucs2Bytes s = (s.map Subtype.val ++ [0]).flatMap unitBytes := by
    rw [List.flatMap_append, List.flatMap_map]
    rfl
  have hresult (hle : length ≤ s.length + 1) :
      ((s.map Subtype.val ++ [0]).take length).flatMap writeUTF8Char ++ [0] =
        stringBytes ((s.take length).map Ucs2Unit.encoded) ++
          List.replicate (length - s.length) 0 := by
    rw [List.take_append, List.flatMap_append, ← List.map_take, List.flatMap_map, stringBytes,
      List.flatMap_map, List.length_map]
    show _ = (s.take length).flatMap (fun c => writeUTF8Char c.1) ++ [0] ++ _
    rcases Nat.lt_or_ge s.length length with hlt | hge
    · have hone : length - s.length = 1 := by omega
      rw [hone, List.append_assoc, List.append_assoc]
      rfl
    · rw [Nat.sub_eq_zero_of_le hge]
      simp
  rw [ucs2ToUTF8, hsource, ucs2ToUTF8From_eq]
  simp only [List.nil_append, List.length_append, List.length_map, List.length_singleton]
  by_cases hle : length ≤ s.length + 1
  · have hlength := congrArg List.length (hresult hle)
    simp only [List.length_append, List.length_singleton] at hlength
    simp only [hle, true_and, hresult hle, ← hlength, Nat.succ_le_iff]
  · simp only [hle, false_and, if_false]

/-- Nothing in 32 bits makes up for a buffer whose size was cut: what is written has at least one
byte for each unit. -/
theorem room_iff (s : List Ucs2Unit) (length : Nat) (hle : length ≤ s.length + 1)
    (hs : 2 * (s.length + 1) + 3 ≤ 0x100000000) :
    (stringBytes ((s.take length).map Ucs2Unit.encoded) ++
        List.replicate (length - s.length) 0).length ≤ (length + 1) * 3 % 0x100000000 ↔
      (length + 1) * 3 < 0x100000000 := by
  have hbytes := length_le_flatMap_writeUTF8Char ((s.take length).map Subtype.val)
  have hlength : (stringBytes ((s.take length).map Ucs2Unit.encoded)).length =
      (((s.take length).map Subtype.val).flatMap writeUTF8Char).length + 1 := by
    rw [stringBytes, List.length_append, List.flatMap_map, List.flatMap_map]
    rfl
  rw [List.length_append, List.length_replicate, hlength]
  rw [List.length_map, List.length_take] at hbytes
  by_cases hroom : (length + 1) * 3 < 0x100000000
  · rw [Nat.mod_eq_of_lt hroom]
    omega
  · have hcut : (length + 1) * 3 % 0x100000000 = (length + 1) * 3 - 0x100000000 := by omega
    rw [hcut]
    omega

/-! ## Back to UCS-2 -/

theorem charBuffCountFrom_skip (charset : Charset) (skip : Nat) (buffer : Bytes) :
    charBuffCountFrom charset skip buffer = charBuffCountFrom charset 0 (buffer.drop skip) := by
  induction skip generalizing buffer with
  | zero => rw [List.drop_zero]
  | succ skip ih =>
      cases buffer with
      | nil => rfl
      | cons c buffer => exact ih buffer

theorem charBuffCountFrom_encodes {charset : Charset} {v : Nat} {bytes : Bytes}
    (h : Encodes charset v bytes) (hv : UInt16.ofNat v ≠ 0) (more : Bytes) :
    charBuffCountFrom charset 0 (bytes ++ more) =
      (charBuffCountFrom charset 0 more).map fun chars => chars.map (· + 1) := by
  have hread := readChar_encodes h more
  cases bytes with
  | nil => exact absurd (length_encodes_pos h) (Nat.lt_irrefl 0)
  | cons c bytes =>
      rw [List.cons_append] at hread ⊢
      rw [charBuffCountFrom, hread]
      simp only [hv, if_false, List.length_cons, Nat.add_sub_cancel]
      rw [charBuffCountFrom_skip, List.drop_left]

/-- `NW_String_charToUCS2Buff` writes the bytes of a unit the other way round. -/
theorem highByteFirst_eq (c : UInt16) :
    [((c &&& 0xFF00) >>> 8).toUInt8, (c &&& 0xFF).toUInt8] = (unitBytes c).reverse := by
  have hhigh : (c &&& 0xFF00) >>> 8 = c >>> 8 := by
    rw [← UInt16.toNat_inj, UInt16.toNat_shiftRight, UInt16.toNat_and, UInt16.toNat_shiftRight]
    show (c.toNat &&& 0xFF00) >>> 8 = c.toNat >>> 8
    have hlt := c.toNat_lt
    rw [Nat.shiftRight_and_distrib, show 0xFF00 >>> 8 = 2 ^ 8 - 1 from rfl,
      Nat.and_two_pow_sub_one_eq_mod, Nat.shiftRight_eq_div_pow]
    exact Nat.mod_eq_of_lt (by omega)
  have hlow : (c &&& 0xFF).toUInt8 = c.toUInt8 := by
    rw [← UInt8.toNat_inj, UInt16.toNat_toUInt8, UInt16.toNat_toUInt8,
      show (0xFF : UInt16) = .ofNat (2 ^ 8 - 1) from rfl, and_lowBits c (by decide),
      UInt16.toNat_ofNat']
    omega
  rw [hhigh, hlow]
  rfl

section Decode

variable {charset : Charset} {s : List (EncodedChar charset)} (hs : ∀ c ∈ s, c.unit ≠ 0)
  (rest : Bytes)

include hs

/-- The characters of a well-formed string without code points that end in 16 zero bits. -/
theorem charBuffCountFrom_stringBytes :
    charBuffCountFrom charset 0 (stringBytes s ++ rest) = some (some s.length) := by
  induction s with
  | nil => cases charset <;> rfl
  | cons c s ih =>
      rw [stringBytes_cons, List.append_assoc,
        charBuffCountFrom_encodes c.encodes (hs c (List.mem_cons_self ..)),
        ih fun c hc => hs c (List.mem_cons_of_mem _ hc)]
      rfl

theorem copyCharsFrom_stringBytes :
    copyCharsFrom charset (s.length + 1) (stringBytes s ++ rest) =
      some (some (s.map (·.unit) ++ [0])) := by
  induction s with
  | nil =>
      rw [copyCharsFrom, stringBytes_nil, readChar_terminator]
      rfl
  | cons c s ih =>
      rw [copyCharsFrom, stringBytes_cons, List.append_assoc, readChar_encodes c.encodes]
      have hc : UInt16.ofNat c.codePoint ≠ 0 := hs c (List.mem_cons_self ..)
      simp only [hc, if_false, List.length_cons, List.drop_left]
      rw [ih fun c hc => hs c (List.mem_cons_of_mem _ hc)]
      rfl

/-- The bytes of a unit with the high byte first. -/
theorem charToUCS2BuffFrom_stringBytes :
    charToUCS2BuffFrom charset s.length (stringBytes s ++ rest) =
      some (some (s.flatMap (fun c => (unitBytes c.unit).reverse) ++ [0, 0])) := by
  induction s with
  | nil => rfl
  | cons c s ih =>
      rw [List.length_cons, charToUCS2BuffFrom, stringBytes_cons, List.append_assoc,
        readChar_encodes c.encodes]
      simp only [List.drop_left]
      rw [ih fun c hc => hs c (List.mem_cons_of_mem _ hc)]
      rw [List.flatMap_cons, ← highByteFirst_eq]
      rfl

end Decode

theorem Ucs2Unit.encoded_unit (c : Ucs2Unit) : c.encoded.unit = c.1 := UInt16.ofNat_toNat

/-- The bytes of a string with the high byte of each unit first. -/
def swappedBytes (s : List Ucs2Unit) : Bytes :=
  s.flatMap (fun c : Ucs2Unit => (unitBytes c.1).reverse) ++ [0, 0]

theorem convert_stringBytes (back : ToUcs2) (u : List Ucs2Unit) (rest : Bytes)
    (hu : 2 * (u.length + 1) < 0x100000000) :
    back.convert (stringBytes (u.map Ucs2Unit.encoded) ++ rest) =
      some (some (if back = .stringToUCS2Char then ucs2Bytes u else swappedBytes u)) := by
  have hunits : ∀ c ∈ u.map Ucs2Unit.encoded, c.unit ≠ 0 := by
    intro c hc
    obtain ⟨d, -, rfl⟩ := List.mem_map.mp hc
    rw [d.encoded_unit]
    exact d.2
  have hcount := charBuffCountFrom_stringBytes hunits rest
  rw [List.length_map] at hcount
  have hroom : (u.length + 1) * 2 % 0x100000000 = (u.length + 1) * 2 := Nat.mod_eq_of_lt (by omega)
  cases back with
  | stringToUCS2Char =>
      have hcopy := copyCharsFrom_stringBytes hunits rest
      rw [List.length_map] at hcopy
      have hset : ((u.map Ucs2Unit.encoded).map (fun c : EncodedChar .utf8 => c.unit) ++ [0]).set
          u.length 0 = u.map Subtype.val ++ [0] := by
        rw [List.map_map, List.set_append_right _ _ (by simp)]
        simp [Function.comp_def, Ucs2Unit.encoded_unit]
      simp only [ToUcs2.convert, stringToUCS2Char, hcount, Option.bind_some, hroom,
        Nat.mul_div_cancel _ Nat.two_pos, hcopy, Option.map_some, hset, if_true]
      rw [List.flatMap_append, List.flatMap_map]
      rfl
  | charToUCS2Buff =>
      have hcopy := charToUCS2BuffFrom_stringBytes hunits rest
      rw [List.length_map, List.flatMap_map] at hcopy
      simp only [Ucs2Unit.encoded_unit] at hcopy
      simp only [ToUcs2.convert, charToUCS2Buff, hcount, Option.bind_some, hroom, Nat.lt_irrefl,
        if_false, hcopy, reduceCtorEq]
      rfl

theorem length_ucs2Bytes (s : List Ucs2Unit) : (ucs2Bytes s).length = 2 * (s.length + 1) := by
  induction s with
  | nil => rfl
  | cons c s ih =>
      have hcons : ucs2Bytes (c :: s) = unitBytes c.1 ++ ucs2Bytes s := rfl
      have hunit : (unitBytes c.1).length = 2 := rfl
      rw [hcons, List.length_append, ih, hunit, List.length_cons]
      omega

theorem length_swappedBytes (s : List Ucs2Unit) : (swappedBytes s).length = 2 * (s.length + 1) := by
  induction s with
  | nil => rfl
  | cons c s ih =>
      have hcons : swappedBytes (c :: s) = (unitBytes c.1).reverse ++ swappedBytes s := rfl
      have hunit : (unitBytes c.1).reverse.length = 2 := rfl
      rw [hcons, List.length_append, ih, hunit, List.length_cons]
      omega

/-- The byte order does not matter for units of two equal bytes, and only for these. -/
theorem swappedBytes_eq_iff (s : List Ucs2Unit) :
    swappedBytes s = ucs2Bytes s ↔ ∀ c ∈ s, c.1.toNat / 256 = c.1.toNat % 256 := by
  induction s with
  | nil => exact ⟨fun _ _ hc => absurd hc List.not_mem_nil, fun _ => rfl⟩
  | cons c s ih =>
      obtain ⟨hlow, hhigh⟩ := toNat_unitBytes c.1
      have hunit : (unitBytes c.1).reverse = unitBytes c.1 ↔ c.1.toNat / 256 = c.1.toNat % 256 := by
        show [(c.1 >>> 8).toUInt8, c.1.toUInt8] = [c.1.toUInt8, (c.1 >>> 8).toUInt8] ↔ _
        simp only [List.cons.injEq, and_true, ← UInt8.toNat_inj, hlow, hhigh]
        omega
      have hcons : swappedBytes (c :: s) = ucs2Bytes (c :: s) ↔
          (unitBytes c.1).reverse = unitBytes c.1 ∧ swappedBytes s = ucs2Bytes s := by
        show _ :: _ :: swappedBytes s = _ :: _ :: ucs2Bytes s ↔ [_, _] = [_, _] ∧ _
        simp only [List.cons.injEq, and_true, and_assoc]
      rw [hcons, hunit, ih, List.forall_mem_cons]

/-- What comes back of the first units is the string exactly if they are all. -/
theorem convert_iff (back : ToUcs2) (s : List Ucs2Unit) (length : Nat) (rest : Bytes)
    (hs : 2 * (s.length + 1) < 0x100000000) :
    back.convert (stringBytes ((s.take length).map Ucs2Unit.encoded) ++ rest) =
        some (some (ucs2Bytes s)) ↔
      s.length ≤ length ∧
        (back = .stringToUCS2Char ∨ ∀ c ∈ s, c.1.toNat / 256 = c.1.toNat % 256) := by
  have htake : (s.take length).length ≤ s.length := List.length_take_le' _ _
  rw [convert_stringBytes back _ rest (by omega), Option.some_inj, Option.some_inj]
  constructor
  · intro heq
    have hlength : (s.take length).length = s.length := by
      have hlengths := congrArg List.length heq
      rw [length_ucs2Bytes] at hlengths
      split at hlengths
      · rw [length_ucs2Bytes] at hlengths
        omega
      · rw [length_swappedBytes] at hlengths
        omega
    have hle : s.length ≤ length := by
      rw [List.length_take] at hlength
      omega
    refine ⟨hle, ?_⟩
    rw [List.take_of_length_le hle] at heq
    by_cases hback : back = .stringToUCS2Char
    · exact .inl hback
    · rw [if_neg hback] at heq
      exact .inr ((swappedBytes_eq_iff s).mp heq)
  · rintro ⟨hle, hback⟩
    rw [List.take_of_length_le hle]
    split
    · rfl
    · exact (swappedBytes_eq_iff s).mpr (hback.resolve_left ‹_›)

/-! ## Which strings come back -/

/-- `NW_String_UCS2ToUTF8` with so many units, and a way back. -/
theorem ucs2ToUTF8_convert_iff (back : ToUcs2) (s : List Ucs2Unit) (length : Nat)
    (hs : 2 * (s.length + 1) + 3 ≤ 0x100000000) :
    (∃ storage, ucs2ToUTF8 (ucs2Bytes s) length = some storage ∧
        back.convert storage = some (some (ucs2Bytes s))) ↔
      (s.length ≤ length ∧ length ≤ s.length + 1 ∧ (length + 1) * 3 < 0x100000000) ∧
        (back = .stringToUCS2Char ∨ ∀ c ∈ s, c.1.toNat / 256 = c.1.toNat % 256) := by
  have hback := convert_iff back s length (List.replicate (length - s.length) 0) (by omega)
  rw [ucs2ToUTF8_eq]
  constructor
  · rintro ⟨storage, hthere, hconvert⟩
    split at hthere
    · rename_i hroom
      obtain rfl := Option.some_inj.mp hthere
      obtain ⟨hle, horder⟩ := hback.mp hconvert
      exact ⟨⟨hle, hroom.1, (room_iff s length hroom.1 hs).mp hroom.2⟩, horder⟩
    · cases hthere
  · rintro ⟨⟨hle, hlength, hroom⟩, horder⟩
    rw [if_pos ⟨hlength, (room_iff s length hlength hs).mpr hroom⟩]
    exact ⟨_, rfl, hback.mpr ⟨hle, horder⟩⟩

/-- The string that a conversion through a string starts from. -/
theorem initializeString_ucs2Bytes (s : List Ucs2Unit) :
    initializeString (ucs2Bytes s) .iso10646Ucs2 =
      some (some ⟨ucs2Bytes s, .ofNat (2 * (s.length + 1))⟩) := by
  obtain ⟨n, hcount, -, hiff⟩ := charBuffGetLength_stringBytes (s.map Ucs2Unit.native) []
  have hn : n = 2 * (s.length + 1) := by
    rw [← length_ucs2Bytes, ucs2Bytes_eq]
    apply hiff.mpr
    intro c hc
    obtain ⟨d, -, rfl⟩ := List.mem_map.mp hc
    have hlt := d.1.toNat_lt
    have hpos : d.1.toNat ≠ 0 := d.native.nonzero
    show d.1.toNat % 0x10000 ≠ 0
    rwa [Nat.mod_eq_of_lt hlt]
  rw [List.append_nil, ← ucs2Bytes_eq] at hcount
  rw [initializeString, hcount, hn]
  rfl

/-- A string comes back inside its buffers exactly when its length was given in characters and the
byte order is kept or does not matter; never through `NW_String_stringFromUCS2`. -/
theorem conversions_iff (there : FromUcs2) (back : ToUcs2) (s : List Ucs2Unit)
    (hs : 2 * (s.length + 1) + 3 ≤ 0x100000000) :
    RoundTrips there back s ↔ KeepsUnits s there back := by
  cases there with
  | ucs2ToUTF8 length =>
      rw [KeepsUnits, ← ucs2ToUTF8_convert_iff back s length.toNat hs]
      simp only [RoundTrips, FromUcs2.convert, Option.map_eq_some_iff, Option.some_inj,
        exists_eq_right]
  | stringFromUCS2 =>
      simp only [KeepsUnits, iff_false]
      rintro ⟨storage, hthere, hconvert⟩
      -- the number of bytes stands for the number of characters
      have hlength : getByteCount ⟨ucs2Bytes s, .ofNat (2 * (s.length + 1))⟩ =
          2 * (s.length + 1) % 0x80000000 := by
        show (UInt32.ofNat (2 * (s.length + 1))).toNat % 0x80000000 = _
        rw [UInt32.toNat_ofNat']
        omega
      have hutf8 : ucs2ToUTF8 (ucs2Bytes s) (2 * (s.length + 1) % 0x80000000) = some storage := by
        simp only [FromUcs2.convert, initializeString_ucs2Bytes, Option.bind_some, stringFromUCS2,
          hlength] at hthere
        cases hto : ucs2ToUTF8 (ucs2Bytes s) (2 * (s.length + 1) % 0x80000000) with
        | none =>
            rw [hto] at hthere
            cases hthere
        | some utf8 =>
            rw [hto] at hthere
            simp only [Option.bind_some, initializeString] at hthere
            cases hcount : charBuffGetLength .utf8 utf8 with
            | none =>
                rw [hcount] at hthere
                cases hthere
            | some n =>
                rw [hcount] at hthere
                cases n with
                | bad => cases hthere
                | byteCount n => exact Option.some_inj.mp hthere
      have hmeets := (ucs2ToUTF8_convert_iff back s _ hs).mp ⟨storage, hutf8, hconvert⟩
      omega

/-- The unit of the letter A. -/
def letterA : Ucs2Unit := ⟨0x41, by decide⟩

theorem conversions_iff_letterA :
    RoundTrips (.ucs2ToUTF8 1) .stringToUCS2Char [letterA] ↔
      KeepsUnits [letterA] (.ucs2ToUTF8 1) .stringToUCS2Char :=
  conversions_iff _ _ _ (by decide)

/-- The letter A does not come back through a string, which is read beyond its four bytes, and
`NW_String_charToUCS2Buff` gives its bytes in the other order. -/
theorem not_converts_letterA :
    FromUcs2.stringFromUCS2.convert [letterA] = none ∧
      ¬ RoundTrips .stringFromUCS2 .stringToUCS2Char [letterA] ∧
      ¬ RoundTrips (.ucs2ToUTF8 1) .charToUCS2Buff [letterA] := by
  have hfault : FromUcs2.stringFromUCS2.convert [letterA] = none := by decide
  refine ⟨hfault, ?_, ?_⟩
  · rintro ⟨storage, hthere, -⟩
    rw [hfault] at hthere
    cases hthere
  · rintro ⟨storage, hthere, hconvert⟩
    have hutf8 : (FromUcs2.ucs2ToUTF8 1).convert [letterA] = some (some [0x41, 0]) := by decide
    rw [hutf8] at hthere
    obtain rfl := Option.some_inj.mp (Option.some_inj.mp hthere)
    exact absurd hconvert (by decide)

end SymbianWeb.Wbxml
