import Mathlib.Data.Fintype.Basic
import SymbianWeb.Cxml.Charset

/-!
# Well-formed strings and their length

A well-formed string is a sequence of encoded code points and a terminator. `NW_String_valid` finds
its end by the lengths of the characters; `NW_String_charBuffGetLength` decodes the characters and
stops at the first one that is zero. A character of four bytes is cut to 16 bits when it is decoded,
so the two disagree on the code points U+10000, U+20000 and so on, which are cut to zero.

`NW_WBXML_Parser_getInlineStrLen` asks both. It gives the bytes up to the terminator exactly for the
strings without such a code point (`getInlineStrLen_iff`).
-/

set_option autoImplicit false

namespace SymbianWeb.Wbxml

/-- A byte of UTF-8 behind the first one, with six bits of the code point. -/
def continuationByte (bits : Nat) : UInt8 := .ofNat (0x80 + bits % 0x40)

/-- The encodings of a code point in a charset. -/
inductive Encodes : Charset → Nat → Bytes → Prop
  | iso10646Ucs2 (c₀ c₁ : UInt8) : Encodes .iso10646Ucs2 (c₀.toNat + 256 * c₁.toNat) [c₀, c₁]
  | iso88591 (c : UInt8) : Encodes .iso88591 c.toNat [c]
  | usAscii (c : UInt8) (h : c.toNat < 0x80) : Encodes .usAscii c.toNat [c]
  | utf8One {v : Nat} (h : v < 0x80) : Encodes .utf8 v [.ofNat v]
  | utf8Two {v : Nat} (h : v < 0x800) :
      Encodes .utf8 v [.ofNat (0xC0 + v / 0x40), continuationByte v]
  | utf8Three {v : Nat} (h : v < 0x10000) :
      Encodes .utf8 v
        [.ofNat (0xE0 + v / 0x1000), continuationByte (v / 0x40), continuationByte v]
  | utf8Four {v : Nat} (h : v < 0x110000) :
      Encodes .utf8 v [.ofNat (0xF0 + v / 0x40000), continuationByte (v / 0x1000),
        continuationByte (v / 0x40), continuationByte v]

/-- A character of a well-formed string: a code point that is not zero, and its encoding. -/
structure EncodedChar (charset : Charset) where
  codePoint : Nat
  bytes : Bytes
  encodes : Encodes charset codePoint bytes
  nonzero : codePoint ≠ 0

def terminator : Charset → Bytes
  | .iso10646Ucs2 => [0, 0]
  | _ => [0]

/-- The bytes of a string with its terminator. -/
def stringBytes {charset : Charset} (s : List (EncodedChar charset)) : Bytes :=
  s.flatMap (·.bytes) ++ terminator charset

/-! ## One character -/

theorem continuationByte_low6 (bits : Nat) : low6 (continuationByte bits) = bits % 0x40 := by
  have hall : ∀ x : Fin 0x40, low6 (.ofNat (0x80 + x)) = x := by decide
  exact hall ⟨bits % 0x40, Nat.mod_lt _ (by decide)⟩

theorem isContinuation_continuationByte (bits : Nat) :
    isContinuation (continuationByte bits) = true := by
  have hall : ∀ x : Fin 0x40, isContinuation (.ofNat (0x80 + x)) = true := by decide
  exact hall ⟨bits % 0x40, Nat.mod_lt _ (by decide)⟩

/-- The first bytes of the encodings by their upper half. -/
theorem leadOne {v : Nat} (h : v < 0x80) : (UInt8.ofNat v) >>> 4 < 8 := by
  have hall : ∀ x : Fin 0x80, (UInt8.ofNat x) >>> 4 < 8 := by decide
  exact hall ⟨v, h⟩

theorem leadTwo {x : Nat} (h : x < 0x20) :
    ((UInt8.ofNat (0xC0 + x)) >>> 4 = 12 ∨ (UInt8.ofNat (0xC0 + x)) >>> 4 = 13) ∧
      ((UInt8.ofNat (0xC0 + x)) &&& 0x1F).toNat = x := by
  have hall : ∀ x : Fin 0x20,
      ((UInt8.ofNat (0xC0 + x)) >>> 4 = 12 ∨ (UInt8.ofNat (0xC0 + x)) >>> 4 = 13) ∧
        ((UInt8.ofNat (0xC0 + x)) &&& 0x1F).toNat = x := by decide
  exact hall ⟨x, h⟩

theorem leadThree {x : Nat} (h : x < 0x10) :
    (UInt8.ofNat (0xE0 + x)) >>> 4 = 14 ∧ ((UInt8.ofNat (0xE0 + x)) &&& 0x0F).toNat = x := by
  have hall : ∀ x : Fin 0x10,
      (UInt8.ofNat (0xE0 + x)) >>> 4 = 14 ∧ ((UInt8.ofNat (0xE0 + x)) &&& 0x0F).toNat = x := by
    decide
  exact hall ⟨x, h⟩

theorem leadFour {x : Nat} (h : x < 0x08) :
    (UInt8.ofNat (0xF0 + x)) >>> 4 = 15 ∧ ((UInt8.ofNat (0xF0 + x)) &&& 0x07).toNat = x := by
  have hall : ∀ x : Fin 0x08,
      (UInt8.ofNat (0xF0 + x)) >>> 4 = 15 ∧ ((UInt8.ofNat (0xF0 + x)) &&& 0x07).toNat = x := by
    decide
  exact hall ⟨x, h⟩

theorem toUInt16_eq_ofNat (c : UInt8) : c.toUInt16 = .ofNat c.toNat := by
  rw [← UInt16.toNat_inj, UInt8.toNat_toUInt16, UInt16.toNat_ofNat']
  have hlt := c.toNat_lt
  omega

theorem toNat_ofNat_of_lt {v : Nat} (h : v < 0x100) : (UInt8.ofNat v).toNat = v := by
  rw [UInt8.toNat_ofNat']
  exact Nat.mod_eq_of_lt h

/-- `ReadUTF8Char` on a first byte of each kind. -/
theorem readUTF8Char_one {c : UInt8} (h : c >>> 4 < 8) (rest : Bytes) :
    readUTF8Char (c :: rest) = some (.char c.toUInt16 1) := by
  rw [readUTF8Char, if_pos h]

theorem readUTF8Char_two {c : UInt8} (h : c >>> 4 = 12 ∨ c >>> 4 = 13) (rest : Bytes) :
    readUTF8Char (c :: rest) = readTwoBytes c rest := by
  have hone : ¬ c >>> 4 < 8 := by
    rcases h with h | h <;> rw [h] <;> decide
  rw [readUTF8Char, if_neg hone, if_pos h]

theorem readUTF8Char_three {c : UInt8} (h : c >>> 4 = 14) (rest : Bytes) :
    readUTF8Char (c :: rest) = readThreeBytes c rest := by
  have hone : ¬ c >>> 4 < 8 := by
    rw [h]
    decide
  have htwo : ¬ (c >>> 4 = 12 ∨ c >>> 4 = 13) := by
    rw [h]
    decide
  rw [readUTF8Char, if_neg hone, if_neg htwo, if_pos h]

theorem readUTF8Char_four {c : UInt8} (h : c >>> 4 = 15) (rest : Bytes) :
    readUTF8Char (c :: rest) = readFourBytes c rest := by
  have hone : ¬ c >>> 4 < 8 := by
    rw [h]
    decide
  have htwo : ¬ (c >>> 4 = 12 ∨ c >>> 4 = 13) := by
    rw [h]
    decide
  have hthree : ¬ c >>> 4 = 14 := by
    rw [h]
    decide
  rw [readUTF8Char, if_neg hone, if_neg htwo, if_neg hthree, if_pos h]

/-- The reader gives the code point of an encoding, cut to 16 bits. -/
theorem readChar_encodes {charset : Charset} {v : Nat} {bytes : Bytes}
    (h : Encodes charset v bytes) (more : Bytes) :
    readChar charset (bytes ++ more) = some (.char (.ofNat v) bytes.length) := by
  cases h with
  | iso10646Ucs2 c₀ c₁ => rfl
  | iso88591 c =>
      show some (ReadChar.char c.toUInt16 1) = _
      rw [toUInt16_eq_ofNat]
      rfl
  | usAscii c hlt =>
      show some (ReadChar.char c.toUInt16 1) = _
      rw [toUInt16_eq_ofNat]
      rfl
  | utf8One hlt =>
      show readUTF8Char (UInt8.ofNat v :: more) = _
      rw [readUTF8Char_one (leadOne hlt), toUInt16_eq_ofNat, toNat_ofNat_of_lt (by omega)]
      rfl
  | utf8Two hlt =>
      obtain ⟨hkind, hbits⟩ := leadTwo (x := v / 0x40) (by omega)
      show readUTF8Char (_ :: continuationByte v :: more) = _
      rw [readUTF8Char_two hkind, readTwoBytes, isContinuation_continuationByte, hbits,
        continuationByte_low6]
      have hv : v / 0x40 * 64 + v % 0x40 = v := by omega
      simp [hv]
  | utf8Three hlt =>
      obtain ⟨hkind, hbits⟩ := leadThree (x := v / 0x1000) (by omega)
      show readUTF8Char (_ :: continuationByte (v / 0x40) :: continuationByte v :: more) = _
      rw [readUTF8Char_three hkind, readThreeBytes, isContinuation_continuationByte, hbits,
        continuationByte_low6, continuationByte_low6]
      have hv : (v / 0x1000 * 64 + v / 0x40 % 0x40) * 64 + v % 0x40 = v := by omega
      simp [hv]
  | utf8Four hlt =>
      obtain ⟨hkind, hbits⟩ := leadFour (x := v / 0x40000) (by omega)
      show readUTF8Char (_ :: continuationByte (v / 0x1000) :: continuationByte (v / 0x40) ::
        continuationByte v :: more) = _
      rw [readUTF8Char_four hkind, readFourBytes, isContinuation_continuationByte, hbits,
        continuationByte_low6, continuationByte_low6, continuationByte_low6]
      have hv : ((v / 0x40000 * 64 + v / 0x1000 % 0x40) * 64 + v / 0x40 % 0x40) * 64 +
          v % 0x40 = v := by omega
      simp [hv]

/-- `StringValidUTF8` steps over a character that is not zero by its first byte. -/
theorem stringValidUTF8From_step {c : UInt8} {rest : Bytes} {n : Nat} (hc : c ≠ 0) :
    stringValidUTF8From 0 (c :: rest) (n + 1) =
      if c >>> 4 < 8 then stringValidUTF8From 0 rest n
      else if c >>> 4 = 12 ∨ c >>> 4 = 13 then stringValidUTF8From 1 rest n
      else if c >>> 4 = 14 then stringValidUTF8From 2 rest n
      else if c >>> 4 = 15 then stringValidUTF8From 3 rest n
      else some false := by
  rw [stringValidUTF8From, if_neg hc]

theorem ofNat_ne_zero {v : Nat} (hv : v ≠ 0) (hlt : v < 0x100) : UInt8.ofNat v ≠ 0 := by
  intro h
  have hnat := congrArg UInt8.toNat h
  rw [toNat_ofNat_of_lt hlt] at hnat
  exact hv hnat

/-- The check steps over a character of UTF-8. -/
theorem stringValidUTF8From_encodes {v : Nat} {bytes : Bytes} (h : Encodes .utf8 v bytes)
    (hv : v ≠ 0) (more : Bytes) (n : Nat) :
    stringValidUTF8From 0 (bytes ++ more) (bytes.length + n) = stringValidUTF8From 0 more n := by
  cases h with
  | utf8One hlt =>
      rw [List.length_singleton, Nat.add_comm, List.singleton_append,
        stringValidUTF8From_step (ofNat_ne_zero hv (by omega)), if_pos (leadOne hlt)]
  | utf8Two hlt =>
      obtain ⟨hkind, -⟩ := leadTwo (x := v / 0x40) (by omega)
      have hone : ¬ UInt8.ofNat (0xC0 + v / 0x40) >>> 4 < 8 := by
        rcases hkind with h | h <;> rw [h] <;> decide
      show stringValidUTF8From 0 (_ :: continuationByte v :: more) (2 + n) = _
      rw [Nat.add_comm 2 n, stringValidUTF8From_step (ofNat_ne_zero (by omega) (by omega)),
        if_neg hone, if_pos hkind]
      rfl
  | utf8Three hlt =>
      obtain ⟨hkind, -⟩ := leadThree (x := v / 0x1000) (by omega)
      show stringValidUTF8From 0
        (_ :: continuationByte (v / 0x40) :: continuationByte v :: more) (3 + n) = _
      rw [Nat.add_comm 3 n, stringValidUTF8From_step (ofNat_ne_zero (by omega) (by omega)), hkind]
      rfl
  | utf8Four hlt =>
      obtain ⟨hkind, -⟩ := leadFour (x := v / 0x40000) (by omega)
      show stringValidUTF8From 0 (_ :: continuationByte (v / 0x1000) ::
        continuationByte (v / 0x40) :: continuationByte v :: more) (4 + n) = _
      rw [Nat.add_comm 4 n, stringValidUTF8From_step (ofNat_ne_zero (by omega) (by omega)), hkind]
      rfl

/-- The check steps over a character that is not zero. The bound of the loop for UCS-2 is one less
than the length, so some of the bytes must lie behind the character. -/
theorem stringValid_encodes {charset : Charset} {v : Nat} {bytes : Bytes}
    (h : Encodes charset v bytes) (hv : v ≠ 0) (more : Bytes) {n : Nat} (hn : 0 < n)
    (hfits : bytes.length + n < 0x100000000) :
    stringValid charset (bytes ++ more) (bytes.length + n) = stringValid charset more n := by
  cases h with
  | iso10646Ucs2 c₀ c₁ =>
      have hne : ¬ (c₀ = 0 ∧ c₁ = 0) := by
        rintro ⟨rfl, rfl⟩
        exact hv rfl
      obtain ⟨m, rfl⟩ : ∃ m, n = m + 1 := ⟨n - 1, by omega⟩
      show stringValidUCS2From (c₀ :: c₁ :: more) _ = stringValidUCS2From more _
      rw [ucs2Bound (by omega) hfits, ucs2Bound (by omega) (by omega)]
      show stringValidUCS2From (c₀ :: c₁ :: more) (2 + (m + 1) - 1) = _
      have hbound : 2 + (m + 1) - 1 = m + 2 := by omega
      rw [hbound, stringValidUCS2From, if_neg hne]
      rfl
  | iso88591 c =>
      have hne : c ≠ 0 := by
        rintro rfl
        exact hv rfl
      show stringValidSingleByte (c :: more) (1 + n) = _
      rw [Nat.add_comm 1 n, stringValidSingleByte, if_neg hne]
      rfl
  | usAscii c hlt =>
      have hne : c ≠ 0 := by
        rintro rfl
        exact hv rfl
      show stringValidSingleByte (c :: more) (1 + n) = _
      rw [Nat.add_comm 1 n, stringValidSingleByte, if_neg hne]
      rfl
  | utf8One hlt => exact stringValidUTF8From_encodes (.utf8One hlt) hv more n
  | utf8Two hlt => exact stringValidUTF8From_encodes (.utf8Two hlt) hv more n
  | utf8Three hlt => exact stringValidUTF8From_encodes (.utf8Three hlt) hv more n
  | utf8Four hlt => exact stringValidUTF8From_encodes (.utf8Four hlt) hv more n

theorem length_encodes_pos {charset : Charset} {v : Nat} {bytes : Bytes}
    (h : Encodes charset v bytes) : 0 < bytes.length := by
  cases h <;> simp

/-- The count goes on behind a character, unless it is taken for the terminator. -/
theorem charBuffGetLength_encodes {charset : Charset} {v : Nat} {bytes : Bytes}
    (h : Encodes charset v bytes) (more : Bytes) :
    charBuffGetLength charset (bytes ++ more) =
      if v % 0x10000 = 0 then some (.byteCount bytes.length)
      else (charBuffGetLength charset more).map (.add bytes.length) := by
  have hread := readChar_encodes h more
  have hpos := length_encodes_pos h
  have hzero : UInt16.ofNat v = 0 ↔ v % 0x10000 = 0 := by
    rw [← UInt16.toNat_inj, UInt16.toNat_ofNat']
    rfl
  cases bytes with
  | nil => exact absurd hpos (Nat.lt_irrefl 0)
  | cons c bytes =>
      rw [List.cons_append] at hread ⊢
      rw [charBuffGetLength, charBuffGetLengthFrom, hread]
      simp only [hzero]
      split
      · rfl
      · rw [charBuffGetLengthFrom_skip, Option.map_map]
        show Option.map _ (charBuffGetLengthFrom charset 0 ((bytes ++ more).drop bytes.length)) = _
        rw [List.drop_left]
        congr 1
        funext r
        simp [Function.comp]

/-! ## Whole strings -/

@[simp] theorem stringBytes_nil {charset : Charset} :
    stringBytes ([] : List (EncodedChar charset)) = terminator charset := rfl

theorem stringBytes_cons {charset : Charset} (c : EncodedChar charset)
    (s : List (EncodedChar charset)) : stringBytes (c :: s) = c.bytes ++ stringBytes s := by
  rw [stringBytes, stringBytes, List.flatMap_cons, List.append_assoc]

theorem length_stringBytes_pos {charset : Charset} (s : List (EncodedChar charset)) :
    0 < (stringBytes s).length := by
  have hterm : 0 < (terminator charset).length := by cases charset <;> decide
  rw [stringBytes, List.length_append]
  omega

/-- The check finds the terminator of a well-formed string, whatever lies behind it. -/
theorem stringValid_stringBytes {charset : Charset} (s : List (EncodedChar charset)) (rest : Bytes)
    (hfits : (stringBytes s).length + rest.length < 0x100000000) :
    stringValid charset (stringBytes s ++ rest) ((stringBytes s).length + rest.length) =
      some true := by
  induction s with
  | nil =>
      cases charset with
      | iso10646Ucs2 =>
          show stringValidUCS2From (0 :: 0 :: rest) _ = some true
          rw [ucs2Bound (by simp [terminator]) hfits]
          show stringValidUCS2From (0 :: 0 :: rest) (2 + rest.length - 1) = some true
          cases hrest : rest.length with
          | zero => rfl
          | succ n =>
              have hbound : 2 + (n + 1) - 1 = n + 2 := by omega
              rw [hbound]
              rfl
      | iso88591 =>
          show stringValidSingleByte (0 :: rest) (1 + rest.length) = some true
          rw [Nat.add_comm]
          rfl
      | utf8 =>
          show stringValidUTF8From 0 (0 :: rest) (1 + rest.length) = some true
          rw [Nat.add_comm]
          rfl
      | usAscii =>
          show stringValidSingleByte (0 :: rest) (1 + rest.length) = some true
          rw [Nat.add_comm]
          rfl
  | cons c s ih =>
      have hpos := length_stringBytes_pos s
      rw [stringBytes_cons, List.length_append] at hfits ⊢
      rw [List.append_assoc, Nat.add_assoc,
        stringValid_encodes c.encodes c.nonzero _ (by omega) (by omega)]
      exact ih (by omega)

/-- The count takes the first character for the terminator that is zero in its low 16 bits. -/
theorem charBuffGetLength_stringBytes {charset : Charset} (s : List (EncodedChar charset))
    (rest : Bytes) :
    ∃ n, charBuffGetLength charset (stringBytes s ++ rest) = some (.byteCount n) ∧
      n ≤ (stringBytes s).length ∧
      (n = (stringBytes s).length ↔ ∀ c ∈ s, c.codePoint % 0x10000 ≠ 0) := by
  induction s with
  | nil =>
      refine ⟨(terminator charset).length, ?_, Nat.le_refl _, by simp⟩
      cases charset <;> rfl
  | cons c s ih =>
      obtain ⟨n, hcount, hle, hiff⟩ := ih
      have hpos := length_stringBytes_pos s
      rw [stringBytes_cons, List.append_assoc, charBuffGetLength_encodes c.encodes, hcount,
        List.length_append]
      by_cases hcut : c.codePoint % 0x10000 = 0
      · refine ⟨c.bytes.length, by rw [if_pos hcut], by omega, ?_⟩
        simp only [List.forall_mem_cons, hcut, ne_eq, not_true_eq_false, false_and, iff_false]
        omega
      · refine ⟨n + c.bytes.length, by rw [if_neg hcut]; rfl, by omega, ?_⟩
        rw [List.forall_mem_cons, ← hiff]
        constructor
        · intro h
          exact ⟨hcut, by omega⟩
        · rintro ⟨-, h⟩
          omega

/-! ## Inline strings -/

/-- A number of 32 bits, read as a signed one. -/
def toInt32 (n : Nat) : Int := Int.bmod n 0x100000000

/-- `NW_WBXML_Parser_getInlineStrLen` at the pointer `p` with `left` bytes left. -/
def getInlineStrLen (charset : Charset) (p : Bytes) (left : Nat) : Option Int := do
  let valid ← stringValid charset p left
  if !valid then return -1
  let len ← charBuffGetLength charset p
  match len with
  | .bad => return -1
  | .byteCount len => return toInt32 len

theorem toInt32_eq_iff {m n : Nat} (h : m ≤ n) (hfits : n < 0x100000000) :
    toInt32 m = n ↔ m = n ∧ n < 0x80000000 := by
  have hsigned : toInt32 m = Int.bmod m 0x100000000 := rfl
  have hbmod := Int.bmod_def m 0x100000000
  split at hbmod <;> omega

/-- The length of a well-formed inline string is what it should be exactly when no character of it
is a code point that ends in 16 zero bits, and the length is a positive number of 32 bits. -/
theorem getInlineStrLen_iff {charset : Charset} (s : List (EncodedChar charset)) (rest : Bytes)
    (hfits : (stringBytes s).length + rest.length < 0x100000000) :
    getInlineStrLen charset (stringBytes s ++ rest) ((stringBytes s).length + rest.length) =
        some ((stringBytes s).length : Int) ↔
      (∀ c ∈ s, c.codePoint % 0x10000 ≠ 0) ∧ (stringBytes s).length < 0x80000000 := by
  obtain ⟨n, hcount, hle, hiff⟩ := charBuffGetLength_stringBytes s rest
  have hresult : getInlineStrLen charset (stringBytes s ++ rest)
      ((stringBytes s).length + rest.length) = some (toInt32 n) := by
    simp [getInlineStrLen, stringValid_stringBytes s rest hfits, hcount]
  rw [hresult, Option.some.injEq, toInt32_eq_iff hle (by omega), hiff]

theorem letterA_ne_zero : (0x61 : Nat) ≠ 0 := by decide

/-- U+10000 and `a`: the reader takes the first character for the terminator. -/
def linearBSyllable : List (EncodedChar .utf8) :=
  [⟨0x10000, [0xF0, 0x90, 0x80, 0x80], .utf8Four (by decide), by decide⟩,
    ⟨0x61, [0x61], .utf8One (by decide), letterA_ne_zero⟩]

theorem getInlineStrLen_linearBSyllable :
    (stringBytes linearBSyllable).length = 6 ∧
      getInlineStrLen .utf8 (stringBytes linearBSyllable ++ [0x01]) 7 = some 4 := by
  decide

theorem getInlineStrLen_iff_letter :
    getInlineStrLen .utf8 ([0x61, 0] ++ [0x01]) (2 + 1) = some 2 ↔
      (∀ c ∈ linearBSyllable.tail, c.codePoint % 0x10000 ≠ 0) ∧ 2 < 0x80000000 :=
  getInlineStrLen_iff linearBSyllable.tail [0x01] (by decide)

end SymbianWeb.Wbxml
