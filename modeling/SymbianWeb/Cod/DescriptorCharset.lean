import Mathlib.Data.List.DropRight
import SymbianWeb.Cod.FileSaver

/-!
# The character set of a descriptor

The text of a descriptor is converted by the platform, a piece with each call, or it is taken as
little-endian UCS-2 when the name of its character set is not known. In the second case the text is
read up to a zero unit, which the bytes need not have, and never comes out as the units of the
bytes. In the first case a negative result is not a leave: the null pointer is used when there is no
piece yet, and what is converted so far is given back otherwise. The function does what it should
when the calls come to one that leaves nothing (`convertsRight_iff`).
-/

set_option autoImplicit false

namespace SymbianWeb.Cod

def KErrNotSupported : Int := -5

def KErrCorrupt : Int := -20

/-! ## The platform converter -/

/-- What a call of `ConvertToUnicode` gives: the text, the number of bytes at the end that are not
converted or a negative error, and the state for the next call. -/
structure Conversion where
  aUnicode : List UInt16
  remaining : Int
  aState : Int

/-- `CCnvCharacterSetConverter`. A function that leaves gives the error; an identifier of zero
stands for a name that is not known. -/
structure CCnvCharacterSetConverter where
  convertStandardName : Bytes → Except Int Nat
  /-- The confidence and the identifier. -/
  autoDetectCharacterSet : Bytes → Except Int (Int × Nat)
  prepareToConvertToOrFrom : Nat → Except Int Unit
  convertToUnicode : Nat → Bytes → Int → Conversion

/-- The result of a call counts bytes of the text it is given. -/
def CCnvCharacterSetConverter.CountsRest (conv : CCnvCharacterSetConverter) : Prop :=
  ∀ id aForeign aState, (conv.convertToUnicode id aForeign aState).remaining ≤ aForeign.length

/-- The converter decodes bytes to a text: its calls, each for the bytes that the call before leaves,
come to one that leaves nothing, and none of them gives an error. -/
inductive Decodes (conv : CCnvCharacterSetConverter) (id : Nat) :
    Bytes → Int → List UInt16 → Prop where
  | last {bytes : Bytes} {state : Int} :
      (conv.convertToUnicode id bytes state).remaining = 0 →
      Decodes conv id bytes state (conv.convertToUnicode id bytes state).aUnicode
  | more {bytes : Bytes} {state : Int} {text : List UInt16} :
      0 < (conv.convertToUnicode id bytes state).remaining →
      Decodes conv id (bytes.rtake (conv.convertToUnicode id bytes state).remaining.toNat)
        (conv.convertToUnicode id bytes state).aState text →
      Decodes conv id bytes state ((conv.convertToUnicode id bytes state).aUnicode ++ text)

/-! ## The conversion -/

/-- The unit of two bytes, little-endian. -/
def unit (lo hi : UInt8) : UInt16 := UInt16.ofNat (lo.toNat + 256 * hi.toNat)

/-- The 16-bit units of the bytes. -/
def units : Bytes → List UInt16
  | lo :: hi :: rest => unit lo hi :: units rest
  | _ => []

/-- `TPtrC( const TUint16* )`: the units before the first zero unit. When there is none, units
behind the bytes are read. -/
def zeroTerminated : Bytes → Option (List UInt16)
  | lo :: hi :: rest =>
      if unit lo hi = 0 then some [] else (zeroTerminated rest).map (unit lo hi :: ·)
  | _ => none

def KZeroWidthNbsp : UInt16 := 0xFEFF

/-- The end of `ConvertToUcs2L`, where one zero-width no-break space is removed. -/
def dropMark : List UInt16 → List UInt16
  | [] => []
  | u :: text => if u = KZeroWidthNbsp then text else u :: text

/-- How `ConvertToUcs2L` ends. It crashes when it reads behind the bytes or uses the null
pointer. -/
inductive Converted where
  | leaves (code : Int)
  | crashes
  | returns (text : List UInt16)

/-- The end of the function for `ucs2buffer`. -/
def finish : Option (List UInt16) → Converted
  | none => .crashes
  | some ucs2buffer => .returns (dropMark ucs2buffer)

/-- The identifier of the character set, by name or by what the text looks like. -/
def charsetId (conv : CCnvCharacterSetConverter) (aSrc aEncoding : Bytes) : Except Int Nat :=
  if aEncoding ≠ [] then
    conv.convertStandardName aEncoding
  else
    match conv.autoDetectCharacterSet aSrc with
    | .error code => .error code
    | .ok (confidence, id) =>
        if confidence = 0 ∨ id = 0 then .error KErrNotSupported else .ok id

/-- The branch for an identifier of zero. -/
def convertUcs2 (aSrc : Bytes) : Converted :=
  if aSrc.length < 3 then
    .leaves KErrCorrupt
  else if aSrc.take 2 = [0xFF, 0xFE] then
    finish (zeroTerminated (aSrc.drop 2))
  else if aSrc.take 2 = [0xFE, 0xFF] then
    .leaves KErrNotSupported
  else
    finish (zeroTerminated aSrc)

/-- The loop of `ConvertToUcs2L`, with the result of the last call and the buffer, which is null
before the first round. -/
def convertLoop (conv : CCnvCharacterSetConverter) (id : Nat) (aSrc : Bytes) :
    Nat → Option (List UInt16) → Conversion → Option (Option (List UInt16))
  | 0, _, _ => none
  | fuel + 1, ucs2buffer, call =>
      if call.remaining < 0 then
        some ucs2buffer
      else if 0 < call.remaining then
        convertLoop conv id aSrc fuel (some (ucs2buffer.getD [] ++ call.aUnicode))
          (conv.convertToUnicode id (aSrc.rtake call.remaining.toNat) call.aState)
      else
        some (some (ucs2buffer.getD [] ++ call.aUnicode))

/-- `CodUtil::ConvertToUcs2L`; there is no result when the fuel ends before the loop. -/
def convertToUcs2L (conv : CCnvCharacterSetConverter) (fuel : Nat) (aSrc aEncoding : Bytes) :
    Option Converted :=
  match charsetId conv aSrc aEncoding with
  | .error code => some (.leaves code)
  | .ok id =>
      if id = 0 then
        some (convertUcs2 aSrc)
      else
        match conv.prepareToConvertToOrFrom id with
        | .error code => some (.leaves code)
        | .ok () =>
            (convertLoop conv id aSrc fuel none (conv.convertToUnicode id aSrc 0)).map finish

/-! ## What it should do -/

/-- The text that the bytes stand for, for an identifier of a character set or zero. -/
def Stands (conv : CCnvCharacterSetConverter) (id : Nat) (aSrc : Bytes) (text : List UInt16) :
    Prop :=
  if id = 0 then text = units aSrc else Decodes conv id aSrc 0 text

/-- The function ends, and it leaves or gives the text with one mark at its start removed. -/
def ConvertsRight (conv : CCnvCharacterSetConverter) (aSrc aEncoding : Bytes) : Prop :=
  ∃ fuel, (∃ code, convertToUcs2L conv fuel aSrc aEncoding = some (.leaves code)) ∨
    ∃ id text, charsetId conv aSrc aEncoding = .ok id ∧ Stands conv id aSrc text ∧
      convertToUcs2L conv fuel aSrc aEncoding = some (.returns (dropMark text))

/-- There is no identifier because the platform or the detection fails; or the name is not known and
the text is too short or big-endian; or it is known, and the platform refuses to prepare for it or
decodes the bytes. -/
def Convertible (conv : CCnvCharacterSetConverter) (aSrc aEncoding : Bytes) : Prop :=
  match charsetId conv aSrc aEncoding with
  | .error _ => True
  | .ok id =>
      if id = 0 then
        aSrc.length < 3 ∨ aSrc.take 2 = [0xFE, 0xFF]
      else
        (∃ code, conv.prepareToConvertToOrFrom id = .error code) ∨
          ∃ text, Decodes conv id aSrc 0 text

/-! ## Little-endian text -/

/-- The units before a zero unit are fewer than the units of the bytes. -/
theorem zeroTerminated_length (bytes : Bytes) {text : List UInt16}
    (h : zeroTerminated bytes = some text) : text.length < (units bytes).length := by
  induction bytes using units.induct generalizing text with
  | case1 lo hi rest ih =>
      rw [zeroTerminated] at h
      rw [units, List.length_cons]
      split at h
      · cases h
        exact Nat.succ_pos _
      · obtain ⟨tail, htail, rfl⟩ := Option.map_eq_some_iff.mp h
        have hlt := ih htail
        rw [List.length_cons]
        omega
  | case2 bytes hshort =>
      rw [zeroTerminated] at h
      · cases h
      · exact hshort

theorem dropMark_length_le (text : List UInt16) : (dropMark text).length ≤ text.length := by
  cases text with
  | nil => exact Nat.le_refl 0
  | cons u text =>
      rw [dropMark]
      split
      · exact Nat.le_succ _
      · exact Nat.le_refl _

/-- The bytes of the mark are the only ones of its unit. -/
theorem unit_eq_mark_iff (lo hi : UInt8) : unit lo hi = KZeroWidthNbsp ↔ lo = 0xFF ∧ hi = 0xFE := by
  have hlo := lo.toNat_lt
  have hhi := hi.toNat_lt
  rw [unit, KZeroWidthNbsp, ← UInt16.toNat_inj, ← UInt8.toNat_inj, ← UInt8.toNat_inj,
    UInt16.toNat_ofNat']
  show (lo.toNat + 256 * hi.toNat) % 65536 = 65279 ↔ lo.toNat = 255 ∧ hi.toNat = 254
  omega

/-- What is read through the pointer is never the units of the bytes. -/
theorem finish_ne_units (bytes : Bytes) :
    finish (zeroTerminated bytes) ≠ .returns (units bytes) := by
  cases hread : zeroTerminated bytes with
  | none => exact fun h => Converted.noConfusion h
  | some text =>
      intro h
      -- The text is shorter, with its mark or without.
      have hlt := zeroTerminated_length bytes hread
      have hle := dropMark_length_le text
      have heq := congrArg List.length (Converted.returns.inj h)
      omega

theorem dropMark_units (lo hi : UInt8) (rest : Bytes) :
    dropMark (units (lo :: hi :: rest)) =
      if lo = 0xFF ∧ hi = 0xFE then units rest else units (lo :: hi :: rest) := by
  rw [units, dropMark]
  simp only [unit_eq_mark_iff]

/-- The branch for UCS-2 leaves for a short or big-endian text, and never gives the units. -/
theorem convertUcs2_cases (aSrc : Bytes) :
    ((aSrc.length < 3 ∨ aSrc.take 2 = [0xFE, 0xFF]) ∧ ∃ code, convertUcs2 aSrc = .leaves code) ∨
      (¬ (aSrc.length < 3 ∨ aSrc.take 2 = [0xFE, 0xFF]) ∧
        (∀ code, convertUcs2 aSrc ≠ .leaves code) ∧
        convertUcs2 aSrc ≠ .returns (dropMark (units aSrc))) := by
  have hfinish : ∀ read code, finish read ≠ .leaves code := by
    intro read code
    cases read <;> exact fun h => Converted.noConfusion h
  by_cases hshort : aSrc.length < 3
  · exact Or.inl ⟨Or.inl hshort, KErrCorrupt, if_pos hshort⟩
  · match aSrc, hshort with
    | [], hshort => simp at hshort
    | [_], hshort => simp at hshort
    | lo :: hi :: rest, hshort =>
        rw [convertUcs2, if_neg hshort, List.take_succ_cons, List.take_succ_cons, List.take_zero]
        by_cases hlittle : [lo, hi] = [0xFF, 0xFE]
        · obtain ⟨rfl, rfl⟩ : lo = 0xFF ∧ hi = 0xFE := by simpa using hlittle
          refine Or.inr ⟨?_, ?_, ?_⟩
          · rintro (h | h)
            · exact hshort h
            · exact absurd h (by decide)
          · rw [if_pos rfl]
            exact hfinish _
          · rw [if_pos rfl, dropMark_units, if_pos ⟨rfl, rfl⟩]
            exact finish_ne_units rest
        · rw [if_neg hlittle]
          by_cases hbig : [lo, hi] = [0xFE, 0xFF]
          · exact Or.inl ⟨Or.inr hbig, KErrNotSupported, if_pos hbig⟩
          · rw [if_neg hbig]
            refine Or.inr ⟨not_or.mpr ⟨hshort, hbig⟩, hfinish _, ?_⟩
            rw [dropMark_units, if_neg fun h => hlittle (by rw [h.1, h.2])]
            exact finish_ne_units _

/-! ## The pieces -/

section Loop

variable {conv : CCnvCharacterSetConverter} {id : Nat} {aSrc : Bytes}

/-- The loop glues the text of the bytes that are left to what the buffer has. -/
theorem convertLoop_of_decodes (hcounts : conv.CountsRest) {rest : Bytes} {state : Int}
    {text : List UInt16} (h : Decodes conv id rest state text) (hrest : rest <:+ aSrc)
    (ucs2buffer : Option (List UInt16)) :
    ∃ fuel, convertLoop conv id aSrc fuel ucs2buffer (conv.convertToUnicode id rest state) =
      some (some (ucs2buffer.getD [] ++ text)) := by
  induction h generalizing ucs2buffer with
  | last hremaining =>
      refine ⟨1, ?_⟩
      rw [convertLoop, hremaining, if_neg (by decide), if_neg (by decide)]
  | @more rest state text hremaining _ ih =>
      -- The bytes that are left are the same from the end of this rest and from the end of the source.
      have hle := hcounts id rest state
      have hright : aSrc.rtake (conv.convertToUnicode id rest state).remaining.toNat =
          rest.rtake (conv.convertToUnicode id rest state).remaining.toNat := by
        obtain ⟨before, rfl⟩ := hrest
        have hsub : (before ++ rest).length -
            (conv.convertToUnicode id rest state).remaining.toNat =
            before.length + (rest.length -
              (conv.convertToUnicode id rest state).remaining.toNat) := by
          rw [List.length_append]
          omega
        rw [List.rtake, List.rtake, hsub, List.drop_append]
        simp
      obtain ⟨fuel, hfuel⟩ := ih ((List.drop_suffix _ _).trans hrest)
        (some (ucs2buffer.getD [] ++ (conv.convertToUnicode id rest state).aUnicode))
      refine ⟨fuel + 1, ?_⟩
      rw [convertLoop, if_neg (by omega), if_pos hremaining, hright, hfuel, Option.getD_some,
        List.append_assoc]

end Loop

/-! ## When the conversion is right -/

/-- The function leaves or gives the text of the bytes exactly when the detection fails, the
platform refuses, a text of an unknown character set is too short or big-endian, or the platform
decodes the bytes. -/
theorem convertsRight_iff (conv : CCnvCharacterSetConverter) (hcounts : conv.CountsRest)
    (aSrc aEncoding : Bytes) :
    ConvertsRight conv aSrc aEncoding ↔ Convertible conv aSrc aEncoding := by
  unfold ConvertsRight Convertible convertToUcs2L
  cases hid : charsetId conv aSrc aEncoding with
  | error code => exact iff_of_true ⟨0, Or.inl ⟨code, rfl⟩⟩ trivial
  | ok id =>
      by_cases hzero : id = 0
      · simp only [hzero, if_true]
        rcases convertUcs2_cases aSrc with ⟨hcond, hleaves⟩ | ⟨hcond, hleaves, hreturns⟩
        · obtain ⟨code, hcode⟩ := hleaves
          exact iff_of_true ⟨0, Or.inl ⟨code, congrArg some hcode⟩⟩ hcond
        · refine iff_of_false ?_ hcond
          rintro ⟨-, ⟨code, hcode⟩ | ⟨id', text, hid', htext, hresult⟩⟩
          · exact hleaves code (Option.some.inj hcode)
          · cases hid'
            rw [Stands, if_pos rfl] at htext
            subst htext
            exact hreturns (Option.some.inj hresult)
      · simp only [hzero, if_false]
        cases hprepare : conv.prepareToConvertToOrFrom id with
        | error code => exact iff_of_true ⟨0, Or.inl ⟨code, rfl⟩⟩ (Or.inl ⟨code, rfl⟩)
        | ok _ =>
            constructor
            · rintro ⟨fuel, ⟨code, hcode⟩ | ⟨id', text, hid', htext, -⟩⟩
              · -- The loop gives a buffer or the null pointer; it does not leave.
                obtain ⟨buffer, -, hbuffer⟩ := Option.map_eq_some_iff.mp hcode
                cases buffer <;> exact Converted.noConfusion hbuffer
              · cases hid'
                rw [Stands, if_neg hzero] at htext
                exact Or.inr ⟨text, htext⟩
            · rintro (⟨code, hcode⟩ | ⟨text, htext⟩)
              · cases hcode
              · obtain ⟨fuel, hfuel⟩ :=
                  convertLoop_of_decodes hcounts htext List.suffix_rfl none
                refine ⟨fuel, Or.inr ⟨id, text, rfl, ?_, ?_⟩⟩
                · rw [Stands, if_neg hzero]
                  exact htext
                · simp only [hfuel]
                  rfl

/-- A converter that knows ISO 8859-1: a byte is a character, and a call converts at most as many as
fit in the buffer of the loop. -/
def latin1 : CCnvCharacterSetConverter where
  convertStandardName name :=
    .ok (if name = [105, 115, 111, 45, 56, 56, 53, 57, 45, 49] then 0x10003B10 else 0)
  autoDetectCharacterSet _ := .ok (0, 0)
  prepareToConvertToOrFrom _ := .ok ()
  convertToUnicode _ aForeign aState :=
    ⟨(aForeign.take 256).map UInt8.toUInt16, (aForeign.length - 256 : Nat), aState⟩

theorem countsRest_latin1 : latin1.CountsRest := by
  intro id aForeign aState
  show ((aForeign.length - 256 : Nat) : Int) ≤ aForeign.length
  omega

theorem convertsRight_iff_latin1 :
    ConvertsRight latin1 [99, 111, 100] [105, 115, 111, 45, 56, 56, 53, 57, 45, 49] :=
  (convertsRight_iff latin1 countsRest_latin1 _ _).mpr
    (Or.inr ⟨_, Decodes.last (by decide)⟩)

/-- Three bytes in a character set whose name is not known: the second unit is behind them in
half. -/
theorem not_convertsRight_unknown : ¬ ∀ (conv : CCnvCharacterSetConverter) (aSrc aEncoding : Bytes),
    conv.CountsRest → ConvertsRight conv aSrc aEncoding := by
  intro h
  obtain ⟨fuel, ⟨code, hcode⟩ | ⟨id, text, -, -, hresult⟩⟩ :=
    h latin1 [99, 111, 100] [120] countsRest_latin1
  · exact Converted.noConfusion (Option.some.inj hcode)
  · exact Converted.noConfusion (Option.some.inj hresult)

end SymbianWeb.Cod
