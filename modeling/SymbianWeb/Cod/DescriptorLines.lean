import Mathlib
import SymbianWeb.Cod.CodParser
import SymbianWeb.Library.Scanning

/-!
# The lines of a COD descriptor

What the lines of a descriptor say is stated here without the cursor of the parser: a line is blank,
or it has a name, a colon and, when the name is one of an attribute, a value. For every text the
parser ends and reads inside of it; it leaves when a line is none of these or an attribute does not
take its value, and otherwise each attribute has the value of its last line (`parseL_lines`).

Two kinds of lines are apart: those with a tab behind the value, which the parser refuses although
white space may stand there, and those with a size that the parser takes in part or does not set.
-/

set_option autoImplicit false

namespace SymbianWeb.Cod

open DownloadData (codNameMaxLen codTypeMaxLen)
open Scanning

/-! ## What a descriptor says -/

def isBlank (c : UInt16) : Bool := decide (c = KCodSpace) || decide (c = KCodHorizTab)

def isControlChar (c : UInt16) : Bool := decide (c ≤ KCodLowControl) || decide (c = KCodUpControl)

/-- Characters of names. -/
def isNameChar (c : UInt16) : Bool :=
  !isControlChar c && !(isBlank c || separators.contains c)

/-- Characters of values, the blanks between others included. -/
def isTextChar (c : UInt16) : Bool := !isControlChar c || isBlank c

/-- The lines of a text without their ends. A line ends with a line feed, which may have one
carriage return before it, or with the text. -/
def textLines : Text → List Text
  | [] => [[]]
  | c :: rest =>
      if c = KCodLineFeed then
        [] :: textLines rest
      else if c = KCodCarriageRet ∧ rest.head? = some KCodLineFeed then
        textLines rest
      else
        match textLines rest with
        | [] => [[c]]
        | line :: lines => (c :: line) :: lines

/-- A line has a name, with optional blanks around it, and a colon. -/
def NameColon (line name rest : Text) : Prop :=
  ∃ lead gap, line = lead ++ (name ++ (gap ++ KCodColon :: rest)) ∧ (∀ c ∈ lead, isBlank c) ∧
    name ≠ [] ∧ (∀ c ∈ name, isNameChar c) ∧ ∀ c ∈ gap, isBlank c

/-- What follows a colon is a value with optional blanks around it. -/
def HasValue (rest value behind : Text) : Prop :=
  ∃ gap, rest = gap ++ (value ++ behind) ∧ (∀ c ∈ gap, isBlank c) ∧ (∀ c ∈ value, isTextChar c) ∧
    (∀ c ∈ value.head?, ¬ isBlank c) ∧ (∀ c ∈ value.getLast?, ¬ isBlank c) ∧
    (∀ c ∈ behind, isBlank c) ∧ (value = [] → behind = [])

/-- A line that says nothing is blank, or its name is not known; other lines say the value of an
attribute. -/
inductive LineReads (line : Text) : Option (TCodAttr × Text) → Prop where
  | blank : (∀ c ∈ line, isBlank c) → LineReads line none
  | unknown {name rest : Text} : NameColon line name rest → codAttr name = .eCodUnknownAttr →
      LineReads line none
  | attr {name rest value behind : Text} : NameColon line name rest →
      codAttr name ≠ .eCodUnknownAttr → HasValue rest value behind →
      LineReads line (some (codAttr name, value))

/-- The values that an attribute takes. -/
def Takes : TCodAttr → Text → Prop
  | .eCodVendor, value => value.length ≤ codVendorMaxLen
  | .eCodNextUrl, value => value.length ≤ codNextUrlMaxLen
  | .eCodNextUrlAtError, value => value.length ≤ codNextUrlAtErrorMaxLen
  | .eCodType, value => value ≠ [] ∧ value.length ≤ codTypeMaxLen
  | .eCodSize, value =>
      value ≠ [] ∧ (∀ c ∈ value, isDigit c) ∧ 0 < decimal value ∧ decimal value < 2 ^ 31
  | _, _ => True

/-- A line is blank, or it has a name and a colon, and for an attribute that is known a value that
the attribute takes. -/
def WellFormed (line : Text) : Prop :=
  ∃ said, LineReads line said ∧ ∀ pair ∈ said, Takes pair.1 pair.2

/-- There is no tab behind a value, and a size is a number that is set or is refused. -/
def Regular (line : Text) : Prop :=
  ∀ name rest value behind, NameColon line name rest → codAttr name ≠ .eCodUnknownAttr →
    HasValue rest value behind →
    KCodHorizTab ∉ behind ∧
      (codAttr name = .eCodSize → lexVal value ≠ none → Takes .eCodSize value)

/-- The value of the last line of an attribute. -/
def lastValue (attr : TCodAttr) (pairs : List (TCodAttr × Text)) : Option Text :=
  (pairs.filter fun pair => pair.1 = attr).getLast?.map Prod.snd

/-- The media object that the lines describe. -/
def describedMedia (pairs : List (TCodAttr × Text)) : CMediaObjectData :=
  { CMediaObjectData.newL with
    iName := some (((lastValue .eCodName pairs).getD []).take codNameMaxLen)
    iDescription := some (((lastValue .eCodDescription pairs).getD []).take codDescriptionMaxLen)
    iUrl := some (convertL ((lastValue .eCodUrl pairs).getD []))
    iSize := UInt32.ofNat (decimal ((lastValue .eCodSize pairs).getD []))
    iTypes := ((lastValue .eCodType pairs).map convertL).toList
    iInstallNotify := some (convertL ((lastValue .eCodInstallNotify pairs).getD []))
    iInfoUrl := some (convertL ((lastValue .eCodInfoUrl pairs).getD []))
    iPrice := some (((lastValue .eCodPrice pairs).getD []).take codPriceMaxLen)
    iIcon := some (convertL ((lastValue .eCodIcon pairs).getD [])) }

/-- What the lines say about the whole. -/
def describedData (pairs : List (TCodAttr × Text)) (data : CCodData) : CCodData :=
  { data with
    iVendor := (lastValue .eCodVendor pairs).or data.iVendor
    iNextUrl := ((lastValue .eCodNextUrl pairs).map convertL).or data.iNextUrl
    iNextUrlAtError :=
      ((lastValue .eCodNextUrlAtError pairs).map convertL).or data.iNextUrlAtError }

/-! ## The cursor -/

section Cursor

theorem advanceWhile_inside {cond : Cursor → Option Bool} {f : UInt16 → Bool}
    (h : ∀ c rest, cond (c :: rest) = some (f c)) (cur : Cursor) :
    advanceWhile (inside cond) cur = some (cur.dropWhile f) := by
  induction cur with
  | nil => rfl
  | cons c rest ih =>
      rw [advanceWhile, inside, if_neg (List.cons_ne_nil c rest), h]
      cases hc : f c with
      | true => simpa [hc] using ih
      | false => simp [hc]

theorem skipWhiteSpace_eq (cur : Cursor) : skipWhiteSpace cur = some (cur.dropWhile isBlank) :=
  advanceWhile_inside (fun _ _ => rfl) cur

theorem nextLine_eq (cur : Cursor) :
    nextLine cur = some (cur.dropWhile fun c => !decide (c = KCodLineFeed)).tail := by
  rw [nextLine, advanceWhile_inside (f := fun c => !decide (c = KCodLineFeed)) (fun _ _ => rfl)]
  cases cur.dropWhile fun c => !decide (c = KCodLineFeed) <;> rfl

theorem attrName_eq (start : Cursor) (iError : Int) :
    attrName start iError =
      some (codAttr (start.takeWhile isNameChar), start.dropWhile isNameChar,
        if start.takeWhile isNameChar = [] then error iError else iError) := by
  have hcond : ∀ (c : UInt16) (rest : Text),
      (do
        let control ← isControl (c :: rest)
        let separator ← isSeparator (c :: rest)
        let carriageRet ← isUnit KCodCarriageRet (c :: rest)
        let lineFeed ← isUnit KCodLineFeed (c :: rest)
        return !control && !separator && !carriageRet && !lineFeed) = some (isNameChar c) := by
    intro c rest
    -- The ends of lines are control characters.
    have hret : c = KCodCarriageRet → isControlChar c = true := by rintro rfl; decide
    have hfeed : c = KCodLineFeed → isControlChar c = true := by rintro rfl; decide
    show some (!isControlChar c && !(isBlank c || separators.contains c) &&
      !decide (c = KCodCarriageRet) && !decide (c = KCodLineFeed)) = some (isNameChar c)
    by_cases hcontrol : isControlChar c = true
    · simp [isNameChar, hcontrol]
    · have hret' : c ≠ KCodCarriageRet := fun h => hcontrol (hret h)
      have hfeed' : c ≠ KCodLineFeed := fun h => hcontrol (hfeed h)
      simp [isNameChar, hcontrol, hret', hfeed']
  rw [attrName, advanceWhile_inside hcond]
  simp only [Option.bind_eq_bind, Option.bind_some, take_sub_length_dropWhile]
  rfl

/-- A colon that is found, and one that is not. -/
theorem colon_cases (cur : Cursor) (iError : Int) :
    (∃ rest, cur.dropWhile isBlank = KCodColon :: rest ∧
      colon cur iError = some (true, rest.dropWhile isBlank, iError)) ∨
    ((∀ rest, cur.dropWhile isBlank ≠ KCodColon :: rest) ∧
      colon cur iError = some (false, cur.dropWhile isBlank, error iError)) := by
  unfold colon
  rw [skipWhiteSpace_eq]
  have hidem := List.dropWhile_idempotent isBlank cur
  cases hcur : cur.dropWhile isBlank with
  | nil =>
      refine Or.inr ⟨fun rest h => List.cons_ne_nil _ _ h.symm, ?_⟩
      rfl
  | cons c rest =>
      by_cases hc : c = KCodColon
      · subst hc
        refine Or.inl ⟨rest, rfl, ?_⟩
        have hskip := skipWhiteSpace_eq rest
        simp [inside, isUnit, deref, hskip]
      · refine Or.inr ⟨fun rest' h => hc (List.cons.inj h).1, ?_⟩
        rw [hcur] at hidem
        have hskip := skipWhiteSpace_eq (c :: rest)
        rw [hidem] at hskip
        simp [inside, isUnit, deref, hc, hskip]

theorem exists_not_blank {text : Text} (h : ¬ ∀ c ∈ text, isBlank c) : ∃ c ∈ text, ¬ isBlank c := by
  by_contra hnone
  exact h fun c hc => by_contra fun hblank => hnone ⟨c, hc, hblank⟩

/-- With `trailingWs` at the blanks that end here, the loop comes to the blanks that end the text
characters. -/
theorem valueLoop_eq (cur : Cursor) (trailingWs : Option Cursor) :
    ∃ trailing, valueLoop cur trailingWs = some (cur.dropWhile isTextChar, trailing) ∧
      trailing.getD (cur.dropWhile isTextChar) =
        if ∀ c ∈ cur.takeWhile isTextChar, isBlank c then trailingWs.getD cur
        else (cur.takeWhile isTextChar).rtakeWhile isBlank ++ cur.dropWhile isTextChar := by
  induction cur generalizing trailingWs with
  | nil => exact ⟨trailingWs, rfl, by simp⟩
  | cons c rest ih =>
      have hvalue : isValueChar (c :: rest) = some (!(isControlChar c || isBlank c)) := rfl
      have hwhite : isWhiteSpace (c :: rest) = some (isBlank c) := rfl
      rw [valueLoop, hvalue, hwhite]
      by_cases htext : isTextChar c = true
      · rw [List.dropWhile_cons_of_pos htext, List.takeWhile_cons_of_pos htext]
        by_cases hblank : isBlank c = true
        · -- A blank: the blanks that end here start with it, or go on.
          obtain ⟨trailing, hloop, htrailing⟩ :=
            ih (if trailingWs.isNone then some (c :: rest) else trailingWs)
          refine ⟨trailing, by simpa [hblank] using hloop, htrailing.trans ?_⟩
          by_cases hall : ∀ d ∈ rest.takeWhile isTextChar, isBlank d
          · have hcons : ∀ d ∈ c :: rest.takeWhile isTextChar, isBlank d = true :=
              List.forall_mem_cons.mpr ⟨hblank, hall⟩
            rw [if_pos hall, if_pos hcons]
            cases trailingWs <;> rfl
          · rw [if_neg hall, if_neg fun h => hall (List.forall_mem_cons.mp h).2]
            obtain ⟨d, hmem, hd⟩ := exists_not_blank hall
            rw [rtakeWhile_cons_of_mem hmem hd]
        · -- Another character: no blanks end here.
          have hcontrol : isControlChar c = false := by simpa [isTextChar, hblank] using htext
          obtain ⟨trailing, hloop, htrailing⟩ := ih none
          refine ⟨trailing, by simpa [hblank, hcontrol] using hloop, htrailing.trans ?_⟩
          have hcons : ¬ ∀ d ∈ c :: rest.takeWhile isTextChar, isBlank d :=
            fun h => hblank (List.forall_mem_cons.mp h).1
          rw [if_neg hcons]
          by_cases hall : ∀ d ∈ rest.takeWhile isTextChar, isBlank d
          · rw [if_pos hall, Option.getD_none, rtakeWhile_cons_of_all hblank hall,
              List.takeWhile_append_dropWhile]
          · rw [if_neg hall]
            obtain ⟨d, hmem, hd⟩ := exists_not_blank hall
            rw [rtakeWhile_cons_of_mem hmem hd]
      · have hblank : isBlank c = false := by
          cases h : isBlank c with
          | true => exact absurd (by simp [isTextChar, h]) htext
          | false => rfl
        have hcontrol : isControlChar c = true := by simpa [isTextChar, hblank] using htext
        rw [List.dropWhile_cons_of_neg htext, List.takeWhile_cons_of_neg htext]
        exact ⟨trailingWs, by simp [hblank, hcontrol], by simp⟩

/-- The value is without the blanks that end the text characters, and the cursor is at them. -/
theorem attrValue_eq (start : Cursor) :
    attrValue start =
      some ((start.takeWhile isTextChar).rdropWhile isBlank,
        (start.takeWhile isTextChar).rtakeWhile isBlank ++ start.dropWhile isTextChar) := by
  obtain ⟨trailing, hloop, htrailing⟩ := valueLoop_eq start none
  have hcur : trailing.getD (start.dropWhile isTextChar) =
      (start.takeWhile isTextChar).rtakeWhile isBlank ++ start.dropWhile isTextChar := by
    rw [htrailing]
    split
    · rename_i hall
      rw [List.rtakeWhile_eq_self_iff.mpr hall, List.takeWhile_append_dropWhile]
      rfl
    · rfl
  rw [attrValue, hloop]
  simp only [Option.bind_eq_bind, Option.bind_some, hcur]
  have hsplit : start = (start.takeWhile isTextChar).rdropWhile isBlank ++
      ((start.takeWhile isTextChar).rtakeWhile isBlank ++ start.dropWhile isTextChar) := by
    rw [← List.append_assoc, List.rdropWhile_append_rtakeWhile, List.takeWhile_append_dropWhile]
  have htake : start.take (start.length - ((start.takeWhile isTextChar).rtakeWhile isBlank ++
      start.dropWhile isTextChar).length) = (start.takeWhile isTextChar).rdropWhile isBlank := by
    have hlength := congrArg List.length hsplit
    rw [List.length_append] at hlength
    rw [hlength, Nat.add_sub_cancel]
    exact (List.prefix_iff_eq_take.mp ⟨_, hsplit.symm⟩).symm
  rw [htake]
  rfl

end Cursor

/-! ## A line of the text -/

/-- How a line ends, and what is left behind its end. A line that ends with a line feed alone has no
carriage return at its end. -/
inductive LineEnd (line : Text) : Text → Text → Prop where
  | text : LineEnd line [] []
  | lineFeed {rest : Text} : line.getLast? ≠ some KCodCarriageRet →
      LineEnd line (KCodLineFeed :: rest) rest
  | carriageRet {rest : Text} :
      LineEnd line (KCodCarriageRet :: KCodLineFeed :: rest) rest

section Line

variable {line tail rest : Text}

/-- The characters that go on a name, a value or blanks are not at the end of a line. -/
theorem LineEnd.head_not {f : UInt16 → Bool} (h : LineEnd line tail rest)
    (hfeed : f KCodLineFeed = false) (hret : f KCodCarriageRet = false) :
    ∀ c ∈ tail.head?, ¬ f c := by
  cases h with
  | text => simp
  | lineFeed _ =>
      rintro c ⟨⟩
      simp [hfeed]
  | carriageRet =>
      rintro c ⟨⟩
      simp [hret]

/-- The end of a line is also one of the characters that are left of it. -/
theorem LineEnd.suffix {left : Text} (h : LineEnd line tail rest) (hleft : left <:+ line) :
    LineEnd left tail rest := by
  cases h with
  | text => exact .text
  | lineFeed hline =>
      refine .lineFeed fun hlast => hline ?_
      obtain ⟨front, rfl⟩ := hleft
      rw [List.getLast?_append, hlast]
      rfl
  | carriageRet => exact .carriageRet

theorem LineEnd.nextLine (h : LineEnd line tail rest) (hline : KCodLineFeed ∉ line) :
    nextLine (line ++ tail) = some rest := by
  rw [nextLine_eq, List.dropWhile_append_of_pos]
  · cases h with
    | text => rfl
    | lineFeed _ => rfl
    | carriageRet => rfl
  · intro c hc
    have hne : c ≠ KCodLineFeed := fun h => hline (h ▸ hc)
    simpa using hne

/-- What follows a carriage return in a line is not a line feed. -/
theorem LineEnd.head_ne_lineFeed {left : Text} (h : LineEnd (KCodCarriageRet :: left) tail rest)
    (hleft : KCodLineFeed ∉ left) : (left ++ tail).head? ≠ some KCodLineFeed := by
  cases left with
  | nil =>
      cases h with
      | text => simp
      | lineFeed hlast => exact absurd rfl hlast
      | carriageRet =>
          have hne : KCodCarriageRet ≠ KCodLineFeed := by decide
          exact fun h => hne (Option.some.inj h)
  | cons d left => exact fun h => hleft (Option.some.inj h ▸ List.mem_cons_self)

/-- The parser is at the end of a line when there is no character of the line left. -/
theorem LineEnd.isEndOfLine (h : LineEnd line tail rest) (hline : KCodLineFeed ∉ line) :
    isEndOfLine (line ++ tail) = some (decide (line = [] ∧ tail ≠ [])) := by
  match line, hline with
  | [], _ =>
      cases h with
      | text => rfl
      | lineFeed _ => rfl
      | carriageRet => rfl
  | c :: left, hline =>
      have hc : c ≠ KCodLineFeed := fun h => hline (h ▸ List.mem_cons_self)
      have hleft : KCodLineFeed ∉ left := fun h => hline (List.mem_cons_of_mem c h)
      by_cases hret : c = KCodCarriageRet
      · subst hret
        have hhead := h.head_ne_lineFeed hleft
        cases hcur : left ++ tail with
        | nil => simp [Cod.isEndOfLine, inside, isUnit, deref, hcur]
        | cons d cur =>
            rw [hcur] at hhead
            have hd : d ≠ KCodLineFeed := fun h => hhead (congrArg some h)
            simp [Cod.isEndOfLine, inside, isUnit, deref, hcur, hd]
      · simp [Cod.isEndOfLine, inside, isUnit, deref, hret, hc]

theorem error_ne_zero (iError : Int) : error iError ≠ 0 := by
  unfold error
  split
  · decide
  · assumption

theorem error_of_ne_zero {iError : Int} (h : iError ≠ 0) : error iError = iError := if_neg h

theorem error_error (iError : Int) : error (error iError) = error iError :=
  error_of_ne_zero (error_ne_zero iError)

/-- The characters that `EndOfLine` does not pass without an error. -/
theorem endOfLine_error_iff (c : UInt16) :
    (c = KCodCarriageRet ∨ (!(isControlChar c || isBlank c)) = true ∨ isControlChar c = true) ↔
      c ≠ KCodSpace := by
  by_cases hcontrol : isControlChar c = true
  · refine iff_of_true (Or.inr (Or.inr hcontrol)) ?_
    rintro rfl
    exact absurd hcontrol (by decide)
  · have hret : c ≠ KCodCarriageRet := by
      rintro rfl
      exact hcontrol (by decide)
    have htab : c ≠ KCodHorizTab := by
      rintro rfl
      exact hcontrol (by decide)
    simp [hret, hcontrol, isBlank, htab]

/-- Behind a value only spaces are not an error. The cursor comes to the end of the line. -/
theorem LineEnd.endOfLine (h : LineEnd line tail rest) (hline : KCodLineFeed ∉ line)
    (iError : Int) :
    ∃ cur, endOfLine (line ++ tail) iError =
        some (cur, if ∀ c ∈ line, c = KCodSpace then iError else error iError) ∧
      Cod.nextLine cur = some rest := by
  induction line generalizing iError with
  | nil =>
      cases h with
      | text => exact ⟨[], by simp [Cod.endOfLine], rfl⟩
      | lineFeed _ => exact ⟨KCodLineFeed :: rest, by simp [Cod.endOfLine], rfl⟩
      | carriageRet =>
          refine ⟨KCodLineFeed :: rest, ?_, rfl⟩
          simp [Cod.endOfLine, KCodCarriageRet, KCodLineFeed]
  | cons c left ih =>
      have hc : c ≠ KCodLineFeed := fun h => hline (h ▸ List.mem_cons_self)
      have hleft : KCodLineFeed ∉ left := fun h => hline (List.mem_cons_of_mem c h)
      have hcrlf : ¬ (c = KCodCarriageRet ∧ (left ++ tail).head? = some KCodLineFeed) := by
        rintro ⟨rfl, hhead⟩
        exact h.head_ne_lineFeed hleft hhead
      have hvalue : isValueChar (c :: (left ++ tail)) = some (!(isControlChar c || isBlank c)) := rfl
      have hcontrol : isControl (c :: (left ++ tail)) = some (isControlChar c) := rfl
      rw [List.cons_append, Cod.endOfLine, if_neg hc, if_neg hcrlf, hvalue, hcontrol]
      simp only [Option.bind_eq_bind, Option.bind_some, endOfLine_error_iff]
      obtain ⟨cur, hcur, hnext⟩ := ih (h.suffix (List.suffix_cons c left)) hleft
        (if c ≠ KCodSpace then error iError else iError)
      refine ⟨cur, hcur.trans ?_, hnext⟩
      by_cases hspace : c = KCodSpace
      · simp [hspace]
      · have hcons : ¬ ∀ d ∈ c :: left, d = KCodSpace :=
          fun h => hspace (List.forall_mem_cons.mp h).1
        rw [if_pos hspace, if_neg hcons, error_error, ite_self]

end Line

/-! ## Names and values of a line -/

theorem isNameChar_not_blank {c : UInt16} (h : isNameChar c) : ¬ isBlank c := by
  intro hblank
  simp [isNameChar, hblank] at h

theorem isTextChar_of_blank {c : UInt16} (h : isBlank c) : isTextChar c := by
  simp [isTextChar, h]

theorem nameColon_iff {line name rest : Text} :
    NameColon line name rest ↔
      name = (line.dropWhile isBlank).takeWhile isNameChar ∧ name ≠ [] ∧
        ((line.dropWhile isBlank).dropWhile isNameChar).dropWhile isBlank = KCodColon :: rest := by
  constructor
  · rintro ⟨lead, gap, rfl, hlead, hne, hname, hgap⟩
    have hcolon : ∀ c ∈ (KCodColon :: rest).head?, ¬ isBlank c := by
      rintro c ⟨⟩
      decide
    -- The blanks and the colon behind the name are not characters of a name.
    have hbehind : ∀ c ∈ (gap ++ KCodColon :: rest).head?, ¬ isNameChar c := by
      intro c hc
      cases gap with
      | nil =>
          cases hc
          decide
      | cons d gap =>
          cases hc
          exact fun h => isNameChar_not_blank h (hgap _ List.mem_cons_self)
    have hstart : ∀ c ∈ (name ++ (gap ++ KCodColon :: rest)).head?, ¬ isBlank c := by
      intro c hc
      cases name with
      | nil => exact absurd rfl hne
      | cons d name =>
          cases hc
          exact isNameChar_not_blank (hname _ List.mem_cons_self)
    rw [(scan_append hlead hstart).2, (scan_append hname hbehind).1, (scan_append hname hbehind).2,
      (scan_append hgap hcolon).2]
    exact ⟨rfl, hne, rfl⟩
  · rintro ⟨hname, hne, hcolon⟩
    refine ⟨line.takeWhile isBlank, ((line.dropWhile isBlank).dropWhile isNameChar).takeWhile isBlank,
      ?_, fun c hc => List.mem_takeWhile_imp hc, hne, ?_, fun c hc => List.mem_takeWhile_imp hc⟩
    · rw [← hcolon, List.takeWhile_append_dropWhile, hname, List.takeWhile_append_dropWhile,
        List.takeWhile_append_dropWhile]
    · rw [hname]
      exact fun c hc => List.mem_takeWhile_imp hc

theorem hasValue_iff {rest value behind : Text} :
    HasValue rest value behind ↔
      (∀ c ∈ rest.dropWhile isBlank, isTextChar c) ∧
        value = (rest.dropWhile isBlank).rdropWhile isBlank ∧
          behind = (rest.dropWhile isBlank).rtakeWhile isBlank := by
  constructor
  · rintro ⟨gap, rfl, hgap, htext, hhead, hlast, hbehind, hnil⟩
    have hstart : ∀ c ∈ (value ++ behind).head?, ¬ isBlank c := by
      cases value with
      | nil => simp [hnil rfl]
      | cons c value => exact hhead
    rw [(scan_append hgap hstart).2, (rscan_append hlast hbehind).1, (rscan_append hlast hbehind).2]
    refine ⟨fun c hc => ?_, rfl, rfl⟩
    rcases List.mem_append.mp hc with hc | hc
    · exact htext c hc
    · exact isTextChar_of_blank (hbehind c hc)
  · rintro ⟨htext, rfl, rfl⟩
    have hsplit : (rest.dropWhile isBlank).rdropWhile isBlank ++
        (rest.dropWhile isBlank).rtakeWhile isBlank = rest.dropWhile isBlank :=
      List.rdropWhile_append_rtakeWhile
    refine ⟨rest.takeWhile isBlank, ?_, fun c hc => List.mem_takeWhile_imp hc, ?_, ?_,
      getLast_rdropWhile_not _, fun c hc => List.mem_rtakeWhile_imp hc, ?_⟩
    · rw [hsplit, List.takeWhile_append_dropWhile]
    · exact fun c hc => htext c ((List.rdropWhile_prefix isBlank _).subset hc)
    · -- The first character of the value is the first one behind the blanks.
      intro c hc
      refine head_dropWhile_not rest c ?_
      rw [← hsplit, List.head?_append, Option.mem_def.mp hc]
      rfl
    · intro hnil
      rw [hnil, List.nil_append] at hsplit
      rw [hsplit]
      cases hcur : rest.dropWhile isBlank with
      | nil => rfl
      | cons c cur =>
          have hblank := List.rdropWhile_eq_nil_iff.mp hnil c (hcur ▸ List.mem_cons_self)
          exact absurd hblank (head_dropWhile_not rest c (by rw [hcur]; rfl))

/-- What a line that is not blank says, by its name and what is behind its colon. -/
theorem LineReads.of_nameColon {line name rest : Text} {said : Option (TCodAttr × Text)}
    (h : LineReads line said) (hblank : ¬ ∀ c ∈ line, isBlank c) (hname : NameColon line name rest) :
    codAttr name = .eCodUnknownAttr ∧ said = none ∨
      codAttr name ≠ .eCodUnknownAttr ∧ ∃ value behind, HasValue rest value behind ∧
        said = some (codAttr name, value) := by
  -- The name and the colon of a line are where the scan finds them.
  have hunique : ∀ {name' rest' : Text}, NameColon line name' rest' → name' = name ∧ rest' = rest := by
    intro name' rest' h'
    obtain ⟨rfl, -, hrest⟩ := nameColon_iff.mp hname
    obtain ⟨rfl, -, hrest'⟩ := nameColon_iff.mp h'
    exact ⟨rfl, (List.cons.inj (hrest'.symm.trans hrest)).2⟩
  cases h with
  | blank hall => exact absurd hall hblank
  | unknown hname' hattr =>
      obtain ⟨rfl, rfl⟩ := hunique hname'
      exact Or.inl ⟨hattr, rfl⟩
  | attr hname' hattr hvalue =>
      obtain ⟨rfl, rfl⟩ := hunique hname'
      exact Or.inr ⟨hattr, _, _, hvalue, rfl⟩

/-- A line that is not blank says something only with a name and a colon. -/
theorem LineReads.exists_nameColon {line : Text} {said : Option (TCodAttr × Text)}
    (h : LineReads line said) (hblank : ¬ ∀ c ∈ line, isBlank c) :
    ∃ name rest, NameColon line name rest := by
  cases h with
  | blank hall => exact absurd hall hblank
  | unknown hname _ => exact ⟨_, _, hname⟩
  | attr hname _ _ => exact ⟨_, _, hname⟩

/-! ## Attributes -/

theorem lexVal_of_takes {value : Text} (h : Takes .eCodSize value) :
    lexVal value = some (UInt32.ofNat (decimal value)) := by
  obtain ⟨hne, hdigits, -, hlt⟩ := h
  have hall : value.takeWhile isDigit = value := List.takeWhile_eq_self_iff.mpr hdigits
  rw [lexVal, hall]
  refine if_neg ?_
  rintro (h | h)
  · exact hne h
  · omega

/-- The result of a setter says whether the attribute takes the value. -/
theorem setAttr_ok_iff (p : TCodParser) {attr : TCodAttr} {value : Text}
    (hsize : attr = .eCodSize → lexVal value ≠ none → Takes .eCodSize value) :
    (p.setAttr attr value).1 = true ↔ Takes attr value := by
  cases attr with
  | eCodSize =>
      cases hlex : lexVal value with
      | none =>
          refine iff_of_false (by simp [TCodParser.setAttr, hlex]) fun h => ?_
          rw [lexVal_of_takes h] at hlex
          cases hlex
      | some n =>
          refine iff_of_true (by simp [TCodParser.setAttr, hlex]) (hsize rfl ?_)
          rw [hlex]
          exact Option.some_ne_none n
  | eCodVendor =>
      simp only [TCodParser.setAttr, CCodData.setVendorL, CCodData.setStringAttrL, Takes]
      split <;> simp_all
  | eCodNextUrl =>
      simp only [TCodParser.setAttr, CCodData.setNextUrlL, CCodData.setStringAttrL8, Takes]
      split <;> simp_all
  | eCodNextUrlAtError =>
      simp only [TCodParser.setAttr, CCodData.setNextUrlAtErrorL, CCodData.setStringAttrL8, Takes]
      split <;> simp_all
  | eCodType =>
      simp only [TCodParser.setAttr, CMediaObjectData.setTypeL, CMediaObjectData.addTypeL, Takes]
      split
      · rename_i h
        refine iff_of_false (by simp) fun ⟨hne, hle⟩ => ?_
        rcases h with h | h
        · omega
        · exact hne (List.length_eq_zero_iff.mp h)
      · rename_i h
        refine iff_of_true rfl ⟨fun hnil => h (Or.inr (by rw [hnil]; rfl)), ?_⟩
        omega
  | _ => exact iff_of_true rfl trivial

theorem lastValue_append (attr : TCodAttr) (pairs : List (TCodAttr × Text)) (a : TCodAttr)
    (value : Text) :
    lastValue attr (pairs ++ [(a, value)]) =
      if a = attr then some value else lastValue attr pairs := by
  unfold lastValue
  rw [List.filter_append]
  by_cases h : a = attr
  · rw [if_pos h]
    simp [h]
  · rw [if_neg h]
    simp [h]

/-- The parser has the data that the lines so far describe. -/
def TCodParser.Described (pairs : List (TCodAttr × Text)) (data : CCodData) (p : TCodParser) :
    Prop :=
  p.iData = describedData pairs data ∧ p.mediaObject = describedMedia pairs

/-- A size in range is set. -/
theorem setSize_of_takes (m : CMediaObjectData) {value : Text} (h : Takes .eCodSize value) :
    m.setSize (UInt32.ofNat (decimal value)) =
      { m with iSize := UInt32.ofNat (decimal value) } := by
  obtain ⟨-, -, hpos, hlt⟩ := h
  have hle : ¬ (UInt32.ofNat (decimal value)).toInt32 ≤ 0 := by
    rw [Int32.le_iff_toInt_le, UInt32.toInt32_ofNat', Int32.toInt_ofNat_of_lt hlt, Int32.toInt_zero]
    omega
  exact if_neg hle

theorem TCodParser.Described.setAttr {pairs : List (TCodAttr × Text)} {data : CCodData}
    {p : TCodParser} (h : p.Described pairs data) {attr : TCodAttr} {value : Text}
    (hknown : attr ≠ .eCodUnknownAttr) (htakes : Takes attr value) :
    (p.setAttr attr value).2.Described (pairs ++ [(attr, value)]) data := by
  obtain ⟨hdata, hmedia⟩ := h
  unfold TCodParser.Described describedData describedMedia
  simp only [lastValue_append]
  cases attr with
  | eCodUnknownAttr => exact absurd rfl hknown
  | eCodSize =>
      simp only [TCodParser.setAttr, lexVal_of_takes htakes, setSize_of_takes _ htakes]
      rw [hmedia]
      exact ⟨hdata, rfl⟩
  | eCodVendor =>
      have hlength : ¬ value.length > codVendorMaxLen := Nat.not_lt.mpr htakes
      simp only [TCodParser.setAttr, CCodData.setVendorL, CCodData.setStringAttrL, if_neg hlength]
      rw [hdata]
      exact ⟨rfl, hmedia⟩
  | eCodNextUrl =>
      have hlength : ¬ value.length > codNextUrlMaxLen := Nat.not_lt.mpr htakes
      simp only [TCodParser.setAttr, CCodData.setNextUrlL, CCodData.setStringAttrL8, if_neg hlength]
      rw [hdata]
      exact ⟨rfl, hmedia⟩
  | eCodNextUrlAtError =>
      have hlength : ¬ value.length > codNextUrlAtErrorMaxLen := Nat.not_lt.mpr htakes
      simp only [TCodParser.setAttr, CCodData.setNextUrlAtErrorL, CCodData.setStringAttrL8,
        if_neg hlength]
      rw [hdata]
      exact ⟨rfl, hmedia⟩
  | eCodType =>
      have hadd : ¬ (value.length > codTypeMaxLen ∨ value.length = 0) := by
        rintro (h | h)
        · exact absurd htakes.2 (Nat.not_le.mpr h)
        · exact htakes.1 (List.length_eq_zero_iff.mp h)
      simp only [TCodParser.setAttr, CMediaObjectData.setTypeL, CMediaObjectData.addTypeL,
        if_neg hadd]
      rw [hmedia]
      exact ⟨hdata, rfl⟩
  | _ =>
      -- The setters of the media object that take every value.
      refine ⟨hdata, ?_⟩
      simp only [TCodParser.setAttr, hmedia]
      rfl

/-! ## Steps of the parser -/

section Step

variable {left line tail rest : Text}

/-- The colon of a line. -/
theorem LineEnd.colon (hend : LineEnd left tail rest) (iError : Int) :
    (∃ behind, left.dropWhile isBlank = KCodColon :: behind ∧
      Cod.colon (left ++ tail) iError = some (true, behind.dropWhile isBlank ++ tail, iError)) ∨
    ((∀ behind, left.dropWhile isBlank ≠ KCodColon :: behind) ∧
      Cod.colon (left ++ tail) iError =
        some (false, left.dropWhile isBlank ++ tail, error iError)) := by
  have hblank : ∀ c ∈ tail.head?, ¬ isBlank c := hend.head_not (by decide) (by decide)
  have hskip := dropWhile_append_of_head hblank left
  rcases colon_cases (left ++ tail) iError with ⟨cur, hcolon, hrun⟩ | ⟨hcolon, hrun⟩
  · rw [hskip] at hcolon
    cases hcur : left.dropWhile isBlank with
    | nil =>
        -- A line does not end with a colon.
        rw [hcur, List.nil_append] at hcolon
        have hnot := hend.head_not (f := fun c => decide (c = KCodColon)) (by decide) (by decide)
        exact absurd (decide_eq_true rfl) (hnot KCodColon (by rw [hcolon]; rfl))
    | cons c behind =>
        rw [hcur, List.cons_append] at hcolon
        obtain ⟨rfl, rfl⟩ := List.cons.inj hcolon
        rw [dropWhile_append_of_head hblank] at hrun
        exact Or.inl ⟨behind, rfl, hrun⟩
  · rw [hskip] at hcolon hrun
    refine Or.inr ⟨fun behind hcur => hcolon (behind ++ tail) ?_, hrun⟩
    rw [hcur, List.cons_append]

/-- A line behind the name. Without a colon there is an error; an attribute gets its value, and what
follows the value is an error unless it is spaces. -/
theorem attrRest_cases (p : TCodParser) (attr : TCodAttr) (hend : LineEnd left tail rest)
    (hleft : KCodLineFeed ∉ left) (hcur : p.iCurP = left ++ tail) :
    ∃ ok p', p.attrRest attr = some (ok, p') ∧ nextLine p'.iCurP = some rest ∧
      ((∀ behind, left.dropWhile isBlank ≠ KCodColon :: behind) ∧ p'.iError = error p.iError ∨
      ∃ behind, left.dropWhile isBlank = KCodColon :: behind ∧
        (attr = .eCodUnknownAttr ∧ ok = true ∧ p'.iError = p.iError ∧ p'.iData = p.iData ∧
            p'.mediaObject = p.mediaObject ∨
          attr ≠ .eCodUnknownAttr ∧ ∃ value trailing,
            value = ((behind.dropWhile isBlank).takeWhile isTextChar).rdropWhile isBlank ∧
            trailing = ((behind.dropWhile isBlank).takeWhile isTextChar).rtakeWhile isBlank ++
              (behind.dropWhile isBlank).dropWhile isTextChar ∧
            ok = (p.setAttr attr value).1 ∧ p'.iData = (p.setAttr attr value).2.iData ∧
            p'.mediaObject = (p.setAttr attr value).2.mediaObject ∧
            p'.iError =
              if ∀ c ∈ trailing, c = KCodSpace then p.iError else error p.iError)) := by
  have hdrop : ∀ {cur : Text}, cur <:+ left → LineEnd cur tail rest ∧ KCodLineFeed ∉ cur :=
    fun hsuffix => ⟨hend.suffix hsuffix, fun hmem => hleft (hsuffix.subset hmem)⟩
  unfold TCodParser.attrRest
  rw [hcur]
  rcases hend.colon p.iError with ⟨behind, hcolon, hrun⟩ | ⟨hcolon, hrun⟩
  · have hbehind : behind.dropWhile isBlank <:+ left :=
      (List.dropWhile_suffix _).trans
        ((List.suffix_cons KCodColon behind).trans (hcolon ▸ List.dropWhile_suffix _))
    rw [hrun]
    by_cases hattr : attr = .eCodUnknownAttr
    · obtain ⟨hend', hfeed⟩ := hdrop hbehind
      exact ⟨true, { p with iCurP := behind.dropWhile isBlank ++ tail }, if_pos hattr,
        hend'.nextLine hfeed, Or.inr ⟨behind, hcolon, Or.inl ⟨hattr, rfl, rfl, rfl, rfl⟩⟩⟩
    · have htext : ∀ c ∈ tail.head?, ¬ isTextChar c := hend.head_not (by decide) (by decide)
      -- The cursor is at the blanks that end the value.
      have hvalue := attrValue_eq (behind.dropWhile isBlank ++ tail)
      rw [takeWhile_append_of_head htext, dropWhile_append_of_head htext, ← List.append_assoc]
        at hvalue
      have htrailing : ((behind.dropWhile isBlank).takeWhile isTextChar).rtakeWhile isBlank ++
          (behind.dropWhile isBlank).dropWhile isTextChar <:+ left := by
        refine List.IsSuffix.trans
          ⟨((behind.dropWhile isBlank).takeWhile isTextChar).rdropWhile isBlank, ?_⟩ hbehind
        rw [← List.append_assoc, List.rdropWhile_append_rtakeWhile,
          List.takeWhile_append_dropWhile]
      obtain ⟨hend', hfeed⟩ := hdrop htrailing
      obtain ⟨cur, hline, hnext⟩ := hend'.endOfLine hfeed p.iError
      generalize hset : p.setAttr attr (((behind.dropWhile isBlank).takeWhile
        isTextChar).rdropWhile isBlank) = set
      generalize herror : (if ∀ c ∈ ((behind.dropWhile isBlank).takeWhile isTextChar).rtakeWhile
          isBlank ++ (behind.dropWhile isBlank).dropWhile isTextChar, c = KCodSpace then p.iError
        else error p.iError) = iError at hline
      refine ⟨set.1, { set.2 with iCurP := cur, iError := iError }, ?_, hnext,
        Or.inr ⟨behind, hcolon, Or.inr ⟨hattr, _, _, rfl, rfl, ?_⟩⟩⟩
      · simp only [Option.bind_eq_bind, Option.bind_some, if_neg hattr, if_true, hvalue, hset, hline]
      · rw [hset, herror]
        exact ⟨rfl, rfl, rfl, rfl⟩
  · have hsuffix := List.dropWhile_suffix (l := left) isBlank
    obtain ⟨hend', hfeed⟩ := hdrop hsuffix
    rw [hrun]
    refine ⟨if attr = .eCodUnknownAttr then false else true,
      { p with iCurP := left.dropWhile isBlank ++ tail, iError := error p.iError }, ?_,
      hend'.nextLine hfeed, Or.inl ⟨hcolon, rfl⟩⟩
    by_cases hattr : attr = .eCodUnknownAttr
    · simp [hattr]
    · simp [hattr]

/-- What the lines so far say and a line say together: the parser has no error and the data, or the
line says nothing that is taken and there is an error. -/
def Reading (line : Text) (p p' : TCodParser) : Prop :=
  (p'.iError = 0 ∧ ∃ said, LineReads line said ∧ (∀ pair ∈ said, Takes pair.1 pair.2) ∧
    ∀ pairs data, p.Described pairs data → p'.Described (pairs ++ said.toList) data) ∨
  (p'.iError = KErrCodInvalidDescriptor ∧ ¬ WellFormed line)

/-- A step over a line: an error is kept, and without one the line is read. -/
structure LineStep (line : Text) (p p' : TCodParser) : Prop where
  kept : p.iError ≠ 0 → p'.iError = p.iError
  read : Regular line → p.iError = 0 → Reading line p p'

theorem error_zero : error 0 = KErrCodInvalidDescriptor := rfl

/-- Behind a value there are only spaces when it is made of text characters and no tab follows it. -/
theorem trailing_spaces {rest value behind : Text} (h : HasValue rest value behind)
    (htab : KCodHorizTab ∉ behind) : ∀ c ∈ behind, c = KCodSpace := by
  obtain ⟨-, -, -, -, -, -, hbehind, -⟩ := h
  intro c hc
  have hblank := hbehind c hc
  have hne : c ≠ KCodHorizTab := fun h => htab (h ▸ hc)
  simpa [isBlank, hne] using hblank

/-- A line with an attribute, where the value is what the scan of the text characters finds and
anything but spaces behind it is an error. -/
theorem reading_of_value {p p₀ p₁ : TCodParser} {name behind value trailing : Text} {ok : Bool}
    (hregular : Regular line) (hblank : ¬ ∀ c ∈ line, isBlank c) (hname : NameColon line name behind)
    (hattr : codAttr name ≠ .eCodUnknownAttr)
    (hvalue : value = ((behind.dropWhile isBlank).takeWhile isTextChar).rdropWhile isBlank)
    (htrailing : trailing = ((behind.dropWhile isBlank).takeWhile isTextChar).rtakeWhile isBlank ++
      (behind.dropWhile isBlank).dropWhile isTextChar)
    (hok : ok = (p₀.setAttr (codAttr name) value).1)
    (hdata : p₁.iData = (p₀.setAttr (codAttr name) value).2.iData)
    (hmedia : p₁.mediaObject = (p₀.setAttr (codAttr name) value).2.mediaObject)
    (hp₀ : p₀.iData = p.iData ∧ p₀.mediaObject = p.mediaObject)
    (hp₁ : p₁.iError = if ∀ c ∈ trailing, c = KCodSpace then 0 else KErrCodInvalidDescriptor) :
    Reading line p { p₁ with
      iCurP := rest, iError := if ok then p₁.iError else error p₁.iError } := by
  by_cases htext : ∀ c ∈ behind.dropWhile isBlank, isTextChar c
  · rw [List.takeWhile_eq_self_iff.mpr htext] at hvalue htrailing
    rw [List.dropWhile_eq_nil_iff.mpr htext, List.append_nil] at htrailing
    have hhas : HasValue behind value trailing := hasValue_iff.mpr ⟨htext, hvalue, htrailing⟩
    obtain ⟨htab, hsize⟩ := hregular name behind value trailing hname hattr hhas
    rw [if_pos (trailing_spaces hhas htab)] at hp₁
    by_cases htakes : Takes (codAttr name) value
    · -- The attribute takes the value.
      have hok' : ok = true := by
        rw [hok]
        exact (setAttr_ok_iff p₀ fun h => h ▸ hsize h).mpr htakes
      refine Or.inl ⟨by rw [hok', if_pos rfl, hp₁], _, .attr hname hattr hhas, ?_, ?_⟩
      · rintro pair ⟨⟩
        exact htakes
      · rintro pairs data ⟨h₁, h₂⟩
        have hdescribed : p₀.Described pairs data := ⟨hp₀.1.trans h₁, hp₀.2.trans h₂⟩
        obtain ⟨h₁', h₂'⟩ := hdescribed.setAttr hattr htakes
        exact ⟨hdata.trans h₁', hmedia.trans h₂'⟩
    · have hok' : ok = false := by
        rw [hok]
        exact Bool.eq_false_iff.mpr fun h =>
          htakes ((setAttr_ok_iff p₀ fun h => h ▸ hsize h).mp h)
      refine Or.inr ⟨by rw [hok', hp₁]; rfl, ?_⟩
      rintro ⟨said, hsaid, htaken⟩
      rcases hsaid.of_nameColon hblank hname with ⟨h, -⟩ | ⟨-, value', behind', hhas', rfl⟩
      · exact hattr h
      · -- The value of a line is where the scan finds it.
        obtain ⟨-, rfl, -⟩ := hasValue_iff.mp hhas'
        exact htakes (hvalue ▸ htaken _ rfl)
  · -- A control character behind the value is not a space.
    obtain ⟨c, hc, hnot⟩ : ∃ c ∈ trailing, c ≠ KCodSpace := by
      have hne : (behind.dropWhile isBlank).dropWhile isTextChar ≠ [] :=
        fun h => htext (List.dropWhile_eq_nil_iff.mp h)
      obtain ⟨c, cur, hcur⟩ := List.exists_cons_of_ne_nil hne
      refine ⟨c, htrailing ▸ List.mem_append_right _ (hcur ▸ List.mem_cons_self), ?_⟩
      rintro rfl
      exact head_dropWhile_not _ KCodSpace (by rw [hcur]; rfl) (by decide)
    rw [if_neg fun h => hnot (h c hc)] at hp₁
    refine Or.inr ⟨?_, ?_⟩
    · simp only [hp₁]
      split <;> rfl
    · rintro ⟨said, hsaid, -⟩
      rcases hsaid.of_nameColon hblank hname with ⟨h, -⟩ | ⟨-, _, _, hhas, -⟩
      · exact hattr h
      · exact htext (hasValue_iff.mp hhas).1

/-- The step over a line that is not blank. -/
theorem attrLineL_line (fuel : Nat) (p : TCodParser) (hend : LineEnd line tail rest)
    (hline : KCodLineFeed ∉ line) (hcur : p.iCurP = line ++ tail)
    (hblank : ¬ ∀ c ∈ line, isBlank c) :
    ∃ p', p.attrLineL (fuel + 1) = some (true, p') ∧ p'.iCurP = rest ∧ LineStep line p p' := by
  have htail : ∀ c ∈ tail.head?, ¬ isBlank c := hend.head_not (by decide) (by decide)
  have hname : ∀ c ∈ tail.head?, ¬ isNameChar c := hend.head_not (by decide) (by decide)
  have hsuffix : (line.dropWhile isBlank).dropWhile isNameChar <:+ line :=
    (List.dropWhile_suffix _).trans (List.dropWhile_suffix _)
  have hfeed : ∀ {cur : Text}, cur <:+ line → KCodLineFeed ∉ cur :=
    fun hcur hmem => hline (hcur.subset hmem)
  have hne : line.dropWhile isBlank ≠ [] := fun h => hblank (List.dropWhile_eq_nil_iff.mp h)
  have hskip : skipLines (fuel + 1) (line.dropWhile isBlank ++ tail) =
      some (line.dropWhile isBlank ++ tail) := by
    have hnot := (hend.suffix (List.dropWhile_suffix isBlank)).isEndOfLine
      (hfeed (List.dropWhile_suffix isBlank))
    rw [skipLines, hnot]
    simp [hne]
  have hstart : line.dropWhile isBlank ++ tail ≠ [] := fun h => hne (List.append_eq_nil_iff.mp h).1
  obtain ⟨ok, p₁, hrest, hnext, hcases⟩ := attrRest_cases
    { p with
      iCurP := (line.dropWhile isBlank).dropWhile isNameChar ++ tail
      iError := if (line.dropWhile isBlank).takeWhile isNameChar = [] then error p.iError
        else p.iError }
    (codAttr ((line.dropWhile isBlank).takeWhile isNameChar)) (hend.suffix hsuffix)
    (hfeed hsuffix) rfl
  refine ⟨{ p₁ with iCurP := rest, iError := if ok then p₁.iError else error p₁.iError }, ?_, rfl,
    ?_⟩
  · unfold TCodParser.attrLineL
    rw [hcur, skipWhiteSpace_eq, dropWhile_append_of_head htail]
    simp only [Option.bind_eq_bind, Option.bind_some, hskip, if_neg hstart, attrName_eq,
      takeWhile_append_of_head hname, dropWhile_append_of_head hname, hrest, hnext]
  · generalize hscan : (line.dropWhile isBlank).takeWhile isNameChar = name at hcases
    constructor
    · -- An error that is there before is not replaced.
      intro hp
      have hp₁ : p₁.iError = p.iError := by
        simp only [error_of_ne_zero hp, ite_self] at hcases
        rcases hcases with ⟨-, h⟩ | ⟨_, -, ⟨-, -, h, -⟩ | ⟨-, _, _, -, -, -, -, -, h⟩⟩ <;> exact h
      simp only [hp₁, error_of_ne_zero hp, ite_self]
    · intro hregular hp
      simp only [hp, error_zero] at hcases
      rcases hcases with ⟨hcolon, hp₁⟩ | ⟨behind, hcolon, hcases⟩
      · -- There is no colon.
        refine Or.inr ⟨?_, ?_⟩
        · have herror : p₁.iError = KErrCodInvalidDescriptor := by
            rw [hp₁]
            split <;> rfl
          simp only [herror]
          split <;> rfl
        · rintro ⟨said, hsaid, -⟩
          obtain ⟨_, rest', h⟩ := hsaid.exists_nameColon hblank
          exact hcolon rest' (nameColon_iff.mp h).2.2
      · by_cases hnil : name = []
        · -- The empty name is not one of an attribute.
          subst hnil
          refine Or.inr ⟨?_, ?_⟩
          · rcases hcases with ⟨-, rfl, h, -⟩ | ⟨hattr, -⟩
            · exact h
            · exact absurd (by decide) hattr
          · rintro ⟨said, hsaid, -⟩
            obtain ⟨_, _, h⟩ := hsaid.exists_nameColon hblank
            obtain ⟨rfl, hne, -⟩ := nameColon_iff.mp h
            exact hne hscan
        · have hnameColon : NameColon line name behind :=
            nameColon_iff.mpr ⟨hscan.symm, hnil, hcolon⟩
          simp only [if_neg hnil] at hcases
          rcases hcases with ⟨hattr, rfl, hp₁, hdata, hmedia⟩ |
            ⟨hattr, value, trailing, hvalue, htrailing, hok, hdata, hmedia, hp₁⟩
          · refine Or.inl ⟨hp₁, none, .unknown hnameColon hattr, by simp, ?_⟩
            rintro pairs data ⟨h₁, h₂⟩
            rw [Option.toList_none, List.append_nil]
            exact ⟨hdata.trans h₁, hmedia.trans h₂⟩
          · exact reading_of_value hregular hblank hnameColon hattr hvalue htrailing hok hdata hmedia
              ⟨rfl, rfl⟩ hp₁

end Step

/-! ## Runs of the parser -/

/-- The lines of a text are the text, or a line with its end and the lines behind it. -/
theorem textLines_cases (text : Text) :
    (KCodLineFeed ∉ text ∧ textLines text = [text]) ∨
      ∃ line tail rest, text = line ++ tail ∧ KCodLineFeed ∉ line ∧ LineEnd line tail rest ∧
        tail ≠ [] ∧ textLines text = line :: textLines rest := by
  induction text with
  | nil => exact Or.inl ⟨List.not_mem_nil, rfl⟩
  | cons c text ih =>
      by_cases hfeed : c = KCodLineFeed
      · subst hfeed
        exact Or.inr ⟨[], KCodLineFeed :: text, text, rfl, List.not_mem_nil,
          .lineFeed (by simp), List.cons_ne_nil _ _, by rw [textLines, if_pos rfl]⟩
      · by_cases hret : c = KCodCarriageRet ∧ text.head? = some KCodLineFeed
        · obtain ⟨rfl, hhead⟩ := hret
          obtain ⟨rest, rfl⟩ : ∃ rest, text = KCodLineFeed :: rest := by
            cases text with
            | nil => cases hhead
            | cons d rest => exact ⟨rest, by rw [Option.some.inj hhead]⟩
          refine Or.inr ⟨[], _, rest, rfl, List.not_mem_nil, .carriageRet, List.cons_ne_nil _ _, ?_⟩
          rw [textLines, if_neg hfeed, if_pos ⟨rfl, hhead⟩, textLines, if_pos rfl]
        · have hmem : ∀ {left : Text}, KCodLineFeed ∉ left → KCodLineFeed ∉ c :: left := by
            intro left hleft h
            rcases List.mem_cons.mp h with h | h
            · exact hfeed h.symm
            · exact hleft h
          rcases ih with ⟨hline, hlines⟩ | ⟨line, tail, rest, rfl, hline, hend, hne, hlines⟩
          · refine Or.inl ⟨hmem hline, ?_⟩
            rw [textLines, if_neg hfeed, if_neg hret, hlines]
          · refine Or.inr ⟨c :: line, tail, rest, rfl, hmem hline, ?_, hne, ?_⟩
            · cases hend with
              | text => exact absurd rfl hne
              | lineFeed hlast =>
                  refine .lineFeed fun h => ?_
                  cases line with
                  | nil => exact hret ⟨Option.some.inj h, rfl⟩
                  | cons d line => exact hlast (by rwa [List.getLast?_cons_cons] at h)
              | carriageRet => exact .carriageRet
            · rw [textLines, if_neg hfeed, if_neg hret, hlines]

theorem LineEnd.length_lt {line tail rest : Text} (h : LineEnd line tail rest) (hne : tail ≠ []) :
    rest.length < (line ++ tail).length := by
  cases h with
  | text => exact absurd rfl hne
  | lineFeed _ =>
      rw [List.length_append, List.length_cons]
      omega
  | carriageRet =>
      rw [List.length_append, List.length_cons, List.length_cons]
      omega

/-- The loop over blank lines does not depend on its fuel when there is enough. -/
theorem skipLines_fuel {cur : Cursor} {fuel fuel' : Nat} (h : cur.length < fuel)
    (h' : cur.length < fuel') : skipLines fuel cur = skipLines fuel' cur := by
  induction fuel generalizing cur fuel' with
  | zero => exact absurd h (Nat.not_lt_zero _)
  | succ fuel ih =>
      cases fuel' with
      | zero => exact absurd h' (Nat.not_lt_zero _)
      | succ fuel' =>
          rw [skipLines, skipLines, nextLine_eq]
          simp only [Option.bind_eq_bind, Option.bind_some, skipWhiteSpace_eq]
          cases cur with
          | nil => rfl
          | cons c cur =>
              -- The next line is shorter.
              have hlt : ((((c :: cur).dropWhile fun c => !decide (c = KCodLineFeed)).tail).dropWhile
                  isBlank).length < (c :: cur).length := by
                have h₁ := (List.dropWhile_suffix (l := ((c :: cur).dropWhile fun c =>
                  !decide (c = KCodLineFeed)).tail) isBlank).length_le
                have h₂ := (List.dropWhile_suffix (l := c :: cur)
                  fun c => !decide (c = KCodLineFeed)).length_le
                rw [List.length_tail] at h₁
                rw [List.length_cons] at h₂ ⊢
                omega
              rw [@ih _ fuel' (by omega) (by omega)]

/-- A blank line is passed before an attribute is read. -/
theorem attrLineL_blank {fuel : Nat} {p : TCodParser} {line tail rest : Text}
    (hend : LineEnd line tail rest) (hne : tail ≠ []) (hblank : ∀ c ∈ line, isBlank c) (hcur : p.iCurP = line ++ tail)
    (hfuel : (line ++ tail).length < fuel + 1) :
    p.attrLineL (fuel + 1) = { p with iCurP := rest }.attrLineL (fuel + 1) := by
  have htail : ∀ c ∈ tail.head?, ¬ isBlank c := hend.head_not (by decide) (by decide)
  have hend' := hend.suffix List.nil_suffix
  have hlt := hend.length_lt hne
  have hle := (List.dropWhile_suffix (l := rest) isBlank).length_le
  have hskip : skipLines (fuel + 1) tail = skipLines (fuel + 1) (rest.dropWhile isBlank) := by
    have hnext := hend'.nextLine List.not_mem_nil
    have hat := hend'.isEndOfLine List.not_mem_nil
    rw [List.nil_append] at hnext hat
    rw [skipLines, hat, hnext]
    simp only [hne, ne_eq, not_false_eq_true, and_self, decide_true, Option.bind_eq_bind,
      Option.bind_some, if_true, skipWhiteSpace_eq]
    exact skipLines_fuel (by omega) (by omega)
  unfold TCodParser.attrLineL
  rw [hcur, skipWhiteSpace_eq, skipWhiteSpace_eq, dropWhile_append_of_head htail,
    List.dropWhile_eq_nil_iff.mpr hblank]
  simp only [Option.bind_eq_bind, Option.bind_some, List.nil_append, hskip]

/-- At the end of the text there is no more line. -/
theorem attrLineL_end (fuel : Nat) {p : TCodParser} (hblank : ∀ c ∈ p.iCurP, isBlank c) :
    p.attrLineL (fuel + 1) = some (false, { p with iCurP := [] }) := by
  unfold TCodParser.attrLineL
  rw [skipWhiteSpace_eq, List.dropWhile_eq_nil_iff.mpr hblank]
  rfl

/-- What a run over lines does: an error is kept, and without one all lines are read. -/
structure LinesRun (lines : List Text) (p p' : TCodParser) : Prop where
  kept : p.iError ≠ 0 → p'.iError = p.iError
  read : (∀ line ∈ lines, Regular line) → p.iError = 0 →
    (p'.iError = 0 ∧ ∃ said, List.Forall₂ LineReads lines said ∧
      (∀ pair ∈ said.reduceOption, Takes pair.1 pair.2) ∧
      ∀ pairs data, p.Described pairs data → p'.Described (pairs ++ said.reduceOption) data) ∨
    (p'.iError = KErrCodInvalidDescriptor ∧
      ¬ ∃ said, List.Forall₂ LineReads lines said ∧
        ∀ pair ∈ said.reduceOption, Takes pair.1 pair.2)

/-- A run over no lines changes at most the cursor. -/
theorem LinesRun.nil (p : TCodParser) (cur : Cursor) : LinesRun [] p { p with iCurP := cur } where
  kept _ := rfl
  read _ hp := by
    refine Or.inl ⟨hp, [], .nil, by simp, ?_⟩
    rintro pairs data ⟨h₁, h₂⟩
    rw [List.reduceOption_nil, List.append_nil]
    exact ⟨h₁, h₂⟩

theorem takes_reduceOption_cons {said : Option (TCodAttr × Text)}
    {saids : List (Option (TCodAttr × Text))} :
    (∀ pair ∈ (said :: saids).reduceOption, Takes pair.1 pair.2) ↔
      (∀ pair ∈ said, Takes pair.1 pair.2) ∧
        ∀ pair ∈ saids.reduceOption, Takes pair.1 pair.2 := by
  cases said with
  | none => simp
  | some pair => simp

/-- A line and the run over the lines behind it. -/
theorem LineStep.run {line : Text} {lines : List Text} {p p₁ p' : TCodParser}
    (h : LineStep line p p₁) (hrun : LinesRun lines p₁ p') : LinesRun (line :: lines) p p' where
  kept hp := by
    have hp₁ := h.kept hp
    rw [hrun.kept (hp₁ ▸ hp), hp₁]
  read hregular hp := by
    obtain ⟨hline, hlines⟩ := List.forall_mem_cons.mp hregular
    rcases h.read hline hp with ⟨hp₁, said, hsaid, htakes, hdescribed⟩ | ⟨hp₁, hnone⟩
    · rcases hrun.read hlines hp₁ with ⟨hp', saids, hsaids, htakes', hdescribed'⟩ | ⟨hp', hnone⟩
      · refine Or.inl ⟨hp', said :: saids, .cons hsaid hsaids,
          takes_reduceOption_cons.mpr ⟨htakes, htakes'⟩, fun pairs data hp => ?_⟩
        have hall := hdescribed' _ _ (hdescribed pairs data hp)
        rw [List.append_assoc] at hall
        cases said with
        | none => simpa using hall
        | some pair => simpa using hall
      · refine Or.inr ⟨hp', ?_⟩
        rintro ⟨all, hall, htakes'⟩
        cases hall with
        | cons _ hsaids => exact hnone ⟨_, hsaids, (takes_reduceOption_cons.mp htakes').2⟩
    · refine Or.inr ⟨?_, ?_⟩
      · rw [hrun.kept (by rw [hp₁]; decide), hp₁]
      · rintro ⟨all, hall, htakes⟩
        cases hall with
        | cons hsaid _ => exact hnone ⟨_, hsaid, (takes_reduceOption_cons.mp htakes).1⟩

theorem lineStep_blank {line : Text} (hblank : ∀ c ∈ line, isBlank c) (p : TCodParser)
    (cur : Cursor) : LineStep line p { p with iCurP := cur } where
  kept _ := rfl
  read _ hp := by
    refine Or.inl ⟨hp, none, .blank hblank, by simp, ?_⟩
    rintro pairs data ⟨h₁, h₂⟩
    rw [Option.toList_none, List.append_nil]
    exact ⟨h₁, h₂⟩

/-- The loop over the lines ends for every text, and reads its lines. -/
theorem attrLines_run (text : Text) {fuel : Nat} {p : TCodParser} (hcur : p.iCurP = text)
    (hfuel : text.length < fuel) :
    ∃ p', TCodParser.attrLines fuel p = some p' ∧ LinesRun (textLines text) p p' := by
  induction hlength : text.length using Nat.strong_induction_on generalizing text fuel p with
  | _ n ih =>
      subst hlength
      obtain ⟨fuel, rfl⟩ : ∃ k, fuel = k + 1 := ⟨fuel - 1, by omega⟩
      rcases textLines_cases text with ⟨hline, hlines⟩ |
        ⟨line, tail, rest, rfl, hline, hend, hne, hlines⟩
      · rw [hlines]
        by_cases hblank : ∀ c ∈ text, isBlank c
        · -- The text ends with blanks.
          refine ⟨{ p with iCurP := [] }, ?_, (lineStep_blank hblank p []).run (.nil _ [])⟩
          rw [TCodParser.attrLines, attrLineL_end fuel (hcur ▸ hblank)]
          rfl
        · -- The last line ends with the text.
          have hcur' : p.iCurP = text ++ [] := by rw [hcur, List.append_nil]
          obtain ⟨p₁, hrun, hcur₁, hstep⟩ := attrLineL_line fuel p .text hline hcur' hblank
          have hpos : 0 < text.length := by
            rcases text with _ | ⟨c, text⟩
            · exact absurd (by simp) hblank
            · exact Nat.succ_pos _
          obtain ⟨fuel, rfl⟩ : ∃ k, fuel = k + 1 := ⟨fuel - 1, by omega⟩
          refine ⟨{ p₁ with iCurP := [] }, ?_, hstep.run (.nil p₁ [])⟩
          rw [TCodParser.attrLines, hrun]
          simp only [Option.bind_eq_bind, Option.bind_some, if_true]
          rw [TCodParser.attrLines, attrLineL_end fuel (by rw [hcur₁]; simp)]
          rfl
      · have hlt := hend.length_lt hne
        rw [hlines]
        by_cases hblank : ∀ c ∈ line, isBlank c
        · obtain ⟨p', hrun, hlinesRun⟩ := ih rest.length hlt rest (p := { p with iCurP := rest })
            rfl (hlt.trans hfuel) rfl
          refine ⟨p', ?_, (lineStep_blank hblank p rest).run hlinesRun⟩
          rw [TCodParser.attrLines] at hrun ⊢
          rw [attrLineL_blank hend hne hblank hcur hfuel]
          exact hrun
        · obtain ⟨p₁, hrun₁, hcur₁, hstep⟩ := attrLineL_line fuel p hend hline hcur hblank
          obtain ⟨p', hrun, hlinesRun⟩ := @ih rest.length hlt rest fuel _ hcur₁ (by omega) rfl
          refine ⟨p', ?_, hstep.run hlinesRun⟩
          rw [TCodParser.attrLines, hrun₁]
          exact hrun

/-- All lines are well formed when they say something together that is taken. -/
theorem wellFormed_iff (lines : List Text) :
    (∃ said, List.Forall₂ LineReads lines said ∧
        ∀ pair ∈ said.reduceOption, Takes pair.1 pair.2) ↔
      ∀ line ∈ lines, WellFormed line := by
  induction lines with
  | nil => exact iff_of_true ⟨[], .nil, by simp⟩ (by simp)
  | cons line lines ih =>
      rw [List.forall_mem_cons, ← ih]
      constructor
      · rintro ⟨all, hall, htakes⟩
        cases hall with
        | cons hsaid hsaids =>
            obtain ⟨h, h'⟩ := takes_reduceOption_cons.mp htakes
            exact ⟨⟨_, hsaid, h⟩, _, hsaids, h'⟩
      · rintro ⟨⟨said, hsaid, h⟩, saids, hsaids, h'⟩
        exact ⟨said :: saids, .cons hsaid hsaids, takes_reduceOption_cons.mpr ⟨h, h'⟩⟩

/-- The parser ends for every text and reads inside of it. For a text of regular lines it leaves
exactly when some line is not well formed; otherwise the data have for each attribute the value of
its last line. -/
theorem parseL_lines (aBuf : Text) (aData : CCodData) (fuel : Nat) (hfuel : aBuf.length < fuel) :
    ∃ iError data, TCodParser.parseL fuel aBuf aData = some (iError, data) ∧
      ((∀ line ∈ textLines aBuf, Regular line) →
        (iError = KErrNone ∨ iError = KErrCodInvalidDescriptor) ∧
        (iError = KErrCodInvalidDescriptor ↔ ∃ line ∈ textLines aBuf, ¬ WellFormed line) ∧
        (iError = KErrNone → ∃ said, List.Forall₂ LineReads (textLines aBuf) said ∧
          data = (describedData said.reduceOption aData).appendMediaObjectL
            (describedMedia said.reduceOption))) := by
  obtain ⟨p', hrun, hlines⟩ := attrLines_run aBuf
    (p := ⟨aBuf, KErrNone, aData, CMediaObjectData.newL⟩) rfl hfuel
  refine ⟨p'.iError, p'.iData.appendMediaObjectL p'.mediaObject, ?_, fun hregular => ?_⟩
  · rw [TCodParser.parseL, hrun]
    rfl
  · have hcodes : KErrNone ≠ KErrCodInvalidDescriptor := by decide
    rcases hlines.read hregular rfl with ⟨hp', said, hsaid, htakes, hdescribed⟩ | ⟨hp', hnone⟩
    · have hwell := (wellFormed_iff _).mp ⟨said, hsaid, htakes⟩
      obtain ⟨hdata, hmedia⟩ := hdescribed [] aData ⟨rfl, rfl⟩
      refine ⟨Or.inl hp', iff_of_false (fun h => hcodes (hp'.symm.trans h)) ?_, fun _ => ?_⟩
      · rintro ⟨line, hline, hnot⟩
        exact hnot (hwell line hline)
      · exact ⟨said, hsaid, by rw [hdata, hmedia, List.nil_append]⟩
    · rw [wellFormed_iff] at hnone
      refine ⟨Or.inr hp', iff_of_true hp' ?_, fun h => absurd (h.symm.trans hp') hcodes⟩
      simpa using hnone

/-- `COD-Name: a` -/
def nameLine : Text := ascii ['C', 'O', 'D', '-', 'N', 'a', 'm', 'e', ':', ' ', 'a']

theorem parseL_lines_name : ∃ data,
    TCodParser.parseL 12 nameLine CCodData.newL = some (KErrNone, data) := by
  obtain ⟨iError, data, hparse, h⟩ := parseL_lines nameLine CCodData.newL 12 (by decide)
  have hline : textLines nameLine = [nameLine] := by decide
  have hregular : ∀ line ∈ textLines nameLine, Regular line := by
    rw [hline, List.forall_mem_singleton]
    intro name rest value behind hname hattr hvalue
    obtain ⟨rfl, -, hrest⟩ := nameColon_iff.mp hname
    obtain rfl : ascii [' ', 'a'] = rest := (List.cons.inj hrest).2
    obtain ⟨-, -, rfl⟩ := hasValue_iff.mp hvalue
    exact ⟨by decide, fun h => absurd h (by decide)⟩
  have hwell : WellFormed nameLine := by
    refine ⟨_, .attr (nameColon_iff.mpr ⟨rfl, by decide, rfl⟩) (by decide)
      (hasValue_iff.mpr ⟨List.all_eq_true.mp (by decide), rfl, rfl⟩), ?_⟩
    rintro pair ⟨⟩
    trivial
  obtain ⟨hcode, hleaves, -⟩ := h hregular
  refine ⟨data, ?_⟩
  rcases hcode with rfl | hcode
  · exact hparse
  · obtain ⟨line, hmem, hnot⟩ := hleaves.mp hcode
    rw [hline] at hmem
    exact absurd (List.mem_singleton.mp hmem ▸ hwell) hnot

/-- `COD-Type:` -/
def emptyTypeLine : Text := ascii ['C', 'O', 'D', '-', 'T', 'y', 'p', 'e', ':']

/-- An empty type is a value without control characters and is refused. -/
theorem not_leaves_iff_line_form : ¬ ∀ (aBuf : Text) (aData : CCodData) (fuel : Nat),
    aBuf.length < fuel →
      ((∃ data, TCodParser.parseL fuel aBuf aData = some (KErrCodInvalidDescriptor, data)) ↔
        ∃ line ∈ textLines aBuf, ¬ ∃ said, LineReads line said ∧
          ∀ pair ∈ said, pair.1 = .eCodSize →
            pair.2 ≠ [] ∧ (∀ c ∈ pair.2, isDigit c) ∧ decimal pair.2 < 2 ^ 32) := by
  intro h
  obtain ⟨line, hmem, hnot⟩ := (h emptyTypeLine CCodData.newL 10 (by decide)).mp ⟨_, rfl⟩
  have hline : textLines emptyTypeLine = [emptyTypeLine] := by decide
  rw [hline] at hmem
  obtain rfl := List.mem_singleton.mp hmem
  refine hnot ⟨_, .attr (nameColon_iff.mpr ⟨rfl, by decide, rfl⟩) (by decide)
    (hasValue_iff.mpr ⟨List.all_eq_true.mp (by decide), rfl, rfl⟩), ?_⟩
  rintro pair ⟨⟩ hattr
  exact absurd hattr (by decide)

end SymbianWeb.Cod
