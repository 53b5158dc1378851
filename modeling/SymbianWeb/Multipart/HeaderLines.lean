import SymbianWeb.Multipart.BodyPartSpec
import SymbianWeb.Multipart.Composer
import Mathlib.Data.List.Forall2

/-!
# Header lines

What a block of header lines states, and what the parser reads of it. The parser looks for the
header names at every offset of a line, not only at its beginning, and takes for a content id
without angle brackets the value that it read before; `fields_of_lines` and `value_setFields` say
that this is all the difference.
-/

set_option autoImplicit false

namespace SymbianWeb.Multipart

open CString ExceptRuns

/-! ## Blocks of header lines -/

/-- A header line: a name and a value on one line. -/
structure HeaderLine where
  name : Bytes
  value : Bytes
  name_ne : name ≠ []
  colon : 0x3A ∉ name
  oneLine : ∀ c ∈ name ++ value, isEolChar c = false

def HeaderLine.text (l : HeaderLine) : Bytes := l.name ++ 0x3A :: l.value

/-- A header line from texts that have been checked. -/
def HeaderLine.ofTexts (name value : Bytes)
    (h : name ≠ [] ∧ 0x3A ∉ name ∧ ((name ++ value).all fun c => !isEolChar c) = true) :
    HeaderLine where
  name := name
  value := value
  name_ne := h.1
  colon := h.2.1
  oneLine := fun c hc => by simpa using List.all_eq_true.1 h.2.2 c hc

/-- The lines, each but the last with its line end. -/
def joinLines : List (HeaderLine × Eol) → Bytes
  | [] => []
  | [(l, _)] => l.text
  | (l, e) :: l' :: ls => l.text ++ (e.single ++ joinLines (l' :: ls))

/-- A block of header lines, possibly empty, with any number of line ends behind it. -/
structure HeaderBlock where
  lines : List (HeaderLine × Eol)
  trailing : Bytes
  trailing_eol : ∀ c ∈ trailing, isEolChar c = true
  trailing_nil : lines = [] → trailing = []

def HeaderBlock.text (b : HeaderBlock) : Bytes := joinLines b.lines ++ b.trailing

/-! ## What the lines state, and what is read of them -/

/-- The header that the line states, with its value behind the spaces. -/
def statedField (l : HeaderLine) : Option (Header × Bytes) :=
  (headerNames.find? fun name => decide ((l.name ++ [0x3A]).map toLower = name.1.map toLower)).map
    fun name => (name.2, l.value.dropWhile (· = 0x20))

/-- The header whose name comes first in the text, with its value behind the spaces. -/
def lineField : Bytes → Option (Header × Bytes)
  | [] => none
  | c :: s =>
      match nameAt (c :: s) with
      | some (header, nameLength) =>
          some (header, ((c :: s).drop nameLength).dropWhile (· = 0x20))
      | none => lineField s

/-- The value without its first and its last character, the angle brackets. -/
def inBrackets (value : Bytes) : Bytes := (value.drop 1).dropLast

/-- The headers after the fields, when each of them states its own value. -/
def stateAll (values : Header → Option Bytes) : List (Header × Bytes) → Header → Option Bytes
  | [] => values
  | (header, value) :: rest =>
      let value := if header = .contentID ∧ value.head? = some 0x3C then inBrackets value else value
      stateAll (Function.update values header (some value)) rest

/-- The headers after the fields, when a content id without angle brackets is the value before. -/
def readAll (previous : Option Bytes) (values : Header → Option Bytes) :
    List (Header × Bytes) → Header → Option Bytes
  | [] => values
  | (header, value) :: rest =>
      let value :=
        if header = .contentID then
          if value.head? = some 0x3C then some (inBrackets value) else previous
        else
          some value
      readAll value (Function.update values header value) rest

/-- A content type is taken up to its attributes. -/
def withoutAttributes (header : Header) (value : Bytes) : Bytes :=
  if header = .contentType then value.takeWhile (· ≠ 0x3B) else value

/-- The value of a header as the lines state it. -/
def HeaderBlock.stated (b : HeaderBlock) (header : Header) : Option Bytes :=
  (stateAll (fun _ => none) (b.lines.filterMap fun l => statedField l.1) header).map
    (withoutAttributes header)

/-- The value of a header as it is read of the lines. -/
def HeaderBlock.read (b : HeaderBlock) (header : Header) : Option Bytes :=
  (readAll none (fun _ => none) (b.lines.filterMap fun l => lineField l.1.text) header).map
    (withoutAttributes header)

/-- Looking for the header names at any offset, and taking the value before for a content id without
brackets, makes no difference. -/
def HeaderBlock.ReadsAlike (b : HeaderBlock) : Prop := ∀ header, b.read header = b.stated header

theorem readAll_eq_stateAll {previous : Option Bytes} {values : Header → Option Bytes}
    {rs : List (Header × Bytes)}
    (h : ∀ r ∈ rs, r.1 = .contentID → r.2.head? = some 0x3C) :
    readAll previous values rs = stateAll values rs := by
  induction rs generalizing previous values with
  | nil => rfl
  | cons r rs ih =>
      obtain ⟨header, value⟩ := r
      rw [readAll, stateAll]
      by_cases hid : header = .contentID
      · have hopen : value.head? = some 0x3C := h _ List.mem_cons_self hid
        simp only [hid, hopen, and_self, if_true]
        exact ih fun r hr => h r (List.mem_cons_of_mem _ hr)
      · simp only [hid, false_and, if_false]
        exact ih fun r hr => h r (List.mem_cons_of_mem _ hr)

/-- Lines in which no header name comes first but the one at their beginning, with angle brackets
around every content id, are read as they state. -/
theorem readsAlike_of_lines {b : HeaderBlock}
    (hlines : ∀ l ∈ b.lines, lineField l.1.text = statedField l.1)
    (hid : ∀ l ∈ b.lines, ∀ value, statedField l.1 = some (.contentID, value) →
      value.head? = some 0x3C) : b.ReadsAlike := by
  intro header
  have hsame : (b.lines.filterMap fun l => lineField l.1.text) =
      b.lines.filterMap fun l => statedField l.1 :=
    List.filterMap_congr fun l hl => hlines l hl
  rw [HeaderBlock.read, HeaderBlock.stated, hsame, readAll_eq_stateAll]
  intro r hr hheader
  obtain ⟨l, hl, hfield⟩ := List.mem_filterMap.1 hr
  obtain ⟨header', value⟩ := r
  subst hheader
  exact hid l hl value hfield

/-! ## The fields of a text -/

section Fields

variable {t : Bytes} {n i : Nat} {e : Eol}

/-- The fields from `i` on. -/
def fieldsFrom (t : Bytes) (n : Nat) (e : Eol) (i : Nat) : List Field :=
  readFields t n e (n + 1 - i) i

theorem readFields_fuel {fuel fuel' : Nat} (h : n < i + fuel) (h' : n < i + fuel') :
    readFields t n e fuel i = readFields t n e fuel' i := by
  induction fuel generalizing fuel' i with
  | zero =>
      cases fuel' with
      | zero => rfl
      | succ fuel' => rw [readFields, readFields, if_neg (by omega)]
  | succ fuel ih =>
      cases fuel' with
      | zero => rw [readFields, readFields, if_neg (by omega)]
      | succ fuel' =>
          rw [readFields, readFields]
          by_cases hi : i < n
          · rw [if_pos hi, if_pos hi, ih (show n < i + 1 + fuel by omega)
              (show n < i + 1 + fuel' by omega)]
            cases hf : fieldAt t n e i with
            | none => rfl
            | some f =>
                have hlt : i < f.lineEnd.getD (i + 1) := by
                  cases hline : f.lineEnd with
                  | none => exact Nat.lt_succ_self i
                  | some j =>
                      have hstart := (lineEnd_of_field hf hline).1
                      have hpos := lt_startPos hf
                      rw [Option.getD_some]
                      omega
                simp only
                rw [ih (show n < _ + fuel by omega) (show n < _ + fuel' by omega)]
          · rw [if_neg hi, if_neg hi]

theorem fieldsFrom_field {f : Field} (hi : i < n) (hf : fieldAt t n e i = some f) :
    fieldsFrom t n e i = f :: fieldsFrom t n e (f.lineEnd.getD (i + 1)) := by
  obtain ⟨fuel, hfuel⟩ : ∃ fuel, n + 1 - i = fuel + 1 := ⟨n - i, by omega⟩
  have hlt : i < f.lineEnd.getD (i + 1) := by
    cases hline : f.lineEnd with
    | none => exact Nat.lt_succ_self i
    | some j =>
        have hstart := (lineEnd_of_field hf hline).1
        have hpos := lt_startPos hf
        rw [Option.getD_some]
        omega
  rw [fieldsFrom, hfuel, readFields, if_pos hi, hf]
  simp only
  rw [fieldsFrom]
  congr 1
  exact readFields_fuel (by omega) (by omega)

theorem fieldsFrom_plain (hi : i < n) (hf : fieldAt t n e i = none)
    (hblank : ¬ BlankLine t e i) : fieldsFrom t n e i = fieldsFrom t n e (i + 1) := by
  obtain ⟨fuel, hfuel⟩ : ∃ fuel, n + 1 - i = fuel + 1 := ⟨n - i, by omega⟩
  have hfuel' : n + 1 - (i + 1) = fuel := by omega
  rw [fieldsFrom, hfuel, readFields, if_pos hi, hf]
  simp only
  rw [if_neg hblank, fieldsFrom, hfuel']

theorem fieldsFrom_blank (hi : i < n) (hf : fieldAt t n e i = none)
    (hblank : BlankLine t e i) : fieldsFrom t n e i = [] := by
  obtain ⟨fuel, hfuel⟩ : ∃ fuel, n + 1 - i = fuel + 1 := ⟨n - i, by omega⟩
  rw [fieldsFrom, hfuel, readFields, if_pos hi, hf]
  simp only
  rw [if_pos hblank]

end Fields

/-! ## The fields of a line -/

section Lines

variable {t line rest : Bytes} {n i : Nat} {e : Eol}

theorem isEolChar_iff {c : UInt8} : isEolChar c = true ↔ c = 0x0D ∨ c = 0x0A := by
  simp [isEolChar]

theorem not_isEolChar_iff {c : UInt8} : isEolChar c = false ↔ c ≠ 0x0D ∧ c ≠ 0x0A := by
  simp [isEolChar]

/-- Where another character is, there is no line end. -/
theorem not_lineEnd_of_char {c : UInt8} (hc : t[i]? = some c) (hno : isEolChar c = false) :
    ¬ LineEnd t e i := by
  intro hend
  rw [not_isEolChar_iff] at hno
  rcases hend.char with h | h
  · rw [hc, Option.some.injEq] at h
    exact hno.1 h
  · rw [hc, Option.some.injEq] at h
    exact hno.2 h

theorem getElem?_of_drop {c : UInt8} {s : Bytes} (h : t.drop i = c :: s) : t[i]? = some c := by
  rw [← Nat.add_zero i, ← List.getElem?_drop, h]
  rfl

/-- A header name does not go over the end of a line. -/
theorem nameAt_append (line rest : Bytes) {c : UInt8} (hc : isEolChar c = true) :
    nameAt (line ++ c :: rest) = nameAt line := by
  have hiff : ∀ name ∈ headerNames,
      (NameAt (line ++ c :: rest) name.1 ↔ NameAt line name.1) := by
    intro name hname
    rw [NameAt, NameAt, List.map_append]
    constructor
    · intro h
      rcases Nat.lt_or_ge line.length name.1.length with hlt | hge
      · -- the line end would be a character of the name
        obtain ⟨rest', hrest'⟩ := h
        have hget : (name.1.map toLower)[line.length]? = some (toLower c) := by
          have hget' : (name.1.map toLower ++ rest')[line.length]? = some (toLower c) := by
            rw [hrest', List.getElem?_append_right (by simp)]
            simp
          rwa [List.getElem?_append_left (by simpa using hlt)] at hget'
        have hchar := names_char name hname _ (List.mem_of_getElem? hget)
        rcases isEolChar_iff.1 hc with rfl | rfl
        · exact absurd toLower_cr hchar.1
        · exact absurd toLower_lf hchar.2
      · exact List.prefix_of_prefix_length_le h (List.prefix_append _ _) (by simpa using hge)
    · intro h
      exact h.trans (List.prefix_append _ _)
  have hfind : ∀ names : List (Bytes × Header), (∀ name ∈ names, name ∈ headerNames) →
      (names.find? fun name => decide (NameAt (line ++ c :: rest) name.1)) =
        names.find? fun name => decide (NameAt line name.1) := by
    intro names hnames
    induction names with
    | nil => rfl
    | cons name names ih =>
        rw [List.find?_cons, List.find?_cons,
          decide_eq_decide.2 (hiff name (hnames name List.mem_cons_self)),
          ih fun name' hname' => hnames name' (List.mem_cons_of_mem _ hname')]
  rw [nameAt, nameAt, hfind headerNames fun name hname => hname]

theorem nameAt_eol {c : UInt8} (hc : isEolChar c = true) : nameAt (c :: rest) = none := by
  have hnil : nameAt [] = none := by decide
  have happend := nameAt_append [] rest hc
  rwa [hnil] at happend

theorem leadingSpaces_append (line rest : Bytes) {c : UInt8} (hc : isEolChar c = true) :
    leadingSpaces (line ++ c :: rest) = (line.takeWhile (· = 0x20)).length := by
  have hspace : c ≠ 0x20 := by
    rcases isEolChar_iff.1 hc with rfl | rfl <;> decide
  induction line with
  | nil => simp [leadingSpaces, hspace]
  | cons a line ih =>
      by_cases ha : a = 0x20
      · simp only [leadingSpaces] at ih
        simp [leadingSpaces, ha, ih]
      · simp [leadingSpaces, ha]

/-- The field has the header and the value. -/
def FieldReads (t : Bytes) (f : Field) (r : Header × Bytes) : Prop :=
  f.header = r.1 ∧ ∃ j, f.lineEnd = some j ∧ f.startPos ≤ j ∧
    (t.drop f.startPos).take (j - f.startPos) = r.2 ∧ r.2.length = j - f.startPos ∧
    (t[f.startPos]? = some 0x3C ↔ r.2.head? = some 0x3C)

/-- Over a line the scan finds the header whose name comes first in it. -/
theorem fieldsFrom_line {c : UInt8} (hline : ∀ a ∈ line, isEolChar a = false)
    (hc : isEolChar c = true) (hdrop : t.drop i = line ++ c :: rest)
    (hend : LineEnd t e (i + line.length)) (hroom : i + line.length + e.single.length ≤ n) :
    ∃ fs, fieldsFrom t n e i = fs ++ fieldsFrom t n e (i + line.length) ∧
      List.Forall₂ (FieldReads t) fs (lineField line).toList := by
  have h1 := single_length_pos e
  induction line generalizing i with
  | nil => exact ⟨[], by simp, by simp [lineField]⟩
  | cons a line ih =>
      have hhere : t[i]? = some a := getElem?_of_drop hdrop
      have hnext : t.drop (i + 1) = line ++ c :: rest := by
        rw [← List.drop_drop, hdrop]
        rfl
      have hname : nameAt (t.drop i) = nameAt (a :: line) := by
        rw [hdrop]
        exact nameAt_append _ _ hc
      have hlength : (a :: line).length = line.length + 1 := rfl
      rw [hlength] at hend hroom ⊢
      cases hfound : nameAt (a :: line) with
      | none =>
          rw [hfound] at hname
          have hf : fieldAt t n e i = none := by
            rw [fieldAt, hname]
            rfl
          have hblank : ¬ BlankLine t e i := fun hblank =>
            not_lineEnd_of_char hhere (hline a List.mem_cons_self) hblank.lineEnd
          have hsum : i + (line.length + 1) = i + 1 + line.length := by omega
          rw [hsum] at hend hroom ⊢
          obtain ⟨fs, hfs, hreads⟩ := ih (fun b hb => hline b (List.mem_cons_of_mem _ hb)) hnext
            hend hroom
          refine ⟨fs, ?_, ?_⟩
          · rw [fieldsFrom_plain (by omega) hf hblank, hfs]
          · rw [lineField, hfound]
            exact hreads
      | some found =>
          obtain ⟨header, nameLength⟩ := found
          rw [hfound] at hname
          obtain ⟨name, -, hat, -, hlen⟩ := exists_name_of_nameAt hfound
          have hle : nameLength ≤ line.length + 1 := by
            have h := hat.length_le
            simp only [List.length_map, List.length_cons] at h
            omega
          -- what is behind the name on the line, and the value in it
          obtain ⟨behind, hbehind⟩ : ∃ behind, (a :: line).drop nameLength = behind := ⟨_, rfl⟩
          have hlenBehind : behind.length = line.length + 1 - nameLength := by
            rw [← hbehind, List.length_drop]
            rfl
          have hdropName : t.drop (i + nameLength) = behind ++ c :: rest := by
            rw [← List.drop_drop, hdrop, List.drop_append_of_le_length hle, hbehind]
          have hspaces := leadingSpaces_append behind rest hc
          rw [← hdropName] at hspaces
          have hsplit := List.takeWhile_append_dropWhile (p := fun c => decide (c = 0x20))
            (l := behind)
          obtain ⟨spaces, hspacesEq⟩ : ∃ spaces, behind.takeWhile (· = 0x20) = spaces := ⟨_, rfl⟩
          obtain ⟨value, hvalueEq⟩ : ∃ value, behind.dropWhile (· = 0x20) = value := ⟨_, rfl⟩
          rw [hspacesEq, hvalueEq] at hsplit
          rw [hspacesEq] at hspaces
          have hlenSplit : spaces.length + value.length = behind.length := by
            rw [← hsplit, List.length_append]
          have hdropValue : t.drop (i + nameLength + spaces.length) = value ++ c :: rest := by
            rw [← List.drop_drop, hdropName, ← hsplit, List.append_assoc, List.drop_left]
          have hstartEnd : i + nameLength + spaces.length + value.length = i + (line.length + 1) := by
            omega
          have hvalueChar : ∀ b ∈ value, isEolChar b = false := by
            intro b hb
            refine hline b ?_
            have hmem : b ∈ behind := hsplit ▸ List.mem_append_right _ hb
            exact List.mem_of_mem_drop (hbehind ▸ hmem)
          have hlineEnd : lineEndFrom t n e (i + nameLength + spaces.length) =
              some (i + (line.length + 1)) := by
            refine searchFrom_eq_some.2 ⟨by omega, by omega, hend, fun k hk hlt => ?_⟩
            obtain ⟨d, rfl⟩ := Nat.exists_eq_add_of_le hk
            have hd : d < value.length := by omega
            have hchar : t[i + nameLength + spaces.length + d]? = some value[d] := by
              rw [← List.getElem?_drop, hdropValue, List.getElem?_append_left hd,
                List.getElem?_eq_getElem hd]
            exact not_lineEnd_of_char hchar (hvalueChar _ (List.getElem_mem hd))
          have hf : fieldAt t n e i =
              some ⟨header, i + nameLength + spaces.length, some (i + (line.length + 1))⟩ := by
            rw [fieldAt, hname]
            simp only [Option.map_some]
            rw [hspaces, hlineEnd]
          refine ⟨[⟨header, i + nameLength + spaces.length, some (i + (line.length + 1))⟩], ?_, ?_⟩
          · rw [fieldsFrom_field (by omega) hf]
            rfl
          · rw [lineField, hfound]
            simp only [Option.toList_some]
            refine .cons ⟨rfl, _, rfl, by simp only; omega, ?_,
              by simp only [hbehind, hvalueEq]; omega, ?_⟩ .nil
            · simp only
              rw [hdropValue, hbehind, hvalueEq,
                show i + (line.length + 1) - (i + nameLength + spaces.length) = value.length by omega,
                List.take_left]
            · simp only
              rw [← Nat.add_zero (i + nameLength + spaces.length), ← List.getElem?_drop, hdropValue,
                hbehind, hvalueEq]
              cases value with
              | nil =>
                  have hne : c ≠ 0x3C := by
                    rcases isEolChar_iff.1 hc with rfl | rfl <;> decide
                  simp [hne]
              | cons b value => simp

/-- A line end character is no blank line when the next line is not blank. -/
theorem fieldsFrom_eolChar {c : UInt8} (hc : isEolChar c = true)
    (hdrop : t.drop i = c :: rest) (hi : i < n)
    (hnot : ¬ BlankLine t e i) : fieldsFrom t n e i = fieldsFrom t n e (i + 1) := by
  refine fieldsFrom_plain hi ?_ hnot
  rw [fieldAt, hdrop, nameAt_eol hc]
  rfl

/-- No blank line is at the line end in front of a line. -/
theorem not_blankLine_before {d : UInt8} (hd : isEolChar d = false) (e' : Eol) {k : Nat}
    (hdrop : t.drop i = e'.single ++ d :: rest) (hik : i ≤ k) (hk : k < i + e'.single.length) :
    ¬ BlankLine t .crlf k := by
  rw [not_isEolChar_iff] at hd
  obtain ⟨m, rfl⟩ := Nat.exists_eq_add_of_le hik
  rw [BlankLine, ← List.drop_drop, hdrop]
  cases e' with
  | crlf =>
      cases m with
      | zero =>
          rintro (⟨r, hr⟩ | ⟨r, hr⟩)
          · simp [Eol.double, Eol.single] at hr
            exact hd.1 hr.1.symm
          · simp [Eol.double, Eol.single] at hr
      | succ m =>
          cases m with
          | zero =>
              rintro (⟨r, hr⟩ | ⟨r, hr⟩)
              · simp [Eol.double, Eol.single] at hr
              · simp [Eol.double, Eol.single] at hr
                exact hd.2 hr.1.symm
          | succ m =>
              have hk' : i + (m + 1 + 1) < i + 2 := hk
              omega
  | lf =>
      cases m with
      | zero =>
          rintro (⟨r, hr⟩ | ⟨r, hr⟩)
          · simp [Eol.double, Eol.single] at hr
          · simp [Eol.double, Eol.single] at hr
            exact hd.2 hr.1.symm
      | succ m =>
          have hk' : i + (m + 1) < i + 1 := hk
          omega

/-- Over the line end in front of a line the scan goes on. -/
theorem fieldsFrom_eol {d : UInt8} (hd : isEolChar d = false) (e' : Eol)
    (hdrop : t.drop i = e'.single ++ d :: rest) (hroom : i + e'.single.length ≤ n) :
    fieldsFrom t n .crlf i = fieldsFrom t n .crlf (i + e'.single.length) := by
  have hnot := fun {k : Nat} => not_blankLine_before (k := k) hd e' hdrop
  cases e' with
  | crlf =>
      have hsecond : t.drop (i + 1) = 0x0A :: d :: rest := by
        rw [← List.drop_drop, hdrop]
        rfl
      have hroom' : i + 2 ≤ n := hroom
      rw [fieldsFrom_eolChar (c := 0x0D) rfl hdrop (by omega)
          (hnot (Nat.le_refl _) (by simp [Eol.single])),
        fieldsFrom_eolChar (c := 0x0A) rfl hsecond (by omega)
          (hnot (Nat.le_succ _) (by simp [Eol.single]))]
      rfl
  | lf =>
      have hroom' : i + 1 ≤ n := hroom
      rw [fieldsFrom_eolChar (c := 0x0A) rfl hdrop (by omega)
        (hnot (Nat.le_refl _) (by simp [Eol.single]))]
      rfl

end Lines

/-! ## The fields of a block -/

section Block

variable {t rest : Bytes} {n i : Nat}

theorem HeaderLine.text_eol (l : HeaderLine) : ∀ c ∈ l.text, isEolChar c = false := by
  intro c hc
  rcases List.mem_append.1 hc with hname | hvalue
  · exact l.oneLine c (List.mem_append_left _ hname)
  · rcases List.mem_cons.1 hvalue with rfl | hvalue
    · rfl
    · exact l.oneLine c (List.mem_append_right _ hvalue)

theorem HeaderLine.exists_text (l : HeaderLine) :
    ∃ a s, l.text = a :: s ∧ isEolChar a = false ∧ s ≠ [] := by
  obtain ⟨a, s, hname⟩ := List.exists_cons_of_ne_nil l.name_ne
  refine ⟨a, s ++ 0x3A :: l.value, ?_, l.oneLine a (by simp [hname]), by simp⟩
  rw [HeaderLine.text, hname]
  rfl

theorem joinLines_cons (l : HeaderLine) (e : Eol) {ls : List (HeaderLine × Eol)} (hls : ls ≠ []) :
    joinLines ((l, e) :: ls) = l.text ++ (e.single ++ joinLines ls) := by
  cases ls with
  | nil => exact absurd rfl hls
  | cons l' ls => rfl

theorem exists_joinLines {ls : List (HeaderLine × Eol)} (hls : ls ≠ []) :
    ∃ a s, joinLines ls = a :: s ∧ isEolChar a = false ∧ s ≠ [] := by
  obtain ⟨⟨l, e⟩, ls, rfl⟩ := List.exists_cons_of_ne_nil hls
  obtain ⟨a, s, htext, ha, hs⟩ := l.exists_text
  cases ls with
  | nil => exact ⟨a, s, htext, ha, hs⟩
  | cons l' ls =>
      refine ⟨a, s ++ (e.single ++ joinLines (l' :: ls)), ?_, ha, by simp [hs]⟩
      rw [joinLines, htext]
      rfl

theorem single_eol (e : Eol) : ∃ c s, e.single = c :: s ∧ isEolChar c = true := by
  cases e with
  | crlf => exact ⟨0x0D, [0x0A], rfl, rfl⟩
  | lf => exact ⟨0x0A, [], rfl, rfl⟩

theorem lineEnd_of_single (e : Eol) (hdrop : t.drop i = e.single ++ rest) :
    LineEnd t .crlf i := by
  cases e with
  | crlf => exact .inl ⟨rest, hdrop.symm⟩
  | lf => exact .inr ⟨rest, hdrop.symm⟩

/-- The fields of the lines, up to the blank line behind them. -/
theorem fieldsFrom_lines {ls : List (HeaderLine × Eol)} (hls : ls ≠ [])
    (hdrop : t.drop i = joinLines ls ++ (Eol.crlf.double ++ rest))
    (hroom : i + (joinLines ls).length + Eol.crlf.double.length ≤ n) :
    List.Forall₂ (FieldReads t) (fieldsFrom t n .crlf i)
        (ls.filterMap fun l => lineField l.1.text) ∧
      NoBlankLine t .crlf i (i + (joinLines ls).length) := by
  have h4 : Eol.crlf.double.length = 4 := rfl
  have h2 : Eol.crlf.single.length = 2 := rfl
  induction ls generalizing i with
  | nil => exact absurd rfl hls
  | cons l ls ih =>
      obtain ⟨l, e⟩ := l
      have hnoBlank : ∀ {tail : Bytes}, t.drop i = l.text ++ tail →
          NoBlankLine t .crlf i (i + l.text.length) := by
        intro tail htail k hik hk hblank
        obtain ⟨d, rfl⟩ := Nat.exists_eq_add_of_le hik
        have hd : d < l.text.length := by omega
        have hchar : t[i + d]? = some l.text[d] := by
          rw [← List.getElem?_drop, htail, List.getElem?_append_left hd,
            List.getElem?_eq_getElem hd]
        exact not_lineEnd_of_char hchar (l.text_eol _ (List.getElem_mem hd)) hblank.lineEnd
      by_cases hlast : ls = []
      · subst hlast
        have hbehind : t.drop (i + l.text.length) = Eol.crlf.single ++ (Eol.crlf.single ++ rest) := by
          rw [← List.drop_drop, hdrop, joinLines, List.drop_left, Eol.double, List.append_assoc]
        have hblank : BlankLine t .crlf (i + l.text.length) := by
          refine .inl ⟨rest, ?_⟩
          rw [hbehind, Eol.double, List.append_assoc]
        rw [joinLines] at hdrop hroom ⊢
        obtain ⟨fs, hfs, hreads⟩ := fieldsFrom_line (e := .crlf) l.text_eol
          (show isEolChar 0x0D = true from rfl) hdrop (lineEnd_of_single .crlf hbehind)
          (show i + l.text.length + Eol.crlf.single.length ≤ n by omega)
        have hf : fieldAt t n .crlf (i + l.text.length) = none := by
          rw [fieldAt, hbehind]
          exact congrArg (Option.map _) (nameAt_eol rfl)
        rw [fieldsFrom_blank (by omega) hf hblank, List.append_nil] at hfs
        rw [hfs]
        refine ⟨?_, hnoBlank hdrop⟩
        cases hfield : lineField l.text with
        | none => rw [hfield] at hreads; simpa [hfield] using hreads
        | some r => rw [hfield] at hreads; simpa [hfield] using hreads
      · obtain ⟨a, s, hjoin, ha, hs⟩ := exists_joinLines hlast
        obtain ⟨c, es, hsingle, hc⟩ := single_eol e
        rw [joinLines_cons l e hlast] at hdrop hroom ⊢
        simp only [List.append_assoc, List.length_append] at hdrop hroom ⊢
        have hbehind : t.drop (i + l.text.length) =
            e.single ++ (joinLines ls ++ (Eol.crlf.double ++ rest)) := by
          rw [← List.drop_drop, hdrop, List.drop_left]
        have hnext : t.drop (i + l.text.length + e.single.length) =
            joinLines ls ++ (Eol.crlf.double ++ rest) := by
          rw [← List.drop_drop, hbehind, List.drop_left]
        obtain ⟨ihfields, ihblank⟩ := ih hlast hnext (by omega)
        have hdropLine : t.drop i =
            l.text ++ c :: (es ++ (joinLines ls ++ (Eol.crlf.double ++ rest))) := by
          rw [hdrop, hsingle]
          rfl
        obtain ⟨fs, hfs, hreads⟩ := fieldsFrom_line (e := .crlf) l.text_eol hc hdropLine
          (lineEnd_of_single e hbehind)
          (show i + l.text.length + Eol.crlf.single.length ≤ n by omega)
        have hbehind' : t.drop (i + l.text.length) =
            e.single ++ a :: (s ++ (Eol.crlf.double ++ rest)) := by
          rw [hbehind, hjoin]
          rfl
        rw [fieldsFrom_eol ha e hbehind' (by omega)] at hfs
        rw [hfs]
        constructor
        · have hboth := List.rel_append hreads ihfields
          cases hfield : lineField l.text with
          | none => rw [hfield] at hboth; simpa [hfield] using hboth
          | some r => rw [hfield] at hboth; simpa [hfield] using hboth
        · intro k hik hk
          rcases Nat.lt_or_ge k (i + l.text.length) with hlt | hge
          · exact hnoBlank hdrop k hik hlt
          · rcases Nat.lt_or_ge k (i + l.text.length + e.single.length) with hlt | hge'
            · exact not_blankLine_before ha e hbehind' hge hlt
            · exact ihblank k hge' (by omega)

end Block

/-! ## The values of the headers -/

/-- The header of the body part. -/
def getHeader (aBodyPart : CBodyPart) : Header → Ptr8
  | .contentBase => aBodyPart.iContentBase
  | .contentLocation => aBodyPart.iContentLocation
  | .contentTransferEncoding => aBodyPart.iContentTransferEncoding
  | .contentType => aBodyPart.iContentType
  | .contentID => aBodyPart.iContentID

/-- What a descriptor holds, if it is not null. -/
def ptrValue (body : Bytes) (p : Ptr8) : Option Bytes :=
  if p = .null then none else some (p.bytes body)

section Values

variable {body : Bytes} {base : Nat}

theorem getHeader_setHeader (aBodyPart : CBodyPart) (header : Header) (value : Ptr8) (h : Header) :
    getHeader (setHeader aBodyPart header value) h =
      if h = header then value else getHeader aBodyPart h := by
  cases header <;> cases h <;> rfl

/-- A field is read as the header and the value it has. -/
theorem ptrValue_fieldValue {f : Field} {r : Header × Bytes} (value : Ptr8)
    (h : FieldReads (body.drop base) f r) (halone : ¬ f.Alone (body.drop base)) :
    ptrValue body (fieldValue base (body.drop base) value f) =
      if r.1 = .contentID then
        if r.2.head? = some 0x3C then some (inBrackets r.2) else ptrValue body value
      else
        some r.2 := by
  obtain ⟨hheader, j, hline, hstart, htake, hlength, hangle⟩ := h
  rw [fieldValue, hline, ← hheader]
  simp only
  by_cases hid : f.header = .contentID
  · rw [if_pos hid, if_pos hid]
    by_cases hopen : (body.drop base)[f.startPos]? = some 0x3C
    · rw [if_pos hopen, if_pos (hangle.1 hopen)]
      have hlong : f.startPos + 2 ≤ j := by
        have hpos : 0 < r.2.length := by
          cases hvalue : r.2 with
          | nil =>
              have hhead := hangle.1 hopen
              rw [hvalue] at hhead
              cases hhead
          | cons b value => simp
        have hne : j ≠ f.startPos + 1 := fun heq => halone ⟨hid, hopen, heq ▸ hline⟩
        omega
      have hinside : inBrackets r.2 =
          ((body.drop base).drop (f.startPos + 1)).take (j - f.startPos - 2) := by
        have hbehind : r.2.drop 1 =
            ((body.drop base).drop (f.startPos + 1)).take (j - f.startPos - 1) := by
          rw [← htake, List.drop_take, List.drop_drop]
        have hlength' : (r.2.drop 1).length = j - f.startPos - 1 := by
          rw [List.length_drop, hlength]
        rw [inBrackets, List.dropLast_eq_take, hlength', hbehind, List.take_take]
        congr 1
        omega
      rw [ptrValue, if_neg (by simp), Ptr8.bytes, hinside, List.drop_drop]
      rfl
    · rw [if_neg hopen, if_neg fun hhead => hopen (hangle.2 hhead)]
  · rw [if_neg hid, if_neg hid, ptrValue, if_neg (by simp), Ptr8.bytes, ← List.drop_drop, htake]

/-- The headers that the scan gives are the ones that are read of the fields. -/
theorem ptrValue_setFields {fs : List Field} {rs : List (Header × Bytes)} (value : Ptr8)
    (aBodyPart : CBodyPart) (h : List.Forall₂ (FieldReads (body.drop base)) fs rs)
    (halone : ∀ f ∈ fs, ¬ f.Alone (body.drop base)) :
    (fun header => ptrValue body
        (getHeader (setFields base (body.drop base) value aBodyPart fs) header)) =
      readAll (ptrValue body value) (fun header => ptrValue body (getHeader aBodyPart header)) rs := by
  induction h generalizing value aBodyPart with
  | nil => rfl
  | @cons f r fs rs hhead _ ih =>
      have hvalue := ptrValue_fieldValue value hhead (halone f List.mem_cons_self)
      rw [setFields, readAll, ih _ _ fun g hg => halone g (List.mem_cons_of_mem _ hg), hvalue]
      congr 1
      funext header
      rw [getHeader_setHeader, ← hhead.1, Function.update_apply]
      by_cases heq : header = f.header
      · rw [if_pos heq, if_pos heq, hvalue, hhead.1]
      · rw [if_neg heq, if_neg heq]

/-- A text up to the first semicolon. -/
theorem takeWhile_of_findText {s : Bytes} :
    s.takeWhile (· ≠ 0x3B) =
      match findText (ascii ";") s with
      | none => s
      | some k => s.take k := by
  have hsemicolon : ascii ";" = [0x3B] := by decide
  rw [hsemicolon]
  induction s with
  | nil => rfl
  | cons c s ih =>
      rw [findText]
      by_cases hc : c = 0x3B
      · subst hc
        simp
      · have hnot : ([0x3B] : Bytes).isPrefixOf (c :: s) = false := by
          simp [List.isPrefixOf, Ne.symm hc]
        rw [hnot]
        simp only [Bool.false_eq_true, if_false]
        rw [List.takeWhile_cons_of_pos (by simpa using hc), ih]
        cases findText [0x3B] s <;> rfl

theorem ptrValue_left {p : Ptr8} {k : Nat} (hk : k ≤ (p.bytes body).length) :
    ptrValue body (p.left k) = (ptrValue body p).map (List.take k) := by
  cases p with
  | null => rfl
  | owned bytes => rfl
  | view pos len =>
      rw [Ptr8.left, ptrValue, ptrValue, if_neg (by simp), if_neg (by simp), Ptr8.bytes, Ptr8.bytes,
        Option.map_some, List.take_take]
      congr 2
      rw [Ptr8.bytes, List.length_take] at hk
      omega

theorem findText_le {text s : Bytes} {k : Nat} (h : findText text s = some k) : k ≤ s.length := by
  induction s generalizing k with
  | nil =>
      rw [findText] at h
      split at h
      · cases h
        exact Nat.zero_le _
      · cases h
  | cons c s ih =>
      rw [findText] at h
      split at h
      · cases h
        exact Nat.zero_le _
      · obtain ⟨k', hk', rfl⟩ := Option.map_eq_some_iff.1 h
        exact Nat.succ_le_succ (ih hk')

/-- Cutting off the attributes of the content type leaves the other headers as they are. -/
theorem ptrValue_cutOff (aBodyPart : CBodyPart) (header : Header) :
    ptrValue body (getHeader (cutOffContentTypeAttributes body aBodyPart) header) =
      (ptrValue body (getHeader aBodyPart header)).map (withoutAttributes header) := by
  have hother : header ≠ .contentType →
      getHeader (cutOffContentTypeAttributes body aBodyPart) header = getHeader aBodyPart header := by
    intro hne
    rw [cutOffContentTypeAttributes]
    simp only
    cases findText (ascii ";") (aBodyPart.iContentType.bytes body) with
    | none => rfl
    | some offset =>
        simp only
        cases header with
        | contentType => exact absurd rfl hne
        | _ => split <;> split <;> rfl
  by_cases hheader : header = .contentType
  · subst hheader
    have hcut : (cutOffContentTypeAttributes body aBodyPart).iContentType =
        match findText (ascii ";") (aBodyPart.iContentType.bytes body) with
        | none => aBodyPart.iContentType
        | some offset => aBodyPart.iContentType.left offset := by
      rw [cutOffContentTypeAttributes]
      simp only
      cases findText (ascii ";") (aBodyPart.iContentType.bytes body) with
      | none => rfl
      | some offset =>
          simp only
          split <;> split <;> rfl
    have hwithout : withoutAttributes .contentType (aBodyPart.iContentType.bytes body) =
        match findText (ascii ";") (aBodyPart.iContentType.bytes body) with
        | none => aBodyPart.iContentType.bytes body
        | some k => (aBodyPart.iContentType.bytes body).take k := by
      rw [withoutAttributes, if_pos rfl, takeWhile_of_findText]
    rw [getHeader, getHeader, hcut]
    by_cases hnull : aBodyPart.iContentType = .null
    · rw [hnull]
      rfl
    · have hsome : ptrValue body aBodyPart.iContentType =
          some (aBodyPart.iContentType.bytes body) := if_neg hnull
      rw [hsome, Option.map_some, hwithout]
      cases hfind : findText (ascii ";") (aBodyPart.iContentType.bytes body) with
      | none => exact hsome
      | some offset =>
          simp only
          rw [ptrValue_left (findText_le hfind), hsome]
          rfl
  · rw [hother hheader]
    have hid : withoutAttributes header = id := by
      funext value
      rw [withoutAttributes, if_neg hheader]
      rfl
    rw [hid, Option.map_id]
    rfl

end Values

/-! ## The headers of a parsed part -/

section Parsed

variable {P : Platform} {body : Bytes} {e : Eol} {url : List UInt16} {buffer : BodyPartBuffer}
  {aBodyPart aBodyPart' : CBodyPart}

theorem cutOff_of_null (h : aBodyPart.iContentType = .null) :
    cutOffContentTypeAttributes body aBodyPart = aBodyPart := by
  have hnone : findText (ascii ";") [] = none := by decide
  rw [cutOffContentTypeAttributes]
  simp only [h, Ptr8.bytes, hnone]

theorem getHeader_decodeBody (h : decodeBody P body aBodyPart = .ok aBodyPart') :
    getHeader aBodyPart' = getHeader (cutOffContentTypeAttributes body aBodyPart) := by
  rw [decodeBody_eq] at h
  obtain ⟨decoded, hdecode, h⟩ := bind_eq_ok.1 h
  have hdecoded : ∃ b d, decoded = { aBodyPart with iBody := b, iIsDecodedBody := d } := by
    rw [decodeStage] at hdecode
    obtain ⟨yes, -, hdecode⟩ := bind_eq_ok.1 hdecode
    cases yes with
    | false =>
        cases hdecode
        exact ⟨_, _, rfl⟩
    | true =>
        obtain ⟨b, -, hdecode⟩ := bind_eq_ok.1 hdecode
        cases hdecode
        exact ⟨_, _, rfl⟩
  obtain ⟨b, d, rfl⟩ := hdecoded
  -- the body plays no part in cutting off the attributes
  have hcut : getHeader (cutOffContentTypeAttributes body
      { aBodyPart with iBody := b, iIsDecodedBody := d }) =
      getHeader (cutOffContentTypeAttributes body aBodyPart) := by
    funext header
    rw [cutOffContentTypeAttributes, cutOffContentTypeAttributes]
    simp only
    cases findText (ascii ";") (aBodyPart.iContentType.bytes body) with
    | none => cases header <;> rfl
    | some offset =>
        simp only
        split <;> split <;> cases header <;> rfl
  rw [unzipStage] at h
  have hsame : ∀ p : CBodyPart, (if p.iContentType = .null then p
      else cutOffContentTypeAttributes body p) = cutOffContentTypeAttributes body p := by
    intro p
    split
    · rename_i hnull
      exact (cutOff_of_null hnull).symm
    · rfl
  rw [hsame] at h
  obtain ⟨yes, -, h⟩ := bind_eq_ok.1 h
  rw [← hcut]
  cases yes with
  | false =>
      cases h
      rfl
  | true =>
      obtain ⟨b', -, h⟩ := bind_eq_ok.1 h
      cases h
      funext header
      cases header <;> rfl

theorem getHeader_setBody {t : Bytes} {base n : Nat} {m : Option Nat} :
    getHeader (setBody base t n e aBodyPart m) = getHeader aBodyPart := by
  cases m with
  | none => rfl
  | some i =>
      rw [setBody]
      funext header
      simp only
      split <;> cases header <;> rfl

/-- The headers of a parsed part are those that the scan found, the content type up to its
attributes. -/
theorem ptrValue_parseBodyPartL (hlen : buffer.2 ≤ (body.drop buffer.1).length)
    (h : parseBodyPartL P body buffer e url = .ok aBodyPart) (header : Header) :
    ptrValue body (getHeader aBodyPart header) =
      (ptrValue body (getHeader (headersOf body buffer e) header)).map
        (withoutAttributes header) := by
  rw [parseBodyPartL_eq] at h
  obtain ⟨scanned, hscan, h⟩ := bind_eq_ok.1 h
  obtain ⟨-, rfl⟩ := (scan_ok_iff hlen).1 hscan
  obtain ⟨part, hdecode, h⟩ := bind_eq_ok.1 h
  obtain ⟨u, -, h⟩ := bind_eq_ok.1 h
  cases h
  have hpart : getHeader { part with iUrl := some u } = getHeader part := by
    funext header
    cases header <;> rfl
  rw [hpart, getHeader_decodeBody hdecode, ptrValue_cutOff, scannedPart, getHeader_setBody]

end Parsed

end SymbianWeb.Multipart
