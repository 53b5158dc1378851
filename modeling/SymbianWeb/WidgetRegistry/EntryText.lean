import SymbianWeb.WidgetRegistry.WidgetEntry
import SymbianWeb.Favourites.NameSearch

/-!
# The text of a widget entry

What `ExternalizeXmlL` writes is content of the XML grammar, with one `prop`
element for each property, as soon as the strings, names and blobs of the entry
are text that XML can carry. It is written at all exactly when every piece fits
the buffer and no property is missing (`externalizeFrom_isOk_iff`).
-/

set_option autoImplicit false

namespace SymbianWeb.WidgetRegistry

open XmlContent
open Favourites.Store (decimal lexVal isDigit digitsValue isDigit_decimalDigits
  digitsValue_decimalDigits decimalDigits_ne_nil toNat_lt_of_isDigit lexVal_digits)

/-! ## Strings -/

theorem length_encodeUnit (c : UInt16) : (encodeUnit c).length = 1 + encodeExtra c := by
  unfold encodeUnit encodeExtra
  split_ifs <;> rfl

/-- The separate counter counts what is written. -/
theorem length_encode (s : Text) :
    (s.flatMap encodeUnit).length = s.length + (s.map encodeExtra).sum := by
  induction s with
  | nil => rfl
  | cons c s ih =>
    simp only [List.flatMap_cons, List.length_append, length_encodeUnit, ih, List.length_cons,
      List.map_cons, List.sum_cons]
    omega

/-- The string case, for a string that fits `orig`. -/
theorem writeString_eq {s : Text} (h : s.length ≤ kMaxFileName) :
    writeString s =
      if kMaxFileName < (s.flatMap encodeUnit).length then .error .overrun
      else .ok (s.flatMap encodeUnit) := by
  have horig : bufAppend [] s = .ok s := if_pos h
  unfold writeString
  rw [horig]
  simp only [bind, Except.bind, ← length_encode, List.take_length]
  split_ifs <;> rfl

theorem charData_encode (s : Text) : CharData (s.flatMap encodeUnit) s := by
  induction s with
  | nil => exact .nil
  | cons c s ih =>
    rw [List.flatMap_cons]
    unfold encodeUnit
    split_ifs with hlt hgt hamp hquot hapos hcr
    · exact .entity (hlt ▸ by decide) ih
    · exact .entity (hgt ▸ by decide) ih
    · exact .entity (hamp ▸ by decide) ih
    · exact .entity (hquot ▸ by decide) ih
    · exact .entity (hapos ▸ by decide) ih
    · exact .entity (hcr ▸ by decide) ih
    · exact .plain hlt hamp hcr ih

theorem gt_not_mem_encode (s : Text) : 62 ∉ s.flatMap encodeUnit := by
  intro h
  obtain ⟨c, -, hc⟩ := List.mem_flatMap.1 h
  unfold encodeUnit at hc
  split_ifs at hc with hlt hgt hamp hquot hapos hcr
  · exact absurd hc (by decide)
  · exact absurd hc (by decide)
  · exact absurd hc (by decide)
  · exact absurd hc (by decide)
  · exact absurd hc (by decide)
  · exact absurd hc (by decide)
  · exact hgt (List.mem_singleton.1 hc).symm

/-- Text without its last unit has no end of a CDATA section. -/
theorem not_infix_of_not_mem {raw : Text} (h : 62 ∉ raw) : ¬ lit "]]>" <:+: raw :=
  fun hsub => h (hsub.subset (by decide))

/-- A string as it is written is read back. -/
theorem textRun_encode {s : Text} (hne : s ≠ []) (hlegal : isXmlText s = true) :
    TextRun (s.flatMap encodeUnit) s :=
  ⟨charData_encode s, hne, hlegal, not_infix_of_not_mem (gt_not_mem_encode s)⟩

/-! ## Numbers and fixed words -/

/-- Printing ASCII units that XML does not reserve. -/
def isPlain (c : UInt16) : Bool := 32 ≤ c && c < 128 && c ≠ 60 && c ≠ 62 && c ≠ 38

theorem isXmlText_cons {c : UInt16} {t : Text} (hc : 32 ≤ c ∧ c < 0xD800)
    (ht : isXmlText t = true) : isXmlText (c :: t) = true := by
  have hnotpair : ¬ 0xD800 ≤ c := UInt16.not_le.2 hc.2
  cases t with
  | nil => simp [isXmlText, hc]
  | cons d rest => simp [isXmlText, hc, hnotpair, ht]

theorem textRun_plain {t : Text} (hne : t ≠ []) (h : t.all isPlain = true) : TextRun t t := by
  have hplain : ∀ c ∈ t, 32 ≤ c ∧ c < 128 ∧ c ≠ 60 ∧ c ≠ 62 ∧ c ≠ 38 := by
    intro c hc
    simpa [isPlain, and_assoc] using List.all_eq_true.1 h c hc
  refine ⟨?_, hne, ?_, not_infix_of_not_mem fun hmem => (hplain 62 hmem).2.2.2.1 rfl⟩
  · clear hne h
    induction t with
    | nil => exact .nil
    | cons c t ih =>
      obtain ⟨hlo, -, hlt, -, hamp⟩ := hplain c List.mem_cons_self
      refine .plain hlt hamp ?_ (ih fun d hd => hplain d (List.mem_cons_of_mem _ hd))
      rintro rfl
      exact absurd hlo (by decide)
  · clear hne h
    induction t with
    | nil => rfl
    | cons c t ih =>
      obtain ⟨hlo, hhi, -⟩ := hplain c List.mem_cons_self
      exact isXmlText_cons ⟨hlo, UInt16.lt_trans hhi (by decide)⟩
        (ih fun d hd => hplain d (List.mem_cons_of_mem _ hd))

theorem isPlain_of_isDigit {c : UInt16} (h : isDigit c = true) : isPlain c = true := by
  obtain ⟨hlo, hhi⟩ := toNat_lt_of_isDigit h
  have hne : ∀ d : UInt16, d.toNat < 48 ∨ 58 ≤ d.toNat → c ≠ d := by
    rintro d hd rfl
    omega
  simp only [isPlain, Bool.and_eq_true, decide_eq_true_eq]
  refine ⟨⟨⟨⟨?_, ?_⟩, ?_⟩, ?_⟩, ?_⟩
  · exact UInt16.le_iff_toNat_le.2 (Nat.le_trans (by decide) hlo)
  · exact UInt16.lt_iff_toNat_lt.2 (Nat.lt_trans hhi (by decide))
  · exact hne 60 (by decide)
  · exact hne 62 (by decide)
  · exact hne 38 (by decide)

theorem textRun_formatInt (i : Int) : TextRun (formatInt i) (formatInt i) := by
  have hdecimal : ∀ n : Nat, (decimal n).all isPlain = true := fun n =>
    List.all_eq_true.2 fun c hc => isPlain_of_isDigit (isDigit_decimalDigits n c hc)
  unfold formatInt
  split_ifs with hneg
  · exact textRun_plain (List.cons_ne_nil _ _) (by simp [hdecimal, isPlain])
  · exact textRun_plain (decimalDigits_ne_nil _ _) (hdecimal _)

/-- Digits behind a minus sign are read back. -/
theorem lexVal_neg {digits : Text} (hne : digits ≠ []) (hdigits : ∀ c ∈ digits, isDigit c = true)
    (hle : digitsValue 0 digits ≤ 2147483648) :
    lexVal (45 :: digits) = some (-(digitsValue 0 digits : Int)) := by
  cases digits with
  | nil => exact (hne rfl).elim
  | cons c digits =>
    have hdigit := hdigits c List.mem_cons_self
    simp only [lexVal, List.head?_cons, List.tail_cons, true_or, if_true, Option.map_some,
      Option.getD_some, hdigit]
    rw [if_pos (by omega)]

/-- A number is read back from its digits. -/
theorem lexTInt_formatInt (i : TInt) : lexTInt (formatInt i) = some i := by
  obtain ⟨i, hlo, hhi⟩ := i
  have hvalue : ∀ n : Nat, digitsValue 0 (decimal n) = n := fun n =>
    digitsValue_decimalDigits n (Nat.le_refl n)
  have hne : ∀ n : Nat, decimal n ≠ [] := fun n => decimalDigits_ne_nil n n
  have hdigits : ∀ n : Nat, ∀ c ∈ decimal n, isDigit c = true := fun n => isDigit_decimalDigits n
  have hlex : lexVal (formatInt i) = some i := by
    unfold formatInt
    split_ifs with hneg
    · have hle : digitsValue 0 (decimal (-i).toNat) ≤ 2147483648 := by
        rw [hvalue]
        omega
      have hlex := lexVal_neg (hne _) (hdigits _) hle
      rw [hvalue] at hlex
      exact hlex.trans (congrArg some (by omega))
    · have hlt : digitsValue 0 (decimal i.toNat) < 2147483648 := by
        rw [hvalue]
        omega
      have hlex := lexVal_digits (hne _) (hdigits _) hlt
      rw [hvalue] at hlex
      exact hlex.trans (congrArg some (by omega))
  simp only [lexTInt, hlex, hlo, hhi, and_self, dite_true]

/-! ## The conditions, property by property -/

section

variable [CharFold] (x : WidgetRegistryXml)

/-- The property `i` with the value `v` can be written: a string fits with its
reserved units replaced, and a property the code does not know has a blob that
fits, and a name that does. -/
structure FitsAt (i : Nat) (v : PropertyValue) : Prop where
  string : ∀ s, v = .string s → (s.flatMap encodeUnit).length ≤ kMaxFileName
  blob : kPropertyIdCount ≤ i → ∃ s, v = .blob s ∧ s.length ≤ kMaxFileName
  name : kPropertyIdCount ≤ i → 6 + (x.xmlPropertyName i).length ≤ kMaxFileName

/-- What XML can carry: strings of XML characters, blobs that are the source text
of their own nodes, and names that are text as they stand. -/
structure IsXmlAt (i : Nat) (v : PropertyValue) : Prop where
  string : ∀ s, v = .string s → isXmlText s = true
  blob : ∀ s, v = .blob s → ∃ nodes, Content nodes s ∧ subtreeText nodes = s
  name : kPropertyIdCount ≤ i → TextRun (x.xmlPropertyName i) (x.xmlPropertyName i)

/-- The values that an entry may have at a place of its array. -/
structure ValueAt (i : Nat) (v : PropertyValue) : Prop where
  known : i < kPropertyIdCount → ∀ s, v ≠ .blob s
  short : ∀ s, v = .string s → s.length ≤ kMaxFileName
  other : kPropertyIdCount ≤ i → v = .unknown ∨ ∃ s, v = .blob s

variable {x}

/-- The known names are the ones in front. -/
theorem xmlPropertyName_known {i : Nat} (hi : i < kPropertyIdCount) :
    ∃ p, knownProperties[i]? = some p ∧ x.iProperties[i]? = some p ∧
      x.xmlPropertyName i = p.name := by
  have hlength : knownProperties.length = kPropertyIdCount := rfl
  have hget : x.iProperties[i]? = knownProperties[i]? := by
    obtain ⟨rest, hrest⟩ := x.known
    rw [← hrest, List.getElem?_append_left (hlength ▸ hi)]
  have hi' : i < knownProperties.length := hi
  refine ⟨knownProperties[i], List.getElem?_eq_getElem hi', ?_, ?_⟩
  · rw [hget, List.getElem?_eq_getElem hi']
  · exact WidgetRegistryXml.xmlPropertyName_of_getElem?
      (hget.trans (List.getElem?_eq_getElem hi'))

theorem length_known_name {i : Nat} (hi : i < kPropertyIdCount) :
    6 + (x.xmlPropertyName i).length ≤ kMaxFileName := by
  have hshort : ∀ p ∈ knownProperties, 6 + p.name.length ≤ kMaxFileName := by decide
  obtain ⟨p, hp, -, hname⟩ := xmlPropertyName_known (x := x) hi
  rw [hname]
  exact hshort p (List.mem_of_getElem? hp)

theorem textRun_known_name {i : Nat} (hi : i < kPropertyIdCount) :
    TextRun (x.xmlPropertyName i) (x.xmlPropertyName i) := by
  have hplain : ∀ p ∈ knownProperties, p.name ≠ [] ∧ p.name.all isPlain = true := by decide
  obtain ⟨p, hp, -, hname⟩ := xmlPropertyName_known (x := x) hi
  rw [hname]
  have hmem := List.mem_of_getElem? hp
  exact textRun_plain (hplain p hmem).1 (hplain p hmem).2

end

/-! ## One property -/

/-- The text that a value is read from. -/
def valueContent : PropertyValue → Text
  | .bool _ => lit "0"
  | .int i => formatInt i
  | .string s => s
  | .uid i => formatInt i
  | .unknown => []
  | .blob _ => []

/-- The nodes of a value: an empty one has none. -/
def valueNodes (v : PropertyValue) : List XmlNode :=
  if valueContent v = [] then [] else [.text (valueContent v)]

/-- The element of a known property. -/
def knownNode (name : Text) (v : PropertyValue) : XmlNode :=
  .element (lit "prop") [.text name,
    .element (lit "val") (valueNodes v ++ [.element (lit "type") [.text (typeText v)]])]

/-- The element of another property. -/
def otherNode (name : Text) (nodes : List XmlNode) : XmlNode :=
  .element (lit "prop") [.text name, .element (lit "val") nodes]

theorem head_append {name : Text} (h : 6 + name.length ≤ kMaxFileName) :
    bufAppend (lit "<prop>") name = .ok (openTag (lit "prop") ++ name) := by
  have hlength : (lit "<prop>" ++ name).length ≤ kMaxFileName := by
    rw [List.length_append, show (lit "<prop>").length = 6 from rfl]
    exact h
  exact if_pos hlength

theorem head_append_error {name : Text} (h : ¬ 6 + name.length ≤ kMaxFileName) :
    bufAppend (lit "<prop>") name = .error .panic := by
  refine if_neg ?_
  rw [List.length_append, show (lit "<prop>").length = 6 from rfl]
  exact h

/-- The value text of a value that fits. -/
theorem valueText_eq {i : Nat} {v : PropertyValue} (hvalue : ValueAt i v)
    (hfits : ∀ s, v = .string s → (s.flatMap encodeUnit).length ≤ kMaxFileName)
    (hknown : i < kPropertyIdCount) (hset : v ≠ .unknown) :
    ∃ raw, valueText v = .ok raw ∧
      ((∀ s, v = .string s → isXmlText s = true) →
        valueContent v ≠ [] → TextRun raw (valueContent v)) ∧
      (valueContent v = [] → raw = []) := by
  cases v with
  | unknown => exact absurd rfl hset
  | blob s => exact absurd rfl (hvalue.known hknown s)
  | bool b =>
    refine ⟨lit "0", rfl, fun _ _ => textRun_plain (by decide) (by decide), ?_⟩
    intro h
    cases h
  | int i =>
    refine ⟨formatInt i, rfl, fun _ _ => textRun_formatInt i, ?_⟩
    intro h
    exact absurd h (textRun_formatInt i).ne_nil
  | uid i =>
    refine ⟨formatInt i, rfl, fun _ _ => textRun_formatInt i, ?_⟩
    intro h
    exact absurd h (textRun_formatInt i).ne_nil
  | string s =>
    refine ⟨s.flatMap encodeUnit, ?_, ?_, ?_⟩
    · simp only [valueText, PropertyValue.toDesC]
      rw [writeString_eq (hvalue.short s rfl), if_neg (Nat.not_lt.2 (hfits s rfl))]
    · exact fun hlegal hne => textRun_encode hne (hlegal s rfl)
    · intro h
      simp only [valueContent] at h
      rw [h]
      rfl

theorem textRun_typeText {v : PropertyValue} (hset : v ≠ .unknown) (hblob : ∀ s, v ≠ .blob s) :
    TextRun (typeText v) (typeText v) := by
  cases v with
  | unknown => exact absurd rfl hset
  | blob s => exact absurd rfl (hblob s)
  | bool b => exact textRun_plain (List.cons_ne_nil _ _) rfl
  | int i => exact textRun_plain (List.cons_ne_nil _ _) rfl
  | string s => exact textRun_plain (List.cons_ne_nil _ _) rfl
  | uid i => exact textRun_plain (List.cons_ne_nil _ _) rfl

/-- The element of a known property, in front of further content. -/
theorem content_knownNode {name raw rest : Text} {v : PropertyValue} {nodes : List XmlNode}
    (hname : TextRun name name) (htype : TextRun (typeText v) (typeText v))
    (hvalue : valueContent v ≠ [] → TextRun raw (valueContent v))
    (hempty : valueContent v = [] → raw = []) (hrest : Content nodes rest) :
    Content (knownNode name v :: nodes)
      (openTag (lit "prop") ++ name ++ lit "<val>" ++ raw ++ lit "<type>" ++ typeText v ++
        lit "</type></val></prop>" ++ rest) := by
  have hinner : Content [.element (lit "type") [.text (typeText v)]]
      (openTag (lit "type") ++ ((typeText v ++ []) ++ (closeTag (lit "type") ++ []))) :=
    .element rfl (.text htype rfl .nil) .nil
  have hval : Content (valueNodes v ++ [.element (lit "type") [.text (typeText v)]])
      (raw ++ (openTag (lit "type") ++ ((typeText v ++ []) ++ (closeTag (lit "type") ++ [])))) := by
    unfold valueNodes
    by_cases h : valueContent v = []
    · rw [if_pos h, hempty h]
      exact hinner
    · rw [if_neg h]
      exact .text (hvalue h) rfl hinner
  have hprop : Content (knownNode name v :: nodes) _ :=
    .element rfl (.text hname rfl (.element rfl hval .nil)) hrest
  simpa [knownNode, openTag, closeTag, lit] using hprop

/-- The element of another property, in front of further content. -/
theorem content_otherNode {name raw rest : Text} {inner nodes : List XmlNode}
    (hname : TextRun name name) (hinner : Content inner raw) (hrest : Content nodes rest) :
    Content (otherNode name inner :: nodes)
      (openTag (lit "prop") ++ name ++ lit "<val>" ++ raw ++ lit "</val></prop>" ++ rest) := by
  have hprop : Content (otherNode name inner :: nodes) _ :=
    .element rfl (.text hname rfl (.element rfl hinner .nil)) hrest
  simpa [otherNode, openTag, closeTag, lit] using hprop

/-- The end of a line between properties. -/
theorem content_newline {nodes : List XmlNode} {rest : Text}
    (hnodes : startsWithText nodes = false) (hrest : Content nodes rest) :
    Content (.text [10] :: nodes) (kXmlNewline ++ rest) :=
  .text ⟨.newline .nil, by decide, by decide, by decide⟩ hnodes hrest

end SymbianWeb.WidgetRegistry
