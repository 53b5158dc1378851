import Mathlib.Data.List.Basic
import Mathlib.Data.List.Infix
import Mathlib.Data.UInt
import Mathlib.Tactic
import SymbianWeb.Library.Search

/-!
# Content of XML elements

A small part of the grammar of XML, over the code units of 16-bit text: character
data with the predefined and one numeric entity, elements without attributes,
and CDATA sections. `Content nodes raw` says that `raw` is content with the tree
`nodes`. The grammar is not ambiguous (`Content.unique`), so a reader that agrees
with it exists; what one relies on of a library is `ContentReader`.
-/

set_option autoImplicit false

namespace SymbianWeb.XmlContent

/-- 16-bit text. -/
abbrev Text := List UInt16

/-- A literal as text. -/
def lit (s : String) : Text := s.toList.map fun c => UInt16.ofNat c.toNat

/-- A node of a parsed document, without attributes. -/
inductive XmlNode where
  | element (name : Text) (children : List XmlNode)
  | text (content : Text)
  | cdata (content : Text)
  | comment (content : Text)

/-! ## Characters -/

/-- The characters of XML, with surrogates in pairs. -/
def isXmlText : Text → Bool
  | [] => true
  | [c] => c = 9 || c = 10 || c = 13 || (32 ≤ c && c < 0xD800) || (0xE000 ≤ c && c ≤ 0xFFFD)
  | c :: d :: rest =>
    if 0xD800 ≤ c ∧ c < 0xDC00 then 0xDC00 ≤ d && d < 0xE000 && isXmlText rest
    else (c = 9 || c = 10 || c = 13 || (32 ≤ c && c < 0xD800) || (0xE000 ≤ c && c ≤ 0xFFFD)) &&
      isXmlText (d :: rest)

/-- The entities that a text may use. -/
def entities : List (Text × UInt16) :=
  [(lit "&lt;", 60), (lit "&gt;", 62), (lit "&amp;", 38), (lit "&quot;", 34), (lit "&apos;", 39),
    (lit "&#13;", 13)]

/-- Character data and the characters that it stands for. -/
inductive CharData : Text → Text → Prop where
  | nil : CharData [] []
  | plain {c : UInt16} {raw content : Text} : c ≠ 60 → c ≠ 38 → c ≠ 13 →
      CharData raw content → CharData (c :: raw) (c :: content)
  /-- The end of a line is normalised. -/
  | newline {raw content : Text} : CharData raw content →
      CharData (13 :: 10 :: raw) (10 :: content)
  | entity {e raw content : Text} {c : UInt16} : (e, c) ∈ entities →
      CharData raw content → CharData (e ++ raw) (c :: content)

/-- The text of a text node. -/
structure TextRun (raw content : Text) : Prop where
  data : CharData raw content
  ne_nil : content ≠ []
  legal : isXmlText content = true
  noEnd : ¬ lit "]]>" <:+: raw

def isNameStart (c : UInt16) : Bool := (65 ≤ c && c ≤ 90) || (97 ≤ c && c ≤ 122) || c = 95

def isNameUnit (c : UInt16) : Bool := isNameStart c || (48 ≤ c && c ≤ 57) || c = 45 || c = 46

/-- Names of elements, of ASCII letters, digits and some signs. -/
def isTagName : Text → Bool
  | [] => false
  | c :: rest => isNameStart c && rest.all isNameUnit

/-! ## The grammar -/

def openTag (name : Text) : Text := 60 :: name ++ [62]

def closeTag (name : Text) : Text := 60 :: 47 :: name ++ [62]

def startsWithText : List XmlNode → Bool
  | .text _ :: _ => true
  | _ => false

/-- Content and its tree. Two text nodes do not stand side by side. -/
inductive Content : List XmlNode → Text → Prop where
  | nil : Content [] []
  | text {raw content rest : Text} {nodes : List XmlNode} : TextRun raw content →
      startsWithText nodes = false → Content nodes rest →
      Content (.text content :: nodes) (raw ++ rest)
  | element {name inner rest : Text} {children nodes : List XmlNode} : isTagName name = true →
      Content children inner → Content nodes rest →
      Content (.element name children :: nodes) (openTag name ++ (inner ++ (closeTag name ++ rest)))
  | cdata {content rest : Text} {nodes : List XmlNode} : isXmlText content = true →
      13 ∉ content → ¬ lit "]]>" <:+: content → Content nodes rest →
      Content (.cdata content :: nodes) (lit "<![CDATA[" ++ (content ++ (lit "]]>" ++ rest)))

/-- A library that reads content: whatever else it accepts, on content of the
grammar it gives the tree. -/
structure ContentReader where
  parse : Text → Option (List XmlNode)
  parse_content : ∀ {nodes : List XmlNode} {raw : Text}, Content nodes raw → parse raw = some nodes

/-! ## Character data has one reading -/

theorem CharData.not_mem_lt {raw content : Text} (h : CharData raw content) : 60 ∉ raw := by
  induction h with
  | nil => exact List.not_mem_nil
  | plain hlt _ _ _ ih => exact fun h => (List.mem_cons.1 h).elim (fun h => hlt h.symm) ih
  | newline _ ih =>
    intro h
    rcases List.mem_cons.1 h with h | h
    · exact absurd h (by decide)
    · rcases List.mem_cons.1 h with h | h
      · exact absurd h (by decide)
      · exact ih h
  | @entity e _ _ c he _ ih =>
    have hentities : ∀ p ∈ entities, (60 : UInt16) ∉ p.1 := by decide
    exact fun h => (List.mem_append.1 h).elim (hentities (e, c) he) ih

/-- No entity is the beginning of another. -/
theorem entity_unique {e e' raw raw' : Text} {c c' : UInt16} (h : (e, c) ∈ entities)
    (h' : (e', c') ∈ entities) (heq : e ++ raw = e' ++ raw') : e = e' ∧ c = c' := by
  have hpre : ∀ p ∈ entities, ∀ q ∈ entities, p.1 <+: q.1 → p = q := by decide
  have hle : e <+: e' ∨ e' <+: e :=
    List.prefix_or_prefix_of_prefix ⟨raw, heq⟩ ⟨raw', rfl⟩
  rcases hle with hle | hle
  · exact Prod.mk.inj (hpre _ h _ h' hle)
  · have := Prod.mk.inj (hpre _ h' _ h hle)
    exact ⟨this.1.symm, this.2.symm⟩

/-- An entity begins with an ampersand. -/
theorem entity_cons {e : Text} {c : UInt16} (h : (e, c) ∈ entities) : ∃ rest, e = 38 :: rest := by
  have hentities : ∀ p ∈ entities, p.1.head? = some 38 := by decide
  have hhead := hentities _ h
  cases e with
  | nil => cases hhead
  | cons d rest =>
    obtain rfl := Option.some.inj hhead
    exact ⟨rest, rfl⟩

theorem CharData.unique {raw content : Text} (h : CharData raw content) :
    ∀ {content' : Text}, CharData raw content' → content = content' := by
  induction h with
  | nil =>
    intro content' h'
    generalize hraw : ([] : Text) = raw at h'
    cases h' with
    | nil => rfl
    | plain => cases hraw
    | newline => cases hraw
    | entity he _ =>
      obtain ⟨rest, rfl⟩ := entity_cons he
      cases hraw
  | @plain c raw content hlt hamp hcr _ ih =>
    intro content' h'
    generalize hraw : c :: raw = raw' at h'
    cases h' with
    | nil => cases hraw
    | plain _ _ _ h' =>
      obtain ⟨rfl, rfl⟩ := List.cons.inj hraw
      rw [ih h']
    | newline _ => exact absurd (List.cons.inj hraw).1 hcr
    | entity he _ =>
      obtain ⟨rest, rfl⟩ := entity_cons he
      exact absurd (List.cons.inj hraw).1 hamp
  | @newline raw content _ ih =>
    intro content' h'
    generalize hraw : 13 :: 10 :: raw = raw' at h'
    cases h' with
    | nil => cases hraw
    | plain _ _ hcr _ => exact absurd (List.cons.inj hraw).1.symm hcr
    | newline h' =>
      obtain rfl := (List.cons.inj (List.cons.inj hraw).2).2
      rw [ih h']
    | entity he _ =>
      obtain ⟨rest, rfl⟩ := entity_cons he
      exact absurd (List.cons.inj hraw).1 (by decide)
  | @entity e raw content c he _ ih =>
    intro content' h'
    generalize hraw : e ++ raw = raw' at h'
    cases h' with
    | nil =>
      obtain ⟨rest, rfl⟩ := entity_cons he
      cases hraw
    | plain _ hamp _ _ =>
      obtain ⟨rest, rfl⟩ := entity_cons he
      exact absurd (List.cons.inj hraw).1.symm hamp
    | newline _ =>
      obtain ⟨rest, rfl⟩ := entity_cons he
      exact absurd (List.cons.inj hraw).1 (by decide)
    | entity he' h' =>
      obtain ⟨rfl, rfl⟩ := entity_unique he he' hraw
      rw [ih (List.append_cancel_left hraw ▸ h')]

/-! ## Content has one tree -/

/-- Two texts without the end of a CDATA section, each followed by it. -/
theorem append_inj_of_not_infix {a b x y : Text} (ha : ¬ lit "]]>" <:+: a)
    (hb : ¬ lit "]]>" <:+: b) (h : a ++ (lit "]]>" ++ x) = b ++ (lit "]]>" ++ y)) :
    a = b ∧ x = y := by
  have hlit : lit "]]>" = [93, 93, 62] := rfl
  -- What the longer text has more than the shorter one would begin with the end mark.
  have hrest : ∀ {a t x y : Text}, ¬ lit "]]>" <:+: a ++ t →
      lit "]]>" ++ x = t ++ (lit "]]>" ++ y) → t = [] := by
    intro a t x y hno h
    rw [hlit] at h hno
    match t, h with
    | [], _ => rfl
    | [t₁], h => simp at h
    | [t₁, t₂], h => simp at h
    | t₁ :: t₂ :: t₃ :: t, h =>
      simp only [List.cons_append, List.nil_append, List.cons.injEq] at h
      obtain ⟨rfl, rfl, rfl, -⟩ := h
      exact absurd ⟨a, t, by simp⟩ hno
  rcases List.append_eq_append_iff.1 h with ⟨t, rfl, ht⟩ | ⟨t, rfl, ht⟩
  · obtain rfl := hrest hb ht
    rw [List.nil_append] at ht
    exact ⟨(List.append_nil a).symm, List.append_cancel_left ht⟩
  · obtain rfl := hrest ha ht
    rw [List.nil_append] at ht
    exact ⟨List.append_nil b, (List.append_cancel_left ht).symm⟩

theorem TextRun.raw_ne_nil {raw content : Text} (h : TextRun raw content) : raw ≠ [] := by
  rintro rfl
  exact h.ne_nil (h.data.unique CharData.nil)

/-- Content ends where nothing follows, or an end tag. -/
def Stops (rest : Text) : Prop := rest = [] ∨ ∃ tail, rest = 60 :: 47 :: tail

/-- What is no text begins with a tag. -/
theorem Content.head {nodes : List XmlNode} {raw : Text} (h : Content nodes raw)
    (hnodes : startsWithText nodes = false) : raw = [] ∨ raw.head? = some 60 := by
  cases h with
  | nil => exact .inl rfl
  | text => cases hnodes
  | element => exact .inr rfl
  | cdata => exact .inr rfl

theorem head_of_stops {nodes : List XmlNode} {raw rest : Text} (h : Content nodes raw)
    (hnodes : startsWithText nodes = false) (hrest : Stops rest) :
    raw ++ rest = [] ∨ (raw ++ rest).head? = some 60 := by
  rcases h.head hnodes with rfl | hhead
  · rcases hrest with rfl | ⟨tail, rfl⟩
    · exact .inl rfl
    · exact .inr rfl
  · right
    cases raw with
    | nil => cases hhead
    | cons c raw => exact hhead

/-- A text run does not begin as a tag does. -/
theorem TextRun.head_ne {raw content rest : Text} (h : TextRun raw content) :
    ∃ c tail, raw ++ rest = c :: tail ∧ c ≠ 60 := by
  cases hraw : raw with
  | nil => exact absurd hraw h.raw_ne_nil
  | cons c tail =>
    refine ⟨c, tail ++ rest, rfl, ?_⟩
    rintro rfl
    exact h.data.not_mem_lt (hraw ▸ List.mem_cons_self)

/-- The first unit of a name is neither a slash nor an exclamation mark. -/
theorem tagName_cons {name : Text} (h : isTagName name = true) :
    ∃ c rest, name = c :: rest ∧ c ≠ 47 ∧ c ≠ 33 := by
  cases name with
  | nil => cases h
  | cons c rest =>
    refine ⟨c, rest, rfl, ?_, ?_⟩
    · rintro rfl
      rw [isTagName, show isNameStart 47 = false from rfl] at h
      cases h
    · rintro rfl
      rw [isTagName, show isNameStart 33 = false from rfl] at h
      cases h

theorem isNameUnit_of_mem {name : Text} (h : isTagName name = true) :
    ∀ c ∈ name, isNameUnit c = true := by
  cases name with
  | nil => cases h
  | cons c rest =>
    rw [isTagName, Bool.and_eq_true] at h
    intro d hd
    rcases List.mem_cons.1 hd with rfl | hd
    · rw [isNameUnit, h.1]
      rfl
    · exact List.all_eq_true.1 h.2 d hd

theorem gt_not_mem_tagName {name : Text} (h : isTagName name = true) : 62 ∉ name := by
  intro hmem
  have := isNameUnit_of_mem h 62 hmem
  revert this
  decide

theorem stops_closeTag (name rest : Text) : Stops (closeTag name ++ rest) :=
  .inr ⟨name ++ [62] ++ rest, by simp [closeTag]⟩

/-- Names in front of the end of a tag. -/
theorem openTag_inj {name name' x y : Text} (h : isTagName name = true)
    (h' : isTagName name' = true) (heq : openTag name ++ x = openTag name' ++ y) :
    name = name' ∧ x = y := by
  have heq : name ++ (62 :: x) = name' ++ (62 :: y) := by
    simpa [openTag] using heq
  obtain ⟨rfl, hrest⟩ := Search.append_inj_of_not_mem (gt_not_mem_tagName h) (gt_not_mem_tagName h')
    (.inr rfl) (.inr rfl) heq
  exact ⟨rfl, (List.cons.inj hrest).2⟩

/-- Content in front of its end has one tree and one extent. By induction on the
first derivation: the first units tell which rule the second one begins with. -/
theorem Content.unique_append {nodes : List XmlNode} {raw : Text} (h : Content nodes raw) :
    ∀ {nodes' : List XmlNode} {raw' x y : Text}, Content nodes' raw' → Stops x → Stops y →
      raw ++ x = raw' ++ y → nodes = nodes' ∧ raw = raw' ∧ x = y := by
  induction h with
  | nil =>
    intro nodes' raw' x y h' hx _ heq
    rw [List.nil_append] at heq
    cases h' with
    | nil => exact ⟨rfl, rfl, heq⟩
    | text hrun _ _ =>
      obtain ⟨c, tail, hc, hne⟩ := hrun.head_ne
      rw [List.append_assoc, hc] at heq
      rcases hx with rfl | ⟨tail', rfl⟩
      · cases heq
      · exact absurd (List.cons.inj heq).1.symm hne
    | element hname _ _ =>
      obtain ⟨c, rest, rfl, hslash, -⟩ := tagName_cons hname
      rcases hx with rfl | ⟨tail', rfl⟩
      · cases heq
      · simp only [openTag, List.cons_append, List.cons.injEq] at heq
        exact absurd heq.2.1.symm hslash
    | cdata =>
      rcases hx with rfl | ⟨tail', rfl⟩
      · cases heq
      · exact absurd (List.cons.inj (List.cons.inj heq).2).1 (by decide)
  | @text raw content rest nodes hrun hnodes htail ih =>
    intro nodes' raw' x y h' hx hy heq
    obtain ⟨c, tail, hc, hne⟩ := hrun.head_ne
    cases h' with
    | nil =>
      rw [List.append_assoc, hc, List.nil_append] at heq
      rcases hy with rfl | ⟨tail', rfl⟩
      · cases heq
      · exact absurd (List.cons.inj heq).1 hne
    | text hrun' hnodes' htail' =>
      rw [List.append_assoc, List.append_assoc] at heq
      obtain ⟨rfl, hrest⟩ := Search.append_inj_of_not_mem hrun.data.not_mem_lt hrun'.data.not_mem_lt
        (head_of_stops htail hnodes hx) (head_of_stops htail' hnodes' hy) heq
      obtain ⟨rfl, rfl, rfl⟩ := ih htail' hx hy hrest
      rw [hrun.data.unique hrun'.data]
      exact ⟨rfl, rfl, rfl⟩
    | element =>
      rw [List.append_assoc, hc] at heq
      exact absurd (List.cons.inj heq).1 hne
    | cdata =>
      rw [List.append_assoc, hc] at heq
      exact absurd (List.cons.inj heq).1 hne
  | @element name inner rest children nodes hname hinner htail ihinner ih =>
    intro nodes' raw' x y h' hx hy heq
    obtain ⟨c, tail, hcons, hslash, hbang⟩ := tagName_cons hname
    cases h' with
    | nil =>
      rcases hy with rfl | ⟨tail', rfl⟩
      · cases heq
      · simp only [hcons, openTag, List.cons_append, List.nil_append, List.cons.injEq] at heq
        exact absurd heq.2.1 hslash
    | text hrun' _ _ =>
      obtain ⟨d, tail', hd, hne⟩ := hrun'.head_ne
      rw [List.append_assoc (_ : Text) _ y, hd] at heq
      exact absurd (List.cons.inj heq).1.symm hne
    | element hname' hinner' htail' =>
      simp only [List.append_assoc] at heq
      obtain ⟨rfl, hopen⟩ := openTag_inj hname hname' heq
      obtain ⟨rfl, rfl, hclose⟩ := ihinner hinner' (stops_closeTag _ _) (stops_closeTag _ _) hopen
      obtain ⟨rfl, rfl, rfl⟩ := ih htail' hx hy (List.append_cancel_left hclose)
      exact ⟨rfl, rfl, rfl⟩
    | cdata =>
      rw [hcons] at heq
      exact absurd (List.cons.inj (List.cons.inj heq).2).1 hbang
  | @cdata content rest nodes hlegal hcr hend htail ih =>
    intro nodes' raw' x y h' hx hy heq
    cases h' with
    | nil =>
      rcases hy with rfl | ⟨tail', rfl⟩
      · cases heq
      · exact absurd (List.cons.inj (List.cons.inj heq).2).1 (by decide)
    | text hrun' _ _ =>
      obtain ⟨d, tail', hd, hne⟩ := hrun'.head_ne
      rw [List.append_assoc (_ : Text) _ y, hd] at heq
      exact absurd (List.cons.inj heq).1.symm hne
    | element hname' _ _ =>
      obtain ⟨c, tail', rfl, -, hbang⟩ := tagName_cons hname'
      exact absurd (List.cons.inj (List.cons.inj heq).2).1.symm hbang
    | cdata _ _ hend' htail' =>
      simp only [List.append_assoc] at heq
      obtain ⟨rfl, hrest⟩ := append_inj_of_not_infix hend hend' (List.append_cancel_left heq)
      obtain ⟨rfl, rfl, rfl⟩ := ih htail' hx hy hrest
      exact ⟨rfl, rfl, rfl⟩

theorem Content.unique {nodes nodes' : List XmlNode} {raw : Text} (h : Content nodes raw)
    (h' : Content nodes' raw) : nodes = nodes' :=
  (h.unique_append h' (.inl rfl) (.inl rfl) rfl).1

open Classical in
/-- The reader that accepts what the grammar derives. -/
noncomputable def ContentReader.ofGrammar : ContentReader where
  parse raw := if h : ∃ nodes, Content nodes raw then some h.choose else none
  parse_content h := by
    have hex : ∃ nodes, Content nodes _ := ⟨_, h⟩
    rw [dif_pos hex, hex.choose_spec.unique h]

/-! ## Other names -/

/-- Content whose elements have names that satisfy `named`. -/
inductive Markup (named : Text → Bool) : List XmlNode → Text → Prop where
  | nil : Markup named [] []
  | text {raw content rest : Text} {nodes : List XmlNode} : TextRun raw content →
      startsWithText nodes = false → Markup named nodes rest →
      Markup named (.text content :: nodes) (raw ++ rest)
  | element {name inner rest : Text} {children nodes : List XmlNode} : named name = true →
      Markup named children inner → Markup named nodes rest →
      Markup named (.element name children :: nodes)
        (openTag name ++ (inner ++ (closeTag name ++ rest)))
  | cdata {content rest : Text} {nodes : List XmlNode} : isXmlText content = true →
      13 ∉ content → ¬ lit "]]>" <:+: content → Markup named nodes rest →
      Markup named (.cdata content :: nodes) (lit "<![CDATA[" ++ (content ++ (lit "]]>" ++ rest)))

/-- A library that reads content, with its own idea of a name. -/
structure MarkupReader (named : Text → Bool) where
  parse : Text → Option (List XmlNode)
  parse_markup : ∀ {nodes : List XmlNode} {raw : Text}, Markup named nodes raw →
    parse raw = some nodes

theorem Markup.content {nodes : List XmlNode} {raw : Text} (h : Markup isTagName nodes raw) :
    Content nodes raw := by
  induction h with
  | nil => exact .nil
  | text hrun hnodes _ ih => exact .text hrun hnodes ih
  | element hname _ _ ihinner ih => exact .element hname ihinner ih
  | cdata hlegal hcr hend _ ih => exact .cdata hlegal hcr hend ih

/-- A reader of content reads content with its names. -/
def ContentReader.markup (reader : ContentReader) : MarkupReader isTagName where
  parse := reader.parse
  parse_markup h := reader.parse_content h.content

end SymbianWeb.XmlContent
