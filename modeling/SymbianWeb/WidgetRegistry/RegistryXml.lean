import SymbianWeb.Library.XmlContent

/-!
# The XML processor of the widget registry

`CWidgetRegistryXml` numbers the property names. The names that the code knows
come first, in the order of `TWidgetPropertyId`; a name that is met for the
first time gets the next number. Names are compared without regard to case.

It also takes text out of parsed documents: the text of a node list
(`GetContentL`) and the source text of a list of subtrees
(`GetTextContentAsStringL`), which is measured in one pass and written in a
second one.
-/

set_option autoImplicit false

namespace SymbianWeb.WidgetRegistry

open XmlContent

/-- Lower case of the basic Latin letters. -/
def asciiLower (c : UInt16) : UInt16 := if 65 ≤ c ∧ c ≤ 90 then c + 32 else c

/-- The folding of `TDesC16::CompareF`. Of its tables only the part for ASCII is
used. -/
class CharFold where
  fold : UInt16 → UInt16
  fold_ascii : ∀ c : UInt16, c < 128 → fold c = asciiLower c

/-- How a call ends early: a leave, the panic of a descriptor or an array, a use
of the null pointer, or a write behind the end of a buffer. -/
inductive Failure where
  | leave (code : Int)
  | panic
  | nullPointer
  | overrun
  deriving DecidableEq, Repr

def kErrNoMemory : Int := -4

def kErrCorrupt : Int := -20

/-! ## Property names -/

/-- The names that `ConstructL` enters. -/
def knownNames : List Text :=
  [lit "PropertyListVersion", lit "BundleIdentifier", lit "BundleName", lit "BundleDisplayName",
    lit "MainHTML", lit "BundleShortVersion", lit "BundleVersion", lit "Height", lit "Width",
    lit "AllowFullAccess", lit "AllowNetworkAccess", lit "DriveName", lit "BasePath",
    lit "IconPath", lit "Url", lit "FileSize", lit "Uid", lit "NokiaWidget",
    lit "MiniViewEnabled", lit "BlanketPermissionGranted", lit "PreInstalled"]

/-- `EWidgetPropertyIdCount`. -/
def kPropertyIdCount : Nat := 21

/-- `EWidgetPropertyIdInvalid`. -/
def kPropertyIdInvalid : Nat := 1000

/-- `TWidgetProperty`. -/
structure WidgetProperty where
  id : Nat
  name : Text
  deriving DecidableEq, Repr

/-- The entries of `ConstructL`. -/
def knownProperties : List WidgetProperty :=
  knownNames.zipIdx.map fun p => ⟨p.2, p.1⟩

section

variable [CharFold]

/-- `a.CompareF(b) == 0`. -/
def compareF (a b : Text) : Bool := a.map CharFold.fold == b.map CharFold.fold

theorem compareF_iff (a b : Text) :
    compareF a b = true ↔ a.map CharFold.fold = b.map CharFold.fold := by
  simp [compareF]

theorem compareF_refl (a : Text) : compareF a a = true := (compareF_iff a a).2 rfl

theorem compareF_symm {a b : Text} (h : compareF a b = true) : compareF b a = true :=
  (compareF_iff b a).2 ((compareF_iff a b).1 h).symm

theorem compareF_trans {a b c : Text} (hab : compareF a b = true) (hbc : compareF b c = true) :
    compareF a c = true :=
  (compareF_iff a c).2 (((compareF_iff a b).1 hab).trans ((compareF_iff b c).1 hbc))

/-- No two known names are equal up to case. -/
theorem knownProperties_distinct :
    knownProperties.Pairwise fun p q => compareF p.name q.name = false := by
  have hall : (knownProperties.all fun p => p.name.all fun c => decide (c < 128)) = true := by
    decide
  have hascii : ∀ p ∈ knownProperties, ∀ c ∈ p.name, c < 128 := fun p hp c hc =>
    of_decide_eq_true (List.all_eq_true.1 (List.all_eq_true.1 hall p hp) c hc)
  have hlower : knownProperties.Pairwise fun p q =>
      p.name.map asciiLower ≠ q.name.map asciiLower := by decide
  have hfold : ∀ p ∈ knownProperties, p.name.map CharFold.fold = p.name.map asciiLower :=
    fun p hp => List.map_congr_left fun c hc => CharFold.fold_ascii c (hascii p hp c hc)
  refine hlower.imp_of_mem ?_
  intro p q hp hq hne
  rw [Bool.eq_false_iff, Ne, compareF_iff, hfold p hp, hfold q hq]
  exact hne

/-- `CWidgetRegistryXml`: the properties numbered so far. -/
structure WidgetRegistryXml where
  iProperties : List WidgetProperty
  known : knownProperties <+: iProperties
  ids : iProperties.map (·.id) = List.range iProperties.length
  distinct : iProperties.Pairwise fun p q => compareF p.name q.name = false

namespace WidgetRegistryXml

/-- `NewL`. -/
def newL : WidgetRegistryXml where
  iProperties := knownProperties
  known := List.prefix_rfl
  ids := by decide
  distinct := knownProperties_distinct

/-- A new name gets the next number. -/
def append (x : WidgetRegistryXml) (aPropName : Text)
    (h : ∀ p ∈ x.iProperties, compareF aPropName p.name = false) : WidgetRegistryXml where
  iProperties := x.iProperties ++ [⟨x.iProperties.length, aPropName⟩]
  known := x.known.trans (List.prefix_append _ _)
  ids := by
    rw [List.map_append, x.ids, List.length_append, List.length_singleton, List.range_succ]
    rfl
  distinct := by
    refine List.pairwise_append.2 ⟨x.distinct, List.pairwise_singleton _ _, ?_⟩
    intro p hp q hq
    obtain rfl := List.mem_singleton.1 hq
    rw [Bool.eq_false_iff]
    intro hsame
    have := h p hp
    rw [compareF_symm hsame] at this
    cases this

/-- `GetPropertyId`: the number of a name, and the table afterwards. -/
def getPropertyId (x : WidgetRegistryXml) (aPropName : Text) : Nat × WidgetRegistryXml :=
  match h : x.iProperties.find? (fun p => compareF aPropName p.name) with
  | some p => (p.id, x)
  | none =>
    (x.iProperties.length, x.append aPropName fun p hp => by simpa using List.find?_eq_none.1 h p hp)

/-- `XmlPropertyName`. -/
def xmlPropertyName (x : WidgetRegistryXml) (aPropertyId : Nat) : Text :=
  match x.iProperties.find? (fun p => p.id = aPropertyId) with
  | some p => p.name
  | none => (x.iProperties.head?.map (·.name)).getD []

/-! ### Numbers and names -/

theorem id_of_getElem? {x : WidgetRegistryXml} {i : Nat} {p : WidgetProperty}
    (h : x.iProperties[i]? = some p) : p.id = i := by
  have hi := (List.getElem?_eq_some_iff.1 h).1
  have hid : (x.iProperties.map (·.id))[i]? = some p.id := by
    rw [List.getElem?_map, h]
    rfl
  rw [x.ids, List.getElem?_range hi] at hid
  exact (Option.some.inj hid).symm

theorem getElem?_of_mem {x : WidgetRegistryXml} {p : WidgetProperty} (h : p ∈ x.iProperties) :
    x.iProperties[p.id]? = some p := by
  obtain ⟨i, hi⟩ := List.getElem?_of_mem h
  rw [id_of_getElem? hi, hi]

/-- The name of a number in use. -/
theorem xmlPropertyName_of_getElem? {x : WidgetRegistryXml} {i : Nat} {p : WidgetProperty}
    (h : x.iProperties[i]? = some p) : x.xmlPropertyName i = p.name := by
  have hid := id_of_getElem? h
  have hfind : x.iProperties.find? (fun q => q.id = i) = some p := by
    cases hf : x.iProperties.find? (fun q => q.id = i) with
    | none =>
      have := List.find?_eq_none.1 hf p (List.mem_of_getElem? h)
      simp [hid] at this
    | some q =>
      have hq := List.find?_some hf
      have hmem := getElem?_of_mem (List.mem_of_find?_eq_some hf)
      rw [of_decide_eq_true hq, h] at hmem
      exact hmem.symm
  simp only [xmlPropertyName, hfind]

/-- Two numbers whose names are equal up to case are the same. -/
theorem eq_of_compareF {x : WidgetRegistryXml} {i j : Nat} {p q : WidgetProperty}
    (hp : x.iProperties[i]? = some p) (hq : x.iProperties[j]? = some q)
    (h : compareF p.name q.name = true) : i = j := by
  obtain ⟨hi, rfl⟩ := List.getElem?_eq_some_iff.1 hp
  obtain ⟨hj, rfl⟩ := List.getElem?_eq_some_iff.1 hq
  rcases Nat.lt_trichotomy i j with hlt | heq | hlt
  · have := List.pairwise_iff_getElem.1 x.distinct i j hi hj hlt
    rw [h] at this
    cases this
  · exact heq
  · have := List.pairwise_iff_getElem.1 x.distinct j i hj hi hlt
    rw [compareF_symm h] at this
    cases this

/-- What `GetPropertyId` does: the number is in use afterwards, by a name that
is equal up to case, and all earlier numbers keep their names. -/
theorem getPropertyId_spec (x : WidgetRegistryXml) (aPropName : Text) :
    x.iProperties <+: (x.getPropertyId aPropName).2.iProperties ∧
      ∃ p, (x.getPropertyId aPropName).2.iProperties[(x.getPropertyId aPropName).1]? = some p ∧
        compareF aPropName p.name = true := by
  unfold getPropertyId
  split
  · rename_i p hfind
    have hsame : compareF aPropName p.name = true := by simpa using List.find?_some hfind
    exact ⟨List.prefix_rfl, p, getElem?_of_mem (List.mem_of_find?_eq_some hfind), hsame⟩
  · rename_i hfind
    refine ⟨List.prefix_append _ _, ⟨x.iProperties.length, aPropName⟩, ?_, compareF_refl _⟩
    simp [append]

/-- A name whose number is in use is found, and nothing changes. -/
theorem getPropertyId_of_getElem? {x : WidgetRegistryXml} {i : Nat} {p : WidgetProperty}
    (h : x.iProperties[i]? = some p) {aPropName : Text} (hname : compareF aPropName p.name = true) :
    x.getPropertyId aPropName = (i, x) := by
  unfold getPropertyId
  split
  · rename_i q hfind
    have hq := getElem?_of_mem (List.mem_of_find?_eq_some hfind)
    have hfound : compareF aPropName q.name = true := by simpa using List.find?_some hfind
    rw [eq_of_compareF hq h (compareF_trans (compareF_symm hfound) hname)]
  · rename_i hfind
    have := List.find?_eq_none.1 hfind p (List.mem_of_getElem? h)
    exact absurd hname this

end WidgetRegistryXml

end

/-! ## Text of nodes -/

/-- `node->name`. -/
def nodeName : XmlNode → Text
  | .element name _ => name
  | .text _ => lit "text"
  | .cdata _ => lit "cdata-section"
  | .comment _ => lit "comment"

/-- `node->children`. -/
def children : XmlNode → List XmlNode
  | .element _ nodes => nodes
  | _ => []

/-- The text that `xmlNodeListGetString` takes from one node. -/
def stringOf : XmlNode → Option Text
  | .text content => some content
  | .cdata content => some content
  | _ => none

/-- `GetContentL` of a node list. -/
def getContentL (nodes : List XmlNode) : Except Failure Text :=
  match nodes.filterMap stringOf with
  | [] => .error (.leave kErrCorrupt)
  | parts => .ok parts.flatten

/-- `xmlEncodeSpecialChars`, for one unit. -/
def encodeSpecial (c : UInt16) : Text :=
  if c = 60 then lit "&lt;" else if c = 62 then lit "&gt;" else if c = 38 then lit "&amp;"
  else if c = 34 then lit "&quot;" else if c = 13 then lit "&#13;" else [c]

/-- The bytes that one unit takes in UTF-8; the two units of a pair take four. -/
def utf8Size (c : UInt16) : Nat :=
  if c < 0x80 then 1 else if c < 0x800 then 2 else if 0xD800 ≤ c ∧ c < 0xE000 then 2 else 3

/-- `EncodedStringLength`, for one unit. -/
def encodedSize (c : UInt16) : Nat :=
  if c = 34 then 6 else if c = 38 then 5 else if c = 13 then 5 else if c = 60 then 4
  else if c = 62 then 4 else utf8Size c

mutual

/-- `GetSubtreeAsStringL` with a buffer, for one node. -/
def nodeText : XmlNode → Text
  | .element name nodes =>
      lit "<" ++ name ++ lit ">" ++ subtreeText nodes ++ lit "</" ++ name ++ lit ">"
  | .text content => content.flatMap encodeSpecial
  | .cdata content => lit "<![CDATA[" ++ content ++ lit "]]>"
  | .comment _ => []

/-- `GetSubtreeAsStringL` with a buffer, for a node and those next to it. -/
def subtreeText : List XmlNode → Text
  | [] => []
  | node :: nodes => nodeText node ++ subtreeText nodes

end

mutual

/-- `GetSubtreeAsStringL` without a buffer, for one node. -/
def nodeLength : XmlNode → Nat
  | .element name nodes => 5 + 2 * (name.map utf8Size).sum + subtreeLength nodes
  | .text content => (content.map encodedSize).sum
  | .cdata content => 12 + (content.map utf8Size).sum
  | .comment _ => 0

/-- `GetSubtreeAsStringL` without a buffer, for a node and those next to it. -/
def subtreeLength : List XmlNode → Nat
  | [] => 0
  | node :: nodes => nodeLength node + subtreeLength nodes

end

/-- `GetTextContentAsStringL`: the buffer of the second pass has the length that
the first pass found. -/
def getTextContentAsStringL (nodes : List XmlNode) : Except Failure Text :=
  if (subtreeText nodes).length ≤ subtreeLength nodes then .ok (subtreeText nodes)
  else .error .panic

theorem length_le_utf8Size (t : Text) : t.length ≤ (t.map utf8Size).sum := by
  induction t with
  | nil => exact Nat.le_refl 0
  | cons c t ih =>
    have hone : 1 ≤ utf8Size c := by
      unfold utf8Size
      split_ifs <;> omega
    simp only [List.map_cons, List.sum_cons, List.length_cons]
    omega

theorem length_encodeSpecial (c : UInt16) : (encodeSpecial c).length ≤ encodedSize c := by
  have hutf8 : 1 ≤ utf8Size c := by
    unfold utf8Size
    split_ifs <;> omega
  unfold encodeSpecial
  split_ifs with hlt hgt hamp hquot hcr
  · subst hlt; decide
  · subst hgt; decide
  · subst hamp; decide
  · subst hquot; decide
  · subst hcr; decide
  · simpa [encodedSize, hlt, hgt, hamp, hquot, hcr] using hutf8

theorem length_flatMap_encodeSpecial (t : Text) :
    (t.flatMap encodeSpecial).length ≤ (t.map encodedSize).sum := by
  induction t with
  | nil => exact Nat.le_refl 0
  | cons c t ih =>
    have hc := length_encodeSpecial c
    simp only [List.flatMap_cons, List.length_append, List.map_cons, List.sum_cons]
    omega

mutual

theorem length_nodeText : ∀ node : XmlNode, (nodeText node).length ≤ nodeLength node
  | .element name nodes => by
    have hname := length_le_utf8Size name
    have hnodes := length_subtreeText nodes
    have hlit : (lit "<").length = 1 ∧ (lit ">").length = 1 ∧ (lit "</").length = 2 := by decide
    simp only [nodeText, nodeLength, List.length_append, hlit]
    omega
  | .text content => by
    simpa only [nodeText, nodeLength] using length_flatMap_encodeSpecial content
  | .cdata content => by
    have hcontent := length_le_utf8Size content
    have hlit : (lit "<![CDATA[").length = 9 ∧ (lit "]]>").length = 3 := by decide
    simp only [nodeText, nodeLength, List.length_append, hlit]
    omega
  | .comment _ => by simp [nodeText]

theorem length_subtreeText :
    ∀ nodes : List XmlNode, (subtreeText nodes).length ≤ subtreeLength nodes
  | [] => by simp [subtreeText]
  | node :: nodes => by
    have hnode := length_nodeText node
    have hnodes := length_subtreeText nodes
    simp only [subtreeText, subtreeLength, List.length_append]
    omega

end

/-- The first pass measures enough for the second one. -/
theorem getTextContentAsStringL_eq (nodes : List XmlNode) :
    getTextContentAsStringL nodes = .ok (subtreeText nodes) :=
  if_pos (length_subtreeText nodes)

end SymbianWeb.WidgetRegistry
