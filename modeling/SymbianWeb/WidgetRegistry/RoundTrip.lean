import SymbianWeb.WidgetRegistry.EntryText

/-!
# From an entry to XML and back

The text of an entry is parsed into one `prop` node for each property that is
set (`NodesFor`), and `InternalizeXmlL` makes of these nodes what `readBack`
says: an empty string stops it, and so does a property whose number is
`EWidgetPropertyIdInvalid`; a boolean is read as false.
-/

set_option autoImplicit false

namespace SymbianWeb.WidgetRegistry

open XmlContent

/-- Every property from `i` on is as `P` says. -/
def From (P : Nat → PropertyValue → Prop) (i : Nat) (values : List PropertyValue) : Prop :=
  ∀ k v, values[k]? = some v → P (i + k) v

theorem From.head {P : Nat → PropertyValue → Prop} {i : Nat} {v : PropertyValue}
    {rest : List PropertyValue} (h : From P i (v :: rest)) : P i v := h 0 v rfl

theorem From.tail {P : Nat → PropertyValue → Prop} {i : Nat} {v : PropertyValue}
    {rest : List PropertyValue} (h : From P i (v :: rest)) : From P (i + 1) rest := by
  intro k w hw
  rw [show i + 1 + k = i + (k + 1) by omega]
  exact h (k + 1) w hw

theorem from_cons {P : Nat → PropertyValue → Prop} {i : Nat} {v : PropertyValue}
    {rest : List PropertyValue} (hv : P i v) (hrest : From P (i + 1) rest) :
    From P i (v :: rest) := by
  intro k w hw
  cases k with
  | zero =>
    obtain rfl := Option.some.inj hw
    exact hv
  | succ k =>
    rw [show i + (k + 1) = i + 1 + k by omega]
    exact hrest k w hw

section

variable [CharFold] (x : WidgetRegistryXml)

/-! ## The nodes of an entry -/

/-- The nodes that the text of the properties from `i` on stands for. -/
inductive NodesFor : Nat → List PropertyValue → List XmlNode → Prop where
  | nil {i : Nat} : NodesFor i [] []
  | unset {i : Nat} {rest : List PropertyValue} {nodes : List XmlNode} : i < kPropertyIdCount →
      NodesFor (i + 1) rest nodes → NodesFor i (.unknown :: rest) nodes
  | known {i : Nat} {v : PropertyValue} {rest : List PropertyValue} {nodes : List XmlNode} :
      i < kPropertyIdCount → v ≠ .unknown → (∀ s, v ≠ .blob s) → NodesFor (i + 1) rest nodes →
      NodesFor i (v :: rest) (knownNode (x.xmlPropertyName i) v :: .text [10] :: nodes)
  | other {i : Nat} {s : Text} {inner nodes : List XmlNode} {rest : List PropertyValue} :
      kPropertyIdCount ≤ i → subtreeText inner = s → NodesFor (i + 1) rest nodes →
      NodesFor i (.blob s :: rest) (otherNode (x.xmlPropertyName i) inner :: .text [10] :: nodes)

variable {x}

theorem NodesFor.startsWithText {i : Nat} {values : List PropertyValue} {nodes : List XmlNode}
    (h : NodesFor x i values nodes) : startsWithText nodes = false := by
  induction h with
  | nil => rfl
  | unset _ _ ih => exact ih
  | known => rfl
  | other => rfl

theorem externalizeFrom_cons (i : Nat) (v : PropertyValue) (rest : List PropertyValue) :
    externalizeFrom x i (v :: rest) = (do
      let text ← externalizeAt x i v
      let tail ← externalizeFrom x (i + 1) rest
      .ok (text ++ tail)) := rfl

/-- A turn succeeds exactly when the property fits. -/
theorem externalizeAt_isOk_iff {i : Nat} {v : PropertyValue} (hvalue : ValueAt i v) :
    (∃ text, externalizeAt x i v = .ok text) ↔ FitsAt x i v := by
  by_cases hi : i < kPropertyIdCount
  · have hhead := head_append (length_known_name (x := x) hi)
    have hnot : ¬ kPropertyIdCount ≤ i := by omega
    by_cases hset : v = .unknown
    · subst hset
      simp only [externalizeAt, hi, externalizeKnown, if_true]
      refine ⟨fun _ => ⟨?_, fun h => absurd h hnot, fun h => absurd h hnot⟩, fun _ => ⟨_, rfl⟩⟩
      intro s hs
      cases hs
    · constructor
      · rintro ⟨text, htext⟩
        refine ⟨?_, fun h => absurd h hnot, fun h => absurd h hnot⟩
        rintro s rfl
        by_contra hlong
        simp only [externalizeAt, hi, if_true, externalizeKnown, hset, if_false, hhead, valueText,
          PropertyValue.toDesC, writeString_eq (hvalue.short s rfl), Nat.lt_of_not_le hlong] at htext
        cases htext
      · intro hfits
        obtain ⟨raw, hraw, -⟩ := valueText_eq hvalue hfits.string hi hset
        simp only [externalizeAt, hi, if_true, externalizeKnown, hset, if_false, hhead, hraw]
        exact ⟨_, rfl⟩
  · have hge : kPropertyIdCount ≤ i := by omega
    constructor
    · rintro ⟨text, htext⟩
      simp only [externalizeAt, hi, if_false, externalizeOther] at htext
      have hname : 6 + (x.xmlPropertyName i).length ≤ kMaxFileName := by
        by_contra hname
        rw [head_append_error hname] at htext
        cases htext
      rw [head_append hname] at htext
      rcases hvalue.other hge with rfl | ⟨s, rfl⟩
      · cases htext
      · refine ⟨fun t ht => absurd ht (by simp), fun _ => ⟨s, rfl, ?_⟩, fun _ => hname⟩
        by_contra hlong
        have hbuf : bufAppend [] s = .error .panic := if_neg hlong
        simp only [hbuf] at htext
        cases htext
    · intro hfits
      obtain ⟨s, rfl, hs⟩ := hfits.blob hge
      have hbuf : bufAppend [] s = .ok s := if_pos hs
      simp only [externalizeAt, hi, if_false, externalizeOther, head_append (hfits.name hge), hbuf]
      exact ⟨_, rfl⟩

/-- The entry is written exactly when every property fits. -/
theorem externalizeFrom_isOk_iff {i : Nat} {values : List PropertyValue}
    (hvalues : From ValueAt i values) :
    (∃ out, externalizeFrom x i values = .ok out) ↔ From (FitsAt x) i values := by
  induction values generalizing i with
  | nil =>
    refine ⟨fun _ k v hv => ?_, fun _ => ⟨[], rfl⟩⟩
    simp at hv
  | cons v rest ih =>
    have hturn := externalizeAt_isOk_iff (x := x) hvalues.head
    have hrest := ih hvalues.tail
    rw [externalizeFrom_cons]
    constructor
    · rintro ⟨out, hout⟩
      cases hv : externalizeAt x i v with
      | error e =>
        rw [hv] at hout
        cases hout
      | ok text =>
        cases htail : externalizeFrom x (i + 1) rest with
        | error e =>
          rw [hv, htail] at hout
          cases hout
        | ok tail => exact from_cons (hturn.1 ⟨text, hv⟩) (hrest.1 ⟨tail, htail⟩)
    · intro h
      obtain ⟨text, htext⟩ := hturn.2 h.head
      obtain ⟨tail, htail⟩ := hrest.2 h.tail
      rw [htext, htail]
      exact ⟨_, rfl⟩

/-- What one turn writes for a property that is set and known. -/
theorem content_externalizeKnown {i : Nat} {v : PropertyValue} (hvalue : ValueAt i v)
    (hfits : FitsAt x i v) (hxml : IsXmlAt x i v) (hi : i < kPropertyIdCount) (hset : v ≠ .unknown)
    {text rest : Text} (htext : externalizeAt x i v = .ok text) {nodes : List XmlNode}
    (hnodes : startsWithText nodes = false) (hrest : Content nodes rest) :
    Content (knownNode (x.xmlPropertyName i) v :: .text [10] :: nodes) (text ++ rest) := by
  obtain ⟨raw, hraw, hrun, hempty⟩ := valueText_eq hvalue hfits.string hi hset
  have htype := textRun_typeText hset (hvalue.known hi)
  have hhead := head_append (length_known_name (x := x) hi)
  simp only [externalizeAt, hi, if_true, externalizeKnown, hset, if_false, hhead, hraw] at htext
  have hcontent := content_knownNode (textRun_known_name (x := x) hi) htype (hrun hxml.string)
    hempty (content_newline hnodes hrest)
  obtain rfl := Except.ok.inj htext
  simpa [openTag, kXmlNewline, lit] using hcontent

/-- What one turn writes for another property. -/
theorem content_externalizeOther {i : Nat} {s : Text} (hfits : FitsAt x i (.blob s))
    (hxml : IsXmlAt x i (.blob s)) (hge : kPropertyIdCount ≤ i) {text rest : Text}
    (htext : externalizeAt x i (.blob s) = .ok text) {inner nodes : List XmlNode}
    (hinner : Content inner s) (hnodes : startsWithText nodes = false)
    (hrest : Content nodes rest) :
    Content (otherNode (x.xmlPropertyName i) inner :: .text [10] :: nodes) (text ++ rest) := by
  have hi : ¬ i < kPropertyIdCount := by omega
  obtain ⟨s', hs', hlength⟩ := hfits.blob hge
  obtain rfl := PropertyValue.blob.inj hs'
  have hbuf : bufAppend [] s = .ok s := if_pos hlength
  simp only [externalizeAt, hi, if_false, externalizeOther, head_append (hfits.name hge), hbuf]
    at htext
  have hcontent := content_otherNode (hxml.name hge) hinner (content_newline hnodes hrest)
  obtain rfl := Except.ok.inj htext
  simpa [openTag, kXmlNewline, lit] using hcontent

/-- The text of an entry that XML can carry stands for its nodes. -/
theorem content_externalizeFrom {i : Nat} {values : List PropertyValue}
    (hvalues : From ValueAt i values) (hxml : From (IsXmlAt x) i values) {out : Text}
    (hout : externalizeFrom x i values = .ok out) :
    ∃ nodes, NodesFor x i values nodes ∧ Content nodes out := by
  induction values generalizing i out with
  | nil =>
    obtain rfl := Except.ok.inj hout
    exact ⟨[], .nil, .nil⟩
  | cons v rest ih =>
    have hfits := (externalizeFrom_isOk_iff hvalues).1 ⟨out, hout⟩
    obtain ⟨text, htext⟩ := (externalizeAt_isOk_iff hvalues.head).2 hfits.head
    obtain ⟨tail, htail⟩ := (externalizeFrom_isOk_iff hvalues.tail).2 hfits.tail
    obtain ⟨nodes, hfor, hcontent⟩ := ih hvalues.tail hxml.tail htail
    rw [externalizeFrom_cons, htext, htail] at hout
    obtain rfl := Except.ok.inj hout
    by_cases hi : i < kPropertyIdCount
    · by_cases hset : v = .unknown
      · subst hset
        simp only [externalizeAt, hi, if_true, externalizeKnown] at htext
        obtain rfl := Except.ok.inj htext
        exact ⟨nodes, .unset hi hfor, hcontent⟩
      · exact ⟨_, .known hi hset (hvalues.head.known hi) hfor,
          content_externalizeKnown hvalues.head hfits.head hxml.head hi hset htext
            hfor.startsWithText hcontent⟩
    · have hge : kPropertyIdCount ≤ i := by omega
      obtain ⟨s, rfl, -⟩ := hfits.head.blob hge
      obtain ⟨inner, hinner, hsame⟩ := hxml.head.blob s rfl
      exact ⟨_, .other hge hsame hfor,
        content_externalizeOther hfits.head hxml.head hge htext hinner hfor.startsWithText hcontent⟩

/-! ## Reading the nodes -/

/-- The value with the property number `i` set. -/
def setAt (i : Nat) (v : PropertyValue) (values : List PropertyValue) : List PropertyValue :=
  (fillTo (i + 1) values).set i v

/-- A value as it is read back: a boolean has become false. -/
def image : PropertyValue → PropertyValue
  | .bool _ => .bool false
  | v => v

/-- What reading makes of the properties from `i` on: the numbers of the reader
and its array, or nothing when it leaves. -/
def readBack (x : WidgetRegistryXml) : Nat → List PropertyValue → WidgetRegistryXml →
    List PropertyValue → Option (WidgetRegistryXml × List PropertyValue)
  | _, [], y, values => some (y, values)
  | i, v :: rest, y, values =>
    if i < kPropertyIdCount then
      if v = .unknown then readBack x (i + 1) rest y values
      else if v = .string [] then none
      else readBack x (i + 1) rest y (setAt i (image v) values)
    else
      let (id, y) := y.getPropertyId (x.xmlPropertyName i)
      if id = kPropertyIdInvalid then none
      else readBack x (i + 1) rest y (setAt id v values)

/-- The number of a known name is the same in every table. -/
theorem getPropertyId_known {i : Nat} (hi : i < kPropertyIdCount) (y : WidgetRegistryXml) :
    y.getPropertyId (x.xmlPropertyName i) = (i, y) := by
  obtain ⟨p, hp, -, hname⟩ := xmlPropertyName_known (x := x) hi
  obtain ⟨q, hq, hget, -⟩ := xmlPropertyName_known (x := y) hi
  obtain rfl := Option.some.inj (hp.symm.trans hq)
  exact WidgetRegistryXml.getPropertyId_of_getElem? hget (hname ▸ compareF_refl _)

omit [CharFold] in
/-- A type name and a value text give the value. -/
theorem propertyValue_eq {v : PropertyValue} (hset : v ≠ .unknown) (hblob : ∀ s, v ≠ .blob s) :
    propertyValue (typeText v) (valueContent v) = .ok (image v) := by
  have hint : lit "int" ≠ lit "bool" := by decide
  have hstring : lit "string" ≠ lit "bool" ∧ lit "string" ≠ lit "int" := by decide
  have huid : lit "uid" ≠ lit "bool" ∧ lit "uid" ≠ lit "int" ∧ lit "uid" ≠ lit "string" := by
    decide
  cases v with
  | unknown => exact absurd rfl hset
  | blob s => exact absurd rfl (hblob s)
  | bool b => rfl
  | int i => simp [propertyValue, typeText, valueContent, hint, lexTInt_formatInt, image]
  | string s => simp [propertyValue, typeText, valueContent, hstring, image]
  | uid i => simp [propertyValue, typeText, valueContent, huid, lexTInt_formatInt, image]

omit [CharFold] in
theorem getContentL_text (t : Text) (tag : Text) (inner : List XmlNode) :
    getContentL [.text t, .element tag inner] = .ok t := by
  simp [getContentL, stringOf]

omit [CharFold] in
/-- The `val` node of a known property. An empty text has no node, so that the
type is taken for it. -/
theorem readVal_known {i : Nat} (hi : i < kPropertyIdCount) {v : PropertyValue}
    (hset : v ≠ .unknown) (hblob : ∀ s, v ≠ .blob s) :
    readVal i (.element (lit "val")
      (valueNodes v ++ [.element (lit "type") [.text (typeText v)]])) =
      if valueContent v = [] then .error (.leave kErrCorrupt) else .ok (image v) := by
  have hge : ¬ kPropertyIdCount ≤ i := by omega
  have htype : getContentL [.text (typeText v)] = .ok (typeText v) := by
    simp [getContentL, stringOf]
  by_cases hempty : valueContent v = []
  · have hnone : getContentL [.element (lit "type") [.text (typeText v)]] =
        .error (.leave kErrCorrupt) := rfl
    simp only [readVal, nodeName, children, hge, if_false, valueNodes, hempty, if_true,
      List.nil_append, hnone]
    rfl
  · simp only [readVal, nodeName, children, hge, if_false, valueNodes, hempty,
      List.cons_append, List.nil_append, getContentL_text, List.tail_cons]
    simp only [bind, Except.bind, ne_eq, not_true_eq_false, if_false, htype]
    exact propertyValue_eq hset hblob

omit [CharFold] in
/-- The `val` node of another property. -/
theorem readVal_other {i : Nat} (hi : kPropertyIdCount ≤ i) (inner : List XmlNode) :
    readVal i (.element (lit "val") inner) = .ok (.blob (subtreeText inner)) := by
  cases inner with
  | nil => simp [readVal, nodeName, children, hi, subtreeText]
  | cons node nodes =>
    simp only [readVal, nodeName, children, hi, if_true, getTextContentAsStringL_eq]
    rfl

omit [CharFold] in
theorem valueContent_eq_nil_iff {v : PropertyValue} (hset : v ≠ .unknown)
    (hblob : ∀ s, v ≠ .blob s) : valueContent v = [] ↔ v = .string [] := by
  cases v with
  | unknown => exact absurd rfl hset
  | blob s => exact absurd rfl (hblob s)
  | bool b => simp [valueContent, lit]
  | int i => simpa [valueContent] using (textRun_formatInt i).ne_nil
  | string s => simp [valueContent]
  | uid i => simpa [valueContent] using (textRun_formatInt i).ne_nil

theorem readProp_known {i : Nat} (hi : i < kPropertyIdCount) {v : PropertyValue}
    (hset : v ≠ .unknown) (hblob : ∀ s, v ≠ .blob s) (y : WidgetRegistryXml)
    (values : List PropertyValue) :
    readProp (children (knownNode (x.xmlPropertyName i) v)) y values =
      if v = .string [] then .error (.leave kErrCorrupt) else .ok (y, setAt i (image v) values) := by
  have hid : i ≠ kPropertyIdInvalid := by
    have hlt : kPropertyIdCount < kPropertyIdInvalid := by decide
    omega
  simp only [knownNode, children, readProp, getContentL_text, bind, Except.bind,
    getPropertyId_known hi y, hid, if_false, List.tail_cons, readVal_known hi hset hblob,
    valueContent_eq_nil_iff hset hblob]
  split_ifs <;> rfl

theorem readProp_other {name : Text} (inner : List XmlNode) (y : WidgetRegistryXml)
    (values : List PropertyValue) (hother : kPropertyIdCount ≤ (y.getPropertyId name).1) :
    readProp (children (otherNode name inner)) y values =
      if (y.getPropertyId name).1 = kPropertyIdInvalid then .error (.leave kErrNoMemory)
      else .ok ((y.getPropertyId name).2,
        setAt (y.getPropertyId name).1 (.blob (subtreeText inner)) values) := by
  simp only [otherNode, children, readProp, getContentL_text, bind, Except.bind, List.tail_cons,
    readVal_other hother]
  split_ifs <;> rfl

/-- A name that is not known gets a number behind those of the known ones. -/
theorem getPropertyId_other {i : Nat} (hge : kPropertyIdCount ≤ i)
    (hlt : i < x.iProperties.length) (y : WidgetRegistryXml) :
    kPropertyIdCount ≤ (y.getPropertyId (x.xmlPropertyName i)).1 := by
  by_contra hsmall
  obtain ⟨p, hp, hpx, hname⟩ := xmlPropertyName_known (x := x) (Nat.lt_of_not_le hsmall)
  obtain ⟨-, q, hq, hsame⟩ := y.getPropertyId_spec (x.xmlPropertyName i)
  have hown := WidgetRegistryXml.xmlPropertyName_of_getElem? (List.getElem?_eq_getElem hlt)
  -- The number stands for the same known name in both tables.
  have hqp : q = p := by
    obtain ⟨r, hr, hry, -⟩ := xmlPropertyName_known
      (x := (y.getPropertyId (x.xmlPropertyName i)).2) (Nat.lt_of_not_le hsmall)
    rw [hq] at hry
    rw [hp] at hr
    exact (Option.some.inj hry).trans (Option.some.inj hr).symm
  rw [hqp, hown] at hsame
  have := WidgetRegistryXml.eq_of_compareF (List.getElem?_eq_getElem hlt) hpx hsame
  omega

/-- `InternalizeXmlL` makes of the nodes what `readBack` says. -/
theorem internalizeFrom_nodes {i : Nat} {props : List PropertyValue} {nodes : List XmlNode}
    (h : NodesFor x i props nodes) : ∀ (y : WidgetRegistryXml) (values : List PropertyValue),
      i + props.length ≤ x.iProperties.length →
      (∀ r, readBack x i props y values = some r →
        internalizeFrom true nodes y values = .ok (r.1, fillTo kPropertyIdCount r.2)) ∧
      (readBack x i props y values = none →
        ∃ e, internalizeFrom true nodes y values = .error e) := by
  induction h with
  | nil =>
    intro y values _
    refine ⟨?_, ?_⟩
    · intro r hr
      obtain rfl := Option.some.inj hr
      rfl
    · intro hnone
      cases hnone
  | @unset i rest nodes hi _ ih =>
    intro y values hlength
    have hstep : readBack x i (.unknown :: rest) y values = readBack x (i + 1) rest y values := by
      simp only [readBack, hi, if_true]
    rw [hstep]
    exact ih y values (by rw [List.length_cons] at hlength; omega)
  | @known i v rest nodes hi hset hblob _ ih =>
    intro y values hlength
    have hread := readProp_known (x := x) hi hset hblob y values
    have hloop : internalizeFrom true (knownNode (x.xmlPropertyName i) v :: .text [10] :: nodes)
        y values = (readProp (children (knownNode (x.xmlPropertyName i) v)) y values).bind
          fun read => internalizeFrom true nodes read.1 read.2 := rfl
    rw [hloop, hread]
    by_cases hempty : v = .string []
    · subst hempty
      simp only [readBack, hi, if_true]
      refine ⟨fun r hr => absurd hr (by simp), fun _ => ⟨_, rfl⟩⟩
    · simp only [readBack, hi, if_true, hset, if_false, hempty]
      exact ih y _ (by rw [List.length_cons] at hlength; omega)
  | @other i s inner nodes rest hge hsame _ ih =>
    intro y values hlength
    have hi : ¬ i < kPropertyIdCount := by omega
    rw [List.length_cons] at hlength
    have hread := readProp_other inner y values
      (getPropertyId_other (x := x) hge (by omega) y)
    have hloop : internalizeFrom true (otherNode (x.xmlPropertyName i) inner :: .text [10] :: nodes)
        y values = (readProp (children (otherNode (x.xmlPropertyName i) inner)) y values).bind
          fun read => internalizeFrom true nodes read.1 read.2 := rfl
    rw [hloop, hread, hsame]
    by_cases hinvalid : (y.getPropertyId (x.xmlPropertyName i)).1 = kPropertyIdInvalid
    · simp only [readBack, hi, if_false, hinvalid, if_true]
      refine ⟨fun r hr => absurd hr (by simp), fun _ => ⟨_, rfl⟩⟩
    · simp only [readBack, hi, if_false, hinvalid]
      exact ih _ _ (by omega)

end

end SymbianWeb.WidgetRegistry
