import SymbianWeb.WidgetRegistry.RoundTrip

/-!
# Which entries come back from XML

`Restored` says that the array that was read holds the values that were written,
each under a number that the reader gives to its name, and nothing else. An
entry that can be written comes back exactly when it has no empty string, no
boolean that is true and no name with the number `EWidgetPropertyIdInvalid`.
-/

set_option autoImplicit false

namespace SymbianWeb.WidgetRegistry

open XmlContent

section

variable [CharFold]

/-- `CWidgetEntry`: all known properties have a place, every further place has a
name, and the values are of the types that their places allow. -/
structure WidgetEntry (x : WidgetRegistryXml) where
  iPropertyValues : List PropertyValue
  known : kPropertyIdCount ≤ iPropertyValues.length
  named : iPropertyValues.length ≤ x.iProperties.length
  values : From ValueAt 0 iPropertyValues

/-! ## Numbers of names -/

/-- `j` is the number of the name `name`. -/
def Numbered (y : WidgetRegistryXml) (name : Text) (j : Nat) : Prop :=
  ∃ p, y.iProperties[j]? = some p ∧ compareF name p.name = true

theorem numbered_getPropertyId (y : WidgetRegistryXml) (name : Text) :
    Numbered (y.getPropertyId name).2 name (y.getPropertyId name).1 :=
  (y.getPropertyId_spec name).2

theorem Numbered.mono {y y' : WidgetRegistryXml} {name : Text} {j : Nat} (h : Numbered y name j)
    (hpre : y.iProperties <+: y'.iProperties) : Numbered y' name j := by
  obtain ⟨p, hp, hname⟩ := h
  obtain ⟨hj, rfl⟩ := List.getElem?_eq_some_iff.1 hp
  exact ⟨_, hpre.getElem hj ▸ List.getElem?_eq_getElem _, hname⟩

theorem Numbered.eq {y : WidgetRegistryXml} {name : Text} {j k : Nat} (hj : Numbered y name j)
    (hk : Numbered y name k) : j = k := by
  obtain ⟨p, hp, hnamep⟩ := hj
  obtain ⟨q, hq, hnameq⟩ := hk
  exact WidgetRegistryXml.eq_of_compareF hp hq (compareF_trans (compareF_symm hnamep) hnameq)

/-- Two names of one table that have one number in another table are the same. -/
theorem Numbered.index_eq {x y : WidgetRegistryXml} {i k j : Nat}
    (hi : i < x.iProperties.length) (hk : k < x.iProperties.length)
    (h : Numbered y (x.xmlPropertyName i) j) (h' : Numbered y (x.xmlPropertyName k) j) : i = k := by
  obtain ⟨p, hp, hnamei⟩ := h
  obtain ⟨q, hq, hnamek⟩ := h'
  obtain rfl := Option.some.inj (hp.symm.trans hq)
  have hgeti := List.getElem?_eq_getElem hi
  have hgetk := List.getElem?_eq_getElem hk
  rw [WidgetRegistryXml.xmlPropertyName_of_getElem? hgeti] at hnamei
  rw [WidgetRegistryXml.xmlPropertyName_of_getElem? hgetk] at hnamek
  exact WidgetRegistryXml.eq_of_compareF hgeti hgetk
    (compareF_trans hnamei (compareF_symm hnamek))

variable {x : WidgetRegistryXml}

theorem numbered_known {i : Nat} (hi : i < kPropertyIdCount) (y : WidgetRegistryXml) :
    Numbered y (x.xmlPropertyName i) i := by
  obtain ⟨p, hp, -, hname⟩ := xmlPropertyName_known (x := x) hi
  obtain ⟨q, hq, hget, -⟩ := xmlPropertyName_known (x := y) hi
  obtain rfl := Option.some.inj (hp.symm.trans hq)
  exact ⟨p, hget, hname ▸ compareF_refl _⟩

/-! ## What was read -/

/-- The value of a property; behind the end of the array nothing is set. -/
def valueOf (values : List PropertyValue) (i : Nat) : PropertyValue := values.getD i .unknown

/-- The array `values'`, numbered by `y`, holds the properties `values` of `x`
under their names, and no others. -/
structure Restored (x : WidgetRegistryXml) (values : List PropertyValue) (y : WidgetRegistryXml)
    (values' : List PropertyValue) : Prop where
  own : ∀ k < values.length, ∃ j, Numbered y (x.xmlPropertyName k) j ∧
    valueOf values' j = valueOf values k
  only : ∀ j, valueOf values' j ≠ .unknown →
    ∃ k < values.length, Numbered y (x.xmlPropertyName k) j

omit [CharFold] in
theorem valueOf_fillTo (i j : Nat) (values : List PropertyValue) :
    valueOf (fillTo i values) j = valueOf values j := by
  unfold valueOf fillTo
  rw [List.getD_eq_getElem?_getD, List.getD_eq_getElem?_getD, List.getElem?_append]
  split_ifs with hj
  · rfl
  · rw [List.getElem?_eq_none (Nat.le_of_not_lt hj), List.getElem?_replicate]
    split_ifs <;> rfl

omit [CharFold] in
theorem valueOf_setAt (i j : Nat) (v : PropertyValue) (values : List PropertyValue) :
    valueOf (setAt i v values) j = if j = i then v else valueOf values j := by
  have hlength : i < (fillTo (i + 1) values).length := by
    rw [fillTo, List.length_append, List.length_replicate]
    omega
  unfold valueOf setAt
  rw [List.getD_eq_getElem?_getD, List.getElem?_set]
  split_ifs with hij hji hji
  · rfl
  · exact absurd hij.symm hji
  · exact absurd hji.symm hij
  · rw [← List.getD_eq_getElem?_getD]
    exact valueOf_fillTo (i + 1) j values

omit [CharFold] in
theorem valueOf_append_left {props : List PropertyValue} {k : Nat} (h : k < props.length)
    (v : PropertyValue) : valueOf (props ++ [v]) k = valueOf props k := by
  simp only [valueOf, List.getD_eq_getElem?_getD, List.getElem?_append_left h]

omit [CharFold] in
theorem valueOf_append_right (props : List PropertyValue) (v : PropertyValue) :
    valueOf (props ++ [v]) props.length = v := by
  simp [valueOf]

/-- At the start nothing is read. -/
theorem Restored.nil (y : WidgetRegistryXml) : Restored x [] y [] :=
  ⟨fun k hk => absurd hk (Nat.not_lt_zero k), fun _ hj => absurd rfl hj⟩

/-- A property that is not set changes nothing: its number is still free. -/
theorem Restored.unset {props values' : List PropertyValue} {y : WidgetRegistryXml}
    (h : Restored x props y values') (hknown : props.length < kPropertyIdCount)
    (hlength : props.length < x.iProperties.length) :
    Restored x (props ++ [.unknown]) y values' := by
  have hown := numbered_known (x := x) hknown y
  constructor
  · intro k hk
    rw [List.length_append, List.length_singleton] at hk
    by_cases hlast : k = props.length
    · subst hlast
      refine ⟨_, hown, ?_⟩
      rw [valueOf_append_right]
      by_contra hset
      obtain ⟨k, hk, hnumber⟩ := h.only _ hset
      have := Numbered.index_eq (by omega) hlength hnumber hown
      omega
    · have hk : k < props.length := by omega
      rw [valueOf_append_left hk]
      exact h.own k hk
  · intro j hj
    obtain ⟨k, hk, hnumber⟩ := h.only j hj
    exact ⟨k, by rw [List.length_append]; omega, hnumber⟩

/-- A property that is set goes under the number of its name, which no earlier
one has. -/
theorem Restored.set {props values' : List PropertyValue} {y y' : WidgetRegistryXml}
    (h : Restored x props y values') (hlength : props.length < x.iProperties.length)
    (hpre : y.iProperties <+: y'.iProperties) {id : Nat}
    (hid : Numbered y' (x.xmlPropertyName props.length) id) (v : PropertyValue) :
    Restored x (props ++ [v]) y' (setAt id v values') := by
  constructor
  · intro k hk
    rw [List.length_append, List.length_singleton] at hk
    by_cases hlast : k = props.length
    · subst hlast
      refine ⟨id, hid, ?_⟩
      rw [valueOf_append_right, valueOf_setAt, if_pos rfl]
    · have hk : k < props.length := by omega
      obtain ⟨j, hj, hvalue⟩ := h.own k hk
      refine ⟨j, hj.mono hpre, ?_⟩
      rw [valueOf_append_left hk, valueOf_setAt, if_neg, hvalue]
      rintro rfl
      have := Numbered.index_eq (by omega) hlength (hj.mono hpre) hid
      omega
  · intro j hj
    rw [List.length_append, List.length_singleton]
    rw [valueOf_setAt] at hj
    split_ifs at hj with hsame
    · exact ⟨props.length, by omega, hsame ▸ hid⟩
    · obtain ⟨k, hk, hnumber⟩ := h.only j hj
      exact ⟨k, by omega, hnumber.mono hpre⟩

theorem Restored.fillTo {props values' : List PropertyValue} {y : WidgetRegistryXml}
    (h : Restored x props y values') (i : Nat) : Restored x props y (fillTo i values') := by
  constructor
  · intro k hk
    obtain ⟨j, hj, hvalue⟩ := h.own k hk
    exact ⟨j, hj, (valueOf_fillTo i j values').trans hvalue⟩
  · intro j hj
    rw [valueOf_fillTo] at hj
    exact h.only j hj

/-- One array cannot hold two different lists of properties. -/
theorem Restored.unique {props props' values' : List PropertyValue} {y : WidgetRegistryXml}
    (h : Restored x props y values') (h' : Restored x props' y values')
    (hlength : props.length = props'.length) : props = props' := by
  refine List.ext_getElem hlength ?_
  intro k hk hk'
  obtain ⟨j, hj, hvalue⟩ := h.own k hk
  obtain ⟨j', hj', hvalue'⟩ := h'.own k hk'
  obtain rfl := hj.eq hj'
  have hsame := hvalue.symm.trans hvalue'
  simpa [valueOf, List.getD_eq_getElem?_getD, List.getElem?_eq_getElem hk,
    List.getElem?_eq_getElem hk'] using hsame

/-! ## What `readBack` makes -/

/-- The numbers that a table gives to names, one after the other. -/
def numbersOf (y : WidgetRegistryXml) : List Text → List Nat
  | [] => []
  | name :: names => (y.getPropertyId name).1 :: numbersOf (y.getPropertyId name).2 names

/-- Booleans become false, and everything else goes where it belongs. -/
theorem restored_readBack {rest : List PropertyValue} : ∀ {done : List PropertyValue}
    {y : WidgetRegistryXml} {values : List PropertyValue} {r : WidgetRegistryXml × List PropertyValue},
    Restored x done y values → done.length + rest.length ≤ x.iProperties.length →
    From ValueAt done.length rest → readBack x done.length rest y values = some r →
    Restored x (done ++ rest.map image) r.1 r.2 := by
  induction rest with
  | nil =>
    intro done y values r h _ _ hr
    obtain rfl := Option.some.inj hr
    rw [List.map_nil, List.append_nil]
    exact h
  | cons v rest ih =>
    intro done y values r h hlength hvalues hr
    rw [List.length_cons] at hlength
    have hnext : ∀ w, (done ++ [w]).length = done.length + 1 := fun w => by simp
    -- The list of what is done grows by the value as it was read.
    have hstep : ∀ {w : PropertyValue} {y' : WidgetRegistryXml} {values' : List PropertyValue},
        image v = w → Restored x (done ++ [w]) y' values' →
        readBack x (done.length + 1) rest y' values' = some r →
        Restored x (done ++ (v :: rest).map image) r.1 r.2 := by
      intro w y' values' hw h' hr'
      have htail := hvalues.tail
      rw [← hnext w] at hr' htail
      have := ih h' (by rw [hnext]; omega) htail hr'
      rwa [List.append_assoc, List.singleton_append, ← hw] at this
    by_cases hi : done.length < kPropertyIdCount
    · by_cases hset : v = .unknown
      · subst hset
        simp only [readBack, hi, if_true] at hr
        exact hstep rfl (h.unset hi (by omega)) hr
      · by_cases hempty : v = .string []
        · subst hempty
          simp only [readBack, hi, if_true] at hr
          cases hr
        · simp only [readBack, hi, if_true, hset, hempty, if_false] at hr
          exact hstep rfl (h.set (by omega) List.prefix_rfl (numbered_known hi y) _) hr
    · simp only [readBack, hi, if_false] at hr
      by_cases hinvalid : (y.getPropertyId (x.xmlPropertyName done.length)).1 = kPropertyIdInvalid
      · rw [if_pos hinvalid] at hr
        cases hr
      · rw [if_neg hinvalid] at hr
        have himage : image v = v := by
          rcases hvalues.head.other (Nat.le_of_not_lt hi) with rfl | ⟨s, rfl⟩ <;> rfl
        exact hstep himage (h.set (by omega) (y.getPropertyId_spec _).1
          (numbered_getPropertyId y _) _) hr

/-- Reading stops at an empty string and at the number `EWidgetPropertyIdInvalid`. -/
theorem readBack_isSome_iff {i : Nat} {props : List PropertyValue} (hvalues : From ValueAt i props)
    (y : WidgetRegistryXml) (values : List PropertyValue) :
    (readBack x i props y values).isSome ↔ .string [] ∉ props ∧
      kPropertyIdInvalid ∉ numbersOf y ((List.range' i props.length).map x.xmlPropertyName) := by
  induction props generalizing i y values with
  | nil => simp [readBack, numbersOf]
  | cons v rest ih =>
    rw [List.length_cons, List.range'_succ, List.map_cons, numbersOf, List.mem_cons, List.mem_cons,
      not_or, not_or]
    by_cases hi : i < kPropertyIdCount
    · have hvalid : ¬ kPropertyIdInvalid = i := by
        have hlt : kPropertyIdCount < kPropertyIdInvalid := by decide
        omega
      rw [getPropertyId_known hi]
      by_cases hset : v = .unknown
      · subst hset
        simp only [readBack, hi, if_true, ih hvalues.tail]
        simp [hvalid]
      · by_cases hempty : v = .string []
        · subst hempty
          simp [readBack, hi]
        · simp only [readBack, hi, if_true, hset, hempty, if_false, ih hvalues.tail]
          simp [hvalid, Ne.symm hempty]
    · have hempty : ¬ PropertyValue.string [] = v := by
        rcases hvalues.head.other (Nat.le_of_not_lt hi) with rfl | ⟨s, rfl⟩ <;> simp
      simp only [readBack, hi, if_false]
      by_cases hinvalid : (y.getPropertyId (x.xmlPropertyName i)).1 = kPropertyIdInvalid
      · simp [hinvalid]
      · rw [if_neg hinvalid, ih hvalues.tail]
        simp [hempty, Ne.symm hinvalid]

/-! ## Writing and reading an entry -/

namespace WidgetEntry

/-- Every piece of the entry fits the buffer that it goes through. -/
def Fits (e : WidgetEntry x) : Prop := From (FitsAt x) 0 e.iPropertyValues

/-- Every piece of the entry is something that XML can carry as it is written. -/
def IsXml (e : WidgetEntry x) : Prop := From (IsXmlAt x) 0 e.iPropertyValues

/-- What the reader `x0` can give back. -/
structure Readable (x0 : WidgetRegistryXml) (e : WidgetEntry x) : Prop where
  notEmpty : .string [] ∉ e.iPropertyValues
  notTrue : .bool true ∉ e.iPropertyValues
  valid : kPropertyIdInvalid ∉
    numbersOf x0 ((List.range e.iPropertyValues.length).map x.xmlPropertyName)

end WidgetEntry

/-- The entry is written within its buffers, and what the reader `x0` makes of the
parsed output is the same entry. -/
def RoundTrips (reader : ContentReader) (x0 : WidgetRegistryXml) (e : WidgetEntry x) : Prop :=
  ∃ out, externalizeXmlL x e.iPropertyValues = .ok out ∧
    ∃ nodes, reader.parse (kXmlNewline ++ out) = some nodes ∧
      ∃ y values', internalizeXmlL nodes x0 = .ok (y, values') ∧
        Restored x e.iPropertyValues y values'

theorem externalizeXmlL_eq (e : WidgetEntry x) :
    externalizeXmlL x e.iPropertyValues = externalizeFrom x 0 e.iPropertyValues :=
  if_neg (Nat.not_lt.2 e.known)

/-- What a reader makes of the text of an entry that XML can carry. -/
theorem internalize_externalize {e : WidgetEntry x} (hxml : e.IsXml) (reader : ContentReader)
    (x0 : WidgetRegistryXml) {out : Text} (hout : externalizeXmlL x e.iPropertyValues = .ok out) :
    ∃ nodes, reader.parse (kXmlNewline ++ out) = some nodes ∧
      (∀ r, readBack x 0 e.iPropertyValues x0 [] = some r →
        internalizeXmlL nodes x0 = .ok (r.1, fillTo kPropertyIdCount r.2)) ∧
      (readBack x 0 e.iPropertyValues x0 [] = none →
        ∃ failure, internalizeXmlL nodes x0 = .error failure) := by
  rw [externalizeXmlL_eq] at hout
  obtain ⟨nodes, hfor, hcontent⟩ := content_externalizeFrom e.values hxml hout
  -- The end of the line behind the start of the entry is a node of its own.
  refine ⟨.text [10] :: nodes,
    reader.parse_content (content_newline hfor.startsWithText hcontent), ?_⟩
  exact internalizeFrom_nodes hfor x0 [] (by rw [Nat.zero_add]; exact e.named)

theorem fits_of_roundTrips {reader : ContentReader} {x0 : WidgetRegistryXml} {e : WidgetEntry x}
    (h : RoundTrips reader x0 e) : e.Fits := by
  obtain ⟨out, hout, -⟩ := h
  rw [externalizeXmlL_eq] at hout
  exact (externalizeFrom_isOk_iff e.values).1 ⟨out, hout⟩

omit [CharFold] in
theorem map_image_eq_iff (values : List PropertyValue) :
    values.map image = values ↔ .bool true ∉ values := by
  induction values with
  | nil => simp
  | cons v rest ih =>
    rw [List.map_cons, List.cons.injEq, ih, List.mem_cons, not_or]
    refine and_congr_left fun _ => ?_
    cases v with
    | bool b => cases b <;> simp [image]
    | _ => simp [image]

/-- What was read is what `readBack` says, and it is the entry itself only
without booleans that are true. -/
theorem readable_of_roundTrips {reader : ContentReader} {x0 : WidgetRegistryXml}
    {e : WidgetEntry x} (hxml : e.IsXml) (h : RoundTrips reader x0 e) : e.Readable x0 := by
  obtain ⟨out, hout, nodes, hparse, y, values', hread, hrestored⟩ := h
  obtain ⟨nodes', hparse', hsome, hnone⟩ := internalize_externalize hxml reader x0 hout
  obtain rfl := Option.some.inj (hparse.symm.trans hparse')
  cases hback : readBack x 0 e.iPropertyValues x0 [] with
  | none =>
    obtain ⟨failure, hfailure⟩ := hnone hback
    rw [hread] at hfailure
    cases hfailure
  | some r =>
    obtain ⟨hempty, hvalid⟩ := (readBack_isSome_iff e.values x0 []).1 (by rw [hback]; rfl)
    have hsame := hread.symm.trans (hsome r hback)
    obtain ⟨rfl, rfl⟩ := Prod.mk.inj (Except.ok.inj hsame)
    have himage := (restored_readBack (Restored.nil x0)
      (by simpa using e.named) e.values hback).fillTo kPropertyIdCount
    have heq := himage.unique hrestored (by simp)
    exact ⟨hempty, (map_image_eq_iff _).1 (by simpa using heq),
      by rwa [List.range_eq_range']⟩

theorem roundTrips_of_readable (reader : ContentReader) {x0 : WidgetRegistryXml}
    {e : WidgetEntry x} (hfits : e.Fits) (hxml : e.IsXml) (hread : e.Readable x0) :
    RoundTrips reader x0 e := by
  obtain ⟨out, hout⟩ := (externalizeFrom_isOk_iff e.values).2 hfits
  rw [← externalizeXmlL_eq] at hout
  obtain ⟨nodes, hparse, hsome, -⟩ := internalize_externalize hxml reader x0 hout
  have hvalid := hread.valid
  rw [List.range_eq_range'] at hvalid
  obtain ⟨r, hback⟩ := Option.isSome_iff_exists.1
    ((readBack_isSome_iff e.values x0 []).2 ⟨hread.notEmpty, hvalid⟩)
  have hrestored := (restored_readBack (Restored.nil x0)
    (by simpa using e.named) e.values hback).fillTo kPropertyIdCount
  rw [List.nil_append, (map_image_eq_iff _).2 hread.notTrue] at hrestored
  exact ⟨out, hout, nodes, hparse, r.1, _, hsome r hback, hrestored⟩

end

/-! ### Two entries -/

section

/-- A folding that knows the two cases of ASCII letters only. -/
local instance asciiFold : CharFold := ⟨asciiLower, fun _ _ => rfl⟩

/-- A table with one name that the code does not know. -/
def oneMore : WidgetRegistryXml := WidgetRegistryXml.newL.append (lit "Category") (by decide)

/-- An entry with one known property that is set and one that the code does not know. -/
def sampleProperties (v : PropertyValue) : List PropertyValue :=
  v :: (List.replicate 20 .unknown ++ [.blob (lit "<i>1</i>")])

theorem from_sampleProperties {P : Nat → PropertyValue → Prop} {v : PropertyValue} (hv : P 0 v)
    (hunset : ∀ k < 20, P (1 + k) .unknown) (hblob : P 21 (.blob (lit "<i>1</i>"))) :
    From P 0 (sampleProperties v) := by
  refine from_cons hv ?_
  intro k w hw
  rw [List.getElem?_append, List.length_replicate] at hw
  split_ifs at hw with hk
  · rw [List.getElem?_replicate, if_pos hk] at hw
    obtain rfl := Option.some.inj hw
    exact hunset k hk
  · have hlast : k = 20 := by
      have hlt := (List.getElem?_eq_some_iff.1 hw).1
      rw [List.length_singleton] at hlt
      omega
    subst hlast
    obtain rfl := Option.some.inj hw
    exact hblob

/-- The entry with these properties. -/
def sampleEntry (v : PropertyValue) (hv : ValueAt 0 v) : WidgetEntry oneMore where
  iPropertyValues := sampleProperties v
  known := by simp [sampleProperties, kPropertyIdCount]
  named := by simp [sampleProperties, oneMore, WidgetRegistryXml.append, WidgetRegistryXml.newL,
    knownProperties, knownNames]
  values := from_sampleProperties hv
    (fun _ hk => ⟨fun _ _ => nofun, fun _ => nofun, fun _ => .inl rfl⟩)
    ⟨fun h => absurd h (by decide), fun _ => nofun, fun _ => .inr ⟨_, rfl⟩⟩

theorem sampleEntry_isXml {v : PropertyValue} {hv : ValueAt 0 v} (hxml : IsXmlAt oneMore 0 v) :
    (sampleEntry v hv).IsXml := by
  have hname : oneMore.xmlPropertyName 21 = lit "Category" := by decide
  have hdigit : TextRun (lit "1") (lit "1") := textRun_plain (by decide) (by decide)
  refine from_sampleProperties hxml (fun k hk => ⟨fun _ => nofun, fun _ => nofun, ?_⟩)
    ⟨fun _ => nofun, ?_, ?_⟩
  · intro hge
    have : kPropertyIdCount = 21 := rfl
    omega
  · intro s hs
    obtain rfl := PropertyValue.blob.inj hs
    exact ⟨[.element (lit "i") [.text (lit "1")]],
      .element rfl (.text hdigit rfl .nil) .nil, by decide⟩
  · intro _
    rw [hname]
    exact textRun_plain (by decide) (by decide)

theorem valueAt_string : ValueAt 0 (.string (lit "a<b")) := by
  refine ⟨fun _ _ => nofun, ?_, fun h => absurd h (by decide)⟩
  intro s hs
  obtain rfl := PropertyValue.string.inj hs
  decide

end

end SymbianWeb.WidgetRegistry
