import SymbianWeb.Cod.TreeWalk

/-!
# The data of an OMA download descriptor of version 2

The calls that the walk over a tree makes for what the tree says give the data that the rules for
the attributes give: one statement more changes what it is about and nothing else, first for one
media object (`said_object`), then for the whole (`said_data`). The main result puts them behind the
walk (`parseL_describes`).
-/

set_option autoImplicit false

namespace SymbianWeb.Cod

open DownloadData (codNameMaxLen codUrlMaxLen)
open ErrorState

/-! ## Errors -/

theorem errorUnless_ok {ok : Bool} {p p' : TDdParser} {u : PUnit}
    (hrun : errorUnless ok p = .ok u p') (herr : p'.iError = 0) : ok = true ∧ p' = p := by
  cases ok with
  | true =>
      cases hrun
      exact ⟨rfl, rfl⟩
  | false =>
      cases hrun
      simp only [Bool.false_eq_true, if_false, TDdParser.error, Cod.error] at herr
      split at herr
      · cases herr
      · contradiction

/-- Behind an error a function for a media object does not succeed. -/
theorem objError_eq_zero {platform : DdPlatform} {s : ObjStatement} (hs : s.Proper)
    {m m' : CMediaObjectData} {p p' : TDdParser} (hm : m.HasStrings) (hp : p.iData.HasStrings)
    (hrun : s.runL platform m p = .ok m' p') (herr : p'.iError = 0) : p.iError = 0 := by
  by_contra hne
  have hinv : ObjInv p.iData.iMediaObjects.length .failed m p := ⟨hm, hp, rfl, hne⟩
  exact ((ObjStatement.keepsObj_runL platform hs m).of_ok hinv hrun).2.2.2 herr

/-! ## A media object -/

section

variable (platform : DdPlatform)

open ObjStatement

@[simp] theorem attrTexts_append (a : TDdAttr) (said rest : List ObjStatement) :
    attrTexts a (said ++ rest) = attrTexts a said ++ attrTexts a rest := List.filterMap_append

@[simp] theorem metaTexts_append (a : TDdAttr) (said rest : List ObjStatement) :
    metaTexts a (said ++ rest) = metaTexts a said ++ metaTexts a rest := List.filterMap_append

@[simp] theorem uriTexts_append (said rest : List ObjStatement) :
    uriTexts (said ++ rest) = uriTexts said ++ uriTexts rest := List.filterMap_append

@[simp] theorem attrTexts_attr (a b : TDdAttr) (v : Text) :
    attrTexts a [.attr b v] = if b = a then [v] else [] := by
  by_cases h : b = a <;> simp [attrTexts, h]

@[simp] theorem attrTexts_metaText (a b : TDdAttr) (v : Text) :
    attrTexts a [.metaText b v] = [] := rfl

@[simp] theorem attrTexts_license (a : TDdAttr) : attrTexts a [.license] = [] := rfl

@[simp] theorem attrTexts_uri (a : TDdAttr) (v : Option Text) : attrTexts a [.uri v] = [] := rfl

@[simp] theorem metaTexts_attr (a b : TDdAttr) (v : Text) : metaTexts a [.attr b v] = [] := rfl

@[simp] theorem metaTexts_metaText (a b : TDdAttr) (v : Text) :
    metaTexts a [.metaText b v] = if b = a then [v] else [] := by
  by_cases h : b = a <;> simp [metaTexts, h]

@[simp] theorem metaTexts_license (a : TDdAttr) : metaTexts a [.license] = [] := rfl

@[simp] theorem metaTexts_uri (a : TDdAttr) (v : Option Text) : metaTexts a [.uri v] = [] := rfl

@[simp] theorem uriTexts_attr (a : TDdAttr) (v : Text) : uriTexts [.attr a v] = [] := rfl

@[simp] theorem uriTexts_metaText (a : TDdAttr) (v : Text) : uriTexts [.metaText a v] = [] := rfl

@[simp] theorem uriTexts_license : uriTexts [.license] = [] := rfl

@[simp] theorem uriTexts_uri (v : Text) : uriTexts [.uri (some v)] = [v] := rfl

theorem firstSize_concat_zero {values : List Text} (h : firstSize values = 0) {v : Text}
    {size : UInt32} (hv : lexVal v = some size) :
    firstSize (values ++ [v]) = if 0 < size.toInt32 then size else 0 := by
  have hnone : (values.filterMap lexVal).find? (fun size => 0 < size.toInt32) = none := by
    cases hfind : (values.filterMap lexVal).find? fun size => 0 < size.toInt32 with
    | none => rfl
    | some w =>
        have hw : 0 < w.toInt32 := by simpa using List.find?_some hfind
        rw [firstSize, hfind, Option.getD_some] at h
        rw [h] at hw
        exact absurd hw (by decide)
  rw [firstSize, List.filterMap_append, List.find?_append, hnone]
  by_cases hpos : 0 < size.toInt32
  · simp [hv, hpos]
  · simp [hv, hpos]

theorem firstSize_concat_ne {values : List Text} (h : firstSize values ≠ 0) (v : Text) :
    firstSize (values ++ [v]) = firstSize values := by
  unfold firstSize at h ⊢
  rw [List.filterMap_append, List.find?_append]
  cases hfind : (values.filterMap lexVal).find? fun size => 0 < size.toInt32 with
  | none =>
      rw [hfind] at h
      exact absurd rfl h
  | some w => rfl

theorem lastFlag_concat (old : Bool) (yes : Text) (values : List Text) (v : Text) :
    lastFlag platform old yes (values ++ [v]) = platform.compareF v yes := by
  simp [lastFlag]

theorem flagValue_some {yes no v : Text} {b : Bool} (h : flagValue platform yes no v = some b) :
    b = platform.compareF v yes := by
  unfold flagValue at h
  split at h
  · rename_i hyes
    cases h
    exact hyes.symm
  · rename_i hyes
    split at h
    · cases h
      simpa using hyes
    · cases h

theorem setObjIfEmptyL_ok {α : Type} {attr : CMediaObjectData → Option (List α)}
    {setter : CMediaObjectData → Text → CMediaObjectData} {v : Text} {m m' : CMediaObjectData}
    {p p' : TDdParser} (hrun : setObjIfEmptyL attr setter v m p = .ok m' p') :
    p' = p ∧ ((attr m = some [] ∧ m' = setter m v) ∨
      ∃ des, attr m = some des ∧ des ≠ [] ∧ m' = m) := by
  unfold setObjIfEmptyL at hrun
  cases hattr : attr m with
  | none =>
      rw [hattr] at hrun
      cases hrun
  | some des =>
      rw [hattr] at hrun
      cases hrun
      by_cases hdes : des = []
      · exact ⟨rfl, .inl ⟨by rw [hdes], if_pos hdes⟩⟩
      · exact ⟨rfl, .inr ⟨des, rfl, hdes, if_neg hdes⟩⟩

theorem setSizeL_ok {v : Text} {m m' : CMediaObjectData} {p p' : TDdParser}
    (hrun : setSizeL v m p = .ok m' p') (herr : p'.iError = 0) :
    p' = p ∧ ((m.iSize = 0 ∧ ∃ size, lexVal v = some size ∧ m' = m.setSize size) ∨
      m.iSize ≠ 0 ∧ m' = m) := by
  unfold setSizeL at hrun
  by_cases hzero : m.iSize = 0
  · rw [if_pos hzero] at hrun
    cases hv : lexVal v with
    | some size =>
        rw [hv] at hrun
        cases hrun
        exact ⟨rfl, .inl ⟨hzero, size, rfl, rfl⟩⟩
    | none =>
        rw [hv] at hrun
        obtain ⟨u, p₁, herror, hpure⟩ := bind_eq_ok.mp hrun
        cases hpure
        exact absurd (errorUnless_ok herror herr).1 Bool.false_ne_true
  · rw [if_neg hzero] at hrun
    cases hrun
    exact ⟨rfl, .inr ⟨hzero, rfl⟩⟩

theorem addTypeL_ok {v : Text} {m m' : CMediaObjectData} {p p' : TDdParser}
    (hrun : addTypeL v m p = .ok m' p') (herr : p'.iError = 0) :
    p' = p ∧ m' = { m with iTypes := m.iTypes ++ [convertL v] } := by
  unfold addTypeL at hrun
  by_cases hbad : v.length > DownloadData.codTypeMaxLen ∨ v.length = 0
  · rw [show m.addTypeL v = (false, m) from if_pos hbad] at hrun
    obtain ⟨u, p₁, herror, hpure⟩ := bind_eq_ok.mp hrun
    cases hpure
    exact absurd (errorUnless_ok herror herr).1 Bool.false_ne_true
  · rw [show m.addTypeL v = (true, { m with iTypes := m.iTypes ++ [convertL v] }) from
      if_neg hbad] at hrun
    cases hrun
    exact ⟨rfl, rfl⟩

/-- A text with two values that was taken. -/
theorem setFlag_ok {flag : Option Bool} {set : Bool → CMediaObjectData}
    {m m' : CMediaObjectData} {p p' : TDdParser}
    (hrun : (match flag with
      | some b => pure (set b)
      | none => errorUnless false >>= fun _ => pure m : DdM CMediaObjectData) p = .ok m' p')
    (herr : p'.iError = 0) : ∃ b, flag = some b ∧ p' = p ∧ m' = set b := by
  cases flag with
  | some b =>
      cases hrun
      exact ⟨b, rfl, rfl, rfl⟩
  | none =>
      obtain ⟨u, p₁, herror, hpure⟩ := bind_eq_ok.mp hrun
      cases hpure
      exact absurd (errorUnless_ok herror herr).1 Bool.false_ne_true

/-- What the statements about a media object do to the parser. -/
def afterObject (said : List ObjStatement) (p : TDdParser) : TDdParser :=
  { p with
    iIsLicenseTag := p.iIsLicenseTag || said.any isLicense
    iData :=
      { p.iData with
        iSuppressConfirm := lastSuppress platform p.iData.iSuppressConfirm
          (attrTexts .eDdSuppressUserConfirmation said) } }

theorem afterObject_of_nil {s : ObjStatement} (hlicense : s.isLicense = false)
    (hsuppress : attrTexts .eDdSuppressUserConfirmation [s] = []) (p : TDdParser) :
    afterObject platform [s] p = p := by
  simp [afterObject, hlicense, hsuppress, lastSuppress]

theorem suppressValue_isSome_cases (v : Text) (d : CCodData)
    (h : (suppressValue platform v).isSome) :
    (d.setSuppressConfirm ((suppressValue platform v).getD CCodData.eNever)).2 =
      { d with iSuppressConfirm := (suppressValue platform v).getD CCodData.eNever } := by
  have hcases : suppressValue platform v = some CCodData.eNever ∨
      suppressValue platform v = some CCodData.eUserConfirmStepOnly ∨
        suppressValue platform v = some CCodData.eAlways := by
    unfold suppressValue at h ⊢
    split at h
    · exact .inl (by simp_all)
    · split at h
      · exact .inr (.inl (by simp_all))
      · split at h
        · exact .inr (.inr (by simp_all))
        · cases h
  rcases hcases with hv | hv | hv
  · rw [hv]
    rfl
  · rw [hv]
    rfl
  · rw [hv]
    rfl

/-- One statement more about a media object. -/
theorem saidUnnamed_step {said : List ObjStatement} {s : ObjStatement} (hs : s.Proper)
    {m' : CMediaObjectData} {p p' : TDdParser}
    (hrun : s.runL platform (saidUnnamed platform said) p = .ok m' p') (herr : p'.iError = 0) :
    m' = saidUnnamed platform (said ++ [s]) ∧ p' = afterObject platform [s] p := by
  match s with
  | .license =>
      cases hrun
      exact ⟨by simp [saidUnnamed], by simp [afterObject, isLicense, lastSuppress]⟩
  | .uri (some v) =>
      cases hrun
      rw [afterObject_of_nil platform rfl rfl]
      refine ⟨?_, rfl⟩
      simp [saidUnnamed, CMediaObjectData.setUrlL, CMediaObjectData.setStringAttrL8]
  | .uri none =>
      obtain ⟨u, p₁, herror, hpure⟩ := bind_eq_ok.mp hrun
      cases hpure
      exact absurd (errorUnless_ok herror herr).1 Bool.false_ne_true
  | .attr a v =>
      have ha : a ∈ objAttrs := hs
      simp only [objAttrs, List.mem_cons, List.not_mem_nil, or_false] at ha
      rcases ha with rfl | rfl | rfl | rfl
      · rw [afterObject_of_nil platform rfl rfl]
        obtain ⟨rfl, hsize⟩ := setSizeL_ok hrun herr
        refine ⟨?_, rfl⟩
        rcases hsize with ⟨hzero, size, hv, rfl⟩ | ⟨hne, rfl⟩
        · have hfirst := firstSize_concat_zero hzero hv
          unfold CMediaObjectData.setSize
          by_cases hpos : 0 < size.toInt32
          · rw [if_neg (Int32.not_le.mpr hpos)]
            simp [saidUnnamed, hfirst, hpos]
          · rw [if_pos (Int32.not_lt.mp hpos)]
            simp [saidUnnamed, hfirst, hpos, show firstSize (attrTexts .eDdSize said) = 0 from hzero]
        · simp [saidUnnamed, firstSize_concat_ne hne]
      · rw [afterObject_of_nil platform rfl rfl]
        obtain ⟨rfl, rfl⟩ := addTypeL_ok hrun herr
        exact ⟨by simp [saidUnnamed], rfl⟩
      · rw [afterObject_of_nil platform rfl rfl]
        obtain ⟨b, hb, rfl, rfl⟩ := setFlag_ok hrun herr
        exact ⟨by simp [saidUnnamed, CMediaObjectData.setProgressiveDownload, lastFlag_concat,
          flagValue_some platform hb], rfl⟩
      · obtain ⟨u, p₁, herror, hrest⟩ := bind_eq_ok.mp hrun
        cases hrest
        obtain ⟨hsome, rfl⟩ := errorUnless_ok herror herr
        refine ⟨by simp [saidUnnamed], ?_⟩
        show ({ p₁ with iData := (p₁.iData.setSuppressConfirm _).2 } : TDdParser) = _
        rw [suppressValue_isSome_cases platform v p₁.iData hsome]
        simp [afterObject, isLicense, lastSuppress]
  | .metaText a v =>
      have ha : a ∈ metaAttrs := hs
      simp only [metaAttrs, List.mem_cons, List.not_mem_nil, or_false] at ha
      rw [afterObject_of_nil platform rfl rfl]
      rcases ha with rfl | rfl | rfl | rfl | rfl
      · cases hrun
        exact ⟨by simp [saidUnnamed], rfl⟩
      · obtain ⟨rfl, ⟨hempty, rfl⟩ | ⟨des, hdes, hne, rfl⟩⟩ := setObjIfEmptyL_ok hrun
        · simp only [saidUnnamed] at hempty
          exact ⟨by simp [saidUnnamed, CMediaObjectData.setDescriptionL,
            CMediaObjectData.setStringAttrL, firstWins_taken hempty], rfl⟩
        · simp only [saidUnnamed] at hdes
          exact ⟨by simp [saidUnnamed, firstWins_kept hdes hne, hdes], rfl⟩
      · obtain ⟨rfl, ⟨hempty, rfl⟩ | ⟨des, hdes, hne, rfl⟩⟩ := setObjIfEmptyL_ok hrun
        · simp only [saidUnnamed] at hempty
          exact ⟨by simp [saidUnnamed, CMediaObjectData.setInstallNotifyL,
            CMediaObjectData.setStringAttrL8, firstWins_taken hempty], rfl⟩
        · simp only [saidUnnamed] at hdes
          exact ⟨by simp [saidUnnamed, firstWins_kept hdes hne, hdes], rfl⟩
      · obtain ⟨b, hb, rfl, rfl⟩ := setFlag_ok hrun herr
        exact ⟨by simp [saidUnnamed, CMediaObjectData.setOrderIsPost, lastFlag_concat,
          flagValue_some platform hb], rfl⟩
      · obtain ⟨rfl, ⟨hempty, rfl⟩ | ⟨des, hdes, hne, rfl⟩⟩ := setObjIfEmptyL_ok hrun
        · simp only [saidUnnamed] at hempty
          exact ⟨by simp [saidUnnamed, CMediaObjectData.setNameL,
            CMediaObjectData.setStringAttrL, firstWins_taken hempty], rfl⟩
        · simp only [saidUnnamed] at hdes
          exact ⟨by simp [saidUnnamed, firstWins_kept hdes hne, hdes], rfl⟩

theorem lastSuppress_append (old : Int32) (values rest : List Text) :
    lastSuppress platform old (values ++ rest) =
      lastSuppress platform (lastSuppress platform old values) rest := by
  unfold lastSuppress
  rw [List.getLast?_append]
  cases rest.getLast? with
  | none => rfl
  | some v => rfl

theorem afterObject_append (said rest : List ObjStatement) (p : TDdParser) :
    afterObject platform (said ++ rest) p =
      afterObject platform rest (afterObject platform said p) := by
  simp [afterObject, lastSuppress_append, Bool.or_assoc]

/-- All that is said of a media object, when no error has been kept. -/
theorem said_object {said : List ObjStatement} (hsaid : ∀ s ∈ said, s.Proper) :
    ∀ {m' : CMediaObjectData} {p p' : TDdParser}, p.iData.HasStrings →
      said.foldlM (runL platform) CMediaObjectData.newL p = .ok m' p' → p'.iError = 0 →
      m' = saidUnnamed platform said ∧ p' = afterObject platform said p := by
  induction said using List.reverseRecOn with
  | nil =>
      intro m' p p' _ hrun _
      cases hrun
      exact ⟨rfl, by simp [afterObject, lastSuppress, attrTexts]⟩
  | append_singleton said s ih =>
      intro m' p p' hp hrun herr
      have hfirst : ∀ s' ∈ said, s'.Proper := fun s' h => hsaid s' (List.mem_append_left _ h)
      have hs : s.Proper := hsaid s (by simp)
      rw [List.foldlM_append, bind_eq_ok] at hrun
      obtain ⟨m₁, p₁, hrun₁, hlast⟩ := hrun
      simp only [List.foldlM_cons, List.foldlM_nil, bind_pure] at hlast
      -- The strings are there after the first statements, so an error in them would be there still.
      have hkept : ObjInv p.iData.iMediaObjects.length .unknown m₁ p₁ :=
        (Contract.foldlM (fun s' h m => keepsObj_runL platform (hfirst s' h) m) _).of_ok
          ⟨CMediaObjectData.hasStrings_newL, hp, rfl, trivial⟩ hrun₁
      have herr₁ : p₁.iError = 0 := objError_eq_zero hs hkept.1 hkept.2.1 hlast herr
      obtain ⟨rfl, rfl⟩ := ih hfirst hp hrun₁ herr₁
      rw [afterObject_append]
      exact saidUnnamed_step platform hs hlast herr

end

/-! ## The whole -/

section

open CCodData

theorem setStringAttrL_ok {buf : HBufC} {v : Text} {n : Nat}
    (h : (setStringAttrL buf v n).1 = true) : (setStringAttrL buf v n).2 = some v := by
  unfold setStringAttrL at h ⊢
  split
  · rename_i hlong
    rw [if_pos hlong] at h
    cases h
  · rfl

theorem setStringAttrL8_ok {buf : HBufC8} {v : Text} {n : Nat}
    (h : (setStringAttrL8 buf v n).1 = true) :
    (setStringAttrL8 buf v n).2 = some (convertL v) := by
  unfold setStringAttrL8 at h ⊢
  split
  · rename_i hlong
    rw [if_pos hlong] at h
    cases h
  · rfl

theorem setNameL_ok {d : CCodData} {v : Text} (h : (d.setNameL v).1 = true) :
    (d.setNameL v).2 = { d with iName := some v } := by
  simp only [setNameL, setStringAttrL_ok h]

theorem setVendorL_ok {d : CCodData} {v : Text} (h : (d.setVendorL v).1 = true) :
    (d.setVendorL v).2 = { d with iVendor := some v } := by
  simp only [setVendorL, setStringAttrL_ok h]

theorem setDescriptionL_ok {d : CCodData} {v : Text} (h : (d.setDescriptionL v).1 = true) :
    (d.setDescriptionL v).2 = { d with iDescription := some v } := by
  simp only [setDescriptionL, setStringAttrL_ok h]

theorem setVersionL_ok {d : CCodData} {v : Text} (h : (d.setVersionL v).1 = true) :
    (d.setVersionL v).2 = { d with iVersion := some v } := by
  simp only [setVersionL, setStringAttrL_ok h]

theorem setInstallNotifyL_ok {d : CCodData} {v : Text} (h : (d.setInstallNotifyL v).1 = true) :
    (d.setInstallNotifyL v).2 = { d with iInstallNotify := some (convertL v) } := by
  simp only [setInstallNotifyL, setStringAttrL8_ok h]

theorem setNextUrls_ok {d : CCodData} {v : Text} (h : (setNextUrls d v).1 = true) :
    (setNextUrls d v).2 =
      { d with iNextUrl := some (convertL v), iNextUrlAtError := some (convertL v) } := by
  by_cases hlong : v.length > codNextUrlMaxLen
  · simp [setNextUrls, setNextUrlL, setStringAttrL8, hlong] at h
  · have hlong' : ¬ v.length > codNextUrlAtErrorMaxLen := hlong
    simp [setNextUrls, setNextUrlL, setNextUrlAtErrorL, setStringAttrL8, hlong, hlong']

theorem setIfEmptyL_ok {α : Type} {attr : CCodData → Option (List α)}
    {setter : CCodData → Text → Bool × CCodData} {v : Text} {p p' : TDdParser} {ok : Bool}
    (hrun : setIfEmptyL attr setter v p = .ok ok p') :
    (attr p.iData = some [] ∧ ok = (setter p.iData v).1 ∧
        p' = { p with iData := (setter p.iData v).2 }) ∨
      ∃ des, attr p.iData = some des ∧ des ≠ [] ∧ p' = p := by
  unfold setIfEmptyL at hrun
  rw [get_bind] at hrun
  cases hattr : attr p.iData with
  | none =>
      rw [hattr] at hrun
      cases hrun
  | some des =>
      rw [hattr] at hrun
      have hread : desL (some des) p = .ok des p := rfl
      rw [bind_of_ok hread] at hrun
      by_cases hdes : des = []
      · rw [if_pos hdes] at hrun
        cases hrun
        exact .inl ⟨by rw [hdes], rfl, rfl⟩
      · rw [if_neg hdes] at hrun
        cases hrun
        exact .inr ⟨des, rfl, hdes, rfl⟩

theorem setOrError_ok {α : Type} {attr : CCodData → Option (List α)}
    {setter : CCodData → Text → Bool × CCodData} {v : Text} {p p' : TDdParser} {u : PUnit}
    (hrun : (do errorUnless (← setIfEmptyL attr setter v) : DdM PUnit) p = .ok u p')
    (herr : p'.iError = 0) :
    (attr p.iData = some [] ∧ (setter p.iData v).1 = true ∧
        p' = { p with iData := (setter p.iData v).2 }) ∨
      ∃ des, attr p.iData = some des ∧ des ≠ [] ∧ p' = p := by
  obtain ⟨ok, p₁, hset, herror⟩ := bind_eq_ok.mp hrun
  obtain ⟨rfl, rfl⟩ := errorUnless_ok herror herr
  rcases setIfEmptyL_ok hset with ⟨hempty, hok, hp⟩ | hkept
  · exact .inl ⟨hempty, hok.symm, hp⟩
  · exact .inr hkept

end

section

variable (platform : DdPlatform)

@[simp] theorem suppressTexts_append (said rest : List Statement) :
    suppressTexts (said ++ rest) = suppressTexts said ++ suppressTexts rest := by
  simp [suppressTexts]

@[simp] theorem suppressTexts_single (s : Statement) :
    suppressTexts [s] = match s.objectSaid with
      | some o => ObjStatement.attrTexts .eDdSuppressUserConfirmation o
      | none => [] := by
  cases s <;> simp [suppressTexts]

@[simp] theorem filterMap_single {α β : Type} (f : α → Option β) (a : α) :
    [a].filterMap f = (f a).toList := by
  cases h : f a with
  | none => exact List.filterMap_cons_none h
  | some b => exact List.filterMap_cons_some h

theorem said_data_step {d : CCodData} {said : List Statement} {s : Statement} (hs : s.Proper)
    {p p' : TDdParser} {u : PUnit} (hstrings : p.iData.HasStrings)
    (hp : p.iData = saidData platform d said)
    (hrun : s.runL platform PUnit.unit p = .ok u p') (herr : p'.iError = 0) :
    p'.iData = saidData platform d (said ++ [s]) ∧
      p'.iIsLicenseTag = (p.iIsLicenseTag || s.isLicense) := by
  cases s with
  | license =>
      cases hrun
      exact ⟨by simp [hp, saidData], by simp⟩
  | attr a v =>
      have ha : a ∈ mediaAttrs := hs
      simp only [mediaAttrs, List.mem_cons, List.not_mem_nil, or_false] at ha
      rcases ha with rfl | rfl | rfl | rfl | rfl
      · rcases setOrError_ok hrun herr with ⟨hempty, hok, rfl⟩ | ⟨des, hdes, hne, rfl⟩
        · simp only [hp, saidData] at hempty
          refine ⟨?_, by simp⟩
          show (CCodData.setVersionL p.iData v).2 = _
          rw [setVersionL_ok hok, hp]
          simp [saidData, firstWins_taken hempty]
        · simp only [hp, saidData] at hdes
          exact ⟨by simp [hp, saidData, firstWins_kept hdes hne, hdes], by simp⟩
      · rcases setOrError_ok hrun herr with ⟨hempty, hok, rfl⟩ | ⟨des, hdes, hne, rfl⟩
        · simp only [hp, saidData] at hempty
          refine ⟨?_, by simp⟩
          show (CCodData.setVendorL p.iData v).2 = _
          rw [setVendorL_ok hok, hp]
          simp [saidData, firstWins_taken hempty]
        · simp only [hp, saidData] at hdes
          exact ⟨by simp [hp, saidData, firstWins_kept hdes hne, hdes], by simp⟩
      · rcases setOrError_ok hrun herr with ⟨hempty, hok, rfl⟩ | ⟨des, hdes, hne, rfl⟩
        · simp only [hp, saidData] at hempty
          refine ⟨?_, by simp⟩
          show (CCodData.setNameL p.iData v).2 = _
          rw [setNameL_ok hok, hp]
          simp [saidData, firstWins_taken hempty]
        · simp only [hp, saidData] at hdes
          exact ⟨by simp [hp, saidData, firstWins_kept hdes hne, hdes], by simp⟩
      · rcases setOrError_ok hrun herr with ⟨hempty, hok, rfl⟩ | ⟨des, hdes, hne, rfl⟩
        · simp only [hp, saidData] at hempty
          have hold := eq_nil_of_firstWins hempty
          rw [hold] at hempty
          refine ⟨?_, by simp⟩
          show (setNextUrls p.iData v).2 = _
          rw [setNextUrls_ok hok, hp]
          simp [saidData, firstWins_taken hempty, hold]
        · simp only [hp, saidData] at hdes
          have hgiven : d.iNextUrl = some [] →
              said.filterMap (Statement.attrText .eDdNextUrl) ≠ [] := by
            intro hold hnone
            rw [hnone, hold] at hdes
            cases hdes
            exact hne rfl
          refine ⟨?_, by simp⟩
          by_cases hold : d.iNextUrl = some []
          · simp [hp, saidData, firstWins_kept hdes hne, hdes, hgiven hold]
          · simp [hp, saidData, firstWins_kept hdes hne, hdes, hold]
      · obtain ⟨ok, p₁, hset, hpure⟩ := bind_eq_ok.mp
          (show (setIfEmptyL (·.iUpdatedDDUri) CCodData.setUpdatedDDURI v >>=
            fun _ => (pure PUnit.unit : DdM PUnit)) p = .ok u p' from hrun)
        cases hpure
        rcases setIfEmptyL_ok hset with ⟨hempty, -, rfl⟩ | ⟨des, hdes, hne, rfl⟩
        · simp only [hp, saidData] at hempty
          refine ⟨?_, by simp⟩
          by_cases hlong : v.length > codUrlMaxLen
          · simp [CCodData.setUpdatedDDURI, CCodData.setStringAttrL8, hlong, hp, saidData]
          · simp [CCodData.setUpdatedDDURI, CCodData.setStringAttrL8, hlong, hp, saidData,
              Nat.le_of_not_gt hlong, firstWins_taken hempty]
        · simp only [hp, saidData] at hdes
          refine ⟨?_, by simp⟩
          by_cases hlong : v.length ≤ codUrlMaxLen
          · simp [hp, saidData, hlong, firstWins_kept hdes hne, hdes]
          · simp [hp, saidData, hlong]
  | metaText a v =>
      have ha : a ∈ metaAttrs := hs
      simp only [metaAttrs, List.mem_cons, List.not_mem_nil, or_false] at ha
      rcases ha with rfl | rfl | rfl | rfl | rfl
      · cases hrun
        exact ⟨by simp [hp, saidData], by simp⟩
      · rcases setOrError_ok hrun herr with ⟨hempty, hok, rfl⟩ | ⟨des, hdes, hne, rfl⟩
        · simp only [hp, saidData] at hempty
          refine ⟨?_, by simp⟩
          show (CCodData.setDescriptionL p.iData v).2 = _
          rw [setDescriptionL_ok hok, hp]
          simp [saidData, firstWins_taken hempty]
        · simp only [hp, saidData] at hdes
          exact ⟨by simp [hp, saidData, firstWins_kept hdes hne, hdes], by simp⟩
      · rcases setOrError_ok hrun herr with ⟨hempty, hok, rfl⟩ | ⟨des, hdes, hne, rfl⟩
        · simp only [hp, saidData] at hempty
          refine ⟨?_, by simp⟩
          show (CCodData.setInstallNotifyL p.iData v).2 = _
          rw [setInstallNotifyL_ok hok, hp]
          simp [saidData, firstWins_taken hempty]
        · simp only [hp, saidData] at hdes
          exact ⟨by simp [hp, saidData, firstWins_kept hdes hne, hdes], by simp⟩
      · change (match flagValue platform KDdPost KDdAny v with
          | some b => modify fun p => { p with iData := p.iData.setOrderIsPost b }
          | none => errorUnless false : DdM PUnit) p = .ok u p' at hrun
        cases hflag : flagValue platform KDdPost KDdAny v with
        | some b =>
            rw [hflag] at hrun
            cases hrun
            exact ⟨by simp [hp, saidData, CCodData.setOrderIsPost, lastFlag_concat,
              flagValue_some platform hflag], by simp⟩
        | none =>
            rw [hflag] at hrun
            exact absurd (errorUnless_ok hrun herr).1 Bool.false_ne_true
      · rcases setOrError_ok hrun herr with ⟨hempty, hok, rfl⟩ | ⟨des, hdes, hne, rfl⟩
        · simp only [hp, saidData] at hempty
          refine ⟨?_, by simp⟩
          show (CCodData.setNameL p.iData v).2 = _
          rw [setNameL_ok hok, hp]
          simp [saidData, firstWins_taken hempty]
        · simp only [hp, saidData] at hdes
          exact ⟨by simp [hp, saidData, firstWins_kept hdes hne, hdes], by simp⟩
  | object o =>
      obtain ⟨m, p₁, hfold, happend⟩ := bind_eq_ok.mp hrun
      have hkept : ObjInv p.iData.iMediaObjects.length .unknown m p₁ :=
        (Contract.foldlM (fun s' h m => ObjStatement.keepsObj_runL platform (hs s' h) m) _).of_ok
          ⟨CMediaObjectData.hasStrings_newL, hstrings, rfl, trivial⟩ hfold
      rw [appendNamedL_run platform hkept.1] at happend
      cases happend
      obtain ⟨rfl, rfl⟩ := said_object platform hs hstrings hfold herr
      refine ⟨?_, by simp [afterObject]⟩
      simp [afterObject, CCodData.appendMediaObjectL, hp, saidData, lastSuppress_append,
        saidObject, UInt32.add_assoc]

/-- All that is said of the whole, when no error has been kept. -/
theorem said_data {said : List Statement} (hsaid : ∀ s ∈ said, s.Proper) :
    ∀ {p p' : TDdParser} {u : PUnit}, p.iData.HasStrings →
      said.foldlM (Statement.runL platform) PUnit.unit p = .ok u p' → p'.iError = 0 →
      p'.iData = saidData platform p.iData said ∧
        p'.iIsLicenseTag = (p.iIsLicenseTag || said.any Statement.isLicense) := by
  induction said using List.reverseRecOn with
  | nil =>
      intro p p' u _ hrun _
      cases hrun
      exact ⟨by simp [saidData, lastFlag, lastSuppress, suppressTexts], by simp⟩
  | append_singleton said s ih =>
      intro p p' u hp hrun herr
      have hfirst : ∀ s' ∈ said, s'.Proper := fun s' h => hsaid s' (List.mem_append_left _ h)
      have hs : s.Proper := hsaid s (by simp)
      rw [List.foldlM_append, bind_eq_ok] at hrun
      obtain ⟨u₁, p₁, hrun₁, hlast⟩ := hrun
      simp only [List.foldlM_cons, List.foldlM_nil, bind_pure] at hlast
      have hstrings : p₁.iData.HasStrings :=
        ((Statement.contract_runsL platform hfirst).of_ok
          (show WalkInv p.iData.iMediaObjects.length .unknown p from ⟨hp, rfl, trivial⟩) hrun₁).1
      have herr₁ : p₁.iError = 0 := by
        by_contra hne
        have hinv : WalkInv p₁.iData.iMediaObjects.length .failed p₁ := ⟨hstrings, rfl, hne⟩
        exact ((Statement.contract_runL platform hs).of_ok hinv hlast).2.2 herr
      obtain ⟨hdata, hlicense⟩ := ih hfirst hp hrun₁ herr₁
      obtain ⟨hdata', hlicense'⟩ := said_data_step platform hs hstrings hdata hlast herr
      refine ⟨hdata', ?_⟩
      rw [hlicense', hlicense, List.any_append, Bool.or_assoc]
      simp

/-! ## Descriptors -/

/-- The media objects of the statements are those of the first product that has any. -/
theorem objectSaid_mediaStatements : ∀ (es : List (Text × List DomNode)) (found : Bool),
    (mediaStatements platform found es).filterMap Statement.objectSaid =
      (if found then [] else firstMediaObjects es).map (objStatements platform) := by
  intro es
  induction es with
  | nil =>
      intro found
      cases found <;> rfl
  | cons e rest ih =>
      intro found
      rw [mediaStatements]
      by_cases hproduct : mediaAttribute e.1 = .eDdProduct
      · rw [if_pos hproduct]
        cases found with
        | true => simpa using ih true
        | false =>
            rw [if_neg Bool.false_ne_true, List.filterMap_append, objectSaid_productStatements, ih]
            by_cases hnone : mediaObjectsOf e.2 = []
            · simp [firstMediaObjects, hproduct, hnone]
            · simp [firstMediaObjects, hproduct, hnone]
      · rw [if_neg hproduct, List.filterMap_append, ih]
        have hsaid : (mediaSaid e).filterMap Statement.objectSaid = [] := by
          unfold mediaSaid
          split
          · rfl
          · cases pcData e.2 <;> rfl
        rw [hsaid, List.nil_append]
        simp [firstMediaObjects, hproduct]

/-- `UserConfirmStepOnly` -/
def userConfirmStepOnly : Text :=
  ascii ['U', 's', 'e', 'r', 'C', 'o', 'n', 'f', 'i', 'r', 'm', 'S', 't', 'e', 'p', 'O', 'n', 'l',
    'y']

/-- The data that a tree describes, for data that are there before: `media` are the elements under
the document element, and `licensed` is the flag. -/
structure Describes (platform : DdPlatform) (aData : CCodData)
    (attributes : List (DomString × DomString)) (media : List (Text × List DomNode))
    (data : CCodData) (licensed : Bool) : Prop where
  /-- There is one media object for each element of the first product that has any, and one in all
  at least. -/
  objects : data.iMediaObjects = aData.iMediaObjects ++
    (if aData.iMediaObjects = [] then firstMediaObjects media else []).map fun mediaObject =>
      saidObject platform (objStatements platform mediaObject)
  nonempty : data.iMediaObjects ≠ []
  size : ∃ added, data.iMediaObjects = aData.iMediaObjects ++ added ∧
    data.iSize = aData.iSize + (added.map (·.iSize)).sum
  /-- Each attribute is the text that counts for it. -/
  attrs : data =
    { withVersion (saidData platform aData
        (mediaStatements platform (decide (aData.iMediaObjects ≠ [])) media))
        (versionTexts attributes) with
      iSuppressConfirm := data.iSuppressConfirm }
  /-- The last text for confirmations, of the names that the setting follows. -/
  suppress : ∀ v, (suppressTexts
      (mediaStatements platform (decide (aData.iMediaObjects ≠ [])) media)).getLast? = some v →
    (platform.compareF v KDdNever → data.iSuppressConfirm = CCodData.eNever) ∧
      (platform.compareF v userConfirmStepOnly →
        data.iSuppressConfirm = CCodData.eUserConfirmStepOnly)
  unsaid : suppressTexts
      (mediaStatements platform (decide (aData.iMediaObjects ≠ [])) media) = [] →
    data.iSuppressConfirm = aData.iSuppressConfirm
  license : licensed =
    (mediaStatements platform (decide (aData.iMediaObjects ≠ [])) media).any Statement.isLicense

theorem fold_of_all {t : Text} (h : (t.all fun c => c < 128) = true) :
    platform.fold t = t.map fun c => if 65 ≤ c ∧ c ≤ 90 then c + 32 else c := by
  apply platform.fold_ascii
  intro c hmem
  exact of_decide_eq_true (List.all_eq_true.mp h c hmem)

/-- The fold of a text keeps texts apart that are apart in lower case. -/
theorem suppressValue_of_compareF {v : Text} :
    (platform.compareF v KDdNever → suppressValue platform v = some CCodData.eNever) ∧
      (platform.compareF v userConfirmStepOnly →
        suppressValue platform v = some CCodData.eUserConfirmStepOnly) := by
  constructor
  · intro h
    exact if_pos h
  · intro h
    have hfold : platform.fold v = platform.fold userConfirmStepOnly := by
      simpa [DdPlatform.compareF] using h
    have hnever : platform.fold userConfirmStepOnly ≠ platform.fold KDdNever := by
      rw [fold_of_all platform (t := userConfirmStepOnly) rfl, fold_of_all platform (t := KDdNever) rfl]
      decide
    have hstep : platform.fold userConfirmStepOnly ≠ platform.fold KDdUserConfirmStepOnly := by
      rw [fold_of_all platform (t := userConfirmStepOnly) rfl,
        fold_of_all platform (t := KDdUserConfirmStepOnly) rfl]
      decide
    simp [suppressValue, DdPlatform.compareF, hfold, hnever, hstep]

theorem describes_of_said {aData : CCodData} {attributes : List (DomString × DomString)}
    {media : List (Text × List DomNode)} {data : CCodData} {licensed : Bool}
    (hdata : data = withVersion (saidData platform aData
      (mediaStatements platform (decide (aData.iMediaObjects ≠ [])) media))
      (versionTexts attributes))
    (hlicense : licensed =
      (mediaStatements platform (decide (aData.iMediaObjects ≠ [])) media).any Statement.isLicense)
    (hnonempty : data.iMediaObjects ≠ []) :
    Describes platform aData attributes media data licensed := by
  have hobjects : data.iMediaObjects = aData.iMediaObjects ++
      (if aData.iMediaObjects = [] then firstMediaObjects media else []).map fun mediaObject =>
        saidObject platform (objStatements platform mediaObject) := by
    rw [hdata]
    simp only [withVersion, saidData, objectSaid_mediaStatements, List.map_map]
    by_cases hempty : aData.iMediaObjects = []
    · simp [hempty, Function.comp_def]
    · simp [hempty]
  refine ⟨hobjects, hnonempty, ⟨_, by rw [hdata]; rfl, by rw [hdata]; rfl⟩, by rw [hdata], ?_, ?_,
    hlicense⟩
  · intro v hv
    have hconfirm : data.iSuppressConfirm =
        (suppressValue platform v).getD CCodData.eNever := by
      rw [hdata]
      simp only [withVersion, saidData, lastSuppress, hv]
    obtain ⟨hnever, hstep⟩ := suppressValue_of_compareF platform (v := v)
    exact ⟨fun h => by rw [hconfirm, hnever h]; rfl, fun h => by rw [hconfirm, hstep h]; rfl⟩
  · intro hnone
    rw [hdata]
    simp only [withVersion, saidData, lastSuppress, hnone, List.getLast?_nil]

/-- The walk over the elements and attributes of `media`. -/
theorem parseMediaElementsL_run (attributes : List (DomString × DomString))
    (children : List DomNode) {p : TDdParser} (hp : p.iData.HasStrings) (herr : p.iError ≤ 0) :
    (∃ code p', parseMediaElementsL platform attributes children p = .error (.leave code) p') ∨
      ∃ p', parseMediaElementsL platform attributes children p = .ok PUnit.unit p' ∧
        p'.iError ≤ 0 ∧
        (p'.iError = 0 →
          p'.iData = withVersion (saidData platform p.iData
            (mediaStatements platform (decide (p.iData.iMediaObjects ≠ [])) (elements children)))
            (versionTexts attributes) ∧
          p'.iIsLicenseTag = (p.iIsLicenseTag ||
            (mediaStatements platform (decide (p.iData.iMediaObjects ≠ []))
              (elements children)).any Statement.isLicense)) := by
  have hproper : ∀ s ∈ mediaStatements platform (decide (p.iData.iMediaObjects ≠ []))
      (elements children), s.Proper := fun s hs => mediaStatements_proper platform hs
  have hinv : WalkInv p.iData.iMediaObjects.length .nonpos p := ⟨hp, rfl, herr⟩
  unfold parseMediaElementsL
  rcases followsAt_mediaElements platform children _ p hp rfl with hwalk | ⟨code, p', hleave⟩
  · cases hrun : (mediaStatements platform (decide (p.iData.iMediaObjects ≠ []))
        (elements children)).foldlM (Statement.runL platform) PUnit.unit p with
    | error stop p₁ =>
        left
        obtain ⟨code, rfl⟩ := (Statement.contract_runsL platform hproper).of_error hinv hrun
        exact ⟨code, p₁, bind_of_error (hwalk.trans hrun)⟩
    | ok u p₁ =>
        rw [bind_of_ok (hwalk.trans hrun)]
        have hkept := (Statement.contract_runsL platform hproper).of_ok hinv hrun
        rcases attributes_run attributes p₁ with hattrs | ⟨code, p', hleave⟩
        · refine .inr ⟨_, hattrs, hkept.2.2, fun hzero => ?_⟩
          obtain ⟨hdata, hlicense⟩ := said_data platform hproper hp hrun hzero
          exact ⟨by rw [hdata], hlicense⟩
        · exact .inl ⟨code, p', hleave⟩
  · exact .inl ⟨code, p', bind_of_error hleave⟩

/-- `ParseL` behind the tree, for version 2. -/
def parseDd2TreeL (documentElement : Option DomNode) : DdM PUnit := do
  modify fun p => { p with iIsLicenseTag := false }
  let (attributes, children) ← mediaElementL documentElement
  parseMediaElementsL platform attributes children
  let p ← get
  if p.iData.iMediaObjects = [] then
    leave KErrCodInvalidDescriptor
  else if p.iError < 0 then
    leave p.iError
  else
    return PUnit.unit

theorem parseBufL_dd2 (aBuf : Text) :
    parseBufL platform aBuf true = buildTreeL platform aBuf >>= parseDd2TreeL platform := by
  unfold parseBufL parseDd2TreeL parseDd2DocNodeL
  simp only [if_true, bind_assoc]

theorem parseDd2TreeL_run (documentElement : Option DomNode) {p : TDdParser}
    (hp : p.iData.HasStrings) (herr : p.iError ≤ 0) :
    (∃ code p', parseDd2TreeL platform documentElement p = .error (.leave code) p') ∨
      ∃ attributes children p',
        documentElement = some (.element (.ok KDdMedia) attributes children) ∧
        parseDd2TreeL platform documentElement p = .ok PUnit.unit p' ∧
        Describes platform p.iData attributes (elements children) p'.iData p'.iIsLicenseTag := by
  match documentElement with
  | none => exact .inl ⟨_, _, rfl⟩
  | some (.text data) => exact .inl ⟨_, _, rfl⟩
  | some .other => exact .inl ⟨_, _, rfl⟩
  | some (.element (.error code) attributes children) => exact .inl ⟨_, _, rfl⟩
  | some (.element (.ok name) attributes children) =>
      have hmedia : ∀ q, mediaElementL (some (.element (.ok name) attributes children)) q =
          if name = KDdMedia then .ok (attributes, children) q
          else .error (.leave KErrCodInvalidDescriptor) q := by
        intro q
        show (if name = KDdMedia then _ else _ : DdM _) q = _
        split
        · rfl
        · rfl
      unfold parseDd2TreeL
      rw [modify_bind]
      by_cases hname : name = KDdMedia
      · have hread := hmedia { p with iIsLicenseTag := false }
        rw [if_pos hname] at hread
        rw [bind_of_ok hread]
        dsimp only
        rcases parseMediaElementsL_run platform attributes children
          (p := { p with iIsLicenseTag := false }) hp herr with
          ⟨code, p', hleave⟩ | ⟨p', hrun, hneg, hdescribed⟩
        · exact .inl ⟨code, p', bind_of_error hleave⟩
        · rw [bind_of_ok hrun, get_bind]
          by_cases hnone : p'.iData.iMediaObjects = []
          · rw [if_pos hnone]
            exact .inl ⟨_, _, rfl⟩
          · rw [if_neg hnone]
            by_cases hfailed : p'.iError < 0
            · rw [if_pos hfailed]
              exact .inl ⟨_, _, rfl⟩
            · rw [if_neg hfailed]
              obtain ⟨hdata, hlicense⟩ := hdescribed (by omega)
              exact .inr ⟨attributes, children, p', by rw [hname], rfl,
                describes_of_said platform hdata hlicense hnone⟩
      · have hread := hmedia { p with iIsLicenseTag := false }
        rw [if_neg hname] at hread
        exact .inl ⟨_, _, bind_of_error hread⟩

/-- `ParseL` leaves, or the tree of the text has a `media` element and gives the data that it
describes. -/
theorem parseL_describes (parser : TDdParser) (aBuf : Text) (aData : CCodData)
    (haData : aData.HasStrings) (aIsLicenseTag : Bool) :
    (∃ code data,
      parser.parseL platform aBuf aData true aIsLicenseTag =
        (some (.leave code), data, aIsLicenseTag)) ∨
      ∃ attributes children data licensed,
        platform.buildTree aBuf = .ok (some (.element (.ok KDdMedia) attributes children)) ∧
        parser.parseL platform aBuf aData true aIsLicenseTag = (none, data, licensed) ∧
        Describes platform aData attributes (elements children) data licensed := by
  unfold TDdParser.parseL
  rw [parseBufL_dd2]
  cases htree : platform.buildTree aBuf with
  | error code =>
      left
      have hbuild : buildTreeL platform aBuf { parser with iError := KErrNone, iData := aData } =
          .error (.leave code) { parser with iError := KErrNone, iData := aData } := by
        rw [buildTreeL, htree]
        rfl
      rw [bind_of_error hbuild]
      exact ⟨_, _, rfl⟩
  | ok documentElement =>
      have hbuild : buildTreeL platform aBuf { parser with iError := KErrNone, iData := aData } =
          .ok documentElement { parser with iError := KErrNone, iData := aData } := by
        rw [buildTreeL, htree]
        rfl
      rw [bind_of_ok hbuild]
      rcases parseDd2TreeL_run platform documentElement
        (p := { parser with iError := KErrNone, iData := aData }) haData (Int.le_refl 0) with
        ⟨code, p', hleave⟩ | ⟨attributes, children, p', rfl, hrun, hdescribes⟩
      · left
        rw [hleave]
        exact ⟨_, _, rfl⟩
      · right
        rw [hrun]
        exact ⟨attributes, children, _, _, rfl, rfl, hdescribes⟩

end

/-- A platform whose texts are ASCII, with the tree of one text. -/
def asciiPlatform (tree : DomNode) : DdPlatform where
  fold t := t.map fun c => if 65 ≤ c ∧ c ≤ 90 then c + 32 else c
  fold_ascii _ _ := rfl
  convertToUnicodeFromUtf8 t := t.map (·.toUInt16)
  buildTree _ := .ok (some tree)

/-- A descriptor with one media object, which has two servers. -/
def twoServersText : Text :=
  ascii ("<media><product><mediaObject><objectURI><server>a</server><server>b</server>" ++
    "</objectURI><suppressUserConfirmation>Always</suppressUserConfirmation></mediaObject>" ++
    "</product></media>").toList

def twoServersTree : DomNode :=
  let node (name : Text) (children : List DomNode) : DomNode := .element (.ok name) [] children
  let textNode (name value : Text) : DomNode := node name [.text (.ok value)]
  node KDdMedia [node KDdProduct [node KDdMediaObject
    [node KDdUrl [textNode KDdServer (ascii ['a']), textNode KDdServer (ascii ['b'])],
     textNode KDdSuppressUserConfirmation KDdAlways]]]

theorem parseL_describes_twoServers :
    ∃ attributes children data licensed,
      TDdParser.parseL (asciiPlatform twoServersTree) ⟨KErrNone, CCodData.newL, false⟩
        twoServersText CCodData.newL true false = (none, data, licensed) ∧
      Describes (asciiPlatform twoServersTree) CCodData.newL attributes (elements children) data
        licensed := by
  have hreturns : (TDdParser.parseL (asciiPlatform twoServersTree)
      ⟨KErrNone, CCodData.newL, false⟩ twoServersText CCodData.newL true false).1 = none := by
    decide +kernel
  rcases parseL_describes (asciiPlatform twoServersTree) ⟨KErrNone, CCodData.newL, false⟩
    twoServersText CCodData.newL (by simp [CCodData.HasStrings, CCodData.newL]) false with
    ⟨code, data, hleave⟩ | ⟨attributes, children, data, licensed, -, hrun, hdescribes⟩
  · rw [hleave] at hreturns
    cases hreturns
  · exact ⟨attributes, children, data, licensed, hrun, hdescribes⟩

/-- Of two servers the second one counts, and `Always` does not set what it names. -/
theorem not_firstServer_twoServers :
    ¬ ∀ (platform : DdPlatform) (aBuf : Text) (attributes : List (DomString × DomString))
      (children : List DomNode) (data : CCodData) (licensed : Bool),
      platform.buildTree aBuf = .ok (some (.element (.ok KDdMedia) attributes children)) →
      TDdParser.parseL platform ⟨KErrNone, CCodData.newL, false⟩ aBuf CCodData.newL true false =
        (none, data, licensed) →
      (data.iMediaObjects.map (·.iUrl) = (firstMediaObjects (elements children)).map fun o =>
        ((ObjStatement.uriTexts (objStatements platform o)).head?.map convertL)) ∧
      ∀ v, (suppressTexts (mediaStatements platform false (elements children))).getLast? = some v →
        platform.compareF v KDdAlways → data.iSuppressConfirm = CCodData.eAlways := by
  intro hclaim
  have hrun : TDdParser.parseL (asciiPlatform twoServersTree) ⟨KErrNone, CCodData.newL, false⟩
      twoServersText CCodData.newL true false =
        (none, (TDdParser.parseL (asciiPlatform twoServersTree)
          ⟨KErrNone, CCodData.newL, false⟩ twoServersText CCodData.newL true false).2) := by
    apply Prod.ext
    · decide +kernel
    · rfl
  have hurl := (hclaim (asciiPlatform twoServersTree) twoServersText _ _ _ _ rfl hrun).1
  revert hurl
  decide +kernel

end SymbianWeb.Cod
