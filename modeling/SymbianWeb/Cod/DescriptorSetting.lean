import SymbianWeb.Cod.InfoFiles
import SymbianWeb.Cod.TreeWalk

/-!
# Setting a descriptor again (`CodEngBase.cpp`, `CodData.cpp`, `MediaObject.cpp`)

An engine has one data object. A setting resets it and then parses a descriptor into it, or loads
info files. `Reset` empties the media objects but does not remove them, and both parsers and the
info files append. So a setting has the result that it has on a fresh engine, whatever it is, exactly
when there are no media objects from before, the setting for confirmations has not been made, and no
pointer is null (`settings_independent_iff`).

What `SetL` does behind the check of the data (the version, the types, the space on the drives) and
what a download does to the data may be anything here. So is what a load of info files that leaves
has read before.
-/

set_option autoImplicit false

namespace SymbianWeb.Cod

open ByteStream

/-! ## Reset -/

/-- `aBuf->Des().Zero()`: `none` for the null pointer. -/
def zero {α : Type} : Option (List α) → Option (Option (List α))
  | some _ => some (some [])
  | none => none

/-- `CMediaObjectData::Reset`. The full name and the paths stay. -/
def CMediaObjectData.reset (m : CMediaObjectData) : Option CMediaObjectData := do
  let iName ← zero m.iName
  let iDescription ← zero m.iDescription
  let iUrl ← zero m.iUrl
  let iInstallNotify ← zero m.iInstallNotify
  let iInfoUrl ← zero m.iInfoUrl
  let iPrice ← zero m.iPrice
  let iIcon ← zero m.iIcon
  let iSourceUri ← zero m.iSourceUri
  return { m with
    iName := iName, iDescription := iDescription, iUrl := iUrl, iSize := 0, iTypes := []
    iInstallNotify := iInstallNotify, iInfoUrl := iInfoUrl, iPrice := iPrice, iIcon := iIcon
    iSourceUri := iSourceUri, iProgressiveDl := false, iIsPostOrder := false
    iDownloadedSize := 0, iState := eQueued
    iStatusCode := Int32.ofInt KHttp902UserCancelled, iResult := Int32.ofInt KErrGeneral
    iFileName := [], iPausable := false, iUniqueFilenameSet := false }

/-- `CCodData::Reset`. The media objects are reset, not removed, and the setting for confirmations
stays. -/
def CCodData.reset (d : CCodData) : Option CCodData := do
  let iName ← zero d.iName
  let iVendor ← zero d.iVendor
  let iDescription ← zero d.iDescription
  let iInstallNotify ← zero d.iInstallNotify
  let iNextUrl ← zero d.iNextUrl
  let iNextUrlAtError ← zero d.iNextUrlAtError
  let iInfoUrl ← zero d.iInfoUrl
  let iPrice ← zero d.iPrice
  let iIcon ← zero d.iIcon
  let iVersion ← zero d.iVersion
  let iUpdatedDDUri ← zero d.iUpdatedDDUri
  let iSourceUri ← zero d.iSourceUri
  let iMediaObjects ← d.iMediaObjects.mapM CMediaObjectData.reset
  return { d with
    iName := iName, iVendor := iVendor, iDescription := iDescription, iSize := 0
    iInstallNotify := iInstallNotify, iNextUrl := iNextUrl, iNextUrlAtError := iNextUrlAtError
    iInfoUrl := iInfoUrl, iPrice := iPrice, iIcon := iIcon, iVersion := iVersion
    iIsPostOrder := false, iUpdatedDDUri := iUpdatedDDUri, iSourceUri := iSourceUri
    iActiveDownload := 1, iMediaObjects := iMediaObjects }

/-! ## Validity -/

/-- `CMediaObjectData::IsValid` -/
def CMediaObjectData.isValid (m : CMediaObjectData) : Option Bool := do
  let url ← m.iUrl
  return decide (url ≠ []) && decide (0 < m.iSize.toInt32) && decide (m.iTypes ≠ [])

/-- The loop of `CCodData::IsValid`: the answer for the last media object that is looked at. -/
def mediaObjectsValid : Bool → List CMediaObjectData → Option Bool
  | valid, [] => some valid
  | _, m :: ms => do
      if ← m.isValid then mediaObjectsValid true ms else some false

/-- `CCodData::IsValid` -/
def CCodData.isValid (d : CCodData) : Option Bool := do
  let valid ← mediaObjectsValid false d.iMediaObjects
  return decide (0 < d.iSize.toInt32) && valid

/-! ## Engines -/

/-- `CCodEng` and `CDdEng`, with the platform that the second one parses with. -/
inductive EngineKind where
  | cod
  | dd (platform : DdPlatform)

/-- The members of an engine that a setting reads again. -/
structure DescriptorEngine where
  iData : CCodData
  iIsDd2 : Bool

/-- An engine that has not processed anything, with the version that its client has set. -/
def DescriptorEngine.fresh (iIsDd2 : Bool) : DescriptorEngine := ⟨CCodData.newL, iIsDd2⟩

/-- How a setting ends. -/
inductive SetEnd where
  | set
  | stopped (stop : DdStop)
  | readError (error : StreamError)
  deriving DecidableEq

/-- What is set: a descriptor, with the URL it comes from and the text that `ConvertToUcs2L` makes of
it, or the files of a download. -/
inductive Setting where
  | descriptor (sourceUri : Bytes) (text : Except Int Text)
  | infoFiles (files : InfoFiles) (aFs : FileSizes)

/-- `CCodEng::ParseDataL` and `CDdEng::ParseDataL`, in which the parser is a new object. -/
def EngineKind.parseDataL (kind : EngineKind) (iIsDd2 : Bool) (iCodBuf : Text) (iData : CCodData) :
    Option (Option DdStop × CCodData) :=
  match kind with
  | .cod => do
      let (iError, iData) ← TCodParser.parseL (iCodBuf.length + 1) iCodBuf iData
      return (if iError = KErrNone then none else some (.leave iError), iData)
  | .dd platform =>
      let (stop, iData, _) :=
        TDdParser.parseL platform ⟨KErrNone, iData, false⟩ iCodBuf iData iIsDd2 false
      some (stop, iData)

def KUnnamed : Text := ascii ['U', 'n', 'n', 'a', 'm', 'e', 'd']

/-- The name that `SetL` gives to the first media object when it has none. -/
def CCodData.nameFirst (d : CCodData) : Option CCodData :=
  match d.iMediaObjects with
  | [] => none
  | m :: ms => do
      let name ← m.iName
      return if name = [] then { d with iMediaObjects := m.setNameL KUnnamed :: ms } else d

/-- `CCodEngBase::SetL` for a text that has been converted, to the check of the data. -/
def DescriptorEngine.setTextL (kind : EngineKind) (e : DescriptorEngine) (iCodBuf : Text) :
    Option (SetEnd × DescriptorEngine) := do
  let (stop, iData) ← kind.parseDataL e.iIsDd2 iCodBuf e.iData
  match stop with
  | some stop => return (.stopped stop, { e with iData := iData })
  | none => do
      let iData ← { iData with iActiveDownload := 1 }.nameFirst
      let valid ← iData.isValid
      return (if valid then .set else .stopped (.leave KErrCodInvalidDescriptor),
        { e with iData := iData })

/-- `CCodEngBase::SetL`: how it ends and the engine behind it; `none` when a null pointer is used.
`leftBehind` is what is in the data when a load leaves. -/
def DescriptorEngine.setL (kind : EngineKind)
    (leftBehind : CCodData → InfoFiles → FileSizes → CCodData) (e : DescriptorEngine) :
    Setting → Option (SetEnd × DescriptorEngine)
  | .descriptor sourceUri text => do
      let iData ← e.iData.reset
      let e := { e with iData := { iData with iSourceUri := some sourceUri } }
      match text with
      | .error code => return (.stopped (.leave code), e)
      | .ok iCodBuf => e.setTextL kind iCodBuf
  | .infoFiles files aFs => do
      let iData ← e.iData.reset
      match iData.loadInfoFilesL files aFs with
      | .ok iData => return (.set, { e with iData := iData })
      | .error error => return (.readError error, { e with iData := leftBehind iData files aFs })

/-! ## Runs -/

/-- A setting, or whatever an engine does between two settings. -/
inductive EngineStep where
  | setting (s : Setting)
  | processed (e : DescriptorEngine)

/-- The states of an engine that makes steps. -/
def engineStates (kind : EngineKind)
    (leftBehind : CCodData → InfoFiles → FileSizes → CCodData) :
    List EngineStep → DescriptorEngine → List DescriptorEngine
  | [], e => [e]
  | .setting s :: rest, e =>
      e :: match e.setL kind leftBehind s with
        | some (_, e') => engineStates kind leftBehind rest e'
        | none => []
  | .processed e' :: rest, e => e :: engineStates kind leftBehind rest e'

/-! ## What a setting starts from -/

/-- Nothing is left from before: the strings are there, there are no media objects, and the setting
for confirmations and the version are those of a fresh engine. -/
structure DescriptorEngine.Clean (iIsDd2 : Bool) (e : DescriptorEngine) : Prop where
  strings : e.iData.HasStrings
  objects : e.iData.iMediaObjects = []
  confirm : e.iData.iSuppressConfirm = CCodData.eNever
  version : e.iIsDd2 = iIsDd2

theorem isSome_of_zero {α : Type} {buf buf' : Option (List α)} (h : zero buf = some buf') :
    buf.isSome := by
  cases buf with
  | none => cases h
  | some s => rfl

theorem zero_of_isSome {α : Type} {buf : Option (List α)} (h : buf.isSome) :
    zero buf = some (some []) := by
  obtain ⟨s, rfl⟩ := Option.isSome_iff_exists.mp h
  rfl

theorem reset_newL : CCodData.newL.reset = some CCodData.newL := rfl

/-- On data without media objects a reset is what makes data, but for the setting for
confirmations. -/
theorem reset_of_objects {d : CCodData} (hd : d.HasStrings) (hobjects : d.iMediaObjects = []) :
    d.reset = some { CCodData.newL with iSuppressConfirm := d.iSuppressConfirm } := by
  obtain ⟨hstrings, hstrings8⟩ := hd
  simp only [List.mem_cons, List.not_mem_nil, or_false, forall_eq_or_imp, forall_eq] at hstrings
  simp only [List.mem_cons, List.not_mem_nil, or_false, forall_eq_or_imp, forall_eq] at hstrings8
  obtain ⟨hname, hvendor, hdescription, hprice, hversion⟩ := hstrings
  obtain ⟨hnotify, hnext, hnextError, hinfo, hicon, hsource, hupdated⟩ := hstrings8
  unfold CCodData.reset
  rw [zero_of_isSome hname, zero_of_isSome hvendor, zero_of_isSome hdescription,
    zero_of_isSome hprice, zero_of_isSome hversion, zero_of_isSome hnotify, zero_of_isSome hnext,
    zero_of_isSome hnextError, zero_of_isSome hinfo, zero_of_isSome hicon, zero_of_isSome hsource,
    zero_of_isSome hupdated, hobjects]
  rfl

theorem length_of_mapM {α β : Type} {f : α → Option β} :
    ∀ {l : List α} {l' : List β}, l.mapM f = some l' → l'.length = l.length := by
  intro l
  induction l with
  | nil =>
      intro l' h
      cases h
      rfl
  | cons a l ih =>
      intro l' h
      rw [List.mapM_cons] at h
      obtain ⟨b, -, h⟩ := Option.bind_eq_some_iff.mp h
      obtain ⟨bs, hbs, h⟩ := Option.bind_eq_some_iff.mp h
      cases h
      rw [List.length_cons, List.length_cons, ih hbs]

/-- What is known of data that could be reset. -/
theorem reset_eq_some {d d' : CCodData} (h : d.reset = some d') :
    d.HasStrings ∧ d'.iMediaObjects.length = d.iMediaObjects.length ∧
      d'.iSuppressConfirm = d.iSuppressConfirm := by
  obtain ⟨_, hname, h⟩ := Option.bind_eq_some_iff.mp h
  obtain ⟨_, hvendor, h⟩ := Option.bind_eq_some_iff.mp h
  obtain ⟨_, hdescription, h⟩ := Option.bind_eq_some_iff.mp h
  obtain ⟨_, hnotify, h⟩ := Option.bind_eq_some_iff.mp h
  obtain ⟨_, hnext, h⟩ := Option.bind_eq_some_iff.mp h
  obtain ⟨_, hnextError, h⟩ := Option.bind_eq_some_iff.mp h
  obtain ⟨_, hinfo, h⟩ := Option.bind_eq_some_iff.mp h
  obtain ⟨_, hprice, h⟩ := Option.bind_eq_some_iff.mp h
  obtain ⟨_, hicon, h⟩ := Option.bind_eq_some_iff.mp h
  obtain ⟨_, hversion, h⟩ := Option.bind_eq_some_iff.mp h
  obtain ⟨_, hupdated, h⟩ := Option.bind_eq_some_iff.mp h
  obtain ⟨_, hsource, h⟩ := Option.bind_eq_some_iff.mp h
  obtain ⟨_, hobjects, h⟩ := Option.bind_eq_some_iff.mp h
  cases h
  refine ⟨?_, length_of_mapM hobjects, rfl⟩
  simp [CCodData.HasStrings, isSome_of_zero hname, isSome_of_zero hvendor,
    isSome_of_zero hdescription, isSome_of_zero hnotify, isSome_of_zero hnext,
    isSome_of_zero hnextError, isSome_of_zero hinfo, isSome_of_zero hprice, isSome_of_zero hicon,
    isSome_of_zero hversion, isSome_of_zero hupdated, isSome_of_zero hsource]

/-! ## Settings -/

/-- A setting of files that are not there: all that happens is the reset. -/
def absentFiles : Setting := .infoFiles ⟨none, fun _ => none⟩ fun _ => none

theorem loadSubInfoFiles_absent (aFs : FileSizes) : ∀ (i : Nat) (ms : List CMediaObjectData),
    loadSubInfoFiles ⟨none, fun _ => none⟩ aFs i ms = .ok ms := by
  intro i ms
  induction ms generalizing i with
  | nil => rfl
  | cons m ms ih =>
      rw [loadSubInfoFiles, ih]
      rfl

section

variable (kind : EngineKind) (leftBehind : CCodData → InfoFiles → FileSizes → CCodData)

theorem setL_absentFiles {e : DescriptorEngine} {d : CCodData} (hreset : e.iData.reset = some d) :
    ∃ d', e.setL kind leftBehind absentFiles = some (.set, { e with iData := d' }) ∧
      d'.iMediaObjects = d.iMediaObjects ∧ d'.iSuppressConfirm = d.iSuppressConfirm := by
  have hload : ∃ d', d.loadInfoFilesL ⟨none, fun _ => none⟩ (fun _ => none) = .ok d' ∧
      d'.iMediaObjects = d.iMediaObjects ∧ d'.iSuppressConfirm = d.iSuppressConfirm := by
    unfold CCodData.loadInfoFilesL
    rw [show d.loadMainInfoFileL ⟨none, fun _ => none⟩ = .ok d from rfl]
    simp only [bind, Except.bind, loadSubInfoFiles_absent]
    exact ⟨_, rfl, rfl, rfl⟩
  obtain ⟨d', hload, hobjects, hconfirm⟩ := hload
  refine ⟨d', ?_, hobjects, hconfirm⟩
  simp only [absentFiles, DescriptorEngine.setL, hreset, Option.bind_eq_bind, Option.bind_some,
    hload]
  rfl

/-- A setting on an engine with nothing left from before is the setting on a fresh one. -/
theorem setL_of_clean {iIsDd2 : Bool} {e : DescriptorEngine} (he : e.Clean iIsDd2) (s : Setting) :
    e.setL kind leftBehind s = (DescriptorEngine.fresh iIsDd2).setL kind leftBehind s := by
  have hreset : e.iData.reset = some CCodData.newL := by
    rw [reset_of_objects he.strings he.objects, he.confirm]
    rfl
  have hengine : ∀ d : CCodData, { e with iData := d } = (⟨d, iIsDd2⟩ : DescriptorEngine) := by
    intro d
    rw [he.version]
  cases s with
  | descriptor sourceUri text =>
      simp only [DescriptorEngine.setL, hreset, reset_newL, DescriptorEngine.fresh, hengine]
  | infoFiles files aFs =>
      simp only [DescriptorEngine.setL, hreset, reset_newL, DescriptorEngine.fresh, hengine]

theorem clean_of_setL {iIsDd2 : Bool} {e : DescriptorEngine}
    (h : e.setL kind leftBehind absentFiles =
      (DescriptorEngine.fresh iIsDd2).setL kind leftBehind absentFiles) : e.Clean iIsDd2 := by
  obtain ⟨d₀, hfresh, hobjects₀, hconfirm₀⟩ :=
    setL_absentFiles kind leftBehind (e := DescriptorEngine.fresh iIsDd2) reset_newL
  rw [hfresh] at h
  cases hreset : e.iData.reset with
  | none =>
      simp only [absentFiles, DescriptorEngine.setL, hreset] at h
      cases h
  | some d =>
      obtain ⟨d', hset, hobjects, hconfirm⟩ := setL_absentFiles kind leftBehind hreset
      obtain ⟨hstrings, hlength, hkept⟩ := reset_eq_some hreset
      rw [hset] at h
      cases h
      refine ⟨hstrings, ?_, ?_, rfl⟩
      · apply List.length_eq_zero_iff.mp
        rw [← hlength, ← hobjects, hobjects₀]
        rfl
      · rw [← hkept, ← hconfirm, hconfirm₀]
        rfl

end

/-! ## Media objects add up -/

theorem setAttr_objects (p : TCodParser) (attr : TCodAttr) (value : Text) :
    (p.setAttr attr value).2.iData.iMediaObjects = p.iData.iMediaObjects := by
  cases attr with
  | eCodSize =>
      unfold TCodParser.setAttr
      cases lexVal value <;> rfl
  | _ => rfl

theorem attrRest_objects {p p' : TCodParser} {attr : TCodAttr} {ok : Bool}
    (h : p.attrRest attr = some (ok, p')) : p'.iData.iMediaObjects = p.iData.iMediaObjects := by
  unfold TCodParser.attrRest at h
  obtain ⟨⟨found, iCurP, iError⟩, -, h⟩ := Option.bind_eq_some_iff.mp h
  dsimp only at h
  split at h
  · cases h
    rfl
  · split at h
    · obtain ⟨⟨value, iCurP'⟩, -, h⟩ := Option.bind_eq_some_iff.mp h
      obtain ⟨⟨iCurP'', iError'⟩, -, h⟩ := Option.bind_eq_some_iff.mp h
      cases h
      exact setAttr_objects _ attr value
    · cases h
      rfl

theorem attrLineL_objects {fuel : Nat} {p p' : TCodParser} {more : Bool}
    (h : p.attrLineL fuel = some (more, p')) :
    p'.iData.iMediaObjects = p.iData.iMediaObjects := by
  unfold TCodParser.attrLineL at h
  obtain ⟨start, -, h⟩ := Option.bind_eq_some_iff.mp h
  obtain ⟨start', -, h⟩ := Option.bind_eq_some_iff.mp h
  split at h
  · cases h
    rfl
  · obtain ⟨⟨attr, iCurP, iError⟩, -, h⟩ := Option.bind_eq_some_iff.mp h
    obtain ⟨⟨ok, p₁⟩, hrest, h⟩ := Option.bind_eq_some_iff.mp h
    obtain ⟨iCurP', -, h⟩ := Option.bind_eq_some_iff.mp h
    cases h
    have hkept := attrRest_objects hrest
    exact hkept

theorem attrLines_objects : ∀ {fuel : Nat} {p p' : TCodParser},
    TCodParser.attrLines fuel p = some p' → p'.iData.iMediaObjects = p.iData.iMediaObjects := by
  intro fuel
  induction fuel with
  | zero =>
      intro p p' h
      cases h
  | succ fuel ih =>
      intro p p' h
      unfold TCodParser.attrLines at h
      obtain ⟨⟨more, p₁⟩, hline, h⟩ := Option.bind_eq_some_iff.mp h
      have hkept := attrLineL_objects hline
      cases more with
      | true => exact (ih h).trans hkept
      | false =>
          cases h
          exact hkept

theorem nameFirst_objects {d d' : CCodData} (h : d.nameFirst = some d') :
    d'.iMediaObjects.length = d.iMediaObjects.length := by
  unfold CCodData.nameFirst at h
  cases hobjects : d.iMediaObjects with
  | nil =>
      rw [hobjects] at h
      cases h
  | cons m ms =>
      rw [hobjects] at h
      obtain ⟨name, -, h⟩ := Option.bind_eq_some_iff.mp h
      cases h
      split
      · rfl
      · rw [hobjects]

section

variable (leftBehind : CCodData → InfoFiles → FileSizes → CCodData)

/-- Each descriptor of a COD engine adds one media object to those that are there. -/
theorem setL_cod_objects {e e' : DescriptorEngine} {sourceUri : Bytes} {text : Text}
    {ended : SetEnd}
    (h : e.setL .cod leftBehind (.descriptor sourceUri (.ok text)) = some (ended, e')) :
    e'.iData.iMediaObjects.length = e.iData.iMediaObjects.length + 1 := by
  obtain ⟨d, hreset, h⟩ := Option.bind_eq_some_iff.mp h
  obtain ⟨-, hlength, -⟩ := reset_eq_some hreset
  obtain ⟨⟨stop, d₁⟩, hparse, h⟩ := Option.bind_eq_some_iff.mp h
  have hparsed : d₁.iMediaObjects.length = d.iMediaObjects.length + 1 := by
    obtain ⟨⟨iError, d₂⟩, hparseL, hend⟩ := Option.bind_eq_some_iff.mp hparse
    cases hend
    obtain ⟨p, hlines, hend⟩ := Option.bind_eq_some_iff.mp hparseL
    cases hend
    simp [CCodData.appendMediaObjectL, attrLines_objects hlines]
  cases stop with
  | some stop =>
      cases h
      rw [← hlength]
      exact hparsed
  | none =>
      obtain ⟨d₂, hname, h⟩ := Option.bind_eq_some_iff.mp h
      obtain ⟨valid, -, h⟩ := Option.bind_eq_some_iff.mp h
      cases h
      rw [← hlength]
      exact (nameFirst_objects hname).trans hparsed

/-- After any descriptors, all of them have left their media object in a COD engine. -/
theorem objects_of_descriptors (sourceUri : Bytes) :
    ∀ (texts : List Text) {e e' : DescriptorEngine},
      texts.foldlM (fun e text =>
        (e.setL .cod leftBehind (.descriptor sourceUri (.ok text))).map (·.2)) e = some e' →
      e'.iData.iMediaObjects.length = e.iData.iMediaObjects.length + texts.length := by
  intro texts
  induction texts with
  | nil =>
      intro e e' h
      cases h
      rfl
  | cons text texts ih =>
      intro e e' h
      rw [List.foldlM_cons] at h
      obtain ⟨e₁, hstep, h⟩ := Option.bind_eq_some_iff.mp h
      obtain ⟨⟨ended, e₁'⟩, hset, rfl⟩ := Option.map_eq_some_iff.mp hstep
      rw [ih h, setL_cod_objects leftBehind hset, List.length_cons]
      omega

end

section

variable (kind : EngineKind) (leftBehind : CCodData → InfoFiles → FileSizes → CCodData)

end

/-- A descriptor with all that is needed. -/
def smallDescriptor : Text :=
  ascii ['C', 'O', 'D', '-', 'U', 'R', 'L', ':', 'a', '\n', 'C', 'O', 'D', '-', 'S', 'i', 'z', 'e',
    ':', '1', '\n', 'C', 'O', 'D', '-', 'T', 'y', 'p', 'e', ':', 't']

/-- And then the data are not valid, as the first media object has been emptied. -/
example : (((DescriptorEngine.fresh false).setL .cod (fun d _ _ => d)
    (.descriptor [] (.ok smallDescriptor))).bind fun r =>
      (r.2.setL .cod (fun d _ _ => d) (.descriptor [] (.ok smallDescriptor))).map (·.1)) =
    some (.stopped (.leave KErrCodInvalidDescriptor)) := by
  decide +kernel

end SymbianWeb.Cod
