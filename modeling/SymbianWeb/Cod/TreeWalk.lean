import SymbianWeb.Cod.DescriptorTree

/-!
# The walk over the tree of a descriptor

Two facts about every function of the walk. It keeps the strings of the data, the errors and the
number of media objects, and when it does not return it leaves (`Keeps`). When it returns, the
setters have been called for what the part of the tree under it says, in that order
(`parseMediaElementsL_said`).
-/

set_option autoImplicit false

namespace SymbianWeb.Cod

open ErrorState

/-! ## What is kept -/

namespace CCodData

/-- No pointer to a string is null, as behind `NewL` and `Reset`. -/
def HasStrings (d : CCodData) : Prop :=
  (∀ buf ∈ [d.iName, d.iVendor, d.iDescription, d.iPrice, d.iVersion], buf.isSome) ∧
    ∀ buf ∈ [d.iInstallNotify, d.iNextUrl, d.iNextUrlAtError, d.iInfoUrl, d.iIcon, d.iSourceUri,
      d.iUpdatedDDUri], buf.isSome

theorem setStringAttrL_isSome {buf : HBufC} (h : buf.isSome) (s : Text) (n : Nat) :
    (setStringAttrL buf s n).2.isSome := by
  unfold setStringAttrL
  split
  · exact h
  · rfl

theorem setStringAttrL8_isSome {buf : HBufC8} (h : buf.isSome) (s : Text) (n : Nat) :
    (setStringAttrL8 buf s n).2.isSome := by
  unfold setStringAttrL8
  split
  · exact h
  · rfl

end CCodData

namespace CMediaObjectData

def HasStrings (m : CMediaObjectData) : Prop :=
  (∀ buf ∈ [m.iName, m.iDescription, m.iPrice], buf.isSome) ∧
    ∀ buf ∈ [m.iUrl, m.iInstallNotify, m.iInfoUrl, m.iIcon, m.iSourceUri], buf.isSome

theorem hasStrings_newL : newL.HasStrings := by
  simp [HasStrings, newL]

end CMediaObjectData

/-- What is known of the error and stays so when one more error is kept. -/
structure ErrorFact where
  holds : Int → Prop
  error : ∀ e, holds e → holds (Cod.error e)

def ErrorFact.unknown : ErrorFact where
  holds _ := True
  error _ _ := trivial

/-- An error has been kept. -/
def ErrorFact.failed : ErrorFact where
  holds e := e ≠ 0
  error e he := by rwa [Cod.error, if_neg he]

/-- Errors are negative. -/
def ErrorFact.nonpos : ErrorFact where
  holds e := e ≤ 0
  error e he := by
    unfold Cod.error
    split
    · decide
    · exact he

/-- The data have their strings and `n` media objects, and the fact about the error holds. -/
def WalkInv (n : Nat) (fact : ErrorFact) (p : TDdParser) : Prop :=
  p.iData.HasStrings ∧ p.iData.iMediaObjects.length = n ∧ fact.holds p.iError

/-- A function that does not return leaves. -/
def Leaves (stop : DdStop) (_ : TDdParser) : Prop := ∃ code, stop = .leave code

/-- The contract of the functions for the whole. -/
abbrev Keeps (n : Nat) (fact : ErrorFact) {α : Type} (x : DdM α) : Prop :=
  Contract (WalkInv n fact) x (fun _ => WalkInv n fact) Leaves

/-- With a media object that is not in the data yet. -/
def ObjInv (n : Nat) (fact : ErrorFact) (m : CMediaObjectData) (p : TDdParser) : Prop :=
  m.HasStrings ∧ WalkInv n fact p

/-- The contract of the functions for a media object. -/
abbrev KeepsObj (n : Nat) (fact : ErrorFact) (x : CMediaObjectData → DdM CMediaObjectData) : Prop :=
  ∀ m, Contract (ObjInv n fact m) (x m) (ObjInv n fact) Leaves

section

variable {n : Nat} {fact : ErrorFact}

theorem WalkInv.error {p : TDdParser} (h : WalkInv n fact p) : WalkInv n fact p.error :=
  ⟨h.1, h.2.1, fact.error p.iError h.2.2⟩

theorem WalkInv.withData {p : TDdParser} (h : WalkInv n fact p) {d : CCodData} (hd : d.HasStrings)
    (hn : d.iMediaObjects.length = n) : WalkInv n fact { p with iData := d } :=
  ⟨hd, hn, h.2.2⟩

theorem WalkInv.licensed {p : TDdParser} (h : WalkInv n fact p) (b : Bool) :
    WalkInv n fact { p with iIsLicenseTag := b } := h

/-- A computation that knows nothing of the media object keeps it. -/
theorem Keeps.obj {x : DdM PUnit} (h : Keeps n fact x) :
    KeepsObj n fact fun m => x >>= fun _ => pure m :=
  fun _ => Contract.bind (Contract.frame fun _ => h) fun _ => Contract.ret fun _ hp => hp

theorem keeps_errorUnless (ok : Bool) : Keeps n fact (errorUnless ok) := by
  apply Contract.update
  intro p hp
  cases ok with
  | true => exact hp
  | false => exact hp.error

theorem contract_desL {α : Type} {P : TDdParser → Prop} {buf : Option (List α)} (h : buf.isSome) :
    Contract P (desL buf) (fun des p => P p ∧ buf = some des) Leaves := by
  obtain ⟨des, rfl⟩ := Option.isSome_iff_exists.mp h
  exact Contract.ret fun _ hp => ⟨hp, rfl⟩

/-! ## Setters -/

/-- A setter keeps the strings and the media objects. -/
def KeepsStrings (setter : CCodData → Text → Bool × CCodData) : Prop :=
  ∀ d v, d.HasStrings →
    (setter d v).2.HasStrings ∧ (setter d v).2.iMediaObjects = d.iMediaObjects

section

open CCodData

theorem keepsStrings_setNameL : KeepsStrings setNameL := by
  intro d v h
  simp_all [HasStrings, setNameL, setStringAttrL_isSome]

theorem keepsStrings_setVendorL : KeepsStrings setVendorL := by
  intro d v h
  simp_all [HasStrings, setVendorL, setStringAttrL_isSome]

theorem keepsStrings_setDescriptionL : KeepsStrings setDescriptionL := by
  intro d v h
  simp_all [HasStrings, setDescriptionL, setStringAttrL_isSome]

theorem keepsStrings_setVersionL : KeepsStrings setVersionL := by
  intro d v h
  simp_all [HasStrings, setVersionL, setStringAttrL_isSome]

theorem keepsStrings_setInstallNotifyL : KeepsStrings setInstallNotifyL := by
  intro d v h
  simp_all [HasStrings, setInstallNotifyL, setStringAttrL8_isSome]

theorem keepsStrings_setNextUrlL : KeepsStrings setNextUrlL := by
  intro d v h
  simp_all [HasStrings, setNextUrlL, setStringAttrL8_isSome]

theorem keepsStrings_setNextUrlAtErrorL : KeepsStrings setNextUrlAtErrorL := by
  intro d v h
  simp_all [HasStrings, setNextUrlAtErrorL, setStringAttrL8_isSome]

theorem keepsStrings_setUpdatedDDURI : KeepsStrings setUpdatedDDURI := by
  intro d v h
  simp_all [HasStrings, setUpdatedDDURI, setStringAttrL8_isSome]

theorem keepsStrings_setNextUrls : KeepsStrings setNextUrls := by
  intro d v h
  obtain ⟨hnext, hobjects⟩ := keepsStrings_setNextUrlL d v h
  unfold setNextUrls
  cases hok : (d.setNextUrlL v).1 with
  | true =>
      obtain ⟨herr, hobjects'⟩ := keepsStrings_setNextUrlAtErrorL _ v hnext
      simpa [hok] using ⟨herr, hobjects'.trans hobjects⟩
  | false => simpa [hok] using ⟨hnext, hobjects⟩

end

theorem keeps_setIfEmptyL {α : Type} {attr : CCodData → Option (List α)}
    {setter : CCodData → Text → Bool × CCodData}
    (hattr : ∀ d : CCodData, d.HasStrings → (attr d).isSome) (hset : KeepsStrings setter)
    (aValue : Text) : Keeps n fact (setIfEmptyL attr setter aValue) := by
  unfold setIfEmptyL
  apply Contract.get_bind
  intro p hp
  apply Contract.bind (contract_desL (hattr p.iData hp.1))
  intro des
  split
  · apply Contract.updateGet
    rintro q ⟨⟨hq, -⟩, -⟩
    obtain ⟨hstrings, hobjects⟩ := hset q.iData aValue hq.1
    exact hq.withData hstrings (hobjects ▸ hq.2.1)
  · exact Contract.ret fun q hq => hq.1.1

/-- A setter whose failure is an error. -/
theorem keeps_setOrError {α : Type} {attr : CCodData → Option (List α)}
    {setter : CCodData → Text → Bool × CCodData}
    (hattr : ∀ d : CCodData, d.HasStrings → (attr d).isSome) (hset : KeepsStrings setter)
    (aValue : Text) :
    Keeps n fact (do errorUnless (← setIfEmptyL attr setter aValue)) :=
  Contract.bind (keeps_setIfEmptyL hattr hset aValue) fun ok => keeps_errorUnless ok

theorem keepsObj_setObjIfEmptyL {α : Type} {attr : CMediaObjectData → Option (List α)}
    {setter : CMediaObjectData → Text → CMediaObjectData}
    (hattr : ∀ m : CMediaObjectData, m.HasStrings → (attr m).isSome)
    (hset : ∀ m v, m.HasStrings → (setter m v).HasStrings) (aValue : Text) :
    KeepsObj n fact (setObjIfEmptyL attr setter aValue) := by
  rintro m p hp
  unfold setObjIfEmptyL
  refine Contract.bind (Q := fun _ q => ObjInv n fact m q)
    ((contract_desL (hattr m hp.1)).mono (fun _ h => h) fun _ _ h => h.1) (fun des => ?_) p hp
  apply Contract.ret
  intro q hq
  split
  · exact ⟨hset m aValue hq.1, hq.2⟩
  · exact hq

/-! ## Attributes -/

theorem attributeIn_mem (table : List ((Text → Bool) × TDdAttr)) (t : Text)
    (h : attributeIn table t ≠ .eDdUnknownAttr) : attributeIn table t ∈ table.map (·.2) := by
  unfold attributeIn at h ⊢
  cases hfind : table.find? fun entry => entry.1 t with
  | none => simp [hfind] at h
  | some entry => exact List.mem_map_of_mem (List.mem_of_find?_eq_some hfind)

/-- The attributes under `media`, products apart. -/
def mediaAttrs : List TDdAttr := [.eDdVersion, .eDdVendor, .eDdName, .eDdNextUrl, .eDdUpdatedDDURI]

/-- The attributes under `meta`, licenses apart. -/
def metaAttrs : List TDdAttr :=
  [.eDdText, .eDdDescription, .eDdInstallNotify, .eDdOrder, .eDdName]

/-- The attributes under `mediaObject` that are not there for their children. -/
def objAttrs : List TDdAttr :=
  [.eDdSize, .eDdType, .eDdProgressiveDl, .eDdSuppressUserConfirmation]

theorem mediaAttribute_mem {t : Text} (hknown : mediaAttribute t ≠ .eDdUnknownAttr)
    (hproduct : mediaAttribute t ≠ .eDdProduct) : mediaAttribute t ∈ mediaAttrs := by
  have hmem : mediaAttribute t ∈ [.eDdVersion, .eDdVendor, .eDdName, .eDdNextUrl, .eDdProduct,
    .eDdUpdatedDDURI] := attributeIn_mem _ t hknown
  simp only [List.mem_cons, List.not_mem_nil, or_false, mediaAttrs] at hmem ⊢
  tauto

theorem metaAttribute_mem {t : Text} (hknown : metaAttribute t ≠ .eDdUnknownAttr)
    (hlicense : metaAttribute t ≠ .eDdLicense) : metaAttribute t ∈ metaAttrs := by
  have hmem : metaAttribute t ∈ [.eDdText, .eDdDescription, .eDdInstallNotify, .eDdLicense,
    .eDdOrder, .eDdName] := attributeIn_mem _ t hknown
  simp only [List.mem_cons, List.not_mem_nil, or_false, metaAttrs] at hmem ⊢
  tauto

theorem mediaObjAttribute_mem {platform : DdPlatform} {t : Text}
    (hknown : mediaObjAttribute platform t ≠ .eDdUnknownAttr)
    (hurl : mediaObjAttribute platform t ≠ .eDdUrl)
    (hmeta : mediaObjAttribute platform t ≠ .eDdMeta) :
    mediaObjAttribute platform t ∈ objAttrs := by
  have hmem : mediaObjAttribute platform t ∈ [.eDdUrl, .eDdSize, .eDdType, .eDdProgressiveDl,
    .eDdSuppressUserConfirmation, .eDdMeta] := attributeIn_mem _ t hknown
  simp only [List.mem_cons, List.not_mem_nil, or_false, objAttrs] at hmem ⊢
  tauto

theorem keeps_setMediaAttrL {a : TDdAttr} (ha : a ∈ mediaAttrs) (v : Text) :
    Keeps n fact (setMediaAttrL a v) := by
  simp only [mediaAttrs, List.mem_cons, List.not_mem_nil, or_false] at ha
  rcases ha with rfl | rfl | rfl | rfl | rfl
  · exact keeps_setOrError (fun d h => h.1 _ (by simp)) keepsStrings_setVersionL v
  · exact keeps_setOrError (fun d h => h.1 _ (by simp)) keepsStrings_setVendorL v
  · exact keeps_setOrError (fun d h => h.1 _ (by simp)) keepsStrings_setNameL v
  · exact keeps_setOrError (fun d h => h.2 _ (by simp)) keepsStrings_setNextUrls v
  · show Keeps n fact ((fun _ => PUnit.unit) <$> _)
    rw [map_eq_pure_bind]
    apply Contract.bind (keeps_setIfEmptyL (fun d h => h.2 _ (by simp))
      keepsStrings_setUpdatedDDURI v)
    intro ok
    exact Contract.ret fun _ hp => hp

theorem keeps_setMetaAttrL (platform : DdPlatform) {a : TDdAttr} (ha : a ∈ metaAttrs) (v : Text) :
    Keeps n fact (setMetaAttrL platform a v) := by
  simp only [metaAttrs, List.mem_cons, List.not_mem_nil, or_false] at ha
  rcases ha with rfl | rfl | rfl | rfl | rfl
  · exact Contract.ret fun _ hp => hp
  · exact keeps_setOrError (fun d h => h.1 _ (by simp)) keepsStrings_setDescriptionL v
  · exact keeps_setOrError (fun d h => h.2 _ (by simp)) keepsStrings_setInstallNotifyL v
  · unfold setMetaAttrL
    cases flagValue platform KDdPost KDdAny v with
    | some b => exact Contract.update fun _ hp => hp
    | none => exact keeps_errorUnless false
  · exact keeps_setOrError (fun d h => h.1 _ (by simp)) keepsStrings_setNameL v

theorem keepsObj_setSizeL (v : Text) : KeepsObj n fact (setSizeL v) := by
  intro m
  unfold setSizeL
  split
  · cases lexVal v with
    | some size =>
        apply Contract.ret
        intro p hp
        refine ⟨?_, hp.2⟩
        unfold CMediaObjectData.setSize
        split
        · exact hp.1
        · exact hp.1
    | none => exact Keeps.obj (keeps_errorUnless false) m
  · exact Contract.ret fun _ hp => hp

theorem keepsObj_addTypeL (v : Text) : KeepsObj n fact (addTypeL v) := by
  intro m
  have hm : m.HasStrings → (m.addTypeL v).2.HasStrings := by
    intro h
    unfold CMediaObjectData.addTypeL
    split
    · exact h
    · exact h
  exact (Keeps.obj (keeps_errorUnless _) _).mono (fun _ hp => ⟨hm hp.1, hp.2⟩) fun _ _ hq => hq

theorem keepsObj_setMediaObjAttrL (platform : DdPlatform) {a : TDdAttr} (ha : a ∈ objAttrs)
    (v : Text) : KeepsObj n fact (setMediaObjAttrL platform a v) := by
  simp only [objAttrs, List.mem_cons, List.not_mem_nil, or_false] at ha
  intro m
  rcases ha with rfl | rfl | rfl | rfl
  · exact keepsObj_setSizeL v m
  · exact keepsObj_addTypeL v m
  · unfold setMediaObjAttrL
    cases flagValue platform KDdTrue KDdFalse v with
    | some b => exact Contract.ret fun _ hp => hp
    | none => exact Keeps.obj (keeps_errorUnless false) m
  · apply Contract.bind (Contract.frame fun _ => keeps_errorUnless _)
    intro u
    apply Contract.bind (Contract.update (Q := fun _ => ObjInv n fact m) fun p hp => ?_)
    · intro u'
      exact Contract.ret fun _ hp => hp
    · refine ⟨hp.1, ?_⟩
      unfold CCodData.setSuppressConfirm
      split
      · exact hp.2
      · exact hp.2

theorem keepsObj_setObjMetaAttrL (platform : DdPlatform) {a : TDdAttr} (ha : a ∈ metaAttrs)
    (v : Text) : KeepsObj n fact (setObjMetaAttrL platform a v) := by
  simp only [metaAttrs, List.mem_cons, List.not_mem_nil, or_false] at ha
  intro m
  rcases ha with rfl | rfl | rfl | rfl | rfl
  · exact Contract.ret fun _ hp => hp
  · exact keepsObj_setObjIfEmptyL (fun m h => h.1 _ (by simp)) (fun m v h => by
      simp_all [CMediaObjectData.HasStrings, CMediaObjectData.setDescriptionL,
        CMediaObjectData.setStringAttrL]) v m
  · exact keepsObj_setObjIfEmptyL (fun m h => h.2 _ (by simp)) (fun m v h => by
      simp_all [CMediaObjectData.HasStrings, CMediaObjectData.setInstallNotifyL,
        CMediaObjectData.setStringAttrL8]) v m
  · unfold setObjMetaAttrL
    cases flagValue platform KDdPost KDdAny v with
    | some b => exact Contract.ret fun _ hp => hp
    | none => exact Keeps.obj (keeps_errorUnless false) m
  · exact keepsObj_setObjIfEmptyL (fun m h => h.1 _ (by simp)) (fun m v h => by
      simp_all [CMediaObjectData.HasStrings, CMediaObjectData.setNameL,
        CMediaObjectData.setStringAttrL]) v m

end

/-! ## Statements as calls -/

namespace ObjStatement

/-- The attribute is one that the parser finds where the statement is. -/
def Proper : ObjStatement → Prop
  | .attr a _ => a ∈ objAttrs
  | .metaText a _ => a ∈ metaAttrs
  | _ => True

/-- What the parser does for a statement. -/
def runL (platform : DdPlatform) (m : CMediaObjectData) : ObjStatement → DdM CMediaObjectData
  | .attr a v => setMediaObjAttrL platform a v m
  | .metaText a v => setObjMetaAttrL platform a v m
  | .license => do
      modify fun p => { p with iIsLicenseTag := true }
      return m
  | .uri (some v) => return m.setUrlL v
  | .uri none => do
      errorUnless false
      return m

theorem keepsObj_runL {n : Nat} {fact : ErrorFact} (platform : DdPlatform) {s : ObjStatement}
    (hs : s.Proper) : KeepsObj n fact fun m => s.runL platform m := by
  intro m
  match s with
  | .attr a v => exact keepsObj_setMediaObjAttrL platform hs v m
  | .metaText a v => exact keepsObj_setObjMetaAttrL platform hs v m
  | .license => exact Keeps.obj (Contract.update fun _ hp => hp.licensed true) m
  | .uri (some v) =>
      apply Contract.ret
      intro p hp
      refine ⟨?_, hp.2⟩
      have hm := hp.1
      simp_all [CMediaObjectData.HasStrings, CMediaObjectData.setUrlL,
        CMediaObjectData.setStringAttrL8]
  | .uri none => exact Keeps.obj (keeps_errorUnless false) m

end ObjStatement

namespace Statement

def Proper : Statement → Prop
  | .attr a _ => a ∈ mediaAttrs
  | .metaText a _ => a ∈ metaAttrs
  | .license => True
  | .object said => ∀ s ∈ said, s.Proper

def runL (platform : DdPlatform) (_ : PUnit) : Statement → DdM PUnit
  | .attr a v => setMediaAttrL a v
  | .metaText a v => setMetaAttrL platform a v
  | .license => modify fun p => { p with iIsLicenseTag := true }
  | .object said => do
      let m ← said.foldlM (ObjStatement.runL platform) CMediaObjectData.newL
      appendNamedL platform m

end Statement

section

variable {n : Nat} {fact : ErrorFact}

theorem appendNamedL_run (platform : DdPlatform) {m : CMediaObjectData} (hm : m.HasStrings)
    (p : TDdParser) : appendNamedL platform m p =
      .ok PUnit.unit { p with iData := p.iData.appendMediaObjectL (named platform m) } := by
  obtain ⟨name, hname⟩ := Option.isSome_iff_exists.mp (hm.1 m.iName (by simp))
  obtain ⟨url, hurl⟩ := Option.isSome_iff_exists.mp (hm.2 m.iUrl (by simp))
  have hdesName : desL m.iName p = .ok name p := by rw [hname]; rfl
  have hdesUrl : desL m.iUrl p = .ok url p := by rw [hurl]; rfl
  unfold appendNamedL named
  rw [bind_of_ok hdesName, bind_of_ok hdesUrl, hname, hurl]
  by_cases hcond : name = [] ∧ url ≠ []
  · have hnamed : parseNameFromUrlL platform m p =
        .ok (m.setNameL (nameFromUrl platform url)) p := by
      unfold parseNameFromUrlL
      rw [bind_of_ok hdesUrl]
      rfl
    rw [if_pos hcond, bind_of_ok hnamed, if_pos (by simpa using hcond)]
    rfl
  · rw [if_neg hcond, if_neg (by simpa using hcond)]
    rfl

theorem contract_appendNamedL (platform : DdPlatform) (m : CMediaObjectData) :
    Contract (ObjInv n fact m) (appendNamedL platform m) (fun _ => WalkInv (n + 1) fact)
      Leaves := by
  intro p hp
  rw [appendNamedL_run platform hp.1]
  refine ⟨hp.2.1, ?_, hp.2.2.2⟩
  simp [CCodData.appendMediaObjectL, hp.2.2.1]

/-- The number of media objects that a statement adds. -/
def Statement.objects : Statement → Nat
  | .object _ => 1
  | _ => 0

theorem Statement.contract_runL (platform : DdPlatform) {s : Statement} (hs : s.Proper) :
    Contract (WalkInv n fact) (s.runL platform PUnit.unit)
      (fun _ => WalkInv (n + s.objects) fact) Leaves := by
  cases s with
  | attr a v => exact keeps_setMediaAttrL hs v
  | metaText a v => exact keeps_setMetaAttrL platform hs v
  | license => exact Contract.update fun _ hp => hp.licensed true
  | object said =>
      apply Contract.bind (Q := ObjInv n fact)
      · refine (Contract.foldlM (fun s h m => ?_) CMediaObjectData.newL).mono
          (fun p hp => ⟨CMediaObjectData.hasStrings_newL, hp⟩) fun _ _ h => h
        exact ObjStatement.keepsObj_runL platform (hs s h) m
      · exact contract_appendNamedL platform

theorem Statement.contract_runsL (platform : DdPlatform) :
    ∀ {said : List Statement} {n : Nat}, (∀ s ∈ said, s.Proper) →
      Contract (WalkInv n fact) (said.foldlM (Statement.runL platform) PUnit.unit)
        (fun _ => WalkInv (n + (said.map Statement.objects).sum) fact) Leaves := by
  intro said
  induction said with
  | nil =>
      intro n _
      exact Contract.ret fun _ hp => hp
  | cons s said ih =>
      intro n hs
      rw [List.foldlM_cons]
      apply Contract.bind (Statement.contract_runL platform (hs s List.mem_cons_self))
      intro u
      have hrest := ih (n := n + s.objects) fun s' hs' => hs s' (List.mem_cons_of_mem s hs')
      rw [List.map_cons, List.sum_cons, ← Nat.add_assoc]
      exact hrest

end

/-! ## The walk makes the calls -/

/-- From a state, `x` does what `y` does, or it leaves. -/
def FollowsAt {α : Type} (p : TDdParser) (x y : DdM α) : Prop :=
  x p = y p ∨ ∃ code p', x p = .error (.leave code) p'

def Follows {α : Type} (x y : DdM α) : Prop := ∀ p, FollowsAt p x y

section

variable {α β : Type}

theorem Follows.refl (x : DdM α) : Follows x x := fun _ => .inl rfl

theorem follows_leave (code : Int) (y : DdM α) : Follows (leave code) y :=
  fun p => .inr ⟨code, p, rfl⟩

theorem FollowsAt.bind {p : TDdParser} {x y : DdM α} {k l : α → DdM β} (hx : FollowsAt p x y)
    (hk : ∀ a p', y p = .ok a p' → FollowsAt p' (k a) (l a)) :
    FollowsAt p (x >>= k) (y >>= l) := by
  rcases hx with hx | ⟨code, p', hx⟩
  · cases hy : y p with
    | ok a p' =>
        rw [FollowsAt, bind_of_ok hy, bind_of_ok (hx.trans hy)]
        exact hk a p' hy
    | error e p' =>
        left
        rw [bind_of_error hy, bind_of_error (hx.trans hy)]
  · exact .inr ⟨code, p', bind_of_error hx⟩

theorem Follows.bind {x y : DdM α} {k l : α → DdM β} (hx : Follows x y)
    (hk : ∀ a, Follows (k a) (l a)) : Follows (x >>= k) (y >>= l) :=
  fun p => (hx p).bind fun a p' _ => hk a p'

/-- The text of an element, when it can be read. -/
theorem follows_pcDataLC_bind (children : List DomNode) {k : Option Text → DdM α} {y : DdM α}
    (hk : Follows (k (pcData children)) y) : Follows (pcDataLC children >>= k) y := by
  match children with
  | [] => exact hk
  | .text (.ok data) :: rest => exact hk
  | .text (.error code) :: rest => exact follows_leave code y
  | .element nodeName attributes children :: rest => exact hk
  | .other :: rest => exact hk

/-- The call for the text of an element, if it has one. -/
theorem follows_pcDataLC {σ : Type} (children : List DomNode) {run : α → σ → DdM α} {a : α}
    {text : Text → σ} {k : Option Text → DdM α} (hsome : ∀ v, k (some v) = run a (text v))
    (hnone : k none = pure a) :
    Follows (pcDataLC children >>= k) (((pcData children).toList.map text).foldlM run a) := by
  apply follows_pcDataLC_bind
  cases pcData children with
  | none =>
      rw [hnone]
      exact Follows.refl _
  | some v =>
      rw [hsome]
      intro p
      left
      simp

variable {σ : Type}

/-- The loop over elements makes the calls for each of them. -/
theorem follows_childElementsL {visit : α → DomString → List DomNode → DdM α}
    {run : α → σ → DdM α} {said : Text × List DomNode → List σ}
    (hleave : ∀ a code children, visit a (.error code) children = leave code)
    (hvisit : ∀ a name children,
      Follows (visit a (.ok name) children) ((said (name, children)).foldlM run a)) :
    ∀ (nodes : List DomNode) (a : α),
      Follows (childElementsL visit a nodes) (((elements nodes).flatMap said).foldlM run a) := by
  intro nodes
  induction nodes with
  | nil => exact fun a => Follows.refl _
  | cons node rest ih =>
      intro a
      match node with
      | .element (.ok name) attributes children =>
          show Follows _ ((said (name, children) ++ (elements rest).flatMap said).foldlM run a)
          rw [List.foldlM_append]
          exact (hvisit a name children).bind fun a' => ih a'
      | .element (.error code) attributes children =>
          show Follows (visit a (.error code) children >>= _) _
          rw [hleave]
          exact follows_leave code _
      | .text data => exact ih a
      | .other => exact ih a

end

section

variable (platform : DdPlatform)

theorem follows_objMetaElementNodeL (m : CMediaObjectData) (name : Text)
    (children : List DomNode) :
    Follows (objMetaElementNodeL platform m (.ok name) children)
      ((metaSaid .license .metaText (name, children)).foldlM (ObjStatement.runL platform) m) := by
  show Follows (if metaAttribute name = .eDdLicense then _ else _) _
  unfold metaSaid
  by_cases hlicense : metaAttribute name = .eDdLicense
  · rw [if_pos hlicense, if_pos hlicense]
    exact fun p => .inl rfl
  · rw [if_neg hlicense, if_neg hlicense]
    by_cases hunknown : metaAttribute name = .eDdUnknownAttr
    · rw [if_pos hunknown, if_pos hunknown]
      exact Follows.refl _
    · rw [if_neg hunknown, if_neg hunknown]
      exact follows_pcDataLC children (fun _ => rfl) rfl

theorem follows_objUriElementNodeL (m : CMediaObjectData) (name : Text)
    (children : List DomNode) :
    Follows (objUriElementNodeL m (.ok name) children)
      ((objUriSaid (name, children)).foldlM (ObjStatement.runL platform) m) := by
  show Follows (if objUriAttribute name = .eDdUnknownAttr then _ else _) _
  unfold objUriSaid
  by_cases hunknown : objUriAttribute name = .eDdUnknownAttr
  · rw [if_pos hunknown, if_pos hunknown]
    exact fun p => .inl rfl
  · rw [if_neg hunknown, if_neg hunknown]
    apply follows_pcDataLC_bind
    cases pcData children with
    | none => exact fun p => .inl rfl
    | some v => exact fun p => .inl rfl

theorem follows_mediaObjElementNodeL (m : CMediaObjectData) (name : Text)
    (children : List DomNode) :
    Follows (mediaObjElementNodeL platform m (.ok name) children)
      ((objSaid platform (name, children)).foldlM (ObjStatement.runL platform) m) := by
  show Follows (if mediaObjAttribute platform name = .eDdMeta then _ else _) _
  unfold objSaid
  by_cases hmeta : mediaObjAttribute platform name = .eDdMeta
  · rw [if_pos hmeta, if_pos hmeta]
    exact follows_childElementsL (fun _ _ _ => rfl) (follows_objMetaElementNodeL platform) children m
  · rw [if_neg hmeta, if_neg hmeta]
    by_cases hurl : mediaObjAttribute platform name = .eDdUrl
    · rw [if_pos hurl, if_pos hurl]
      exact follows_childElementsL (fun _ _ _ => rfl) (follows_objUriElementNodeL platform)
        children m
    · rw [if_neg hurl, if_neg hurl]
      by_cases hunknown : mediaObjAttribute platform name = .eDdUnknownAttr
      · rw [if_pos hunknown, if_pos hunknown]
        exact Follows.refl _
      · rw [if_neg hunknown, if_neg hunknown]
        exact follows_pcDataLC children (fun _ => rfl) rfl

theorem follows_metaElementNodeL (u : PUnit) (name : Text) (children : List DomNode) :
    Follows (metaElementNodeL platform u (.ok name) children)
      ((metaSaid .license .metaText (name, children)).foldlM (Statement.runL platform) u) := by
  show Follows (if metaAttribute name = .eDdLicense then _ else _) _
  unfold metaSaid
  by_cases hlicense : metaAttribute name = .eDdLicense
  · rw [if_pos hlicense, if_pos hlicense]
    exact fun p => .inl rfl
  · rw [if_neg hlicense, if_neg hlicense]
    by_cases hunknown : metaAttribute name = .eDdUnknownAttr
    · rw [if_pos hunknown, if_pos hunknown]
      exact Follows.refl _
    · rw [if_neg hunknown, if_neg hunknown]
      exact follows_pcDataLC children (fun _ => rfl) rfl

theorem follows_productElementNodeL (u : PUnit) (name : Text) (children : List DomNode) :
    Follows (productElementNodeL platform u (.ok name) children)
      ((productSaid platform (name, children)).foldlM (Statement.runL platform) u) := by
  show Follows (if productAttribute name = .eDdMeta then _ else _) _
  unfold productSaid
  by_cases hmeta : productAttribute name = .eDdMeta
  · rw [if_pos hmeta, if_pos hmeta]
    exact follows_childElementsL (fun _ _ _ => rfl) (follows_metaElementNodeL platform) children u
  · rw [if_neg hmeta, if_neg hmeta]
    by_cases hobject : productAttribute name = .eDdMediaObject
    · rw [if_pos hobject, if_pos hobject, List.foldlM_cons]
      have hwalk := follows_childElementsL (fun _ _ _ => rfl) (follows_mediaObjElementNodeL platform)
        children CMediaObjectData.newL
      have hrun := hwalk.bind fun m => Follows.refl (appendNamedL platform m)
      simpa [Statement.runL, objStatements, parseMediaObjectElementsL] using hrun
    · rw [if_neg hobject, if_neg hobject]
      exact Follows.refl _

/-! ## Products -/

theorem metaSaid_proper {e : Text × List DomNode} {s : Statement}
    (hs : s ∈ metaSaid .license .metaText e) : s.Proper := by
  unfold metaSaid at hs
  split at hs
  · rw [List.mem_singleton.mp hs]
    trivial
  · rename_i hlicense
    split at hs
    · cases hs
    · rename_i hunknown
      obtain ⟨v, -, rfl⟩ := List.mem_map.mp hs
      exact metaAttribute_mem hunknown hlicense

theorem objMetaSaid_proper {e : Text × List DomNode} {s : ObjStatement}
    (hs : s ∈ metaSaid .license .metaText e) : s.Proper := by
  unfold metaSaid at hs
  split at hs
  · rw [List.mem_singleton.mp hs]
    trivial
  · rename_i hlicense
    split at hs
    · cases hs
    · rename_i hunknown
      obtain ⟨v, -, rfl⟩ := List.mem_map.mp hs
      exact metaAttribute_mem hunknown hlicense

theorem objStatements_proper {mediaObject : List DomNode} {s : ObjStatement}
    (hs : s ∈ objStatements platform mediaObject) : s.Proper := by
  obtain ⟨e, -, he⟩ := List.mem_flatMap.mp hs
  unfold objSaid at he
  split at he
  · obtain ⟨e', -, he'⟩ := List.mem_flatMap.mp he
    exact objMetaSaid_proper he'
  · rename_i hmeta
    split at he
    · obtain ⟨e', -, he'⟩ := List.mem_flatMap.mp he
      rw [List.mem_singleton.mp he']
      trivial
    · rename_i hurl
      split at he
      · cases he
      · rename_i hunknown
        obtain ⟨v, -, rfl⟩ := List.mem_map.mp he
        exact mediaObjAttribute_mem hunknown hurl hmeta

theorem productStatements_proper {product : List DomNode} {s : Statement}
    (hs : s ∈ productStatements platform product) : s.Proper := by
  obtain ⟨e, -, he⟩ := List.mem_flatMap.mp hs
  unfold productSaid at he
  split at he
  · obtain ⟨e', -, he'⟩ := List.mem_flatMap.mp he
    exact metaSaid_proper he'
  · split at he
    · rw [List.mem_singleton.mp he]
      exact fun s' hs' => objStatements_proper platform hs'
    · cases he

theorem mediaSaid_proper {e : Text × List DomNode} (hproduct : mediaAttribute e.1 ≠ .eDdProduct)
    {s : Statement} (hs : s ∈ mediaSaid e) : s.Proper := by
  unfold mediaSaid at hs
  split at hs
  · cases hs
  · rename_i hunknown
    obtain ⟨v, -, rfl⟩ := List.mem_map.mp hs
    exact mediaAttribute_mem hunknown hproduct

theorem mediaStatements_proper : ∀ {found : Bool} {es : List (Text × List DomNode)} {s : Statement},
    s ∈ mediaStatements platform found es → s.Proper := by
  intro found es
  induction es generalizing found with
  | nil => exact fun hs => by cases hs
  | cons e rest ih =>
      intro s hs
      unfold mediaStatements at hs
      split at hs
      · split at hs
        · exact ih hs
        · rcases List.mem_append.mp hs with hs | hs
          · exact productStatements_proper platform hs
          · exact ih hs
      · rename_i hproduct
        rcases List.mem_append.mp hs with hs | hs
        · exact mediaSaid_proper hproduct hs
        · exact ih hs

theorem objectSaid_productStatements (product : List DomNode) :
    (productStatements platform product).filterMap Statement.objectSaid =
      (mediaObjectsOf product).map (objStatements platform) := by
  unfold productStatements mediaObjectsOf
  induction elements product with
  | nil => rfl
  | cons e rest ih =>
      have hmeta : ∀ es : List (Text × List DomNode),
          (es.flatMap (metaSaid .license Statement.metaText)).filterMap Statement.objectSaid =
            [] := by
        intro es
        apply List.filterMap_eq_nil_iff.mpr
        intro s hs
        obtain ⟨e', -, he'⟩ := List.mem_flatMap.mp hs
        unfold metaSaid at he'
        split at he'
        · rw [List.mem_singleton.mp he']
          rfl
        · split at he'
          · cases he'
          · obtain ⟨v, -, rfl⟩ := List.mem_map.mp he'
            rfl
      rw [List.flatMap_cons, List.filterMap_append, ih, List.filterMap_cons]
      unfold productSaid
      by_cases hobject : productAttribute e.1 = .eDdMediaObject
      · simp [hobject, Statement.objectSaid]
      · by_cases hmetaAttr : productAttribute e.1 = .eDdMeta
        · simp [hmetaAttr, hmeta]
        · simp [hobject, hmetaAttr]

theorem sum_objects (said : List Statement) :
    (said.map Statement.objects).sum = (said.filterMap Statement.objectSaid).length := by
  induction said with
  | nil => rfl
  | cons s said ih =>
      cases s with
      | object o => simp [Statement.objects, Statement.objectSaid, ih, Nat.add_comm]
      | attr a v =>
          rw [List.filterMap_cons_none rfl, ← ih]
          exact Nat.zero_add _
      | metaText a v =>
          rw [List.filterMap_cons_none rfl, ← ih]
          exact Nat.zero_add _
      | license =>
          rw [List.filterMap_cons_none rfl, ← ih]
          exact Nat.zero_add _

/-! ## The whole walk -/

/-- Whether products are read changes only behind a product that adds media objects. -/
theorem followsAt_mediaElements :
    ∀ (nodes : List DomNode) (found : Bool) (p : TDdParser), p.iData.HasStrings →
      found = decide (p.iData.iMediaObjects ≠ []) →
      FollowsAt p (childElementsL (mediaElementNodeL platform) PUnit.unit nodes)
        ((mediaStatements platform found (elements nodes)).foldlM (Statement.runL platform)
          PUnit.unit) := by
  intro nodes
  induction nodes with
  | nil => exact fun found p _ _ => Follows.refl _ p
  | cons node rest ih =>
      intro found p hstrings hfound
      match node with
      | .text data => exact ih found p hstrings hfound
      | .other => exact ih found p hstrings hfound
      | .element (.error code) attributes children => exact .inr ⟨code, p, rfl⟩
      | .element (.ok name) attributes children =>
          -- What the statements of this element do keeps the strings and counts the objects.
          have hnext : ∀ {said : List Statement} {p' : TDdParser}, (∀ s ∈ said, s.Proper) →
              said.foldlM (Statement.runL platform) PUnit.unit p = .ok PUnit.unit p' →
              p'.iData.HasStrings ∧ p'.iData.iMediaObjects.length =
                p.iData.iMediaObjects.length + (said.filterMap Statement.objectSaid).length := by
            intro said p' hproper hrun
            have hinv : WalkInv p.iData.iMediaObjects.length .unknown p := ⟨hstrings, rfl, trivial⟩
            have hpost := (Statement.contract_runsL platform hproper).of_ok hinv hrun
            rw [sum_objects] at hpost
            exact ⟨hpost.1, hpost.2.1⟩
          show FollowsAt p (mediaElementNodeL platform PUnit.unit (.ok name) children >>= _) _
          show FollowsAt p _
            ((mediaStatements platform found ((name, children) :: elements rest)).foldlM _ _)
          rw [mediaStatements]
          by_cases hproduct : mediaAttribute name = .eDdProduct
          · have hstep : FollowsAt p (mediaElementNodeL platform PUnit.unit (.ok name) children)
                ((if found then [] else productStatements platform children).foldlM
                  (Statement.runL platform) PUnit.unit) := by
              show FollowsAt p (get >>= fun q => if mediaAttribute name = .eDdProduct then
                if q.iData.iMediaObjects = [] then _ else _ else _) _
              unfold FollowsAt
              rw [get_bind, if_pos hproduct]
              by_cases hempty : p.iData.iMediaObjects = []
              · rw [if_pos hempty, hfound]
                simp only [hempty, ne_eq, not_true_eq_false, decide_false, Bool.false_eq_true,
                  if_false]
                exact follows_childElementsL (fun _ _ _ => rfl)
                  (follows_productElementNodeL platform) children PUnit.unit p
              · rw [if_neg hempty, hfound]
                simp only [ne_eq, hempty, not_false_eq_true, decide_true, if_true]
                exact .inl rfl
            rw [if_pos hproduct]
            cases found with
            | true =>
                rw [if_pos rfl] at hstep ⊢
                rw [← List.nil_append (mediaStatements platform true (elements rest)),
                  List.foldlM_append]
                refine hstep.bind fun u p' hrun => ?_
                cases hrun
                exact ih true p hstrings hfound
            | false =>
                rw [if_neg Bool.false_ne_true] at hstep ⊢
                rw [List.foldlM_append]
                refine hstep.bind fun u p' hrun => ?_
                obtain ⟨hstrings', hlen⟩ :=
                  hnext (fun s hs => productStatements_proper platform hs) hrun
                apply ih _ p' hstrings'
                rw [objectSaid_productStatements, List.length_map] at hlen
                have hp : p.iData.iMediaObjects = [] := by simpa using hfound.symm
                rw [hp, List.length_nil, Nat.zero_add] at hlen
                simp only [ne_eq, ← List.length_eq_zero_iff, hlen]
          · rw [if_neg hproduct, List.foldlM_append]
            have hstep : FollowsAt p (mediaElementNodeL platform PUnit.unit (.ok name) children)
                ((mediaSaid (name, children)).foldlM (Statement.runL platform) PUnit.unit) := by
              show FollowsAt p (get >>= fun q => if mediaAttribute name = .eDdProduct then _
                else if mediaAttribute name = .eDdUnknownAttr then _ else _) _
              unfold FollowsAt mediaSaid
              rw [get_bind, if_neg hproduct]
              by_cases hunknown : mediaAttribute name = .eDdUnknownAttr
              · rw [if_pos hunknown, if_pos hunknown]
                exact .inl rfl
              · rw [if_neg hunknown, if_neg hunknown]
                refine follows_pcDataLC children ?_ ?_ p
                · exact fun _ => rfl
                · rfl
            refine hstep.bind fun u p' hrun => ?_
            obtain ⟨hstrings', hlen⟩ := hnext (fun s hs => mediaSaid_proper hproduct hs) hrun
            have hnone : (mediaSaid (name, children)).filterMap Statement.objectSaid = [] := by
              unfold mediaSaid
              split
              · rfl
              · cases pcData children <;> rfl
            apply ih found p' hstrings'
            rw [hnone, List.length_nil, Nat.add_zero] at hlen
            simp only [hfound, ne_eq, ← List.length_eq_zero_iff, hlen]

end

/-! ## The attributes of `media` -/

theorem ddVersionAttribute_eq {t : Text} (h : ddVersionAttribute t ≠ .eDdUnknownAttr) :
    ddVersionAttribute t = .eDdVersion :=
  List.mem_singleton.mp (attributeIn_mem _ t h)

/-- The data with the last version that the attributes say. -/
def withVersion (d : CCodData) (versions : List Text) : CCodData :=
  { d with iVersion := versions.getLast?.or d.iVersion }

theorem withVersion_cons (d : CCodData) (v : Text) (versions : List Text) :
    withVersion { d with iVersion := some v } versions = withVersion d (v :: versions) := by
  unfold withVersion
  cases versions with
  | nil => rfl
  | cons w rest => rw [List.getLast?_cons_cons, List.getLast?_eq_some_getLast (by simp)]; rfl

theorem attributes_run : ∀ (attributes : List (DomString × DomString)) (p : TDdParser),
    attributes.forM parseNodeAttributesL p =
        .ok PUnit.unit { p with iData := withVersion p.iData (versionTexts attributes) } ∨
      ∃ code p', attributes.forM parseNodeAttributesL p = .error (.leave code) p' := by
  intro attributes
  induction attributes with
  | nil => exact fun p => .inl rfl
  | cons attr rest ih =>
      intro p
      have hcons : (attr :: rest).forM parseNodeAttributesL =
          parseNodeAttributesL attr >>= fun _ => rest.forM parseNodeAttributesL := rfl
      rw [hcons]
      match attr with
      | (.error code, value) => exact .inr ⟨code, p, rfl⟩
      | (.ok name, value) =>
          by_cases hunknown : ddVersionAttribute name = .eDdUnknownAttr
          · have hstep : parseNodeAttributesL (.ok name, value) p = .ok PUnit.unit p := by
              show (if ddVersionAttribute name = .eDdUnknownAttr then _ else _ : DdM PUnit) p = _
              rw [if_pos hunknown]
              rfl
            have htexts : versionTexts ((.ok name, value) :: rest) = versionTexts rest := by
              cases value with
              | error code => rfl
              | ok v => simp [versionTexts, hunknown]
            rw [bind_of_ok hstep, htexts]
            exact ih p
          · have hversion := ddVersionAttribute_eq hunknown
            match value with
            | .error code =>
                have hstep : parseNodeAttributesL (.ok name, .error code) p =
                    .error (.leave code) p := by
                  show (if ddVersionAttribute name = .eDdUnknownAttr then _ else _ : DdM PUnit) p = _
                  rw [if_neg hunknown]
                  rfl
                exact .inr ⟨code, p, bind_of_error hstep⟩
            | .ok v =>
                have hstep : parseNodeAttributesL (.ok name, .ok v) p =
                    .ok PUnit.unit { p with iData := (p.iData.setVersionL v).2 } := by
                  show (if ddVersionAttribute name = .eDdUnknownAttr then _ else _ : DdM PUnit) p = _
                  rw [if_neg hunknown]
                  rfl
                rw [bind_of_ok hstep]
                by_cases hlong : v.length > codVersionMaxLen
                · have htexts : versionTexts ((.ok name, .ok v) :: rest) = versionTexts rest := by
                    simp [versionTexts, hlong]
                  have hset : (p.iData.setVersionL v).2 = p.iData := by
                    simp [CCodData.setVersionL, CCodData.setStringAttrL, hlong]
                  rw [htexts, hset]
                  exact ih p
                · have htexts : versionTexts ((.ok name, .ok v) :: rest) =
                      v :: versionTexts rest := by
                    simp [versionTexts, hversion, Nat.le_of_not_gt hlong]
                  have hset : (p.iData.setVersionL v).2 = { p.iData with iVersion := some v } := by
                    simp [CCodData.setVersionL, CCodData.setStringAttrL, hlong]
                  rw [htexts, hset, ← withVersion_cons]
                  exact ih { p with iData := { p.iData with iVersion := some v } }

end SymbianWeb.Cod
