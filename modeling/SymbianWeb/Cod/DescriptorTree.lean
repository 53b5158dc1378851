import SymbianWeb.Cod.DdParser
import SymbianWeb.Library.Contracts

/-!
# The tree of an OMA download descriptor of version 2

What a descriptor says is stated here without the walk of the parser: the elements of the tree say
texts for attributes, in their order, and for each attribute there is a rule which of its texts
counts. A descriptor that `ParseL` does not leave with gives the data that these rules give
(`parseL_describes`), and when it does not return it leaves.

The setting for confirmations is apart: two of the comparisons that find it are the wrong way round,
and only `Never` and `UserConfirmStepOnly` come out as they are named.
-/

set_option autoImplicit false

namespace SymbianWeb.Cod

open DownloadData (codNameMaxLen codUrlMaxLen)
open ErrorState

/-! ## What a tree says -/

/-- The elements among nodes, by name and children. -/
def elements (nodes : List DomNode) : List (Text × List DomNode) :=
  nodes.filterMap fun
    | .element (.ok name) _ children => some (name, children)
    | _ => none

/-- The text at the start of an element. -/
def pcData : List DomNode → Option Text
  | .text (.ok data) :: _ => some data
  | _ => none

/-- What is said of a media object. An element for its address that is not a server with a text
says nothing that can be used. -/
inductive ObjStatement where
  | attr (attr : TDdAttr) (value : Text)
  | metaText (attr : TDdAttr) (value : Text)
  | license
  | uri (value : Option Text)

/-- What is said of the whole. -/
inductive Statement where
  | attr (attr : TDdAttr) (value : Text)
  | metaText (attr : TDdAttr) (value : Text)
  | license
  | object (said : List ObjStatement)

def metaSaid {σ : Type} (license : σ) (text : TDdAttr → Text → σ) (e : Text × List DomNode) :
    List σ :=
  if metaAttribute e.1 = .eDdLicense then [license]
  else if metaAttribute e.1 = .eDdUnknownAttr then []
  else (pcData e.2).toList.map (text (metaAttribute e.1))

def objUriSaid (e : Text × List DomNode) : List ObjStatement :=
  [.uri (if objUriAttribute e.1 = .eDdUnknownAttr then none else pcData e.2)]

def objSaid (platform : DdPlatform) (e : Text × List DomNode) : List ObjStatement :=
  if mediaObjAttribute platform e.1 = .eDdMeta then
    (elements e.2).flatMap (metaSaid .license .metaText)
  else if mediaObjAttribute platform e.1 = .eDdUrl then
    (elements e.2).flatMap objUriSaid
  else if mediaObjAttribute platform e.1 = .eDdUnknownAttr then
    []
  else
    (pcData e.2).toList.map (.attr (mediaObjAttribute platform e.1))

/-- What the children of a `mediaObject` element say of it. -/
def objStatements (platform : DdPlatform) (mediaObject : List DomNode) : List ObjStatement :=
  (elements mediaObject).flatMap (objSaid platform)

def productSaid (platform : DdPlatform) (e : Text × List DomNode) : List Statement :=
  if productAttribute e.1 = .eDdMeta then
    (elements e.2).flatMap (metaSaid .license .metaText)
  else if productAttribute e.1 = .eDdMediaObject then
    [.object (objStatements platform e.2)]
  else
    []

def productStatements (platform : DdPlatform) (product : List DomNode) : List Statement :=
  (elements product).flatMap (productSaid platform)

/-- The `mediaObject` elements of a product. -/
def mediaObjectsOf (product : List DomNode) : List (List DomNode) :=
  (elements product).filterMap fun e =>
    if productAttribute e.1 = .eDdMediaObject then some e.2 else none

def mediaSaid (e : Text × List DomNode) : List Statement :=
  if mediaAttribute e.1 = .eDdUnknownAttr then []
  else (pcData e.2).toList.map (.attr (mediaAttribute e.1))

/-- What the elements under `media` say. A product counts up to the first that has media objects,
or not at all when there are some before it. -/
def mediaStatements (platform : DdPlatform) : Bool → List (Text × List DomNode) → List Statement
  | _, [] => []
  | found, e :: rest =>
      if mediaAttribute e.1 = .eDdProduct then
        if found then
          mediaStatements platform found rest
        else
          productStatements platform e.2 ++
            mediaStatements platform (decide (mediaObjectsOf e.2 ≠ [])) rest
      else
        mediaSaid e ++ mediaStatements platform found rest

/-- The `mediaObject` elements of the first product that has any. -/
def firstMediaObjects (media : List (Text × List DomNode)) : List (List DomNode) :=
  let products := media.filter fun e => mediaAttribute e.1 = .eDdProduct
  ((products.map fun e => mediaObjectsOf e.2).find? fun objects => objects ≠ []).getD []

/-- The versions that the attributes of `media` say and that are not too long. -/
def versionTexts (attributes : List (DomString × DomString)) : List Text :=
  attributes.filterMap fun
    | (.ok name, .ok value) =>
        if ddVersionAttribute name = .eDdVersion ∧ value.length ≤ codVersionMaxLen then some value
        else none
    | _ => none

/-! ## Which text counts -/

section

variable {α : Type}

/-- The first text that is not empty. -/
def firstNonEmpty (values : List (List α)) : List α := (values.find? fun v => v ≠ []).getD []

/-- What is in a buffer counts, unless it is empty. -/
def firstWins (buf : Option (List α)) (values : List (List α)) : Option (List α) :=
  buf.map fun old => firstNonEmpty (old :: values)

@[simp] theorem firstWins_nil (buf : Option (List α)) : firstWins buf [] = buf := by
  cases buf with
  | none => rfl
  | some old => cases old <;> rfl

theorem firstNonEmpty_concat (values : List (List α)) (v : List α) :
    firstNonEmpty (values ++ [v]) =
      if firstNonEmpty values = [] then v else firstNonEmpty values := by
  unfold firstNonEmpty
  rw [List.find?_append]
  cases h : values.find? fun v => v ≠ [] with
  | none =>
      by_cases hv : v = []
      · simp [hv]
      · simp [hv]
  | some w =>
      have hw : w ≠ [] := by simpa using List.find?_some h
      simp [hw]

theorem firstWins_kept {buf : Option (List α)} {values : List (List α)} {des : List α}
    (h : firstWins buf values = some des) (hne : des ≠ []) (v : List α) :
    firstWins buf (values ++ [v]) = some des := by
  obtain ⟨old, rfl, rfl⟩ := Option.map_eq_some_iff.mp h
  show some (firstNonEmpty ((old :: values) ++ [v])) = _
  rw [firstNonEmpty_concat, if_neg hne]

theorem eq_nil_of_firstWins {buf : Option (List α)} {values : List (List α)}
    (h : firstWins buf values = some []) : buf = some [] := by
  obtain ⟨old, rfl, hold⟩ := Option.map_eq_some_iff.mp h
  by_cases hne : old = []
  · rw [hne]
  · simp [firstNonEmpty, hne] at hold

theorem firstWins_taken {buf : Option (List α)} {values : List (List α)}
    (h : firstWins buf values = some []) (v : List α) :
    firstWins buf (values ++ [v]) = some v := by
  obtain ⟨old, rfl, hold⟩ := Option.map_eq_some_iff.mp h
  show some (firstNonEmpty ((old :: values) ++ [v])) = _
  rw [firstNonEmpty_concat, if_pos hold]

end

/-- The first number that is a size. -/
def firstSize (values : List Text) : UInt32 :=
  ((values.filterMap lexVal).find? fun size => 0 < size.toInt32).getD 0

/-- The last text with two values. -/
def lastFlag (platform : DdPlatform) (old : Bool) (yes : Text) (values : List Text) : Bool :=
  match values.getLast? with
  | some v => platform.compareF v yes
  | none => old

/-- The last text for confirmations, as the parser takes it. -/
def lastSuppress (platform : DdPlatform) (old : Int32) (values : List Text) : Int32 :=
  match values.getLast? with
  | some v => (suppressValue platform v).getD CCodData.eNever
  | none => old

namespace ObjStatement

def attrTexts (attr : TDdAttr) (said : List ObjStatement) : List Text :=
  said.filterMap fun
    | .attr a v => if a = attr then some v else none
    | _ => none

def metaTexts (attr : TDdAttr) (said : List ObjStatement) : List Text :=
  said.filterMap fun
    | .metaText a v => if a = attr then some v else none
    | _ => none

def uriTexts (said : List ObjStatement) : List Text :=
  said.filterMap fun
    | .uri v => v
    | _ => none

def isLicense : ObjStatement → Bool
  | .license => true
  | _ => false

end ObjStatement

open ObjStatement in
/-- The media object that statements describe, its name apart when it has none. -/
def saidUnnamed (platform : DdPlatform) (said : List ObjStatement) : CMediaObjectData :=
  { CMediaObjectData.newL with
    iName := firstWins (some []) ((metaTexts .eDdName said).map (·.take codNameMaxLen))
    iDescription :=
      firstWins (some []) ((metaTexts .eDdDescription said).map (·.take codDescriptionMaxLen))
    iInstallNotify := firstWins (some []) ((metaTexts .eDdInstallNotify said).map convertL)
    iUrl := some (convertL ((uriTexts said).getLast?.getD []))
    iSize := firstSize (attrTexts .eDdSize said)
    iTypes := (attrTexts .eDdType said).map convertL
    iProgressiveDl := lastFlag platform false KDdTrue (attrTexts .eDdProgressiveDl said)
    iIsPostOrder := lastFlag platform false KDdPost (metaTexts .eDdOrder said) }

/-- A media object that has a URL and no name is named by the end of the URL. -/
def named (platform : DdPlatform) (m : CMediaObjectData) : CMediaObjectData :=
  if m.iName = some [] ∧ m.iUrl ≠ some [] then
    m.setNameL (nameFromUrl platform (m.iUrl.getD []))
  else
    m

def saidObject (platform : DdPlatform) (said : List ObjStatement) : CMediaObjectData :=
  named platform (saidUnnamed platform said)

namespace Statement

@[simp] def attrText (attr : TDdAttr) : Statement → Option Text
  | .attr a v => if a = attr then some v else none
  | _ => none

@[simp] def metaTextOf (attr : TDdAttr) : Statement → Option Text
  | .metaText a v => if a = attr then some v else none
  | _ => none

/-- The name of the whole, from under `media` or from the `meta` of a product. -/
@[simp] def nameText : Statement → Option Text
  | .attr a v => if a = .eDdName then some v else none
  | .metaText a v => if a = .eDdName then some v else none
  | _ => none

@[simp] def objectSaid : Statement → Option (List ObjStatement)
  | .object said => some said
  | _ => none

/-- There was a license element. -/
@[simp] def isLicense : Statement → Bool
  | .license => true
  | .object said => said.any ObjStatement.isLicense
  | _ => false

end Statement

/-- The texts for confirmations, of all the media objects. -/
def suppressTexts (said : List Statement) : List Text :=
  (said.filterMap Statement.objectSaid).flatMap
    (ObjStatement.attrTexts .eDdSuppressUserConfirmation)

open Statement in
/-- The data that statements describe. -/
def saidData (platform : DdPlatform) (d : CCodData) (said : List Statement) : CCodData :=
  let nextUrls := said.filterMap (attrText .eDdNextUrl)
  let objects := (said.filterMap objectSaid).map (saidObject platform)
  { d with
    iName := firstWins d.iName (said.filterMap nameText)
    iVendor := firstWins d.iVendor (said.filterMap (attrText .eDdVendor))
    iDescription := firstWins d.iDescription (said.filterMap (metaTextOf .eDdDescription))
    iInstallNotify :=
      firstWins d.iInstallNotify ((said.filterMap (metaTextOf .eDdInstallNotify)).map convertL)
    iNextUrl := firstWins d.iNextUrl (nextUrls.map convertL)
    iNextUrlAtError :=
      if d.iNextUrl = some [] ∧ nextUrls ≠ [] then firstWins d.iNextUrl (nextUrls.map convertL)
      else d.iNextUrlAtError
    iVersion := firstWins d.iVersion (said.filterMap (attrText .eDdVersion))
    iUpdatedDDUri :=
      firstWins d.iUpdatedDDUri
        (((said.filterMap (attrText .eDdUpdatedDDURI)).filter
          fun v => v.length ≤ codUrlMaxLen).map convertL)
    iIsPostOrder :=
      lastFlag platform d.iIsPostOrder KDdPost (said.filterMap (metaTextOf .eDdOrder))
    iSuppressConfirm := lastSuppress platform d.iSuppressConfirm (suppressTexts said)
    iSize := d.iSize + (objects.map (·.iSize)).sum
    iMediaObjects := d.iMediaObjects ++ objects }

end SymbianWeb.Cod
