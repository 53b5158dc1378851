import SymbianWeb.Cod.DownloadData

/-!
# Handing a download over to the download manager

What `ExternalizeL` of the COD engine writes is read back by `InternalizeL` of the download
manager, field by field (`Carries`). It fails where an 8-bit attribute is a null pointer, since
`KNullDesC` has 16-bit characters, and where a source URI is longer than the reader allows: its
setter is the only one without a limit. `NewL` leaves no null pointer, so that only the source URI
and the temporary file name, which is not written at all, remain (`handsOver_iff`).
-/

set_option autoImplicit false

namespace SymbianWeb.Cod.DownloadData

open ByteStream

/-! ## What should arrive -/

/-- The attributes of a media object; an unset one is empty. -/
def CMediaDataClient.attributes (m : CMediaDataClient) : CMediaDataServ where
  iName := m.iName.getD emptyDesc
  iUrl := m.iUrl.getD emptyDesc
  iSize := m.iSize
  iTypes := (m.iTypes.getD emptyArray).val
  iIcon := m.iIcon.getD emptyDesc
  iSourceUri := m.iSourceUri.getD emptyDesc
  iProgressiveDl := m.iProgressiveDl
  iState := m.iState
  iResult := m.iResult
  iRedirUrl := m.iRedirUrl.getD emptyDesc
  iMethod := m.iMethod
  iRedirected := m.iRedirected
  iDestFilename := m.iDestFilename.getD emptyDesc
  iDownloadedSize := m.iDownloadedSize
  iDesRemovable := m.iDesRemovable
  iLastErrorId := m.iLastErrorId
  iGlobalErrorId := m.iGlobalErrorId
  iPausable := m.iPausable
  iTempFilename := m.iTempFilename.getD emptyDesc
  iStatusCode := m.iStatusCode

/-- The attributes of a download. -/
def CDownloadDataClient.attributes (d : CDownloadDataClient) : CDownloadDataServ where
  iName := d.iName.getD emptyDesc
  iSize := d.iSize
  iIcon := d.iIcon.getD emptyDesc
  iUpdatedDDUri := d.iUpdatedDDUri.getD emptyDesc
  iMediaArray := d.iMediaArray.val.map CMediaDataClient.attributes

/-- The attribute is unset or not longer than this. -/
def AtMost {α : Type} (aMaxLength : Nat) (aBuf : Option (Desc α)) : Prop :=
  ∀ d ∈ aBuf, d.val.length ≤ aMaxLength

/-- The lengths that the setters of a media object accept. -/
structure CMediaDataClient.Accepted (m : CMediaDataClient) : Prop where
  name : AtMost codNameMaxLen m.iName
  url : AtMost codUrlMaxLen m.iUrl
  types : ∀ types ∈ m.iTypes, ∀ d ∈ types.val, d.val.length ≤ codTypeMaxLen
  icon : AtMost codIconMaxLen m.iIcon
  redirUrl : AtMost codUrlMaxLen m.iRedirUrl
  destFilename : AtMost kMaxFileName m.iDestFilename

/-- The lengths that the setters accept. -/
structure CDownloadDataClient.Accepted (d : CDownloadDataClient) : Prop where
  name : AtMost codNameMaxLen d.iName
  icon : AtMost codIconMaxLen d.iIcon
  updatedDDUri : AtMost codUrlMaxLen d.iUpdatedDDUri
  media : ∀ m ∈ d.iMediaArray.val, m.Accepted

/-! ## Reading field by field -/

theorem reads_readUint32L (v : UInt32) : Reads readUint32L (writeUint32L v) v := by
  have hlt : v.toNat < 256 ^ 4 := v.toNat_lt
  have hread := (reads_readLe hlt).map UInt32.ofNat
  rw [UInt32.ofNat_toNat] at hread
  exact hread

theorem reads_readInt32L (v : Int32) : Reads readInt32L (writeInt32L v) v := by
  have hlo : -2147483648 ≤ v.toInt := v.le_toInt
  have hhi : v.toInt < 2147483648 := v.toInt_lt
  have hread := (reads_readInt32 hlo hhi).map Int32.ofInt
  rw [Int32.ofInt_toInt] at hread
  exact hread

section Fields

variable [DescriptorStream]

theorem carries_externalize8 {aMaxLength : Nat} {aBuf : Option (Desc UInt8)}
    (h : AtMost aMaxLength aBuf) : Carries (aBuf ≠ none) (DescriptorStream.newL8 aMaxLength)
      (externalize8 aBuf) (aBuf.getD emptyDesc) := by
  cases aBuf with
  | some d =>
      have hread := DescriptorStream.reads8 aMaxLength d (h d rfl)
      exact hread.carries.congr (by simp)
  | none =>
      refine ⟨fun hne => absurd rfl hne, fun _ rest => ?_⟩
      exact DescriptorStream.wide8 aMaxLength emptyDesc rest

/-- An attribute whose setter has no limit. -/
theorem carries_externalize8_unlimited (aMaxLength : Nat) (aBuf : Option (Desc UInt8)) :
    Carries (∃ d, aBuf = some d ∧ d.val.length ≤ aMaxLength)
      (DescriptorStream.newL8 aMaxLength) (externalize8 aBuf) (aBuf.getD emptyDesc) := by
  by_cases h : AtMost aMaxLength aBuf
  · refine (carries_externalize8 h).congr ?_
    rw [Option.ne_none_iff_exists']
    exact ⟨fun ⟨d, hd⟩ => ⟨d, hd, h d hd⟩, fun ⟨d, hd, _⟩ => ⟨d, hd⟩⟩
  · obtain ⟨d, hd, hlong⟩ : ∃ d, aBuf = some d ∧ aMaxLength < d.val.length := by
      simpa [AtMost] using h
    subst hd
    constructor
    · rintro ⟨d', hd', hle⟩
      rw [Option.some.injEq] at hd'
      subst hd'
      omega
    · intro _
      exact DescriptorStream.long8 aMaxLength d hlong

theorem reads_externalize16 {aMaxLength : Nat} {aBuf : Option (Desc UInt16)}
    (h : AtMost aMaxLength aBuf) : Reads (DescriptorStream.newL16 aMaxLength)
      (externalize16 aBuf) (aBuf.getD emptyDesc) := by
  apply DescriptorStream.reads16
  cases aBuf with
  | some d => exact h d rfl
  | none => exact Nat.zero_le _

omit [DescriptorStream] in
/-- The count of an array. -/
theorem reads_count {α : Type} (array : BoundedArray α) :
    Reads readInt32 (writeInt32 array.val.length) array.val.length := by
  have hlt := array.property
  exact reads_readInt32 (by omega) (by omega)

/-- The number of types and then the types. -/
theorem reads_externalizeTypes {iTypes : Option (BoundedArray (Desc UInt8))}
    (h : ∀ types ∈ iTypes, ∀ d ∈ types.val, d.val.length ≤ codTypeMaxLen) :
    Reads internalizeTypes (externalizeTypes iTypes) (iTypes.getD emptyArray).val := by
  cases iTypes with
  | none =>
      have hempty : Reads (readList (DescriptorStream.newL8 codTypeMaxLen) (0 : Int).toNat) [] [] :=
        Reads.pure []
      have hread := (reads_readInt32 (v := 0) (by omega) (by omega)).bind
        (k := fun count => readList (DescriptorStream.newL8 codTypeMaxLen) count.toNat) hempty
      rw [List.append_nil] at hread
      exact hread
  | some types =>
      have hall : ∀ d ∈ types.val, Carries True (DescriptorStream.newL8 codTypeMaxLen)
          (DescriptorStream.write8 d) d := fun d hmem =>
        (DescriptorStream.reads8 codTypeMaxLen d (h types rfl d hmem)).carries
      have hlist := (carries_readList (f := id) hall).reads fun _ _ => trivial
      rw [List.map_id] at hlist
      exact (reads_count types).bind
        (k := fun count => readList (DescriptorStream.newL8 codTypeMaxLen) count.toNat) hlist

/-! ## Media objects -/

/-- A media object whose string attributes can be read. -/
structure CMediaDataClient.Readable (m : CMediaDataClient) : Prop where
  url : m.iUrl ≠ none
  icon : m.iIcon ≠ none
  sourceUri : ∃ d, m.iSourceUri = some d ∧ d.val.length ≤ codUrlMaxLen
  redirUrl : m.iRedirUrl ≠ none

/-- What arrives: no temporary file name, and a file name only beside an icon. -/
def CMediaDataClient.received (m : CMediaDataClient) : CMediaDataServ :=
  { m.attributes with
    iDestFilename := if m.iIcon = none then emptyDesc else m.iDestFilename.getD emptyDesc
    iTempFilename := emptyDesc }

/-- The file name as it is read. -/
theorem reads_destFilename {m : CMediaDataClient} (h : AtMost kMaxFileName m.iDestFilename)
    {bytes : List UInt8} (hbytes : m.externalizeDestFilename = some bytes) :
    Reads (DescriptorStream.newL16 kMaxFileName) bytes m.received.iDestFilename := by
  unfold CMediaDataClient.externalizeDestFilename at hbytes
  unfold CMediaDataClient.received
  cases hicon : m.iIcon with
  | none =>
      rw [hicon] at hbytes
      cases hbytes
      exact DescriptorStream.reads16 _ _ (Nat.zero_le _)
  | some icon =>
      rw [hicon] at hbytes
      obtain ⟨d, hd, rfl⟩ := Option.map_eq_some_iff.1 hbytes
      rw [if_neg (by simp), hd]
      exact DescriptorStream.reads16 _ _ (h d hd)

theorem carries_media {m : CMediaDataClient} (h : m.Accepted) {bytes : List UInt8}
    (hbytes : m.externalizeL = some bytes) :
    Carries m.Readable CMediaDataServ.internalizeL bytes m.received := by
  obtain ⟨destFilename, hdest, rfl⟩ := Option.map_eq_some_iff.1 hbytes
  have hiff : (m.iUrl ≠ none ∧ m.iIcon ≠ none ∧
      (∃ d, m.iSourceUri = some d ∧ d.val.length ≤ codUrlMaxLen) ∧ m.iRedirUrl ≠ none ∧ True) ↔
        m.Readable :=
    ⟨fun ⟨hu, hi, hs, hr, _⟩ => ⟨hu, hi, hs, hr⟩, fun ⟨hu, hi, hs, hr⟩ => ⟨hu, hi, hs, hr, trivial⟩⟩
  refine Carries.congr ?_ hiff
  refine Carries.after ?_ (reads_externalize16 h.name)
  refine (carries_externalize8 h.url).bind ?_
  refine Carries.after ?_ (reads_readUint32L _)
  refine Carries.after ?_ (reads_externalizeTypes h.types)
  refine (carries_externalize8 h.icon).bind ?_
  refine (carries_externalize8_unlimited codUrlMaxLen m.iSourceUri).bind ?_
  refine Carries.after ?_ (reads_readInt32L _)
  refine Carries.after ?_ (reads_readInt32L _)
  refine Carries.after ?_ (reads_readInt32L _)
  refine (carries_externalize8 h.redirUrl).bind ?_
  refine Carries.after ?_ (reads_readInt32L _)
  refine Carries.after ?_ (reads_readInt32L _)
  refine Carries.after ?_ (reads_destFilename h.destFilename hdest)
  refine Carries.after ?_ (reads_readInt32L _)
  refine Carries.after ?_ (reads_readInt32L _)
  refine Carries.after ?_ (reads_readInt32L _)
  refine Carries.after ?_ (reads_readInt32L _)
  refine Carries.after ?_ (reads_readInt32L _)
  exact ((reads_readInt32L _).bind_pure _).carries

/-- A null pointer is dereferenced for the file name only. -/
theorem externalizeL_ne_none_iff (m : CMediaDataClient) :
    m.externalizeL ≠ none ↔ (m.iIcon ≠ none → m.iDestFilename ≠ none) := by
  rw [CMediaDataClient.externalizeL, ne_eq, Option.map_eq_none_iff,
    CMediaDataClient.externalizeDestFilename]
  cases m.iIcon with
  | none => simp
  | some icon => simp

/-! ## Downloads -/

/-- The bytes of a media object that is written. -/
def CMediaDataClient.bytes (m : CMediaDataClient) : List UInt8 := m.externalizeL.getD []

theorem externalizeMedia_eq_some_iff (ms : List CMediaDataClient) (bytes : List UInt8) :
    externalizeMedia ms = some bytes ↔
      (∀ m ∈ ms, m.externalizeL ≠ none) ∧ bytes = ms.flatMap CMediaDataClient.bytes := by
  induction ms generalizing bytes with
  | nil => simp [externalizeMedia, eq_comm]
  | cons m ms ih =>
      rw [externalizeMedia, List.forall_mem_cons, List.flatMap_cons]
      cases hm : m.externalizeL with
      | none => simp
      | some first =>
          have hfirst : m.bytes = first := by rw [CMediaDataClient.bytes, hm, Option.getD_some]
          rw [hfirst]
          show (externalizeMedia ms).bind (fun rest => some (first ++ rest)) = some bytes ↔ _
          constructor
          · intro h
            obtain ⟨rest, hrest, hpure⟩ := Option.bind_eq_some_iff.1 h
            obtain ⟨hall, rfl⟩ := (ih rest).1 hrest
            cases hpure
            exact ⟨⟨by simp, hall⟩, rfl⟩
          · rintro ⟨⟨-, hall⟩, rfl⟩
            exact Option.bind_eq_some_iff.2 ⟨_, (ih _).2 ⟨hall, rfl⟩, rfl⟩

/-- What arrives of a download. -/
def CDownloadDataClient.received (d : CDownloadDataClient) : CDownloadDataServ :=
  { d.attributes with iMediaArray := d.iMediaArray.val.map CMediaDataClient.received }

/-- A download whose string attributes can be read. -/
structure CDownloadDataClient.Readable (d : CDownloadDataClient) : Prop where
  icon : d.iIcon ≠ none
  updatedDDUri : d.iUpdatedDDUri ≠ none
  media : ∀ m ∈ d.iMediaArray.val, m.Readable

theorem carries_download {d : CDownloadDataClient} (h : d.Accepted) {bytes : List UInt8}
    (hbytes : d.externalizeL = some bytes) :
    Carries d.Readable CDownloadDataServ.internalizeL bytes d.received := by
  obtain ⟨media, hmedia, hpure⟩ := Option.bind_eq_some_iff.1 hbytes
  cases hpure
  obtain ⟨hwritten, rfl⟩ := (externalizeMedia_eq_some_iff _ _).1 hmedia
  have hobjects : ∀ m ∈ d.iMediaArray.val,
      Carries m.Readable CMediaDataServ.internalizeL m.bytes m.received := by
    intro m hmem
    obtain ⟨bytes, hm⟩ := Option.ne_none_iff_exists'.1 (hwritten m hmem)
    rw [CMediaDataClient.bytes, hm]
    exact carries_media (h.media m hmem) hm
  have hiff : (d.iIcon ≠ none ∧ d.iUpdatedDDUri ≠ none ∧
      (∀ m ∈ d.iMediaArray.val, m.Readable) ∧ True) ↔ d.Readable :=
    ⟨fun ⟨hi, hu, hm, _⟩ => ⟨hi, hu, hm⟩, fun ⟨hi, hu, hm⟩ => ⟨hi, hu, hm, trivial⟩⟩
  refine Carries.congr ?_ hiff
  refine Carries.after ?_ (reads_externalize16 h.name)
  refine Carries.after ?_ (reads_readUint32L _)
  refine (carries_externalize8 h.icon).bind ?_
  refine (carries_externalize8 h.updatedDDUri).bind ?_
  refine Carries.after ?_ (reads_count d.iMediaArray)
  have hlist := (carries_readList hobjects).bind
    (k := fun media => pure { d.received with iMediaArray := media }) (Reads.pure _).carries
  rw [List.append_nil] at hlist
  exact hlist

/-- `ExternalizeL` dereferences no null pointer, and the download manager reads all attributes
back, to the end of what was written. -/
def CDownloadDataClient.HandsOver (d : CDownloadDataClient) : Prop :=
  ∃ bytes, d.externalizeL = some bytes ∧
    CDownloadDataServ.internalizeL bytes = .ok (d.attributes, [])

/-- A media object that is handed over with all its attributes. -/
structure CMediaDataClient.Transferable (m : CMediaDataClient) : Prop extends m.Readable where
  destFilename : m.iDestFilename ≠ none
  tempFilename : m.iTempFilename.getD emptyDesc = emptyDesc

/-- A download that is handed over with all its attributes. -/
structure CDownloadDataClient.Transferable (d : CDownloadDataClient) : Prop where
  icon : d.iIcon ≠ none
  updatedDDUri : d.iUpdatedDDUri ≠ none
  media : ∀ m ∈ d.iMediaArray.val, m.Transferable

omit [DescriptorStream] in
theorem received_eq_attributes_iff {m : CMediaDataClient} (hicon : m.iIcon ≠ none) :
    m.received = m.attributes ↔ m.iTempFilename.getD emptyDesc = emptyDesc := by
  have hreceived : m.received = { m.attributes with iTempFilename := emptyDesc } := by
    rw [CMediaDataClient.received, if_neg hicon]
    rfl
  rw [hreceived]
  constructor
  · intro h
    exact (congrArg CMediaDataServ.iTempFilename h).symm
  · intro h
    rw [← h]
    rfl

theorem handsOver_iff_transferable {d : CDownloadDataClient} (h : d.Accepted) :
    d.HandsOver ↔ d.Transferable := by
  constructor
  · rintro ⟨bytes, hbytes, hread⟩
    obtain ⟨hreadable, heq⟩ := ((carries_download h hbytes).run_iff _).1 hread
    obtain ⟨media, hmedia, -⟩ := Option.bind_eq_some_iff.1 hbytes
    have hwritten := ((externalizeMedia_eq_some_iff _ _).1 hmedia).1
    have hsame := List.map_inj_left.1 (congrArg CDownloadDataServ.iMediaArray heq)
    refine ⟨hreadable.icon, hreadable.updatedDDUri, fun m hmem => ?_⟩
    have hm := hreadable.media m hmem
    have hdest := (externalizeL_ne_none_iff m).1 (hwritten m hmem) hm.icon
    exact ⟨hm, hdest, (received_eq_attributes_iff hm.icon).1 (hsame m hmem).symm⟩
  · intro ht
    have hwritten : ∀ m ∈ d.iMediaArray.val, m.externalizeL ≠ none := by
      intro m hmem
      exact (externalizeL_ne_none_iff m).2 fun _ => (ht.media m hmem).destFilename
    have hmedia := (externalizeMedia_eq_some_iff _ _).2 ⟨hwritten, rfl⟩
    have hbytes : d.externalizeL = some _ := Option.bind_eq_some_iff.2 ⟨_, hmedia, rfl⟩
    have hreadable : d.Readable :=
      ⟨ht.icon, ht.updatedDDUri, fun m hmem => (ht.media m hmem).toReadable⟩
    have heq : d.attributes = d.received := by
      have hsame : d.iMediaArray.val.map CMediaDataClient.attributes =
          d.iMediaArray.val.map CMediaDataClient.received := by
        apply List.map_inj_left.2
        intro m hmem
        exact ((received_eq_attributes_iff (ht.media m hmem).icon).2
          (ht.media m hmem).tempFilename).symm
      rw [CDownloadDataClient.received, ← hsame]
      rfl
    exact ⟨_, hbytes, ((carries_download h hbytes).run_iff _).2 ⟨hreadable, heq⟩⟩

end Fields

/-! ## What the engine holds -/

/-- `ConstructL` has been run: no pointer is null. -/
structure CMediaDataClient.Allocated (m : CMediaDataClient) : Prop where
  url : m.iUrl ≠ none
  icon : m.iIcon ≠ none
  sourceUri : m.iSourceUri ≠ none
  redirUrl : m.iRedirUrl ≠ none
  destFilename : m.iDestFilename ≠ none

section Setters

variable {α : Type} {aBuf : Option (Desc α)} {aString : Desc α} {aMaxLength : Nat}

theorem setStringAttrL_ne_none (h : aBuf ≠ none) :
    setStringAttrL aBuf aString aMaxLength ≠ none := by
  unfold setStringAttrL
  split
  · exact h
  · exact Option.some_ne_none _

theorem atMost_setStringAttrL (h : AtMost aMaxLength aBuf) :
    AtMost aMaxLength (setStringAttrL aBuf aString aMaxLength) := by
  unfold setStringAttrL
  split
  · exact h
  · next hle =>
      intro d hd
      rw [Option.mem_some_iff] at hd
      rw [← hd]
      exact not_lt.1 hle

/-- `AppendL` appends. -/
theorem appendL_val {array array' : BoundedArray α} {item : α}
    (h : array.appendL item = some array') : array'.val = array.val ++ [item] := by
  unfold BoundedArray.appendL at h
  split at h
  · cases h
    rfl
  · cases h

end Setters

/-- Types that `AddTypeL` accepts. -/
def TypesAccepted (iTypes : Option (BoundedArray (Desc UInt8))) : Prop :=
  ∀ types ∈ iTypes, ∀ d ∈ types.val, d.val.length ≤ codTypeMaxLen

theorem typesAccepted_empty : TypesAccepted (some emptyArray) := by
  intro types htypes d hmem
  rw [Option.mem_some_iff] at htypes
  rw [← htypes] at hmem
  cases hmem

theorem TypesAccepted.addTypeL {iTypes iTypes' : Option (BoundedArray (Desc UInt8))}
    {aType : Desc UInt8} (h : TypesAccepted iTypes)
    (hrun : DownloadData.addTypeL iTypes aType = some iTypes') : TypesAccepted iTypes' := by
  unfold DownloadData.addTypeL at hrun
  split at hrun
  · cases hrun
    exact h
  · next haccept =>
      rw [not_or, not_lt] at haccept
      cases iTypes with
      | none => cases hrun
      | some types =>
          obtain ⟨types', happend, rfl⟩ := Option.map_eq_some_iff.1 hrun
          intro types'' htypes d hmem
          rw [Option.mem_some_iff] at htypes
          rw [← htypes, appendL_val happend, List.mem_append, List.mem_singleton] at hmem
          rcases hmem with hmem | rfl
          · exact h types rfl d hmem
          · exact haccept.1

/-- What the setters of a media object keep. -/
structure CMediaDataClient.Sound (m : CMediaDataClient) : Prop where
  allocated : m.Allocated
  accepted : m.Accepted

theorem atMost_empty {α : Type} (aMaxLength : Nat) :
    AtMost aMaxLength (some (emptyDesc : Desc α)) := by
  intro d hd
  rw [Option.mem_some_iff] at hd
  rw [← hd]
  exact Nat.zero_le _

theorem CMediaDataClient.sound_newL : CMediaDataClient.newL.Sound where
  allocated := ⟨Option.some_ne_none _, Option.some_ne_none _, Option.some_ne_none _,
    Option.some_ne_none _, Option.some_ne_none _⟩
  accepted := ⟨atMost_empty _, atMost_empty _, typesAccepted_empty, atMost_empty _,
    atMost_empty _, atMost_empty _⟩

theorem CMediaDataClient.Sound.set {m m' : CMediaDataClient} (h : m.Sound) (setter : MediaSetter)
    (hrun : setter.run m = some m') : m'.Sound := by
  obtain ⟨ha, hc⟩ := h
  cases setter with
  | setNameL aName =>
      cases hrun
      exact ⟨{ ha with }, { hc with name := atMost_setStringAttrL hc.name }⟩
  | setUrlL aUrl =>
      cases hrun
      exact ⟨{ ha with url := setStringAttrL_ne_none ha.url },
        { hc with url := atMost_setStringAttrL hc.url }⟩
  | setSize aSize =>
      cases hrun
      split
      · exact ⟨ha, hc⟩
      · exact ⟨{ ha with }, { hc with }⟩
  | setTypeL aType =>
      rw [MediaSetter.run] at hrun
      cases htypes : m.iTypes with
      | none =>
          rw [htypes] at hrun
          cases hrun
      | some types =>
          rw [htypes] at hrun
          obtain ⟨types', hadd, rfl⟩ := Option.map_eq_some_iff.1 hrun
          exact ⟨{ ha with }, { hc with types := typesAccepted_empty.addTypeL hadd }⟩
  | addTypeL aType =>
      obtain ⟨types', hadd, rfl⟩ := Option.map_eq_some_iff.1 hrun
      exact ⟨{ ha with }, { hc with types := TypesAccepted.addTypeL hc.types hadd }⟩
  | resetTypes =>
      obtain ⟨types', -, rfl⟩ := Option.map_eq_some_iff.1 hrun
      exact ⟨{ ha with }, { hc with types := typesAccepted_empty }⟩
  | setIconL aIcon =>
      cases hrun
      exact ⟨{ ha with icon := setStringAttrL_ne_none ha.icon },
        { hc with icon := atMost_setStringAttrL hc.icon }⟩
  | setSourceUriL aSourceUri =>
      cases hrun
      exact ⟨{ ha with sourceUri := Option.some_ne_none _ }, { hc with }⟩
  | setRedirUrlL aRedirUrl =>
      cases hrun
      exact ⟨{ ha with redirUrl := setStringAttrL_ne_none ha.redirUrl },
        { hc with redirUrl := atMost_setStringAttrL hc.redirUrl }⟩
  | setDestFilenameL aDestFilename =>
      cases hrun
      exact ⟨{ ha with destFilename := setStringAttrL_ne_none ha.destFilename },
        { hc with destFilename := atMost_setStringAttrL hc.destFilename }⟩
  | setDownloadedSize aDownloadedSize =>
      cases hrun
      split
      · exact ⟨ha, hc⟩
      · exact ⟨{ ha with }, { hc with }⟩
  | _ =>
      -- the other setters concern no string
      cases hrun
      exact ⟨{ ha with }, { hc with }⟩

theorem CMediaDataClient.Held.sound {m : CMediaDataClient} (h : m.Held) : m.Sound := by
  induction h with
  | newL => exact sound_newL
  | set _ setter hrun ih => exact ih.set setter hrun

/-- What the setters of a download keep. -/
structure CDownloadDataClient.Sound (d : CDownloadDataClient) : Prop where
  name : AtMost codNameMaxLen d.iName
  icon : d.iIcon ≠ none ∧ AtMost codIconMaxLen d.iIcon
  updatedDDUri : d.iUpdatedDDUri ≠ none ∧ AtMost codUrlMaxLen d.iUpdatedDDUri
  media : ∀ m ∈ d.iMediaArray.val, m.Sound

theorem CDownloadDataClient.Sound.set {d d' : CDownloadDataClient} (h : d.Sound)
    (setter : DownloadSetter) (hrun : setter.run d = some d') : d'.Sound := by
  cases setter with
  | setNameL aName =>
      cases hrun
      exact { h with name := atMost_setStringAttrL h.name }
  | setSize aSize =>
      cases hrun
      split
      · exact h
      · exact { h with }
  | setIconL aIcon =>
      cases hrun
      exact { h with icon := ⟨setStringAttrL_ne_none h.icon.1, atMost_setStringAttrL h.icon.2⟩ }
  | setUpdatedDDURI aUrl =>
      cases hrun
      exact { h with
        updatedDDUri := ⟨setStringAttrL_ne_none h.updatedDDUri.1,
          atMost_setStringAttrL h.updatedDDUri.2⟩ }
  | media aIndex setter =>
      rw [DownloadSetter.run] at hrun
      cases hm : d.iMediaArray.val[aIndex]? with
      | none =>
          rw [hm] at hrun
          cases hrun
      | some m =>
          rw [hm] at hrun
          obtain ⟨m', hset, rfl⟩ := Option.map_eq_some_iff.1 hrun
          refine { h with media := fun m'' hmem => ?_ }
          rcases List.mem_or_eq_of_mem_set hmem with hmem | rfl
          · exact h.media m'' hmem
          · exact (h.media m (List.mem_of_getElem? hm)).set setter hset

theorem CDownloadDataClient.Held.sound {d : CDownloadDataClient} (h : d.Held) : d.Sound := by
  induction h with
  | newL =>
      have hmedia : ∀ m ∈ CDownloadDataClient.newL.iMediaArray.val, m.Sound := by
        intro m hmem
        cases hmem
      exact ⟨atMost_empty _, ⟨Option.some_ne_none _, atMost_empty _⟩,
        ⟨Option.some_ne_none _, atMost_empty _⟩, hmedia⟩
  | set _ setter hrun ih => exact ih.set setter hrun
  | append _ hm hrun ih =>
      obtain ⟨media, happend, rfl⟩ := Option.map_eq_some_iff.1 hrun
      refine { ih with media := fun m hmem => ?_ }
      change m ∈ media.val at hmem
      rw [appendL_val happend, List.mem_append, List.mem_singleton] at hmem
      rcases hmem with hmem | rfl
      · exact ih.media m hmem
      · exact hm.sound

theorem CDownloadDataClient.Sound.accepted {d : CDownloadDataClient} (h : d.Sound) : d.Accepted :=
  ⟨h.name, h.icon.2, h.updatedDDUri.2, fun m hmem => (h.media m hmem).accepted⟩

/-- A media object is handed over if its source URI is short enough and it has no temporary file
name. -/
def CMediaDataClient.Fits (m : CMediaDataClient) : Prop :=
  AtMost codUrlMaxLen m.iSourceUri ∧ ∀ d ∈ m.iTempFilename, d.val = []

theorem CMediaDataClient.Sound.transferable_iff {m : CMediaDataClient} (h : m.Sound) :
    m.Transferable ↔ m.Fits := by
  have htemp : m.iTempFilename.getD emptyDesc = emptyDesc ↔ ∀ d ∈ m.iTempFilename, d.val = [] := by
    cases m.iTempFilename with
    | none => simp
    | some d =>
        rw [Option.getD_some, Subtype.ext_iff]
        simp [emptyDesc]
  constructor
  · intro ht
    obtain ⟨d, hd, hle⟩ := ht.sourceUri
    refine ⟨fun d' hd' => ?_, htemp.1 ht.tempFilename⟩
    rw [hd, Option.mem_some_iff] at hd'
    rw [← hd']
    exact hle
  · rintro ⟨hle, hempty⟩
    obtain ⟨d, hd⟩ := Option.ne_none_iff_exists'.1 h.allocated.sourceUri
    exact ⟨⟨h.allocated.url, h.allocated.icon, ⟨d, hd, hle d hd⟩, h.allocated.redirUrl⟩,
      h.allocated.destFilename, htemp.2 hempty⟩

theorem handsOver_iff_fits [DescriptorStream] {d : CDownloadDataClient} (h : d.Held) :
    d.HandsOver ↔ ∀ m ∈ d.iMediaArray.val, m.Fits := by
  have hsound := h.sound
  rw [handsOver_iff_transferable hsound.accepted]
  constructor
  · intro ht m hmem
    exact (hsound.media m hmem).transferable_iff.1 (ht.media m hmem)
  · intro hfits
    exact ⟨hsound.icon.1, hsound.updatedDDUri.1, fun m hmem =>
      (hsound.media m hmem).transferable_iff.2 (hfits m hmem)⟩

/-- A descriptor that the engine can hold is handed over if and only if every source URI has at
most 1024 characters and no temporary file name is set. With null pointers, which `NewL` does not
leave, it is handed over if and only if at most the names, the types and the temporary file names
are null. -/
theorem handsOver_iff [DescriptorStream] (d : CDownloadDataClient) :
    (d.Held → (d.HandsOver ↔ ∀ m ∈ d.iMediaArray.val, m.Fits)) ∧
      (d.Accepted → (d.HandsOver ↔ d.Transferable)) :=
  ⟨handsOver_iff_fits, handsOver_iff_transferable⟩

/-! ## A source URI that is too long -/

namespace Reference

/-- A number in one, two or four bytes; the low bits of the first byte say which. -/
def writeCardinality (n : Nat) : List UInt8 :=
  if n < 128 then leBytes 1 (n * 2)
  else if n < 16384 then leBytes 2 (n * 4 + 1)
  else leBytes 4 (n * 8 + 3)

/-- The number that is read back. -/
def readCardinality : Reader Nat := fun bytes =>
  match bytes with
  | [] => .error .eof
  | b :: _ =>
      if b.toNat % 2 = 0 then (readLe 1 >>= fun v => pure (v / 2)) bytes
      else if b.toNat % 4 = 1 then (readLe 2 >>= fun v => pure (v / 4)) bytes
      else (readLe 4 >>= fun v => pure (v / 8)) bytes

theorem reads_cardinality {n : Nat} (h : n < 536870912) :
    Reads readCardinality (writeCardinality n) n := by
  intro rest
  unfold writeCardinality
  split
  · next hlt =>
      have hread := (reads_readLe (k := 1) (n := n * 2) (by omega)).bind_pure (fun v => v / 2) rest
      have hbyte : (UInt8.ofNat (n * 2)).toNat % 2 = 0 := by
        rw [UInt8.toNat_ofNat']
        omega
      show (if (UInt8.ofNat (n * 2)).toNat % 2 = 0 then _ else _) = _
      rw [if_pos hbyte]
      rw [Nat.mul_div_cancel _ (by decide)] at hread
      exact hread
  · split
    · next hlt =>
        have hread :=
          (reads_readLe (k := 2) (n := n * 4 + 1) (by omega)).bind_pure (fun v => v / 4) rest
        have hbyte : (UInt8.ofNat (n * 4 + 1)).toNat % 2 ≠ 0 ∧
            (UInt8.ofNat (n * 4 + 1)).toNat % 4 = 1 := by
          rw [UInt8.toNat_ofNat']
          omega
        show (if (UInt8.ofNat (n * 4 + 1)).toNat % 2 = 0 then _ else
          if (UInt8.ofNat (n * 4 + 1)).toNat % 4 = 1 then _ else _) = _
        rw [if_neg hbyte.1, if_pos hbyte.2]
        rw [show (n * 4 + 1) / 4 = n by omega] at hread
        exact hread
    · have hread :=
        (reads_readLe (k := 4) (n := n * 8 + 3) (by omega)).bind_pure (fun v => v / 8) rest
      have hbyte : (UInt8.ofNat (n * 8 + 3)).toNat % 2 ≠ 0 ∧
          (UInt8.ofNat (n * 8 + 3)).toNat % 4 ≠ 1 := by
        rw [UInt8.toNat_ofNat']
        omega
      show (if (UInt8.ofNat (n * 8 + 3)).toNat % 2 = 0 then _ else
        if (UInt8.ofNat (n * 8 + 3)).toNat % 4 = 1 then _ else _) = _
      rw [if_neg hbyte.1, if_neg hbyte.2]
      rw [show (n * 8 + 3) / 8 = n by omega] at hread
      exact hread

/-- A descriptor of the given width behind its header; what is not one leaves. -/
def readDesc {α : Type} (width aMaxLength : Nat) (units : Nat → Reader (List α)) :
    Reader (Desc α) := do
  let header ← readCardinality
  if header % 2 = width then
    if aMaxLength < header / 2 then failWith .eof
    else do
      let d ← units (header / 2)
      if h : d.length < 268435456 then pure ⟨d, h⟩ else failWith .eof
  else failWith .eof

section ReadDesc

variable {α : Type} {width aMaxLength : Nat} {units : Nat → Reader (List α)}
  {bytes : List UInt8} {d : Desc α}

theorem reads_readDesc (hwidth : width < 2) (hlength : d.val.length ≤ aMaxLength)
    (hunits : Reads (units d.val.length) bytes d.val) :
    Reads (readDesc width aMaxLength units)
      (writeCardinality (d.val.length * 2 + width) ++ bytes) d := by
  have hlt := d.property
  have hheader : Reads readCardinality (writeCardinality (d.val.length * 2 + width)) _ :=
    reads_cardinality (by omega)
  refine hheader.bind ?_
  have hdiv : (d.val.length * 2 + width) / 2 = d.val.length := by omega
  rw [if_pos (by omega), hdiv, if_neg (by omega)]
  have hlast : Reads (if h : d.val.length < 268435456 then (pure ⟨d.val, h⟩ : Reader (Desc α))
      else failWith .eof) [] d := by
    rw [dif_pos d.property]
    exact Reads.pure d
  have hread := hunits.bind
    (k := fun d =>
      (if h : d.length < 268435456 then pure ⟨d, h⟩ else failWith .eof : Reader (Desc α))) hlast
  rwa [List.append_nil] at hread

theorem readDesc_fails {β : Type} {other : Nat} {d : Desc β} (hother : other < 2)
    (h : other ≠ width ∨ aMaxLength < d.val.length) (rest : List UInt8) :
    ∃ e, readDesc width aMaxLength units
      (writeCardinality (d.val.length * 2 + other) ++ bytes ++ rest) = .error e := by
  have hlt := d.property
  have hheader : Reads readCardinality (writeCardinality (d.val.length * 2 + other)) _ :=
    reads_cardinality (by omega)
  refine ⟨.eof, ?_⟩
  show (readCardinality _).bind _ = _
  rw [List.append_assoc, hheader (bytes ++ rest)]
  show (if (d.val.length * 2 + other) % 2 = width then
    if aMaxLength < (d.val.length * 2 + other) / 2 then failWith .eof else _
    else failWith .eof : Reader (Desc α)) (bytes ++ rest) = _
  by_cases hwidth : (d.val.length * 2 + other) % 2 = width
  · rw [if_pos hwidth, if_pos (by omega)]
    rfl
  · rw [if_neg hwidth]
    rfl

end ReadDesc

/-- The header of a descriptor is its length and one bit for its width; 8-bit characters follow as
they are. -/
scoped instance descriptorStream : DescriptorStream where
  write8 d := writeCardinality (d.val.length * 2 + 1) ++ d.val
  write16 d := writeCardinality (d.val.length * 2 + 0) ++ writeUnits d.val
  newL8 aMaxLength := readDesc 1 aMaxLength readBytes
  newL16 aMaxLength := readDesc 0 aMaxLength readUnits
  reads8 _ _ h := reads_readDesc (by decide) h (reads_readBytes rfl)
  reads16 _ d h := reads_readDesc (by decide) h (reads_readUnits d.val)
  long8 _ _ h := readDesc_fails (by decide) (.inr h)
  wide8 _ _ := readDesc_fails (by decide) (.inl (by decide))

end Reference

open Reference

/-- A track with a URL and two types. -/
def track : CMediaDataClient :=
  { CMediaDataClient.newL with
    iUrl := some ⟨[0x68, 0x3a, 0x61], by decide⟩
    iSize := 9
    iTypes := some ⟨[⟨[0x61], by decide⟩, ⟨[0x62], by decide⟩], by decide⟩ }

/-- A download with one track is handed over. -/
theorem handsOver_oneTrack :
    CDownloadDataClient.HandsOver
      { CDownloadDataClient.newL with iSize := 9, iMediaArray := ⟨[track], by decide⟩ } := by
  have htrack : track.Held := by
    have hurl : CMediaDataClient.Held _ :=
      .set .newL (.setUrlL ⟨[0x68, 0x3a, 0x61], by decide⟩) rfl
    have hsize : CMediaDataClient.Held _ := hurl.set (.setSize 9) rfl
    have htype : CMediaDataClient.Held _ := hsize.set (.addTypeL ⟨[0x61], by decide⟩) rfl
    exact htype.set (.addTypeL ⟨[0x62], by decide⟩) rfl
  have hsize : CDownloadDataClient.Held _ := .set .newL (.setSize 9) rfl
  refine ((handsOver_iff _).1 (hsize.append htrack rfl)).2 fun m hmem => ?_
  obtain rfl := List.mem_singleton.1 hmem
  refine ⟨atMost_empty _, fun d hd => ?_⟩
  rw [← Option.mem_some_iff.1 hd]
  rfl

/-- A source URI of 1025 characters is written and not read back. -/
theorem not_handsOver : ¬ ∀ d : CDownloadDataClient, d.Held → d.HandsOver := by
  intro h
  let uri : Desc UInt8 := ⟨List.replicate 1025 0x61, by rw [List.length_replicate]; decide⟩
  have htrack : CMediaDataClient.Held _ := .set .newL (.setSourceUriL uri) rfl
  have hheld : CDownloadDataClient.Held _ := .append .newL htrack rfl
  have hfits := (handsOver_iff_fits hheld).1 (h _ hheld) _ List.mem_cons_self
  have hle : uri.val.length ≤ codUrlMaxLen := hfits.1 uri rfl
  rw [List.length_replicate] at hle
  exact absurd hle (by decide)

end SymbianWeb.Cod.DownloadData
