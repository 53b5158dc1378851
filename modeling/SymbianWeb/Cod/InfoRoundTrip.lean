import Mathlib.Algebra.Order.BigOperators.Group.List
import Mathlib.Algebra.Order.Ring.Nat
import SymbianWeb.Cod.InfoFiles

/-!
# Resume information is read back

What a store function appends is read back by the load function with the same order of fields,
strings that are null included. The store functions succeed exactly when a file is not larger than
their buffer, and this bounds every string in it by what the reader takes (`infoRoundTrips_iff`). The
setters of URLs have no limit, and the headers of a response come from a server, so that a file can
be larger.
-/

set_option autoImplicit false

namespace SymbianWeb.Cod

open ByteStream FixedBuffer
open DownloadData (codTypeMaxLen kMaxFileName writeUint32L readUint32L writeInt32L readInt32L
  reads_readUint32L reads_readInt32L)

/-! ## The bytes of a file -/

/-- The size of a string of 16-bit units in a file, behind its length. -/
def textSize (aSrc : HBufC) : Nat := 4 + 2 * (aSrc.getD []).length

def bytesSize (aSrc : HBufC8) : Nat := 4 + (aSrc.getD []).length

def typesSize (aTypes : List Bytes) : Nat :=
  4 + (aTypes.map fun type => bytesSize (some type)).sum

def headersSize (headers : List HeaderInfo) : Nat :=
  4 + (headers.map fun header =>
    bytesSize header.iFieldName + bytesSize header.iFieldRawData).sum

/-- The size of the file of a media object; there are seven numbers in it. -/
def CMediaObjectData.infoSize (m : CMediaObjectData) (headers : List HeaderInfo) : Nat :=
  textSize m.iName + bytesSize m.iUrl + textSize m.iPrice + bytesSize m.iSourceUri +
    bytesSize m.iInstallNotify + typesSize m.iTypes + textSize m.iFullName +
    textSize (some m.iTempPath) + textSize (some m.iRootPath) + headersSize headers + 7 * 4

/-- The size of the main file, with two numbers. -/
def CCodData.infoSize (d : CCodData) : Nat :=
  textSize d.iName + textSize d.iVendor + bytesSize d.iNextUrl + textSize d.iPrice +
    bytesSize d.iSourceUri + bytesSize d.iInstallNotify + bytesSize d.iUpdatedDDUri + 2 * 4

/-- The limits that the parsers and the types keep: types are not longer than their maximum, paths
are file names, and the count of an array is a `TInt`. -/
structure CCodData.Storable (d : CCodData) : Prop where
  count : d.iMediaObjects.length < 2147483648
  types : ∀ m ∈ d.iMediaObjects, ∀ type ∈ m.iTypes, type.length ≤ codTypeMaxLen
  tempPath : ∀ m ∈ d.iMediaObjects, m.iTempPath.length ≤ kMaxFileName
  rootPath : ∀ m ∈ d.iMediaObjects, m.iRootPath.length ≤ kMaxFileName

/-- The only setter that adds a type keeps the limit of the types. -/
theorem types_addTypeL {m : CMediaObjectData} (h : ∀ type ∈ m.iTypes, type.length ≤ codTypeMaxLen)
    (aType : Text) : ∀ type ∈ (m.addTypeL aType).2.iTypes, type.length ≤ codTypeMaxLen := by
  unfold CMediaObjectData.addTypeL
  split
  · exact h
  · rename_i hlength
    intro type hmem
    rcases List.mem_append.mp hmem with hmem | hmem
    · exact h type hmem
    · rw [List.mem_singleton.mp hmem, convertL, List.length_map]
      omega

/-- The stored fields of a media object are the same. -/
structure CMediaObjectData.SameInfo (m m' : CMediaObjectData) : Prop where
  name : m'.iName = m.iName
  url : m'.iUrl = m.iUrl
  size : m'.iSize = m.iSize
  price : m'.iPrice = m.iPrice
  progressiveDl : m'.iProgressiveDl = m.iProgressiveDl
  sourceUri : m'.iSourceUri = m.iSourceUri
  installNotify : m'.iInstallNotify = m.iInstallNotify
  types : m'.iTypes = m.iTypes
  state : m'.iState = m.iState
  statusCode : m'.iStatusCode = m.iStatusCode
  result : m'.iResult = m.iResult
  pausable : m'.iPausable = m.iPausable
  uniqueFilenameSet : m'.iUniqueFilenameSet = m.iUniqueFilenameSet
  fullName : m'.iFullName = m.iFullName
  tempPath : m'.iTempPath = m.iTempPath
  rootPath : m'.iRootPath = m.iRootPath

/-- The stored fields of the whole and of its media objects are the same. -/
structure CCodData.SameInfo (d d' : CCodData) : Prop where
  name : d'.iName = d.iName
  vendor : d'.iVendor = d.iVendor
  nextUrl : d'.iNextUrl = d.iNextUrl
  size : d'.iSize = d.iSize
  price : d'.iPrice = d.iPrice
  sourceUri : d'.iSourceUri = d.iSourceUri
  installNotify : d'.iInstallNotify = d.iInstallNotify
  updatedDDUri : d'.iUpdatedDDUri = d.iUpdatedDDUri
  mediaObjects : List.Forall₂ CMediaObjectData.SameInfo d.iMediaObjects d'.iMediaObjects

/-- The info files are stored, and a fresh engine that loads them has the same stored fields, and
for each media object the same headers. -/
def CCodData.RoundTrips (d : CCodData) (headers : List (Option (List HeaderInfo)))
    (aFs : FileSizes) : Prop :=
  ∃ files d', d.storeInfoFilesL headers = some files ∧
    CCodData.newL.loadInfoFilesL files aFs = .ok d' ∧ d.SameInfo d' ∧
    ∀ i m aHeaders, (d.iMediaObjects.zip headers)[i]? = some (m, aHeaders) →
      ∃ m', CMediaObjectData.newL.loadSubInfoFileL files aFs (i + 1) (some []) =
        .ok (m', some (aHeaders.getD []))

/-- All files fit in the buffer they are put together in. -/
def CCodData.InfoFits (d : CCodData) (headers : List (Option (List HeaderInfo))) : Prop :=
  d.infoSize ≤ KDownloadInfoIncrSize ∧
    ∀ entry ∈ d.iMediaObjects.zip headers,
      entry.1.infoSize (entry.2.getD []) ≤ KDownloadInfoIncrSize

/-! ## Strings -/

def textBytes (aSrc : HBufC) : Bytes :=
  writeInt32 (match aSrc with
    | some src => src.length * 2
    | none => KNullBuffer) ++ writeUnits (aSrc.getD [])

def hbufBytes (aSrc : HBufC8) : Bytes :=
  writeInt32 (match aSrc with
    | some src => src.length
    | none => KNullBuffer) ++ aSrc.getD []

@[simp] theorem length_writeInt32 (v : Int) : (writeInt32 v).length = 4 := length_leBytes 4 _

theorem length_writeUnits (text : Text) : (writeUnits text).length = 2 * text.length := by
  induction text with
  | nil => rfl
  | cons u text ih =>
      rw [writeUnits, List.flatMap_cons, List.length_append, length_leBytes, List.length_cons]
      rw [writeUnits] at ih
      omega

theorem length_textBytes (aSrc : HBufC) : (textBytes aSrc).length = textSize aSrc := by
  unfold textBytes
  rw [List.length_append, length_writeInt32, length_writeUnits, textSize]

theorem length_hbufBytes (aSrc : HBufC8) : (hbufBytes aSrc).length = bytesSize aSrc := by
  unfold hbufBytes
  rw [List.length_append, length_writeInt32, bytesSize]

/-- The units of a text are those of its bytes. -/
theorem units_writeUnits (text : Text) : units (writeUnits text) = text := by
  induction text with
  | nil => rfl
  | cons u text ih =>
      have hu := u.toNat_lt
      have hunit : unit (UInt8.ofNat u.toNat) (UInt8.ofNat (u.toNat / 256)) = u := by
        rw [unit, ← UInt16.toNat_inj, UInt16.toNat_ofNat', UInt8.toNat_ofNat', UInt8.toNat_ofNat']
        show (u.toNat % 256 + 256 * (u.toNat / 256 % 256)) % 65536 = u.toNat
        omega
      show unit (UInt8.ofNat u.toNat) (UInt8.ofNat (u.toNat / 256)) :: units (writeUnits text) = _
      rw [hunit, ih]

theorem writes_appendBufL (aSrc : HBufC) :
    Writes KDownloadInfoIncrSize (appendBufL aSrc) (textBytes aSrc) := by
  refine (Writes.append _).bind ?_
  match aSrc with
  | none => exact Writes.nil
  | some [] => exact Writes.nil
  | some (u :: text) =>
      have hpos : (0 : Int) < (u :: text).length * 2 := by
        rw [List.length_cons]
        omega
      intro dest _
      exact if_pos hpos

theorem writes_appendBufL8 (aSrc : HBufC8) :
    Writes KDownloadInfoIncrSize (appendBufL8 aSrc) (hbufBytes aSrc) := by
  refine (Writes.append _).bind ?_
  match aSrc with
  | none => exact Writes.nil
  | some [] => exact Writes.nil
  | some (b :: bytes) =>
      have hpos : (0 : Int) < (b :: bytes).length := by
        rw [List.length_cons]
        omega
      intro dest _
      exact if_pos hpos

/-- A length that the reader takes. -/
theorem reads_readLengthL {n : Nat} (h : n ≤ 10 * 1024) :
    Reads readLengthL (writeInt32 n) (some n) := by
  have h₁ : ¬ ((n : Int) > 10 * 1024) := by omega
  have h₂ : ¬ ((n : Int) = KNullBuffer) := by
    rw [KNullBuffer]
    omega
  have h₃ : ¬ ((n : Int) < 0) := by omega
  refine (reads_readInt32 (by omega) (by omega)).bind_nil ?_
  rw [if_neg h₁, if_neg h₂, if_neg h₃, Int.toNat_natCast]
  exact Reads.pure _

theorem reads_readLengthL_null : Reads readLengthL (writeInt32 KNullBuffer) none := by
  refine (reads_readInt32 (by decide) (by decide)).bind_nil ?_
  rw [if_neg (by decide), if_pos rfl]
  exact Reads.pure none

theorem reads_readHBufCL {aSrc : HBufC} (h : textSize aSrc ≤ KDownloadInfoIncrSize) :
    Reads readHBufCL (textBytes aSrc) aSrc := by
  cases aSrc with
  | none => exact reads_readLengthL_null.bind (Reads.pure none)
  | some text =>
      have hle : text.length * 2 ≤ 10 * 1024 := by
        simp only [textSize, Option.getD_some, KDownloadInfoIncrSize] at h
        omega
      have hlength : (writeUnits text).length = text.length * 2 := by
        rw [length_writeUnits, Nat.mul_comm]
      have hread := (reads_readBytes hlength).map fun block => (some (units block) : HBufC)
      rw [units_writeUnits] at hread
      have hlen := reads_readLengthL hle
      rw [Int.natCast_mul] at hlen
      exact hlen.bind hread

theorem reads_readHBufCL8 {aSrc : HBufC8} (h : bytesSize aSrc ≤ KDownloadInfoIncrSize) :
    Reads readHBufCL8 (hbufBytes aSrc) aSrc := by
  cases aSrc with
  | none => exact reads_readLengthL_null.bind (Reads.pure none)
  | some bytes =>
      have hle : bytes.length ≤ 10 * 1024 := by
        simp only [bytesSize, Option.getD_some, KDownloadInfoIncrSize] at h
        omega
      exact (reads_readLengthL hle).bind ((reads_readBytes rfl).map some)

/-! ## Lists -/

def typesBytes (aTypes : List Bytes) : Bytes :=
  writeInt32 aTypes.length ++ aTypes.flatMap fun type => hbufBytes (some type)

def headerBytes (header : HeaderInfo) : Bytes :=
  hbufBytes header.iFieldName ++ hbufBytes header.iFieldRawData

def headersBytes (headers : List HeaderInfo) : Bytes :=
  writeInt32 headers.length ++ headers.flatMap headerBytes

theorem length_typesBytes (aTypes : List Bytes) :
    (typesBytes aTypes).length = typesSize aTypes := by
  rw [typesBytes, List.length_append, length_writeInt32, List.length_flatMap, typesSize]
  simp only [length_hbufBytes]

theorem length_headersBytes (headers : List HeaderInfo) :
    (headersBytes headers).length = headersSize headers := by
  rw [headersBytes, List.length_append, length_writeInt32, List.length_flatMap, headersSize]
  simp only [headerBytes, List.length_append, length_hbufBytes]

theorem writes_appendContentTypesL {aTypes : List Bytes}
    (h : ∀ type ∈ aTypes, type.length ≤ codTypeMaxLen) :
    Writes KDownloadInfoIncrSize (appendContentTypesL aTypes) (typesBytes aTypes) := by
  refine (Writes.append _).bind (writes_foldlM fun type hmem => ?_)
  intro dest hdest
  simp only [if_pos (h type hmem)]
  exact writes_appendBufL8 (some type) dest hdest

theorem writes_appendHeadersL (aHeaders : Option (List HeaderInfo)) :
    Writes KDownloadInfoIncrSize (appendHeadersL aHeaders) (headersBytes (aHeaders.getD [])) := by
  cases aHeaders with
  | none =>
      intro dest _
      show append KDownloadInfoIncrSize (writeInt32 0) dest = _
      rw [Option.getD_none, headersBytes, List.flatMap_nil, List.append_nil]
      rfl
  | some headers =>
      refine (Writes.append _).bind (writes_foldlM fun header _ => ?_)
      exact (writes_appendBufL8 header.iFieldName).bind (writes_appendBufL8 header.iFieldRawData)

/-- As many elements as the sum has units of four. -/
theorem length_le_of_sum {ι : Type} {f : ι → Nat} {l : List ι} (h : ∀ i, 4 ≤ f i) :
    4 * l.length ≤ (l.map f).sum := by
  induction l with
  | nil => simp
  | cons i l ih =>
      have hi := h i
      rw [List.length_cons, List.map_cons, List.sum_cons]
      omega

/-- A list that is written with its count. -/
theorem reads_counted {ι : Type} {r : Reader ι} {w : ι → Bytes} {l : List ι}
    (hcount : l.length < 2147483648) (h : ∀ i ∈ l, Reads r (w i) i) :
    Reads (readInt32 >>= fun n => readList r n.toNat) (writeInt32 l.length ++ l.flatMap w) l := by
  have hlist := (carries_readList (p := fun _ => True) (f := id) fun i hmem =>
    (h i hmem).carries).reads fun _ _ => trivial
  rw [List.map_id] at hlist
  refine (reads_readInt32 (by omega) (by omega)).bind ?_
  rwa [Int.toNat_natCast]

theorem reads_loadContentTypesL {aTypes : List Bytes}
    (h : typesSize aTypes ≤ KDownloadInfoIncrSize) :
    Reads loadContentTypesL (typesBytes aTypes) aTypes := by
  rw [typesSize, KDownloadInfoIncrSize] at h
  have hcount := length_le_of_sum (f := fun type => bytesSize (some type)) (l := aTypes)
    fun type => Nat.le_add_right 4 _
  refine reads_counted (by omega) fun type hmem => ?_
  have hle := List.le_sum_of_mem (List.mem_map_of_mem (f := fun type => bytesSize (some type)) hmem)
  refine (reads_readHBufCL8 ?_).bind_nil (Reads.pure type)
  rw [KDownloadInfoIncrSize]
  omega

theorem reads_loadHeadersL {headers : List HeaderInfo}
    (h : headersSize headers ≤ KDownloadInfoIncrSize) (old : List HeaderInfo) :
    Reads (loadHeadersL (some old)) (headersBytes headers) (some headers) := by
  rw [headersSize, KDownloadInfoIncrSize] at h
  have hcount := length_le_of_sum (l := headers) (f := fun header =>
    bytesSize header.iFieldName + bytesSize header.iFieldRawData)
    fun header => by rw [bytesSize]; omega
  have hread : Reads (readInt32 >>= fun n => readList loadHeaderInfoL n.toNat)
      (headersBytes headers) headers := by
    refine reads_counted (by omega) fun header hmem => ?_
    have hle := List.le_sum_of_mem (List.mem_map_of_mem (f := fun header : HeaderInfo =>
      bytesSize header.iFieldName + bytesSize header.iFieldRawData) hmem)
    refine (reads_readHBufCL8 ?_).bind ((reads_readHBufCL8 ?_).bind_nil (Reads.pure header))
    · rw [KDownloadInfoIncrSize]
      omega
    · rw [KDownloadInfoIncrSize]
      omega
  have hmap := hread.map some
  rwa [map_bind] at hmap

/-! ## Files -/

def boolBytes (flag : Bool) : Bytes := writeInt32L (if flag then 1 else 0)

/-- What is in the file of a media object before the headers. -/
def CMediaObjectData.infoBytes (m : CMediaObjectData) (headers : Bytes) : Bytes :=
  textBytes m.iName ++ (hbufBytes m.iUrl ++ (writeUint32L m.iSize ++ (textBytes m.iPrice ++
  (boolBytes m.iProgressiveDl ++ (hbufBytes m.iSourceUri ++ (hbufBytes m.iInstallNotify ++
  (typesBytes m.iTypes ++ (writeInt32L m.iState ++ (writeInt32L m.iStatusCode ++
  (writeInt32L m.iResult ++ (boolBytes m.iPausable ++ (boolBytes m.iUniqueFilenameSet ++
  (textBytes m.iFullName ++ (textBytes (some m.iTempPath) ++ (textBytes (some m.iRootPath) ++
  headers)))))))))))))))

def CCodData.infoBytes (d : CCodData) : Bytes :=
  textBytes d.iName ++ (textBytes d.iVendor ++ (hbufBytes d.iNextUrl ++ (writeUint32L d.iSize ++
  (textBytes d.iPrice ++ (hbufBytes d.iSourceUri ++ (hbufBytes d.iInstallNotify ++
  (hbufBytes d.iUpdatedDDUri ++ writeInt32 d.iMediaObjects.length)))))))

theorem length_mediaInfoBytes (m : CMediaObjectData) (headers : List HeaderInfo) :
    (m.infoBytes (headersBytes headers)).length = m.infoSize headers := by
  simp only [CMediaObjectData.infoBytes, List.length_append, length_textBytes, length_hbufBytes,
    length_typesBytes, length_headersBytes, boolBytes, writeInt32L, writeUint32L, length_leBytes,
    length_writeInt32, CMediaObjectData.infoSize]
  omega

theorem length_infoBytes (d : CCodData) : d.infoBytes.length = d.infoSize := by
  simp only [CCodData.infoBytes, List.length_append, length_textBytes, length_hbufBytes,
    writeUint32L, length_leBytes, length_writeInt32, CCodData.infoSize]
  omega

theorem writes_storeMediaInfoL {m : CMediaObjectData}
    (h : ∀ type ∈ m.iTypes, type.length ≤ codTypeMaxLen) (aHeaders : Option (List HeaderInfo)) :
    Writes KDownloadInfoIncrSize (m.storeMediaInfoL aHeaders)
      (m.infoBytes (headersBytes (aHeaders.getD []))) :=
  (writes_appendBufL _).bind ((writes_appendBufL8 _).bind ((Writes.append _).bind
    ((writes_appendBufL _).bind ((Writes.append _).bind ((writes_appendBufL8 _).bind
    ((writes_appendBufL8 _).bind ((writes_appendContentTypesL h).bind ((Writes.append _).bind
    ((Writes.append _).bind ((Writes.append _).bind ((Writes.append _).bind
    ((Writes.append _).bind ((writes_appendBufL _).bind ((writes_appendBufL _).bind
    ((writes_appendBufL _).bind (writes_appendHeadersL aHeaders))))))))))))))))

theorem writes_appendStorageInfoL (d : CCodData) :
    Writes KDownloadInfoIncrSize d.appendStorageInfoL d.infoBytes :=
  (writes_appendBufL _).bind ((writes_appendBufL _).bind ((writes_appendBufL8 _).bind
    ((Writes.append _).bind ((writes_appendBufL _).bind ((writes_appendBufL8 _).bind
    ((writes_appendBufL8 _).bind ((writes_appendBufL8 _).bind (Writes.append _))))))))

/-! ## Loading -/

/-- The media object that a fresh one becomes when the file of `m` is loaded. -/
def CMediaObjectData.restored (m : CMediaObjectData) (aFs : FileSizes) : CMediaObjectData :=
  CMediaObjectData.setDownloadedFileSizeL
    { CMediaObjectData.newL with
      iName := m.iName, iUrl := m.iUrl, iSize := m.iSize, iPrice := m.iPrice
      iProgressiveDl := m.iProgressiveDl, iSourceUri := m.iSourceUri
      iInstallNotify := m.iInstallNotify, iTypes := m.iTypes, iState := m.iState
      iStatusCode := m.iStatusCode, iResult := m.iResult, iPausable := m.iPausable
      iUniqueFilenameSet := m.iUniqueFilenameSet, iFullName := m.iFullName
      iTempPath := m.iTempPath, iRootPath := m.iRootPath } aFs

theorem CMediaObjectData.sameInfo_restored (m : CMediaObjectData) (aFs : FileSizes) :
    m.SameInfo (m.restored aFs) := by
  unfold restored setDownloadedFileSizeL
  split
  · constructor <;> rfl
  · constructor <;> rfl

theorem reads_readBoolL (flag : Bool) : Reads readBoolL (boolBytes flag) flag := by
  have hread := (reads_readInt32L (if flag then 1 else 0)).map fun v => decide (v ≠ 0)
  cases flag with
  | false => exact hread
  | true => exact hread

/-- A path of a file is not null; the empty path of a fresh object stays when it is empty. -/
theorem reads_pathL {β : Type} {path : Text} (h : path.length ≤ kMaxFileName)
    (hsize : textSize (some path) ≤ KDownloadInfoIncrSize) {k : Text → Reader β} {bytes : Bytes}
    {b : β} (hk : Reads (k path) bytes b) :
    Reads (readHBufCL >>= fun aBuf => pathL [] aBuf >>= k) (textBytes (some path) ++ bytes) b := by
  have hpath : Reads (pathL [] (some path)) [] path := by
    refine (Reads.pure path).bind_nil ?_
    by_cases hnil : path = []
    · rw [if_pos hnil, hnil]
      exact Reads.pure []
    · rw [if_neg hnil, if_pos h]
      exact Reads.pure path
  refine (reads_readHBufCL hsize).bind ?_
  have hread := hpath.bind hk
  rwa [List.nil_append] at hread

/-- The file of a media object is read back into a fresh one, whatever is read of the headers. -/
theorem reads_loadMediaInfoL {m : CMediaObjectData} {headers : List HeaderInfo} {bytes : Bytes}
    (hsize : m.infoSize headers ≤ KDownloadInfoIncrSize) (htemp : m.iTempPath.length ≤ kMaxFileName)
    (hroot : m.iRootPath.length ≤ kMaxFileName) (aFs : FileSizes)
    {aHeaders loaded : Option (List HeaderInfo)} (hheaders : Reads (loadHeadersL aHeaders) bytes loaded) :
    Reads (CMediaObjectData.newL.loadMediaInfoL aFs aHeaders) (m.infoBytes bytes)
      (m.restored aFs, loaded) := by
  rw [CMediaObjectData.infoSize] at hsize
  unfold CMediaObjectData.loadMediaInfoL CMediaObjectData.infoBytes
  -- The fields, in the order of the file.
  refine (reads_readHBufCL (by omega)).bind ?_
  refine (reads_readHBufCL8 (by omega)).bind ?_
  refine (reads_readUint32L _).bind ?_
  refine (reads_readHBufCL (by omega)).bind ?_
  refine (reads_readBoolL _).bind ?_
  refine (reads_readHBufCL8 (by omega)).bind ?_
  refine (reads_readHBufCL8 (by omega)).bind ?_
  refine (reads_loadContentTypesL (by omega)).bind ?_
  refine (reads_readInt32L _).bind ?_
  refine (reads_readInt32L _).bind ?_
  refine (reads_readInt32L _).bind ?_
  refine (reads_readBoolL _).bind ?_
  refine (reads_readBoolL _).bind ?_
  refine (reads_readHBufCL (by omega)).bind ?_
  refine reads_pathL htemp (by omega) ?_
  refine reads_pathL hroot (by omega) ?_
  exact hheaders.bind_nil (Reads.pure (m.restored aFs, loaded))

/-- Fresh media objects have no size. -/
theorem foldl_appendMediaObjectL_new (n : Nat) (d : CCodData) :
    (List.replicate n CMediaObjectData.newL).foldl CCodData.appendMediaObjectL d =
      { d with iMediaObjects := d.iMediaObjects ++ List.replicate n CMediaObjectData.newL } := by
  induction n generalizing d with
  | zero => simp
  | succ n ih =>
      have hsize : d.iSize + CMediaObjectData.newL.iSize = d.iSize := UInt32.add_zero d.iSize
      rw [List.replicate_succ, List.foldl_cons, ih, CCodData.appendMediaObjectL, hsize]
      simp

/-- The main file is read back into a fresh engine. -/
theorem reads_loadStorageInfoL {d : CCodData} (hcount : d.iMediaObjects.length < 2147483648)
    (hsize : d.infoSize ≤ KDownloadInfoIncrSize) :
    Reads CCodData.newL.loadStorageInfoL d.infoBytes
      { CCodData.newL with
        iName := d.iName, iVendor := d.iVendor, iNextUrl := d.iNextUrl, iSize := d.iSize
        iPrice := d.iPrice, iSourceUri := d.iSourceUri, iInstallNotify := d.iInstallNotify
        iUpdatedDDUri := d.iUpdatedDDUri
        iMediaObjects := List.replicate d.iMediaObjects.length CMediaObjectData.newL } := by
  rw [CCodData.infoSize] at hsize
  unfold CCodData.loadStorageInfoL CCodData.infoBytes
  refine (reads_readHBufCL (by omega)).bind ?_
  refine (reads_readHBufCL (by omega)).bind ?_
  refine (reads_readHBufCL8 (by omega)).bind ?_
  refine (reads_readUint32L _).bind ?_
  refine (reads_readHBufCL (by omega)).bind ?_
  refine (reads_readHBufCL8 (by omega)).bind ?_
  refine (reads_readHBufCL8 (by omega)).bind ?_
  refine (reads_readHBufCL8 (by omega)).bind ?_
  refine (reads_readInt32 (by omega) (by omega)).bind_nil ?_
  rw [Int.toNat_natCast, foldl_appendMediaObjectL_new]
  exact Reads.pure _

/-- The loop over the media objects loads each from its file. -/
theorem loadSubInfoFiles_eq {files : InfoFiles} {aFs : FileSizes} (ms : List CMediaObjectData)
    (i : Nat) (h : ∀ k m, ms[k]? = some m →
      CMediaObjectData.newL.loadSubInfoFileL files aFs (i + k) none = .ok (m.restored aFs, none)) :
    loadSubInfoFiles files aFs i (List.replicate ms.length CMediaObjectData.newL) =
      .ok (ms.map fun m => m.restored aFs) := by
  induction ms generalizing i with
  | nil => rfl
  | cons m ms ih =>
      have hfirst := h 0 m rfl
      have hrest := ih (i + 1) fun k m' hk => by
        have hnext := h (k + 1) m' hk
        rwa [Nat.add_assoc, Nat.add_comm 1 k]
      rw [Nat.add_zero] at hfirst
      rw [List.length_cons, List.replicate_succ, loadSubInfoFiles, hfirst]
      show (loadSubInfoFiles files aFs (i + 1) (List.replicate ms.length CMediaObjectData.newL)).bind
        _ = _
      rw [hrest]
      rfl

/-! ## The round trip -/

theorem mapM_option {ι α : Type} {f : ι → Option α} {g : ι → α} {fits : ι → Prop}
    [DecidablePred fits] {l : List ι}
    (h : ∀ i ∈ l, f i = if fits i then some (g i) else none) :
    l.mapM f = if ∀ i ∈ l, fits i then some (l.map g) else none := by
  induction l with
  | nil => rfl
  | cons i l ih =>
      rw [List.mapM_cons, h i List.mem_cons_self,
        ih fun j hj => h j (List.mem_cons_of_mem i hj)]
      by_cases hi : fits i
      · by_cases hl : ∀ j ∈ l, fits j
        · rw [if_pos hi, if_pos hl, if_pos (List.forall_mem_cons.mpr ⟨hi, hl⟩)]
          rfl
        · rw [if_pos hi, if_neg hl, if_neg fun h => hl (List.forall_mem_cons.mp h).2]
          rfl
      · rw [if_neg hi, if_neg fun h => hi (List.forall_mem_cons.mp h).1]
        rfl

instance (d : CCodData) (headers : List (Option (List HeaderInfo))) :
    Decidable (d.InfoFits headers) := inferInstanceAs (Decidable (_ ∧ _))

/-- The files that are stored. -/
def CCodData.storedFiles (d : CCodData) (headers : List (Option (List HeaderInfo))) : InfoFiles where
  main := some d.infoBytes
  sub i := if i = 0 then none else
    ((d.iMediaObjects.zip headers).map fun entry =>
      entry.1.infoBytes (headersBytes (entry.2.getD [])))[i - 1]?

/-- The files are stored exactly when each fits in the buffer. -/
theorem storeInfoFilesL_eq {d : CCodData} (hd : d.Storable)
    (headers : List (Option (List HeaderInfo))) :
    d.storeInfoFilesL headers =
      if d.InfoFits headers then some (d.storedFiles headers) else none := by
  have hmain := (writes_appendStorageInfoL d).run
  rw [length_infoBytes] at hmain
  have hsub : ∀ entry ∈ d.iMediaObjects.zip headers, entry.1.storeMediaInfoL entry.2 [] =
      if entry.1.infoSize (entry.2.getD []) ≤ KDownloadInfoIncrSize then
        some (entry.1.infoBytes (headersBytes (entry.2.getD []))) else none := by
    intro entry hmem
    have hrun := (writes_storeMediaInfoL (hd.types entry.1 (List.of_mem_zip hmem).1) entry.2).run
    rwa [length_mediaInfoBytes] at hrun
  have hsubs := mapM_option hsub
  unfold CCodData.storeInfoFilesL
  rw [hmain]
  by_cases hfit : d.infoSize ≤ KDownloadInfoIncrSize
  · rw [if_pos hfit]
    show ((d.iMediaObjects.zip headers).mapM fun entry : CMediaObjectData × _ =>
      entry.1.storeMediaInfoL entry.2 []).bind _ = _
    rw [hsubs]
    by_cases hall : ∀ entry ∈ d.iMediaObjects.zip headers,
        entry.1.infoSize (entry.2.getD []) ≤ KDownloadInfoIncrSize
    · rw [if_pos hall, if_pos ⟨hfit, hall⟩]
      rfl
    · rw [if_neg hall, if_neg fun h => hall h.2]
      rfl
  · rw [if_neg hfit, if_neg fun h => hfit h.1]
    rfl

/-- The file of a media object that fits, loaded into a fresh one, gives its fields and whatever is
read of its headers. -/
theorem loadSubInfoFileL_restored {files : InfoFiles} {d : CCodData} (hd : d.Storable)
    {m : CMediaObjectData} (hm : m ∈ d.iMediaObjects) {headers : List HeaderInfo} {i : Nat}
    (hsub : files.sub i = some (m.infoBytes (headersBytes headers)))
    (hsize : m.infoSize headers ≤ KDownloadInfoIncrSize) (aFs : FileSizes) :
    CMediaObjectData.newL.loadSubInfoFileL files aFs i none = .ok (m.restored aFs, none) ∧
      CMediaObjectData.newL.loadSubInfoFileL files aFs i (some []) =
        .ok (m.restored aFs, some headers) := by
  have hread {aHeaders loaded : Option (List HeaderInfo)} {bytes rest : Bytes}
      (h : Reads (loadHeadersL aHeaders) bytes loaded)
      (hbytes : m.infoBytes (headersBytes headers) = m.infoBytes bytes ++ rest) :
      CMediaObjectData.newL.loadSubInfoFileL files aFs i aHeaders =
        .ok (m.restored aFs, loaded) := by
    have hrun := reads_loadMediaInfoL hsize (hd.tempPath m hm) (hd.rootPath m hm) aFs h rest
    rw [CMediaObjectData.loadSubInfoFileL, hsub, hbytes]
    show Prod.fst <$> CMediaObjectData.newL.loadMediaInfoL aFs aHeaders _ = _
    rw [hrun]
    rfl
  have hheaders : headersSize headers ≤ KDownloadInfoIncrSize := by
    rw [CMediaObjectData.infoSize] at hsize
    omega
  constructor
  · -- The headers are left in the file.
    have hbytes : m.infoBytes (headersBytes headers) =
        m.infoBytes [] ++ headersBytes headers := by
      simp only [CMediaObjectData.infoBytes, List.append_assoc, List.append_nil]
    exact hread (Reads.pure none) hbytes
  · exact hread (reads_loadHeadersL hheaders []) (List.append_nil _).symm

theorem storedFiles_sub {d : CCodData} {headers : List (Option (List HeaderInfo))} {k : Nat}
    {m : CMediaObjectData} {aHeaders : Option (List HeaderInfo)}
    (hk : (d.iMediaObjects.zip headers)[k]? = some (m, aHeaders)) :
    (d.storedFiles headers).sub (k + 1) =
      some (m.infoBytes (headersBytes (aHeaders.getD []))) := by
  unfold CCodData.storedFiles
  simp only [Nat.succ_ne_zero, if_false, Nat.add_sub_cancel, List.getElem?_map, hk, Option.map_some]

/-- The main file that is stored gives the fields of the whole, and fresh media objects. -/
theorem loadMainInfoFileL_storedFiles {d : CCodData} (hd : d.Storable)
    (headers : List (Option (List HeaderInfo))) (hsize : d.infoSize ≤ KDownloadInfoIncrSize) :
    CCodData.newL.loadMainInfoFileL (d.storedFiles headers) = .ok
      { CCodData.newL with
        iName := d.iName, iVendor := d.iVendor, iNextUrl := d.iNextUrl, iSize := d.iSize
        iPrice := d.iPrice, iSourceUri := d.iSourceUri, iInstallNotify := d.iInstallNotify
        iUpdatedDDUri := d.iUpdatedDDUri
        iMediaObjects := List.replicate d.iMediaObjects.length CMediaObjectData.newL } := by
  have hmain := reads_loadStorageInfoL hd.count hsize []
  rw [List.append_nil] at hmain
  unfold CCodData.loadMainInfoFileL CCodData.storedFiles
  simp only [hmain]
  rfl

/-- Both steps of `LoadInfoFilesL`; it also sets the active download. -/
theorem loadInfoFilesL_of {d d₁ : CCodData} {files : InfoFiles} {aFs : FileSizes}
    {ms : List CMediaObjectData} (hmain : d.loadMainInfoFileL files = .ok d₁)
    (hsubs : loadSubInfoFiles files aFs 1 d₁.iMediaObjects = .ok ms) :
    ∃ active, d.loadInfoFilesL files aFs =
      .ok { d₁ with iMediaObjects := ms, iActiveDownload := active } := by
  unfold CCodData.loadInfoFilesL
  rw [hmain]
  show ∃ active, (loadSubInfoFiles files aFs 1 d₁.iMediaObjects).bind _ = _
  rw [hsubs]
  exact ⟨_, rfl⟩

/-- The resume information of a descriptor is stored and read back with the same values exactly when
each file fits in the buffer. -/
theorem infoRoundTrips_iff (d : CCodData) (hd : d.Storable) (headers : List (Option (List HeaderInfo)))
    (hheaders : headers.length = d.iMediaObjects.length) (aFs : FileSizes) :
    d.RoundTrips headers aFs ↔ d.InfoFits headers := by
  constructor
  · rintro ⟨files, -, hstore, -⟩
    rw [storeInfoFilesL_eq hd] at hstore
    by_contra hfit
    rw [if_neg hfit] at hstore
    cases hstore
  · intro hfit
    have hstore := storeInfoFilesL_eq hd headers
    rw [if_pos hfit] at hstore
    -- The file of a media object, by its place.
    have hsub : ∀ k m aHeaders, (d.iMediaObjects.zip headers)[k]? = some (m, aHeaders) →
        CMediaObjectData.newL.loadSubInfoFileL (d.storedFiles headers) aFs (k + 1) none =
            .ok (m.restored aFs, none) ∧
          CMediaObjectData.newL.loadSubInfoFileL (d.storedFiles headers) aFs (k + 1) (some []) =
            .ok (m.restored aFs, some (aHeaders.getD [])) := by
      intro k m aHeaders hk
      have hmem := List.mem_of_getElem? hk
      have hm : m ∈ d.iMediaObjects := (List.of_mem_zip hmem).1
      have hsize : m.infoSize (aHeaders.getD []) ≤ KDownloadInfoIncrSize :=
        hfit.2 (m, aHeaders) hmem
      have hfile := storedFiles_sub hk
      exact loadSubInfoFileL_restored hd hm hfile hsize aFs
    have hfirst : ∀ k m, d.iMediaObjects[k]? = some m →
        CMediaObjectData.newL.loadSubInfoFileL (d.storedFiles headers) aFs (1 + k) none =
          .ok (m.restored aFs, none) := by
      intro k m hk
      have hlt := (List.getElem?_eq_some_iff.mp hk).1
      have hheader : headers[k]? = some headers[k] := List.getElem?_eq_getElem (by omega)
      rw [Nat.add_comm]
      exact (hsub k m _ (List.getElem?_zip_eq_some.mpr ⟨hk, hheader⟩)).1
    obtain ⟨active, hload⟩ := loadInfoFilesL_of (loadMainInfoFileL_storedFiles hd headers hfit.1)
      (loadSubInfoFiles_eq d.iMediaObjects 1 hfirst)
    refine ⟨d.storedFiles headers, _, hstore, hload, ?_, fun k m aHeaders hk =>
      ⟨_, (hsub k m aHeaders hk).2⟩⟩
    refine ⟨rfl, rfl, rfl, rfl, rfl, rfl, rfl, rfl, ?_⟩
    exact List.forall₂_map_right_iff.mpr
      (List.forall₂_same.mpr fun m _ => m.sameInfo_restored aFs)

/-- A descriptor of one media object. -/
def oneMediaObject (aUrl : Bytes) : CCodData :=
  { CCodData.newL with
    iMediaObjects := [{ CMediaObjectData.newL with iUrl := some aUrl, iTypes := [[97]] }] }

theorem storable_oneMediaObject (aUrl : Bytes) : (oneMediaObject aUrl).Storable where
  count := Nat.lt_of_sub_eq_succ rfl
  types m hm type htype := by
    rw [List.mem_singleton.mp hm] at htype
    rw [List.mem_singleton.mp htype, codTypeMaxLen]
    exact Nat.le_add_left 1 39
  tempPath m hm := by
    rw [List.mem_singleton.mp hm]
    exact Nat.zero_le _
  rootPath m hm := by
    rw [List.mem_singleton.mp hm]
    exact Nat.zero_le _

theorem infoRoundTrips_iff_oneMediaObject :
    (oneMediaObject [104]).RoundTrips [some [⟨some [65], none⟩]] fun _ => none :=
  (infoRoundTrips_iff _ (storable_oneMediaObject _) _ rfl _).mpr (by decide)

/-- A URL of 9000 characters, which the setter takes. -/
theorem not_roundTrips_longUrl : ¬ ∀ (d : CCodData) (headers : List (Option (List HeaderInfo)))
    (aFs : FileSizes), d.Storable → headers.length = d.iMediaObjects.length →
      d.RoundTrips headers aFs := by
  intro h
  have hstorable := storable_oneMediaObject (List.replicate 9000 97)
  obtain ⟨files, -, hstore, -⟩ := h _ [none] (fun _ => none) hstorable rfl
  have hnot : ¬ (oneMediaObject (List.replicate 9000 97)).InfoFits [none] := by
    rintro ⟨-, hfit⟩
    have hsize := hfit _ List.mem_cons_self
    simp only [CMediaObjectData.infoSize, bytesSize, Option.getD_some, List.length_replicate,
      KDownloadInfoIncrSize] at hsize
    omega
  rw [storeInfoFilesL_eq hstorable, if_neg hnot] at hstore
  cases hstore

end SymbianWeb.Cod
