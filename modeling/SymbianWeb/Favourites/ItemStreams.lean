import SymbianWeb.Library.StreamPrograms
import Mathlib.Tactic.NormNum

/-!
# Favourites items on a stream

The client and the server send each other items, lists of items, lists of uids, maps of uids and
the part of an item that the server may change (the update delta). All of these are written field
by field as 32-bit words and strings of 16-bit units with their length in front, and the reader of
each one goes through the same fields in the same order: it reads what the writer wrote, whatever
follows on the stream (`reads_internalizeL`, `reads_internalizeUpdateDeltaL`,
`reads_internalizeList`).

A writer is the list of the blocks of bytes that it hands to the stream one after the other.
-/

set_option autoImplicit false

namespace SymbianWeb.Favourites.Streams

open ByteStream ReadProg

/-- A descriptor on the heap: its length is a number of 28 bits. -/
@[ext] structure HBufC where
  units : List UInt16
  length_lt : units.length < 268435456

/-- An array of the class library: it counts its elements with a `TInt`. -/
structure CArray (α : Type) where
  elements : List α
  count_lt : elements.length < 2147483648

/-- An access point. The kind is an enumeration that is read and written as a word. -/
structure TFavouritesWapAp where
  iApId : BitVec 32
  iValueKind : BitVec 32

/-- A favourites item. The truth values and the type are read and written as words, and what is
read is not checked. -/
structure CFavouritesItemImpl where
  iUid : BitVec 32
  iParentFolder : BitVec 32
  iType : BitVec 32
  iName : HBufC
  iUrl : HBufC
  iWapAp : TFavouritesWapAp
  iUserName : HBufC
  iPassword : HBufC
  iReadOnly : BitVec 32
  iFactoryItem : BitVec 32
  iContextId : BitVec 32
  iModified : BitVec 64
  iHidden : BitVec 32

/-- A pair of a uid map. -/
structure TUidMapping where
  iUid1 : BitVec 32
  iUid2 : BitVec 32
  deriving DecidableEq

/-! ## Words and strings -/

/-- The bytes of a word. -/
def writeInt32L (v : BitVec 32) : List UInt8 := leBytes 4 v.toNat

def readInt32L : ReadProg (BitVec 32) := do
  let block ← bytes 4
  pure (BitVec.ofNat 32 (leValue block))

/-- The upper word of a 64-bit integer. -/
def i64High (v : BitVec 64) : BitVec 32 := v.extractLsb' 32 32

/-- The lower word of a 64-bit integer. -/
def i64Low (v : BitVec 64) : BitVec 32 := v.extractLsb' 0 32

/-- A 64-bit integer from its two words. -/
def makeTInt64 (high low : BitVec 32) : BitVec 64 := high ++ low

/-- A length or a count as a word. -/
def lengthWord (n : Nat) : BitVec 32 := BitVec.ofNat 32 n

/-- The first `n` units of a block of bytes. -/
def unitsOf : Nat → List UInt8 → List UInt16
  | 0, _ => []
  | n + 1, block => UInt16.ofNat (leValue (block.take 2)) :: unitsOf n (block.drop 2)

@[simp] theorem length_unitsOf (n : Nat) (block : List UInt8) : (unitsOf n block).length = n := by
  induction n generalizing block with
  | zero => rfl
  | succ n ih => rw [unitsOf, List.length_cons, ih]

def bufToStreamL (aBuf : HBufC) : List (List UInt8) :=
  [writeInt32L (lengthWord aBuf.units.length), writeUnits aBuf.units]

def bufFromStreamL : ReadProg HBufC := do
  let len ← readInt32L
  -- a descriptor of any other length cannot be allocated
  if h : len.toNat < 268435456 then
    let block ← bytes (2 * len.toNat)
    pure ⟨unitsOf len.toNat block, by rwa [length_unitsOf]⟩
  else
    fail .panic

/-! ## Items -/

def TFavouritesWapAp.externalizeL (ap : TFavouritesWapAp) : List (List UInt8) :=
  [writeInt32L ap.iApId, writeInt32L ap.iValueKind]

def TFavouritesWapAp.internalizeL : ReadProg TFavouritesWapAp := do
  let iApId ← readInt32L
  let iValueKind ← readInt32L
  pure ⟨iApId, iValueKind⟩

namespace CFavouritesItemImpl

def externalizeL (item : CFavouritesItemImpl) : List (List UInt8) :=
  [writeInt32L item.iUid, writeInt32L item.iParentFolder, writeInt32L item.iType]
    ++ bufToStreamL item.iName
    ++ bufToStreamL item.iUrl
    ++ item.iWapAp.externalizeL
    ++ bufToStreamL item.iUserName
    ++ bufToStreamL item.iPassword
    ++ [writeInt32L item.iReadOnly, writeInt32L item.iFactoryItem, writeInt32L item.iContextId,
      writeInt32L (i64High item.iModified), writeInt32L (i64Low item.iModified),
      writeInt32L item.iHidden]

def internalizeL : ReadProg CFavouritesItemImpl := do
  let iUid ← readInt32L
  let iParentFolder ← readInt32L
  let iType ← readInt32L
  let iName ← bufFromStreamL
  let iUrl ← bufFromStreamL
  let iWapAp ← TFavouritesWapAp.internalizeL
  let iUserName ← bufFromStreamL
  let iPassword ← bufFromStreamL
  let iReadOnly ← readInt32L
  let iFactoryItem ← readInt32L
  let iContextId ← readInt32L
  let high ← readInt32L
  let low ← readInt32L
  let iHidden ← readInt32L
  pure ⟨iUid, iParentFolder, iType, iName, iUrl, iWapAp, iUserName, iPassword, iReadOnly,
    iFactoryItem, iContextId, makeTInt64 high low, iHidden⟩

/-- What the server sends back of an item that it has stored. -/
def externalizeUpdateDeltaL (item : CFavouritesItemImpl) : List (List UInt8) :=
  [writeInt32L item.iUid]
    ++ bufToStreamL item.iName
    ++ [writeInt32L (i64High item.iModified), writeInt32L (i64Low item.iModified)]

def internalizeUpdateDeltaL (item : CFavouritesItemImpl) : ReadProg CFavouritesItemImpl := do
  let iUid ← readInt32L
  let iName ← bufFromStreamL
  let high ← readInt32L
  let low ← readInt32L
  pure { item with iUid, iName, iModified := makeTInt64 high low }

/-- An item with what the server changed in it. -/
def withUpdateDelta (item stored : CFavouritesItemImpl) : CFavouritesItemImpl :=
  { item with iUid := stored.iUid, iName := stored.iName, iModified := stored.iModified }

end CFavouritesItemImpl

/-! ## Lists -/

/-- Writes the count of an array and its elements. -/
def externalizeList {α : Type} (write : α → List (List UInt8)) (l : List α) :
    List (List UInt8) :=
  writeInt32L (lengthWord l.length) :: l.flatMap write

/-- Reads a count and so many elements behind those that are there; a negative count is none. -/
def internalizeList {α : Type} (p : ReadProg α) (acc : List α) : ReadProg (List α) := do
  let count ← readInt32L
  p.times count.toInt.toNat acc

/-- Of an item list, on both sides. -/
def itemListExternalizeL : List CFavouritesItemImpl → List (List UInt8) :=
  externalizeList CFavouritesItemImpl.externalizeL

def itemListInternalizeL : List CFavouritesItemImpl → ReadProg (List CFavouritesItemImpl) :=
  internalizeList CFavouritesItemImpl.internalizeL

/-- Of a list of uids. -/
def uidsExternalizeL : List (BitVec 32) → List (List UInt8) :=
  externalizeList fun uid => [writeInt32L uid]

def uidsInternalizeL : List (BitVec 32) → ReadProg (List (BitVec 32)) :=
  internalizeList readInt32L

namespace TUidMapping

def externalizeL (m : TUidMapping) : List (List UInt8) := [writeInt32L m.iUid1, writeInt32L m.iUid2]

def internalizeL : ReadProg TUidMapping := do
  let iUid1 ← readInt32L
  let iUid2 ← readInt32L
  pure ⟨iUid1, iUid2⟩

end TUidMapping

def uidMapExternalizeL : List TUidMapping → List (List UInt8) :=
  externalizeList TUidMapping.externalizeL

/-- The map is reset first; resizing it to a negative count panics. -/
def uidMapInternalizeL : ReadProg (List TUidMapping) := do
  let count ← readInt32L
  if count.toInt < 0 then fail .panic else TUidMapping.internalizeL.times count.toInt.toNat []

/-! ## What is read is what was written -/

theorem reads_readInt32L (v : BitVec 32) : Reads readInt32L.toReader (writeInt32L v) v := by
  have hvalue : leValue (leBytes 4 v.toNat) = v.toNat := by
    rw [leValue_leBytes]
    exact Nat.mod_eq_of_lt (by norm_num; exact v.isLt)
  have hword : BitVec.ofNat 32 (leValue (leBytes 4 v.toNat)) = v := by
    rw [hvalue, BitVec.ofNat_toNat, BitVec.setWidth_eq]
  have h : Reads readInt32L.toReader (leBytes 4 v.toNat ++ []) _ :=
    reads_bind (reads_bytes (length_leBytes 4 v.toNat)) (reads_pure _)
  rwa [hword, List.append_nil] at h

@[simp] theorem toNat_lengthWord {n : Nat} (h : n < 268435456) : (lengthWord n).toNat = n := by
  rw [lengthWord, BitVec.toNat_ofNat]
  exact Nat.mod_eq_of_lt (by omega)

theorem toInt_lengthWord {n : Nat} (h : n < 2147483648) : (lengthWord n).toInt = n := by
  have hlt : n % 2 ^ 32 = n := Nat.mod_eq_of_lt (by omega)
  rw [lengthWord, BitVec.toInt_eq_toNat_cond, BitVec.toNat_ofNat, hlt, if_pos (by omega)]

theorem length_writeUnits (units : List UInt16) :
    (writeUnits units).length = 2 * units.length := by
  induction units with
  | nil => rfl
  | cons u units ih =>
      have hcons : writeUnits (u :: units) = leBytes 2 u.toNat ++ writeUnits units := rfl
      rw [hcons, List.length_append, length_leBytes, ih, List.length_cons]
      omega

theorem unitsOf_writeUnits (units : List UInt16) :
    unitsOf units.length (writeUnits units) = units := by
  induction units with
  | nil => rfl
  | cons u units ih =>
      have hcons : writeUnits (u :: units) = leBytes 2 u.toNat ++ writeUnits units := rfl
      have hvalue : leValue (leBytes 2 u.toNat) = u.toNat := by
        rw [leValue_leBytes]
        exact Nat.mod_eq_of_lt (by norm_num; exact u.toNat_lt)
      rw [hcons, List.length_cons, unitsOf, List.take_left' (length_leBytes 2 _),
        List.drop_left' (length_leBytes 2 _), hvalue, ih, UInt16.ofNat_toNat]

theorem reads_bufFromStreamL (aBuf : HBufC) :
    Reads bufFromStreamL.toReader (bufToStreamL aBuf).flatten aBuf := by
  have hlen := toNat_lengthWord aBuf.length_lt
  have hblock : (writeUnits aBuf.units).length
      = 2 * (lengthWord aBuf.units.length).toNat := by rw [hlen, length_writeUnits]
  refine reads_bind (reads_readInt32L _) ?_
  rw [dif_pos (by rw [hlen]; exact aBuf.length_lt)]
  refine reads_bind (reads_bytes hblock) ?_
  have hbuf : (⟨unitsOf (lengthWord aBuf.units.length).toNat (writeUnits aBuf.units), by
      rw [length_unitsOf, hlen]; exact aBuf.length_lt⟩ : HBufC) = aBuf := by
    ext1
    show unitsOf _ (writeUnits aBuf.units) = aBuf.units
    rw [hlen]
    exact unitsOf_writeUnits aBuf.units
  rw [hbuf]
  exact reads_pure aBuf

theorem makeTInt64_words (v : BitVec 64) : makeTInt64 (i64High v) (i64Low v) = v := by
  have h : makeTInt64 (i64High v) (i64Low v) = v.extractLsb' 0 (32 + 32) :=
    BitVec.extractLsb'_append_extractLsb'_eq_extractLsb' rfl
  rw [h, BitVec.extractLsb'_eq_self]

theorem TFavouritesWapAp.reads_internalizeL (ap : TFavouritesWapAp) :
    Reads TFavouritesWapAp.internalizeL.toReader ap.externalizeL.flatten ap :=
  reads_bind (reads_readInt32L _) (reads_bind (reads_readInt32L _) (reads_pure ap))

theorem TUidMapping.reads_internalizeL (m : TUidMapping) :
    Reads TUidMapping.internalizeL.toReader m.externalizeL.flatten m :=
  reads_bind (reads_readInt32L _) (reads_bind (reads_readInt32L _) (reads_pure m))

namespace CFavouritesItemImpl

theorem reads_internalizeL (item : CFavouritesItemImpl) :
    Reads internalizeL.toReader item.externalizeL.flatten item := by
  have hmodified := makeTInt64_words item.iModified
  have h : Reads internalizeL.toReader _ _ :=
    reads_bind (reads_readInt32L item.iUid) <|
    reads_bind (reads_readInt32L item.iParentFolder) <|
    reads_bind (reads_readInt32L item.iType) <|
    reads_bind (reads_bufFromStreamL item.iName) <|
    reads_bind (reads_bufFromStreamL item.iUrl) <|
    reads_bind (TFavouritesWapAp.reads_internalizeL item.iWapAp) <|
    reads_bind (reads_bufFromStreamL item.iUserName) <|
    reads_bind (reads_bufFromStreamL item.iPassword) <|
    reads_bind (reads_readInt32L item.iReadOnly) <|
    reads_bind (reads_readInt32L item.iFactoryItem) <|
    reads_bind (reads_readInt32L item.iContextId) <|
    reads_bind (reads_readInt32L (i64High item.iModified)) <|
    reads_bind (reads_readInt32L (i64Low item.iModified)) <|
    reads_bind (reads_readInt32L item.iHidden) <|
    reads_pure _
  rw [hmodified] at h
  simpa only [externalizeL, List.flatten_append, List.flatten_cons, List.flatten_nil,
    List.append_assoc, List.append_nil] using h

theorem reads_internalizeUpdateDeltaL (item stored : CFavouritesItemImpl) :
    Reads (item.internalizeUpdateDeltaL).toReader stored.externalizeUpdateDeltaL.flatten
      (item.withUpdateDelta stored) := by
  have hmodified := makeTInt64_words stored.iModified
  have h : Reads (item.internalizeUpdateDeltaL).toReader _ _ :=
    reads_bind (reads_readInt32L stored.iUid) <|
    reads_bind (reads_bufFromStreamL stored.iName) <|
    reads_bind (reads_readInt32L (i64High stored.iModified)) <|
    reads_bind (reads_readInt32L (i64Low stored.iModified)) <|
    reads_pure _
  rw [hmodified] at h
  simpa only [externalizeUpdateDeltaL, withUpdateDelta, List.flatten_append, List.flatten_cons, List.flatten_nil,
    List.append_assoc, List.append_nil] using h

end CFavouritesItemImpl

section

variable {α : Type} {write : α → List (List UInt8)} {p : ReadProg α}

theorem flatten_externalizeList (l : List α) :
    (externalizeList write l).flatten = writeInt32L (lengthWord l.length)
      ++ l.flatMap fun x => (write x).flatten := by
  rw [externalizeList, List.flatten_cons, List.flatMap_def, List.flatten_flatten,
    List.map_map, List.flatMap_def]
  rfl

/-- The elements of a list are read back in order, behind those that were there. -/
theorem reads_internalizeList (h : ∀ x, Reads p.toReader (write x).flatten x) {l : List α}
    (hlt : l.length < 2147483648) (acc : List α) :
    Reads (internalizeList p acc).toReader (externalizeList write l).flatten (acc ++ l) := by
  have hcount : (lengthWord l.length).toInt.toNat = l.length := by
    rw [toInt_lengthWord hlt, Int.toNat_natCast]
  rw [flatten_externalizeList]
  refine reads_bind (reads_readInt32L _) ?_
  rw [hcount]
  exact reads_times l acc fun x _ => h x

theorem reads_itemListInternalizeL (a : CArray CFavouritesItemImpl)
    (acc : List CFavouritesItemImpl) :
    Reads (itemListInternalizeL acc).toReader (itemListExternalizeL a.elements).flatten
      (acc ++ a.elements) :=
  reads_internalizeList CFavouritesItemImpl.reads_internalizeL a.count_lt acc

theorem reads_uidsInternalizeL (a : CArray (BitVec 32)) (acc : List (BitVec 32)) :
    Reads (uidsInternalizeL acc).toReader (uidsExternalizeL a.elements).flatten
      (acc ++ a.elements) := by
  refine reads_internalizeList (fun uid => ?_) a.count_lt acc
  rw [List.flatten_singleton]
  exact reads_readInt32L uid

theorem reads_uidMapInternalizeL {l : List TUidMapping} (hlt : l.length < 2147483648) :
    Reads uidMapInternalizeL.toReader (uidMapExternalizeL l).flatten l := by
  have hcount := toInt_lengthWord hlt
  rw [uidMapExternalizeL, flatten_externalizeList]
  refine reads_bind (reads_readInt32L _) ?_
  rw [hcount, if_neg (by omega), Int.toNat_natCast]
  exact reads_times l [] fun m _ => TUidMapping.reads_internalizeL m

end

end SymbianWeb.Favourites.Streams
