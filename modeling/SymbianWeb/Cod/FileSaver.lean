import Mathlib.Data.List.Basic

/-!
# The file saver of OMA downloads (`codeng/src/FileSaver.cpp`, `codeng/src/CodBuffStorage.cpp`)

A saver writes the body of a response to a temporary file. The first data of a session go to the
file at once; later data are gathered in one of two buffers while the other one is written
asynchronously. An operation is a function of the temporary file and the saver, and `none` is a
panic (an operation on a closed file). File server operations on an open file succeed.
-/

set_option autoImplicit false

namespace SymbianWeb.Cod

abbrev Bytes := List UInt8

def KErrNone : Int := 0

def KErrCodAttributeMismatch : Int := -1004

def KDefaultContentLength : Int := -1

/-- Sizes of storage buffers; `CCodBuffStorage` never empties a buffer of size zero. -/
abbrev BufferSize := { n : Nat // 0 < n }

def KDefaultStorageBufferSize : BufferSize := ⟨128 * 1024, by decide⟩

/-- `iBufferSize` and what `iClientBuffer` holds. There is always room in the client buffer. -/
structure ClientBuffer where
  iBufferSize : BufferSize
  data : Bytes
  room : data.length < iBufferSize.val
  deriving DecidableEq

def ClientBuffer.empty (size : BufferSize) : ClientBuffer := ⟨size, [], size.property⟩

/-- `CCodBuffStorage`: the client buffer, once the buffers are allocated, and the data of the
outstanding write (`iWritePtr` while the object is active). -/
structure CCodBuffStorage where
  iClientBuffer : Option ClientBuffer := none
  iWritePtr : Option Bytes := none
  deriving DecidableEq

/-- The state of a `CFileSaver`. -/
inductive SaverState where
  | EInit
  | EStoreOpen
  | EStoreClosed
  deriving DecidableEq

/-- `CFileSaver`. `iFile` is the position of the file handle, when the file is open. -/
structure CFileSaver where
  iFile : Option Nat := none
  iSize : Nat := 0
  iMaxSize : Nat
  iBufferedSize : Nat := 0
  iBufferSize : BufferSize := KDefaultStorageBufferSize
  iLength : Int := 0
  iProgressiveDownload : Bool := false
  iStorage : CCodBuffStorage := {}
  iState : SaverState := .EInit
  deriving DecidableEq

/-- A saver with its temporary file (`none`: there is no such file). -/
structure Store where
  temp : Option Bytes
  saver : CFileSaver
  deriving DecidableEq

/-- A file after a write of `data` at `pos`. -/
def overwrite (content : Bytes) (pos : Nat) (data : Bytes) : Bytes :=
  content.take pos ++ data ++ content.drop (pos + data.length)

/-- `RFile::Write` -/
def Store.write (st : Store) (data : Bytes) : Option Store :=
  match st.saver.iFile, st.temp with
  | some pos, some content =>
      some {
        temp := some (overwrite content pos data)
        saver := { st.saver with iFile := some (pos + data.length) } }
  | _, _ => none

/-- A write, with its size added to `iDownloadedSize` (the saver's `iSize`). -/
def Store.writeCounted (st : Store) (data : Bytes) : Option Store := do
  let st ← st.write data
  return { st with saver := { st.saver with iSize := st.saver.iSize + data.length } }

def Store.setStorage (st : Store) (storage : CCodBuffStorage) : Store :=
  { st with saver := { st.saver with iStorage := storage } }

/-- The end of the outstanding write, if there is one: `CCodBuffStorage::RunL`. -/
def Store.finishWrite (st : Store) : Option Store :=
  match st.saver.iStorage.iWritePtr with
  | none => some st
  | some data => (st.setStorage { st.saver.iStorage with iWritePtr := none }).writeCounted data

def Store.addBuffered (st : Store) (n : Nat) : Store :=
  { st with saver := { st.saver with iBufferedSize := st.saver.iBufferedSize + n } }

/-- The loop of `DoBufferingWriteL`. -/
def fillBuffer (st : Store) (client : ClientBuffer) (src : Bytes) : Option (Store × ClientBuffer) :=
  if src = [] then
    some (st, client)
  else
    let toFillUp := client.iBufferSize.val - client.data.length
    if h : src.length < toFillUp then
      some (st.addBuffered src.length,
        ⟨client.iBufferSize, client.data ++ src, by have := client.room; simp; omega⟩)
    else do
      let buff := client.data ++ src.take toFillUp
      -- the previous write ends before the next one starts
      let st ← (st.addBuffered toFillUp).finishWrite
      if st.saver.iProgressiveDownload then
        fillBuffer (← st.writeCounted buff) (.empty client.iBufferSize) (src.drop toFillUp)
      else
        fillBuffer (st.setStorage { st.saver.iStorage with iWritePtr := some buff })
          (.empty client.iBufferSize) (src.drop toFillUp)
termination_by src.length
decreasing_by
  all_goals
    have := client.room
    simp only [List.length_drop]
    omega

/-- The buffers that `DoBufferingWriteL` fills: new ones when there are none of the right size. -/
def CFileSaver.clientBuffer (saver : CFileSaver) : ClientBuffer :=
  match saver.iStorage.iClientBuffer with
  | none => .empty saver.iBufferSize
  | some client =>
      if client.iBufferSize ≠ saver.iBufferSize then .empty saver.iBufferSize else client

/-- `CCodBuffStorage::DoBufferingWriteL` -/
def doBufferingWriteL (st : Store) (aBuf : Bytes) : Option Store := do
  let (st, client) ← fillBuffer st st.saver.clientBuffer aBuf
  return st.setStorage { st.saver.iStorage with iClientBuffer := some client }

/-- The check of the content length that ends `WriteOutNextBodyDataL`. -/
def updateLength (st : Store) : Store × Bool :=
  if st.saver.iLength ≠ KDefaultContentLength ∧
      (st.saver.iBufferedSize : Int) > st.saver.iLength then
    ({ st with saver := { st.saver with iLength := KDefaultContentLength } }, false)
  else (st, true)

/-- `CCodBuffStorage::WriteOutNextBodyDataL` -/
def writeOutNextBodyDataL (st : Store) (aBuf : Bytes) : Option (Store × Bool) :=
  (if st.saver.iSize ≤ 0 then st.writeCounted aBuf else doBufferingWriteL st aBuf).map updateLength

/-- `CCodSaver::CheckMaxSize` -/
def CFileSaver.checkMaxSize (saver : CFileSaver) (aDataChunkSize : Nat) : Int :=
  if saver.iMaxSize ≠ 0 ∧ saver.iSize + aDataChunkSize > saver.iMaxSize then
    KErrCodAttributeMismatch
  else KErrNone

/-- `CFileSaver::AppendData`. The result of `WriteOutNextBodyDataL`, a boolean, is the error
code. -/
def appendData (st : Store) (aData : Bytes) : Option (Store × Int) :=
  let err := st.saver.checkMaxSize aData.length
  if err ≠ KErrNone then
    some (st, err)
  else do
    let (st, retVal) ← writeOutNextBodyDataL st aData
    return (st, if retVal then 1 else 0)

/-- `CCodBuffStorage::FlushBuffersL` -/
def flushBuffersL (st : Store) : Option Store := do
  let st ← st.finishWrite
  match st.saver.iStorage.iClientBuffer with
  | none => return st
  | some client =>
      if client.data.length > 0 then
        let st ← st.writeCounted client.data
        return st.setStorage
          { st.saver.iStorage with iClientBuffer := some (.empty client.iBufferSize) }
      else
        return st

/-- `CCodBuffStorage::ResetBuffers` -/
def resetBuffers (st : Store) : Option Store := do
  let st ← st.finishWrite
  return st.setStorage { st.saver.iStorage with iClientBuffer := none }

/-- `CFileSaver::FlushL` -/
def flushL (st : Store) : Option Store := do
  resetBuffers (← flushBuffersL st)

def Store.closeFile (st : Store) : Store := { st with saver := { st.saver with iFile := none } }

def Store.setState (st : Store) (state : SaverState) : Store :=
  { st with saver := { st.saver with iState := state } }

/-- `CFileSaver::CloseStore` -/
def closeStore (st : Store) : Option Store := do
  return (← flushL st).closeFile.setState .EStoreClosed

/-- `CFileSaver::OnComplete` -/
def onComplete (st : Store) : Option Store := do
  return (← flushL st).closeFile

/-- `CFileSaver::OpenStoreL`: open the temporary file, or make a new one, and seek its end. -/
def openStoreL (st : Store) : Store :=
  let content := st.temp.getD []
  { temp := some content
    saver := { st.saver with iFile := some content.length, iSize := 0, iState := .EStoreOpen } }

/-- `CFileSaver::ResetL`: discard the old contents. -/
def resetL (st : Store) : Store :=
  { temp := some [], saver := { st.saver with iFile := some 0 } }

/-- `CFileSaver::DownloadedFileSize` -/
def downloadedFileSize (st : Store) : Option Nat :=
  match st.saver.iFile, st.temp with
  | some _, some content => some content.length
  | _, _ => none

/-- `CFileSaver::Cleanup`: what is left of the temporary file. -/
def cleanup (st : Store) (aDeleteFile : Bool) : Option (Option Bytes) := do
  let st ← closeStore st
  return if aDeleteFile then none else st.temp

/-! ## What a saver holds -/

/-- The handle is at the end of the file; the file, the outstanding write and the data `client`
of the client buffer are `held`. -/
def Store.Covers (st : Store) (client held : Bytes) : Prop :=
  ∃ content, st.temp = some content ∧ st.saver.iFile = some content.length ∧
    content ++ st.saver.iStorage.iWritePtr.getD [] ++ client = held

/-- What the client buffer holds. -/
def CFileSaver.clientData (saver : CFileSaver) : Bytes :=
  (saver.iStorage.iClientBuffer.map (·.data)).getD []

/-- An open saver that has taken `held`: no data are lost when the buffers are reallocated or when
data are written past them. -/
structure Store.Holds (st : Store) (held : Bytes) : Prop where
  covers : st.Covers st.saver.clientData held
  sized : ∀ client, st.saver.iStorage.iClientBuffer = some client →
    client.iBufferSize = st.saver.iBufferSize
  direct : st.saver.iSize = 0 →
    st.saver.clientData = [] ∧ st.saver.iStorage.iWritePtr.getD [] = []

/-- The file is `held`, and nothing is pending. -/
structure Store.Flushed (st : Store) (held : Bytes) : Prop where
  content : st.temp = some held
  noClient : st.saver.iStorage.iClientBuffer = none
  noWrite : st.saver.iStorage.iWritePtr = none

/-- What the operations of the storage do to the saver otherwise. -/
structure Store.Grows (st st' : Store) : Prop where
  bufferSize : st'.saver.iBufferSize = st.saver.iBufferSize
  size : st.saver.iSize ≤ st'.saver.iSize

theorem Store.Grows.refl (st : Store) : st.Grows st := ⟨rfl, Nat.le_refl _⟩

theorem Store.Grows.trans {st₁ st₂ st₃ : Store} (h : st₁.Grows st₂) (h' : st₂.Grows st₃) :
    st₁.Grows st₃ :=
  ⟨h'.bufferSize.trans h.bufferSize, Nat.le_trans h.size h'.size⟩

theorem overwrite_length (content data : Bytes) :
    overwrite content content.length data = content ++ data := by
  simp [overwrite]

theorem Store.write_atEnd {st : Store} {content : Bytes} (htemp : st.temp = some content)
    (hfile : st.saver.iFile = some content.length) (data : Bytes) :
    st.write data = some {
      temp := some (content ++ data)
      saver := { st.saver with iFile := some (content ++ data).length } } := by
  simp [Store.write, htemp, hfile, overwrite_length]

theorem Store.writeCounted_atEnd {st : Store} {content : Bytes} (htemp : st.temp = some content)
    (hfile : st.saver.iFile = some content.length) (data : Bytes) :
    st.writeCounted data = some {
      temp := some (content ++ data)
      saver := { st.saver with
        iFile := some (content ++ data).length, iSize := st.saver.iSize + data.length } } := by
  rw [Store.writeCounted, Store.write_atEnd htemp hfile]
  rfl

/-- Writing the oldest pending data to the file. -/
theorem Store.Covers.writeCounted {st : Store} {data rest held : Bytes}
    (h : st.Covers (data ++ rest) held) (hw : st.saver.iStorage.iWritePtr = none) :
    ∃ st', st.writeCounted data = some st' ∧ st'.Covers rest held ∧
      st'.saver.iStorage = st.saver.iStorage ∧ st.Grows st' ∧
      st'.saver.iSize = st.saver.iSize + data.length := by
  obtain ⟨content, htemp, hfile, hheld⟩ := h
  refine ⟨_, Store.writeCounted_atEnd htemp hfile data, ?_, rfl, ?_, rfl⟩
  · refine ⟨content ++ data, rfl, rfl, ?_⟩
    simpa [hw] using hheld
  · exact ⟨rfl, Nat.le_add_right _ _⟩

theorem Store.Covers.finishWrite {st : Store} {client held : Bytes} (h : st.Covers client held) :
    ∃ st', st.finishWrite = some st' ∧ st'.Covers client held ∧
      st'.saver.iStorage = { st.saver.iStorage with iWritePtr := none } ∧ st.Grows st' := by
  cases hw : st.saver.iStorage.iWritePtr with
  | none =>
      refine ⟨st, by simp [Store.finishWrite, hw], h, ?_, Store.Grows.refl st⟩
      rw [← hw]
  | some data =>
      obtain ⟨content, htemp, hfile, hheld⟩ := h
      have hcovers : (st.setStorage { st.saver.iStorage with iWritePtr := none }).Covers
          (data ++ client) held := by
        refine ⟨content, htemp, hfile, ?_⟩
        simpa [Store.setStorage, hw] using hheld
      obtain ⟨st', hrun, hcovers', hstorage, hgrows, -⟩ := hcovers.writeCounted rfl
      exact ⟨st', by simp [Store.finishWrite, hw, hrun], hcovers', hstorage,
        hgrows.bufferSize, hgrows.size⟩

theorem Store.Covers.addBuffered {st : Store} {client held : Bytes} (h : st.Covers client held)
    (n : Nat) : (st.addBuffered n).Covers client held := h

/-- The loop of `DoBufferingWriteL` loses no data, whatever the sizes of the buffer and of the
data are. -/
theorem fillBuffer_covers {st : Store} {client : ClientBuffer} {src held : Bytes}
    (h : st.Covers client.data held) :
    ∃ st' client', fillBuffer st client src = some (st', client') ∧
      st'.Covers client'.data (held ++ src) ∧ client'.iBufferSize = client.iBufferSize ∧
      st.Grows st' := by
  -- the data that are left get shorter, as there is always room in the client buffer
  induction hn : src.length using Nat.strongRecOn generalizing st client src held with
  | _ n ih =>
  rw [fillBuffer]
  by_cases hsrc : src = []
  · refine ⟨st, client, by simp [hsrc], by simpa [hsrc] using h, rfl, Store.Grows.refl st⟩
  rw [if_neg hsrc]
  have hroom := client.room
  by_cases hfits : src.length < client.iBufferSize.val - client.data.length
  · rw [dif_pos hfits]
    refine ⟨_, _, rfl, ?_, rfl, rfl, Nat.le_refl _⟩
    obtain ⟨content, htemp, hfile, hheld⟩ := h
    refine ⟨content, htemp, hfile, ?_⟩
    show content ++ st.saver.iStorage.iWritePtr.getD [] ++ (client.data ++ src) = held ++ src
    rw [← hheld, List.append_assoc, List.append_assoc, List.append_assoc]
  rw [dif_neg hfits]
  -- a full buffer, and the data that do not fit
  have hpos : 0 < src.length := List.length_pos_iff.mpr hsrc
  generalize hfill : client.iBufferSize.val - client.data.length = toFillUp at hfits ⊢
  obtain ⟨st₁, hrun₁, hcovers₁, hstorage₁, hgrows₁⟩ := (h.addBuffered toFillUp).finishWrite
  have hless : (src.drop toFillUp).length < n := by
    rw [List.length_drop]
    omega
  have hsplit : held ++ src = held ++ src.take toFillUp ++ src.drop toFillUp := by
    rw [List.append_assoc, List.take_append_drop]
  have hfull : st₁.Covers (client.data ++ src.take toFillUp) (held ++ src.take toFillUp) := by
    obtain ⟨content, htemp, hfile, hheld⟩ := hcovers₁
    refine ⟨content, htemp, hfile, ?_⟩
    rw [← hheld, List.append_assoc, List.append_assoc, List.append_assoc]
  have hnone : st₁.saver.iStorage.iWritePtr = none := by rw [hstorage₁]
  have hgrows : st.Grows st₁ := ⟨hgrows₁.bufferSize, hgrows₁.size⟩
  by_cases hprog : st₁.saver.iProgressiveDownload = true
  · have hwhole : st₁.Covers ((client.data ++ src.take toFillUp) ++ [])
        (held ++ src.take toFillUp) := by
      rw [List.append_nil]
      exact hfull
    obtain ⟨st₂, hrun₂, hcovers₂, -, hgrows₂, -⟩ := hwhole.writeCounted hnone
    have hcovers₂' : st₂.Covers (ClientBuffer.empty client.iBufferSize).data
        (held ++ src.take toFillUp) := hcovers₂
    obtain ⟨st', client', hrun, hcovers, hsize, hgrows'⟩ := ih _ hless hcovers₂' rfl
    refine ⟨st', client', ?_, by rw [hsplit]; exact hcovers, hsize,
      (hgrows.trans hgrows₂).trans hgrows'⟩
    simp only [hrun₁, hprog, if_true, Option.bind_eq_bind, Option.bind_some, hrun₂]
    exact hrun
  · have hcovers₂ : (st₁.setStorage { st₁.saver.iStorage with
        iWritePtr := some (client.data ++ src.take toFillUp) }).Covers
        (ClientBuffer.empty client.iBufferSize).data (held ++ src.take toFillUp) := by
      obtain ⟨content, htemp, hfile, hheld⟩ := hfull
      refine ⟨content, htemp, hfile, ?_⟩
      rw [hnone] at hheld
      simpa [Store.setStorage, ClientBuffer.empty] using hheld
    obtain ⟨st', client', hrun, hcovers, hsize, hgrows'⟩ := ih _ hless hcovers₂ rfl
    refine ⟨st', client', ?_, by rw [hsplit]; exact hcovers, hsize,
      hgrows.trans ⟨hgrows'.bufferSize, hgrows'.size⟩⟩
    simp only [hrun₁, hprog, Option.bind_eq_bind, Option.bind_some]
    exact hrun

/-! ## The operations on an open saver -/

theorem Store.Holds.clientBuffer {st : Store} {held : Bytes} (h : st.Holds held) :
    st.saver.clientBuffer.data = st.saver.clientData ∧
      st.saver.clientBuffer.iBufferSize = st.saver.iBufferSize := by
  cases hclient : st.saver.iStorage.iClientBuffer with
  | none => simp [CFileSaver.clientBuffer, CFileSaver.clientData, hclient, ClientBuffer.empty]
  | some client =>
      have hsize := h.sized client hclient
      simp [CFileSaver.clientBuffer, CFileSaver.clientData, hclient, hsize]

theorem doBufferingWriteL_holds {st : Store} {held : Bytes} (h : st.Holds held)
    (hsize : st.saver.iSize ≠ 0) (aBuf : Bytes) :
    ∃ st', doBufferingWriteL st aBuf = some st' ∧ st'.Holds (held ++ aBuf) := by
  obtain ⟨hdata, hbuf⟩ := h.clientBuffer
  have hcovers : st.Covers st.saver.clientBuffer.data held := by
    rw [hdata]
    exact h.covers
  obtain ⟨st', client', hrun, hcovers', hbuf', hgrows⟩ :
      ∃ st' client', fillBuffer st st.saver.clientBuffer aBuf = some (st', client') ∧
        st'.Covers client'.data (held ++ aBuf) ∧
        client'.iBufferSize = st.saver.clientBuffer.iBufferSize ∧ st.Grows st' :=
    fillBuffer_covers hcovers
  refine ⟨st'.setStorage { st'.saver.iStorage with iClientBuffer := some client' }, ?_, ?_⟩
  · simp [doBufferingWriteL, hrun]
  · refine ⟨hcovers', ?_, ?_⟩
    · rintro client ⟨⟩
      exact (hbuf'.trans hbuf).trans hgrows.bufferSize.symm
    · intro hzero
      have hzero' : st'.saver.iSize = 0 := hzero
      have := hgrows.size
      omega

theorem updateLength_holds {st : Store} {held : Bytes} (h : st.Holds held) :
    (updateLength st).1.Holds held := by
  unfold updateLength
  split
  · exact ⟨h.covers, h.sized, h.direct⟩
  · exact h

theorem writeOutNextBodyDataL_holds {st : Store} {held : Bytes} (h : st.Holds held)
    (aBuf : Bytes) :
    ∃ st' retVal, writeOutNextBodyDataL st aBuf = some (st', retVal) ∧ st'.Holds (held ++ aBuf) := by
  have hwritten : ∃ st', (if st.saver.iSize ≤ 0 then st.writeCounted aBuf
      else doBufferingWriteL st aBuf) = some st' ∧ st'.Holds (held ++ aBuf) := by
    by_cases hzero : st.saver.iSize ≤ 0
    · -- nothing is pending, so that the data go to the end of what is held
      rw [if_pos hzero]
      obtain ⟨hclient, hwriting⟩ := h.direct (Nat.le_zero.mp hzero)
      obtain ⟨content, htemp, hfile, hheld⟩ := h.covers
      rw [hclient, hwriting] at hheld
      refine ⟨_, Store.writeCounted_atEnd htemp hfile aBuf, ?_, h.sized,
        fun _ => ⟨hclient, hwriting⟩⟩
      refine ⟨content ++ aBuf, rfl, rfl, ?_⟩
      show content ++ aBuf ++ st.saver.iStorage.iWritePtr.getD [] ++ st.saver.clientData = _
      rw [hclient, hwriting, ← hheld]
      simp
    · rw [if_neg hzero]
      exact doBufferingWriteL_holds h (by omega) aBuf
  obtain ⟨st', hrun, hholds⟩ := hwritten
  refine ⟨(updateLength st').1, (updateLength st').2, ?_, updateLength_holds hholds⟩
  rw [writeOutNextBodyDataL, hrun]
  rfl

/-- `AppendData` takes all of the data, or none of them when it fails. -/
theorem appendData_holds {st : Store} {held : Bytes} (h : st.Holds held) (aData : Bytes) :
    ∃ st' err, appendData st aData = some (st', err) ∧
      (err < 0 ∧ st'.Holds held ∨ 0 ≤ err ∧ st'.Holds (held ++ aData)) := by
  by_cases herr : st.saver.checkMaxSize aData.length = KErrNone
  · obtain ⟨st', retVal, hrun, hholds⟩ := writeOutNextBodyDataL_holds h aData
    refine ⟨st', if retVal then 1 else 0, ?_, .inr ⟨?_, hholds⟩⟩
    · simp [appendData, herr, hrun]
    · cases retVal <;> decide
  · refine ⟨st, st.saver.checkMaxSize aData.length, by simp [appendData, herr], .inl ⟨?_, h⟩⟩
    unfold CFileSaver.checkMaxSize at herr ⊢
    split
    · decide
    · exact absurd (if_neg ‹_›) herr

theorem Store.Holds.finishWrite {st : Store} {held : Bytes} (h : st.Holds held) :
    ∃ st', st.finishWrite = some st' ∧ st'.Holds held := by
  obtain ⟨st', hrun, hcovers, hstorage, hgrows⟩ := h.covers.finishWrite
  have hclient : st'.saver.clientData = st.saver.clientData := by
    rw [CFileSaver.clientData, CFileSaver.clientData, hstorage]
  refine ⟨st', hrun, ⟨by rw [hclient]; exact hcovers, ?_, ?_⟩⟩
  · intro client hbuffer
    rw [hstorage] at hbuffer
    exact (h.sized client hbuffer).trans hgrows.bufferSize.symm
  · intro hzero
    have hsize := hgrows.size
    refine ⟨?_, by rw [hstorage]; rfl⟩
    rw [hclient]
    exact (h.direct (by omega)).1

theorem finishWrite_of_none {st : Store} (h : st.saver.iStorage.iWritePtr = none) :
    st.finishWrite = some st := by
  simp [Store.finishWrite, h]

/-- Flushing writes what is pending. -/
theorem Store.Holds.flushL {st : Store} {held : Bytes} (h : st.Holds held) :
    ∃ st', flushL st = some st' ∧ st'.Flushed held := by
  obtain ⟨st₁, hrun₁, hcovers₁, hstorage₁, -⟩ := h.covers.finishWrite
  have hnone₁ : st₁.saver.iStorage.iWritePtr = none := by rw [hstorage₁]
  have hclient₁ : st₁.saver.iStorage.iClientBuffer = st.saver.iStorage.iClientBuffer := by
    rw [hstorage₁]
  have hbuffers : ∃ st₂, flushBuffersL st = some st₂ ∧ st₂.temp = some held ∧
      st₂.saver.iStorage.iWritePtr = none := by
    cases hclient : st.saver.iStorage.iClientBuffer with
    | none =>
        obtain ⟨content, htemp, -, hheld⟩ := hcovers₁
        refine ⟨st₁, by simp [flushBuffersL, hrun₁, hclient₁, hclient], ?_, hnone₁⟩
        rw [htemp, ← hheld, hnone₁]
        simp [CFileSaver.clientData, hclient]
    | some client =>
        have hdata : st.saver.clientData = client.data := by
          simp [CFileSaver.clientData, hclient]
        by_cases hlen : client.data.length > 0
        · have hwhole : st₁.Covers (client.data ++ []) held := by
            rw [List.append_nil, ← hdata]
            exact hcovers₁
          obtain ⟨st₂, hrun₂, hcovers₂, hstorage₂, -, -⟩ := hwhole.writeCounted hnone₁
          obtain ⟨content, htemp, -, hheld⟩ := hcovers₂
          refine ⟨st₂.setStorage { st₂.saver.iStorage with
            iClientBuffer := some (.empty client.iBufferSize) }, ?_, ?_, ?_⟩
          · simp [flushBuffersL, hrun₁, hclient₁, hclient, hlen, hrun₂]
          · show st₂.temp = some held
            rw [htemp, ← hheld, hstorage₂, hnone₁]
            simp
          · show st₂.saver.iStorage.iWritePtr = none
            rw [hstorage₂, hnone₁]
        · obtain ⟨content, htemp, -, hheld⟩ := hcovers₁
          refine ⟨st₁, by simp [flushBuffersL, hrun₁, hclient₁, hclient, hlen], ?_, hnone₁⟩
          have hempty : client.data = [] := List.length_eq_zero_iff.mp (by omega)
          rw [htemp, ← hheld, hnone₁, hdata, hempty]
          simp
  obtain ⟨st₂, hrun₂, htemp₂, hnone₂⟩ := hbuffers
  refine ⟨st₂.setStorage { st₂.saver.iStorage with iClientBuffer := none }, ?_,
    ⟨htemp₂, rfl, hnone₂⟩⟩
  simp [Cod.flushL, hrun₂, resetBuffers, finishWrite_of_none hnone₂]

/-- A second flush does nothing. -/
theorem Store.Flushed.flushL {st : Store} {held : Bytes} (h : st.Flushed held) :
    ∃ st', flushL st = some st' ∧ st'.Flushed held := by
  refine ⟨st.setStorage { st.saver.iStorage with iClientBuffer := none }, ?_,
    ⟨h.content, rfl, h.noWrite⟩⟩
  simp [Cod.flushL, flushBuffersL, resetBuffers, finishWrite_of_none h.noWrite, h.noClient]

/-- A saver that has taken `held`, whether its file is open or closed. -/
def Store.Keeps (st : Store) (held : Bytes) : Prop := st.Holds held ∨ st.Flushed held

theorem Store.Keeps.flushL {st : Store} {held : Bytes} (h : st.Keeps held) :
    ∃ st', flushL st = some st' ∧ st'.Flushed held := by
  rcases h with h | h
  · exact h.flushL
  · exact h.flushL

theorem closeStore_flushed {st : Store} {held : Bytes} (h : st.Keeps held) :
    ∃ st', closeStore st = some st' ∧ st'.Flushed held := by
  obtain ⟨st', hrun, hflushed⟩ := h.flushL
  exact ⟨st'.closeFile.setState .EStoreClosed, by simp [closeStore, hrun],
    ⟨hflushed.content, hflushed.noClient, hflushed.noWrite⟩⟩

theorem onComplete_flushed {st : Store} {held : Bytes} (h : st.Keeps held) :
    ∃ st', onComplete st = some st' ∧ st'.Flushed held := by
  obtain ⟨st', hrun, hflushed⟩ := h.flushL
  exact ⟨st'.closeFile, by simp [onComplete, hrun],
    ⟨hflushed.content, hflushed.noClient, hflushed.noWrite⟩⟩

theorem cleanup_flushed {st : Store} {held : Bytes} (h : st.Keeps held) (aDeleteFile : Bool) :
    cleanup st aDeleteFile = some (if aDeleteFile then none else some held) := by
  obtain ⟨st', hrun, hflushed⟩ := closeStore_flushed h
  simp [cleanup, hrun, hflushed.content]

/-- An open saver before the first data of its session. -/
structure Store.Opened (st : Store) (held : Bytes) : Prop where
  holds : st.Holds held
  size : st.saver.iSize = 0

theorem openStoreL_opened (temp : Option Bytes) (maxSize : Nat) :
    (openStoreL { temp := temp, saver := { iMaxSize := maxSize } }).Opened (temp.getD []) := by
  refine ⟨⟨⟨temp.getD [], rfl, rfl, ?_⟩, ?_, ?_⟩, rfl⟩
  · simp [openStoreL, CFileSaver.clientData]
  · rintro client ⟨⟩
  · intro _
    exact ⟨rfl, rfl⟩

theorem resetL_opened {st : Store} {held : Bytes} (h : st.Opened held) : (resetL st).Opened [] := by
  have hdirect := h.holds.direct h.size
  refine ⟨⟨⟨[], rfl, rfl, ?_⟩, h.holds.sized, fun _ => hdirect⟩, h.size⟩
  show [] ++ st.saver.iStorage.iWritePtr.getD [] ++ st.saver.clientData = []
  rw [hdirect.1, hdirect.2]
  rfl

theorem Store.Opened.finishWrite {st : Store} {held : Bytes} (h : st.Opened held) :
    ∃ st', st.finishWrite = some st' ∧ st'.Opened held := by
  obtain ⟨st', hrun, hholds⟩ := h.holds.finishWrite
  refine ⟨st', hrun, hholds, ?_⟩
  cases hw : st.saver.iStorage.iWritePtr with
  | none =>
      rw [finishWrite_of_none hw, Option.some.injEq] at hrun
      rw [← hrun]
      exact h.size
  | some data =>
      -- the write is one of no data
      obtain ⟨content, htemp, hfile, -⟩ := h.holds.covers
      have hempty : data = [] := by
        have := (h.holds.direct h.size).2
        rwa [hw] at this
      subst hempty
      have htemp' : (st.setStorage { st.saver.iStorage with iWritePtr := none }).temp
          = some content := htemp
      have hwrite := Store.writeCounted_atEnd htemp' hfile []
      simp only [Store.finishWrite, hw] at hrun
      rw [hwrite, Option.some.injEq] at hrun
      rw [← hrun]
      exact h.size

theorem Store.Keeps.finishWrite {st : Store} {held : Bytes} (h : st.Keeps held) :
    ∃ st', st.finishWrite = some st' ∧ st'.Keeps held := by
  rcases h with h | h
  · obtain ⟨st', hrun, hholds⟩ := h.finishWrite
    exact ⟨st', hrun, .inl hholds⟩
  · exact ⟨st, finishWrite_of_none h.noWrite, .inr h⟩

theorem downloadedFileSize_opened {st : Store} {held : Bytes} (h : st.Opened held) :
    downloadedFileSize st = some held.length := by
  obtain ⟨hclient, hwriting⟩ := h.holds.direct h.size
  obtain ⟨content, htemp, hfile, hheld⟩ := h.holds.covers
  rw [hclient, hwriting] at hheld
  simp [downloadedFileSize, htemp, hfile, ← hheld]

end SymbianWeb.Cod
