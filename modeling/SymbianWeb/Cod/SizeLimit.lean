import SymbianWeb.Cod.FileSaver
import SymbianWeb.Library.FaultState
import SymbianWeb.Library.MachineInt

/-!
# The size limit of a download

A saver refuses data when the bytes it has written and the new ones are more than its maximum size.
The counter starts with zero when a file is opened, also when there is something in it, and it does
not have the bytes that wait in the client buffer or in an outstanding write: these are missed. The
limit holds in every run in which nothing is missed when data arrive, or what is missed fits as well
(`received_le_maxSize`).
-/

set_option autoImplicit false

namespace SymbianWeb.Cod

open FaultState MachineInt

/-! ## A session -/

/-- `CCodSaver::CheckMaxSize`, with the sum in a `TInt`. -/
def CFileSaver.checkMaxSizeTInt (saver : CFileSaver) (aDataChunkSize : Nat) : Int :=
  if saver.iMaxSize ≠ 0 ∧ int32 (saver.iSize + aDataChunkSize : Nat) > saver.iMaxSize then
    KErrCodAttributeMismatch
  else KErrNone

/-- `CFileSaver::AppendData` with that check. -/
def appendDataTInt (st : Store) (aData : Bytes) : Option (Store × Int) :=
  let err := st.saver.checkMaxSizeTInt aData.length
  if err ≠ KErrNone then
    some (st, err)
  else do
    let (st, retVal) ← writeOutNextBodyDataL st aData
    return (st, if retVal then 1 else 0)

def KDefaultStorageBufferSizePD : BufferSize := ⟨16 * 1024, by decide⟩

/-- `CCodBuffStorage::CurrentBufferSize`: zero before the buffers are allocated. -/
def CCodBuffStorage.currentBufferSize (storage : CCodBuffStorage) : Nat :=
  match storage.iClientBuffer with
  | none => 0
  | some client => client.iBufferSize.val

/-- `RFile::SetSize`. A position behind the new end becomes the new end; zeros stand for the
contents of an extension, which are not defined. -/
def Store.setSize (st : Store) (aSize : Nat) : Store :=
  { temp := st.temp.map fun content =>
      content.take aSize ++ List.replicate (aSize - content.length) 0
    saver := { st.saver with iFile := st.saver.iFile.map (min aSize) } }

/-- `SetProgressiveMode` up to the flush. -/
def Store.setMode (st : Store) (aValue : Bool) : Store :=
  { st with saver := { st.saver with
      iProgressiveDownload := aValue
      iBufferSize := if aValue then KDefaultStorageBufferSizePD else st.saver.iBufferSize } }

/-- The buffers are flushed unless they have the size that is asked for. -/
def flushOtherSize (st : Store) : Option Store :=
  if st.saver.iBufferSize.val ≠ st.saver.iStorage.currentBufferSize then flushL st else some st

/-- An open file gets the length of the content, or the size that has been counted. A negative
length is not set. -/
def Store.fitFile (st : Store) : Store :=
  if st.saver.iFile = none then
    st
  else if st.saver.iProgressiveDownload then
    if 0 ≤ st.saver.iLength then st.setSize st.saver.iLength.toNat else st
  else
    st.setSize st.saver.iSize

/-- `CFileSaver::SetProgressiveMode` -/
def setProgressiveMode (st : Store) (aValue : Bool) : Option Store :=
  (flushOtherSize (st.setMode aValue)).map Store.fitFile

/-- A session of a saver: the number of bytes that were in the file when it was opened, and the
number of bytes of the data that were taken since. -/
structure Session where
  store : Store
  found : Nat
  taken : Nat

/-- The bytes of the download so far. -/
def Session.received (s : Session) : Nat := s.found + s.taken

/-- What can happen to an open saver: data arrive, a write ends, the progressive mode is switched. -/
inductive SaverEvent where
  | appendData (aData : Bytes)
  | runL
  | setProgressiveMode (aValue : Bool)

def sessionStep : SaverEvent → FaultM Session PUnit
  | .appendData aData => fun s => do
      let (st, err) ← appendDataTInt s.store aData
      return (⟨⟩, { s with store := st, taken := if err < 0 then s.taken else s.taken + aData.length })
  | .runL => fun s => do
      return (⟨⟩, { s with store := ← s.store.finishWrite })
  | .setProgressiveMode aValue => fun s => do
      return (⟨⟩, { s with store := ← setProgressiveMode s.store aValue })

/-- A saver with the maximum size `maxSize` opens the file of a download. -/
def openedSession (temp : Option Bytes) (maxSize : Nat) : Session where
  store := openStoreL { temp := temp, saver := { iMaxSize := maxSize } }
  found := (temp.getD []).length
  taken := 0

/-- The bytes that wait in the client buffer and in the outstanding write. -/
def Store.pending (st : Store) : Nat :=
  (st.saver.iStorage.iWritePtr.getD []).length + st.saver.clientData.length

/-- The bytes that the counter does not have. -/
def Session.missed (s : Session) : Nat := s.found + s.store.pending

/-- New data find that nothing is missed, or they leave room for it. -/
def Counted : SaverEvent → Session → Prop
  | .appendData aData, s =>
      (s.missed = 0 ∧ s.store.saver.iSize + aData.length < 2 ^ 31) ∨
        s.missed + s.store.saver.iSize + aData.length ≤ s.store.saver.iMaxSize
  | _, _ => True

/-- The file that is opened is not larger than the maximum size. -/
def StartsWithin (maxSize : Nat) (s : Session) : Prop :=
  ∃ temp, s = openedSession temp maxSize ∧ (temp.getD []).length ≤ maxSize

/-! ## What is counted -/

/-- The file is open. -/
def Store.IsOpen (st : Store) : Prop :=
  (∃ content, st.temp = some content) ∧ ∃ pos, st.saver.iFile = some pos

/-- From one store to the next, `n` bytes get into the counter or the buffers, and the file stays
open. -/
structure Store.Takes (st st' : Store) (n : Nat) : Prop where
  isOpen : st'.IsOpen
  counts : st'.saver.iSize + st'.pending = st.saver.iSize + st.pending + n
  bufferSize : st'.saver.iBufferSize = st.saver.iBufferSize
  maxSize : st'.saver.iMaxSize = st.saver.iMaxSize

section Counts

variable {st : Store}

theorem appendDataTInt_of_check {aData : Bytes} {st' : Store} {retVal : Bool}
    (hcheck : st.saver.checkMaxSizeTInt aData.length = KErrNone)
    (hrun : writeOutNextBodyDataL st aData = some (st', retVal)) :
    appendDataTInt st aData = some (st', if retVal then 1 else 0) := by
  simp [appendDataTInt, hcheck, hrun]

theorem Store.IsOpen.writeCounted (h : st.IsOpen) (data : Bytes) :
    ∃ st', st.writeCounted data = some st' ∧ st'.IsOpen ∧
      st'.saver = { st.saver with iFile := st'.saver.iFile
                                  iSize := st.saver.iSize + data.length } := by
  obtain ⟨⟨content, htemp⟩, pos, hfile⟩ := h
  refine ⟨_, by simp only [Store.writeCounted, Store.write, htemp, hfile]; rfl,
    ⟨⟨_, rfl⟩, _, rfl⟩, rfl⟩

theorem Store.IsOpen.finishWrite (h : st.IsOpen) :
    ∃ st', st.finishWrite = some st' ∧ st'.IsOpen ∧
      st'.saver = { st.saver with
        iFile := st'.saver.iFile
        iSize := st.saver.iSize + (st.saver.iStorage.iWritePtr.getD []).length
        iStorage := { st.saver.iStorage with iWritePtr := none } } := by
  cases hw : st.saver.iStorage.iWritePtr with
  | none =>
      have hstorage : { st.saver.iStorage with iWritePtr := none } = st.saver.iStorage := by
        rw [← hw]
      refine ⟨st, by simp [Store.finishWrite, hw], h, ?_⟩
      rw [hstorage]
      rfl
  | some data =>
      have hopen : (st.setStorage { st.saver.iStorage with iWritePtr := none }).IsOpen := h
      obtain ⟨st', hrun, hopen', hsaver⟩ := hopen.writeCounted data
      refine ⟨st', by simp only [Store.finishWrite, hw, hrun], hopen', ?_⟩
      exact hsaver

/-- The loop of `DoBufferingWriteL` takes all of its data, and fills buffers of one size. -/
theorem fillBuffer_takes {client : ClientBuffer} {src : Bytes} (h : st.IsOpen) :
    ∃ st' client', fillBuffer st client src = some (st', client') ∧ st'.IsOpen ∧
      client'.iBufferSize = client.iBufferSize ∧ st'.saver.iBufferSize = st.saver.iBufferSize ∧
      st'.saver.iMaxSize = st.saver.iMaxSize ∧
      st'.saver.iSize + (st'.saver.iStorage.iWritePtr.getD []).length + client'.data.length =
        st.saver.iSize + (st.saver.iStorage.iWritePtr.getD []).length + client.data.length +
          src.length := by
  -- the data that are left get shorter, as there is always room in the client buffer
  induction hn : src.length using Nat.strongRecOn generalizing st client src with
  | _ n ih =>
  rw [fillBuffer]
  by_cases hsrc : src = []
  · refine ⟨st, client, by simp [hsrc], h, rfl, rfl, rfl, ?_⟩
    simp [← hn, hsrc]
  rw [if_neg hsrc]
  have hroom := client.room
  by_cases hfits : src.length < client.iBufferSize.val - client.data.length
  · rw [dif_pos hfits]
    refine ⟨_, _, rfl, h, rfl, rfl, rfl, ?_⟩
    simp only [Store.addBuffered, List.length_append]
    omega
  rw [dif_neg hfits]
  -- a full buffer, and the data that do not fit
  have hpos : 0 < src.length := List.length_pos_iff.mpr hsrc
  generalize hfill : client.iBufferSize.val - client.data.length = toFillUp at hfits ⊢
  have hopen : (st.addBuffered toFillUp).IsOpen := h
  obtain ⟨st₁, hrun₁, hopen₁, hsaver₁⟩ := hopen.finishWrite
  have hless : (src.drop toFillUp).length < n := by
    rw [List.length_drop]
    omega
  have hsize₁ : st₁.saver.iSize =
      st.saver.iSize + (st.saver.iStorage.iWritePtr.getD []).length := by
    rw [hsaver₁]
    rfl
  have hbuffer₁ : st₁.saver.iBufferSize = st.saver.iBufferSize ∧
      st₁.saver.iMaxSize = st.saver.iMaxSize := by
    rw [hsaver₁]
    exact ⟨rfl, rfl⟩
  have hwrite₁ : st₁.saver.iStorage.iWritePtr = none := by rw [hsaver₁]
  have hlength : (client.data ++ src.take toFillUp).length = client.data.length + toFillUp := by
    rw [List.length_append, List.length_take]
    omega
  by_cases hprog : st₁.saver.iProgressiveDownload = true
  · obtain ⟨st₂, hrun₂, hopen₂, hsaver₂⟩ := hopen₁.writeCounted (client.data ++ src.take toFillUp)
    obtain ⟨st', client', hrun, hopen', hclient, hbuffer, hmax, hcount⟩ :=
      @ih _ hless _ (.empty client.iBufferSize) _ hopen₂ rfl
    rw [hsaver₂] at hbuffer hmax hcount
    simp only [hwrite₁, Option.getD_none, List.length_nil, hlength, hsize₁, List.length_drop,
      ClientBuffer.empty] at hcount
    refine ⟨st', client', ?_, hopen', hclient, hbuffer.trans hbuffer₁.1, hmax.trans hbuffer₁.2, ?_⟩
    · simp only [hrun₁, hprog, if_true, Option.bind_eq_bind, Option.bind_some, hrun₂]
      exact hrun
    · omega
  · have hopen₂ : (st₁.setStorage { st₁.saver.iStorage with
        iWritePtr := some (client.data ++ src.take toFillUp) }).IsOpen := hopen₁
    obtain ⟨st', client', hrun, hopen', hclient, hbuffer, hmax, hcount⟩ :=
      @ih _ hless _ (.empty client.iBufferSize) _ hopen₂ rfl
    simp only [Store.setStorage, Option.getD_some, hlength, hsize₁, List.length_drop,
      ClientBuffer.empty, List.length_nil] at hcount
    refine ⟨st', client', ?_, hopen', hclient, hbuffer.trans hbuffer₁.1, hmax.trans hbuffer₁.2, ?_⟩
    · simp only [hrun₁, hprog, Option.bind_eq_bind, Option.bind_some]
      exact hrun
    · omega

/-- The buffers have the size that the saver asks for. -/
def Store.Sized (st : Store) : Prop :=
  ∀ client, st.saver.iStorage.iClientBuffer = some client →
    client.iBufferSize = st.saver.iBufferSize

theorem Store.Sized.clientBuffer (h : st.Sized) :
    st.saver.clientBuffer.data = st.saver.clientData ∧
      st.saver.clientBuffer.iBufferSize = st.saver.iBufferSize := by
  cases hclient : st.saver.iStorage.iClientBuffer with
  | none => simp [CFileSaver.clientBuffer, CFileSaver.clientData, hclient, ClientBuffer.empty]
  | some client =>
      have hsize := h client hclient
      simp [CFileSaver.clientBuffer, CFileSaver.clientData, hclient, hsize]

/-- Data that are not refused get into the file or the buffers. -/
theorem writeOutNextBodyDataL_takes (h : st.IsOpen) (hsized : st.Sized) (aBuf : Bytes) :
    ∃ st' retVal, writeOutNextBodyDataL st aBuf = some (st', retVal) ∧ st'.Sized ∧
      st.Takes st' aBuf.length := by
  have hwritten : ∃ st', (if st.saver.iSize ≤ 0 then st.writeCounted aBuf
      else doBufferingWriteL st aBuf) = some st' ∧ st'.Sized ∧ st.Takes st' aBuf.length := by
    by_cases hzero : st.saver.iSize ≤ 0
    · rw [if_pos hzero]
      obtain ⟨st', hrun, hopen', hsaver⟩ := h.writeCounted aBuf
      refine ⟨st', hrun, ?_, hopen', ?_, by rw [hsaver], by rw [hsaver]⟩
      · rw [Store.Sized, hsaver]
        exact hsized
      · rw [Store.pending, CFileSaver.clientData, hsaver, Store.pending, CFileSaver.clientData]
        simp only
        omega
    · rw [if_neg hzero]
      obtain ⟨hdata, hbuf⟩ := hsized.clientBuffer
      obtain ⟨st', client', hrun, hopen', hclient, hbuffer, hmax, hcount⟩ :=
        @fillBuffer_takes _ st.saver.clientBuffer aBuf h
      refine ⟨st'.setStorage { st'.saver.iStorage with iClientBuffer := some client' }, ?_, ?_,
        hopen', ?_, hbuffer, hmax⟩
      · simp [doBufferingWriteL, hrun]
      · rintro client ⟨⟩
        exact (hclient.trans hbuf).trans hbuffer.symm
      · rw [hdata] at hcount
        rw [Store.pending, Store.pending]
        simp only [Store.setStorage, CFileSaver.clientData, Option.map_some, Option.getD_some]
        rw [CFileSaver.clientData] at hcount
        omega
  obtain ⟨st', hrun, hsized', htakes⟩ := hwritten
  refine ⟨(updateLength st').1, (updateLength st').2, by rw [writeOutNextBodyDataL, hrun]; rfl, ?_, ?_⟩
  · unfold updateLength
    split <;> exact hsized'
  · unfold updateLength
    split
    · exact ⟨htakes.isOpen, htakes.counts, htakes.bufferSize, htakes.maxSize⟩
    · exact htakes

theorem finishWrite_takes (h : st.IsOpen) (hsized : st.Sized) :
    ∃ st', st.finishWrite = some st' ∧ st'.Sized ∧ st.Takes st' 0 := by
  obtain ⟨st', hrun, hopen', hsaver⟩ := h.finishWrite
  refine ⟨st', hrun, ?_, hopen', ?_, by rw [hsaver], by rw [hsaver]⟩
  · rw [Store.Sized, hsaver]
    exact hsized
  · rw [Store.pending, CFileSaver.clientData, hsaver, Store.pending, CFileSaver.clientData]
    simp only [Option.getD_none, List.length_nil]
    omega

/-- After a flush nothing waits any more. -/
theorem flushL_takes (h : st.IsOpen) :
    ∃ st', flushL st = some st' ∧ st'.saver.iStorage.iClientBuffer = none ∧ st.Takes st' 0 := by
  obtain ⟨st₁, hrun₁, hopen₁, hsaver₁⟩ := h.finishWrite
  have hwrite₁ : st₁.saver.iStorage.iWritePtr = none := by rw [hsaver₁]
  have hclient₁ : st₁.saver.iStorage.iClientBuffer = st.saver.iStorage.iClientBuffer := by
    rw [hsaver₁]
  have hsize₁ : st₁.saver.iSize =
      st.saver.iSize + (st.saver.iStorage.iWritePtr.getD []).length := by
    rw [hsaver₁]
  have hkept₁ : st₁.saver.iBufferSize = st.saver.iBufferSize ∧
      st₁.saver.iMaxSize = st.saver.iMaxSize := by
    rw [hsaver₁]
    exact ⟨rfl, rfl⟩
  obtain ⟨st₂, hrun₂, hopen₂, hwrite₂, hsize₂, hbuffer₂, hmax₂⟩ : ∃ st₂,
      flushBuffersL st = some st₂ ∧ st₂.IsOpen ∧ st₂.saver.iStorage.iWritePtr = none ∧
        st₂.saver.iSize = st₁.saver.iSize + st.saver.clientData.length ∧
        st₂.saver.iBufferSize = st₁.saver.iBufferSize ∧
        st₂.saver.iMaxSize = st₁.saver.iMaxSize := by
    cases hclient : st.saver.iStorage.iClientBuffer with
    | none =>
        refine ⟨st₁, by simp [flushBuffersL, hrun₁, hclient₁, hclient], hopen₁, hwrite₁, ?_, rfl, rfl⟩
        simp [CFileSaver.clientData, hclient]
    | some client =>
        by_cases hlen : client.data.length > 0
        · obtain ⟨st₂, hrun₂, hopen₂, hsaver₂⟩ := hopen₁.writeCounted client.data
          refine ⟨st₂.setStorage { st₂.saver.iStorage with
            iClientBuffer := some (.empty client.iBufferSize) }, ?_, hopen₂, ?_, ?_, ?_, ?_⟩
          · simp [flushBuffersL, hrun₁, hclient₁, hclient, hlen, hrun₂]
          · show st₂.saver.iStorage.iWritePtr = none
            rw [hsaver₂]
            exact hwrite₁
          · show st₂.saver.iSize = _
            rw [hsaver₂]
            simp [CFileSaver.clientData, hclient]
          · show st₂.saver.iBufferSize = _
            rw [hsaver₂]
          · show st₂.saver.iMaxSize = _
            rw [hsaver₂]
        · have hempty : client.data = [] := List.length_eq_zero_iff.1 (by omega)
          refine ⟨st₁, by simp [flushBuffersL, hrun₁, hclient₁, hclient, hlen], hopen₁, hwrite₁, ?_,
            rfl, rfl⟩
          simp [CFileSaver.clientData, hclient, hempty]
  refine ⟨st₂.setStorage { st₂.saver.iStorage with iClientBuffer := none }, ?_, rfl, hopen₂, ?_,
    hbuffer₂.trans hkept₁.1, hmax₂.trans hkept₁.2⟩
  · simp [Cod.flushL, hrun₂, resetBuffers, finishWrite_of_none hwrite₂]
  · rw [Store.pending, Store.pending]
    simp only [Store.setStorage, CFileSaver.clientData, hwrite₂, Option.getD_none, List.length_nil,
      Option.map_none, hsize₂, hsize₁]
    omega

/-- Another size of the file does not change what is counted. -/
theorem Store.IsOpen.setSize (h : st.IsOpen) (aSize : Nat) : (st.setSize aSize).IsOpen := by
  obtain ⟨⟨content, htemp⟩, pos, hfile⟩ := h
  refine ⟨⟨_, by rw [Store.setSize, htemp]; rfl⟩, _, by rw [Store.setSize, hfile]; rfl⟩

/-- The buffers have the right size already, or they are flushed. -/
theorem flushOtherSize_takes (h : st.IsOpen) :
    ∃ st', flushOtherSize st = some st' ∧ st'.Sized ∧ st.Takes st' 0 := by
  rw [flushOtherSize]
  by_cases hsame : st.saver.iBufferSize.val = st.saver.iStorage.currentBufferSize
  · refine ⟨st, if_neg (not_not.2 hsame), fun client hclient => ?_, h, rfl, rfl, rfl⟩
    rw [CCodBuffStorage.currentBufferSize, hclient] at hsame
    exact Subtype.ext hsame.symm
  · obtain ⟨st', hrun, hnone, htakes⟩ := flushL_takes h
    refine ⟨st', by rw [if_pos hsame, hrun], fun client hclient => ?_, htakes⟩
    rw [hnone] at hclient
    cases hclient

theorem Store.Takes.fitFile {st' : Store} {n : Nat} (h : st.Takes st' n) (hsized : st'.Sized) :
    st'.fitFile.Sized ∧ st.Takes st'.fitFile n := by
  have hresize : ∀ k, (st'.setSize k).Sized ∧ st.Takes (st'.setSize k) n := fun k =>
    ⟨hsized, h.isOpen.setSize k, h.counts, h.bufferSize, h.maxSize⟩
  unfold Store.fitFile
  split
  · exact ⟨hsized, h⟩
  · split
    · split
      · exact hresize _
      · exact ⟨hsized, h⟩
    · exact hresize _

theorem setProgressiveMode_takes (h : st.IsOpen) (aValue : Bool) :
    ∃ st', setProgressiveMode st aValue = some st' ∧ st'.Sized ∧
      (st.setMode aValue).Takes st' 0 := by
  have hopen : (st.setMode aValue).IsOpen := h
  obtain ⟨st', hrun, hsized, htakes⟩ := flushOtherSize_takes hopen
  obtain ⟨hsized', htakes'⟩ := htakes.fitFile hsized
  exact ⟨st'.fitFile, by rw [setProgressiveMode, hrun]; rfl, hsized', htakes'⟩

end Counts

/-! ## Runs -/

section Runs

variable {s s' : Session} {m : Nat}

/-- The file is open and all data that were taken are counted, in the file or in the buffers; and
what was received is within the maximum size. -/
structure Session.Within (m : Nat) (s : Session) : Prop where
  isOpen : s.store.IsOpen
  sized : s.store.Sized
  counts : s.store.saver.iSize + s.store.pending = s.taken
  maxSize : s.store.saver.iMaxSize = m
  within : s.received ≤ m

theorem openedSession_within {temp : Option Bytes} (h : (temp.getD []).length ≤ m) :
    (openedSession temp m).Within m := by
  refine ⟨⟨⟨_, rfl⟩, _, rfl⟩, ?_, rfl, rfl, h⟩
  rintro client ⟨⟩

/-- New data are refused, or they are taken as a whole. -/
theorem appendDataTInt_takes (h : s.Within m) (aData : Bytes) :
    ∃ st' err, appendDataTInt s.store aData = some (st', err) ∧
      ((err < 0 ∧ st' = s.store) ∨
        (0 ≤ err ∧ s.store.saver.checkMaxSizeTInt aData.length = KErrNone ∧ st'.Sized ∧
          s.store.Takes st' aData.length)) := by
  by_cases herr : s.store.saver.checkMaxSizeTInt aData.length = KErrNone
  · obtain ⟨st', retVal, hrun, hsized, htakes⟩ :=
      writeOutNextBodyDataL_takes h.isOpen h.sized aData
    refine ⟨st', if retVal then 1 else 0, ?_, .inr ⟨?_, herr, hsized, htakes⟩⟩
    · exact appendDataTInt_of_check herr hrun
    · cases retVal <;> decide
  · refine ⟨s.store, s.store.saver.checkMaxSizeTInt aData.length, by simp [appendDataTInt, herr],
      .inl ⟨?_, rfl⟩⟩
    unfold CFileSaver.checkMaxSizeTInt at herr ⊢
    split
    · decide
    · exact absurd (if_neg ‹_›) herr

/-- Data that were counted for and are not refused stay within the maximum size. -/
theorem Session.Within.appendData {aData : Bytes} (hm : 0 < m) (h : s.Within m)
    (hcounted : Counted (.appendData aData) s)
    (hcheck : s.store.saver.checkMaxSizeTInt aData.length = KErrNone) :
    s.found + (s.taken + aData.length) ≤ m := by
  have hcounts := h.counts
  have hmax := h.maxSize
  rcases hcounted with ⟨hmissed, hlt⟩ | hroom
  · -- nothing is missed, and the check has compared the whole sum
    rw [Session.missed] at hmissed
    rw [CFileSaver.checkMaxSizeTInt, int32_natCast hlt] at hcheck
    have hle : ¬ (s.store.saver.iMaxSize ≠ 0 ∧
        ((s.store.saver.iSize + aData.length : Nat) : Int) > s.store.saver.iMaxSize) := by
      intro hgt
      rw [if_pos hgt] at hcheck
      exact absurd hcheck (by decide)
    omega
  · rw [Session.missed] at hroom
    omega

theorem sessionStep_within (hm : 0 < m) {event : SaverEvent} (hcounted : Counted event s)
    (h : s.Within m) {a : PUnit} (hrun : sessionStep event s = some (a, s')) : s'.Within m := by
  cases event with
  | appendData aData =>
      obtain ⟨st', err, happend, hcase⟩ := appendDataTInt_takes h aData
      simp only [sessionStep, happend, Option.bind_eq_bind, Option.bind_some, Option.pure_def,
        Option.some.injEq, Prod.mk.injEq] at hrun
      obtain ⟨-, rfl⟩ := hrun
      rcases hcase with ⟨herr, rfl⟩ | ⟨herr, hcheck, hsized, htakes⟩
      · rw [if_pos herr]
        exact h
      · rw [if_neg (by omega)]
        refine ⟨htakes.isOpen, hsized, ?_, htakes.maxSize.trans h.maxSize,
          h.appendData hm hcounted hcheck⟩
        rw [htakes.counts, h.counts]
  | runL =>
      obtain ⟨st', hfinish, hsized, htakes⟩ := finishWrite_takes h.isOpen h.sized
      simp only [sessionStep, hfinish, Option.bind_eq_bind, Option.bind_some, Option.pure_def,
        Option.some.injEq, Prod.mk.injEq] at hrun
      obtain ⟨-, rfl⟩ := hrun
      exact ⟨htakes.isOpen, hsized, htakes.counts.trans h.counts, htakes.maxSize.trans h.maxSize,
        h.within⟩
  | setProgressiveMode aValue =>
      obtain ⟨st', hset, hsized, htakes⟩ := setProgressiveMode_takes h.isOpen aValue
      simp only [sessionStep, hset, Option.bind_eq_bind, Option.bind_some, Option.pure_def,
        Option.some.injEq, Prod.mk.injEq] at hrun
      obtain ⟨-, rfl⟩ := hrun
      exact ⟨htakes.isOpen, hsized, htakes.counts.trans h.counts, htakes.maxSize.trans h.maxSize,
        h.within⟩

/-- In every run in which new data find that nothing is missed, or leave room for it, the bytes of
the download stay within the maximum size, and the sum of the check does not overflow. -/
theorem received_le_maxSize (m : Nat) (hm : 0 < m) (hlt : m < 2 ^ 31) {s : Session}
    (h : Reaches sessionStep (StartsWithin m) Counted s) :
    s.received ≤ m ∧ ∀ aData, Counted (.appendData aData) s →
      int32 (s.store.saver.iSize + aData.length : Nat) =
        (s.store.saver.iSize + aData.length : Nat) := by
  have hwithin : s.Within m := by
    refine h.invariant ?_ fun event s hcounted hs a s' hrun =>
      sessionStep_within hm hcounted hs hrun
    rintro s ⟨temp, rfl, htemp⟩
    exact openedSession_within htemp
  refine ⟨hwithin.within, fun aData hcounted => ?_⟩
  have hmax := hwithin.maxSize
  rcases hcounted with ⟨-, hsum⟩ | hroom
  · exact int32_natCast hsum
  · exact int32_natCast (by omega)

/-- A session that has taken one byte into a new file. -/
def oneByteTaken : Session where
  store := ⟨some [0], { (openedSession none 10240).store.saver with iFile := some 1, iSize := 1 }⟩
  found := 0
  taken := 1

theorem received_le_maxSize_first :
    oneByteTaken.received ≤ 10240 ∧ ∀ aData, Counted (.appendData aData) oneByteTaken →
      int32 (oneByteTaken.store.saver.iSize + aData.length : Nat) =
        (oneByteTaken.store.saver.iSize + aData.length : Nat) :=
  received_le_maxSize 10240 (by decide) (by decide)
    (.call (.appendData [0]) (.start ⟨none, rfl, by decide⟩) (.inl ⟨rfl, by decide⟩) rfl)

/-- A file that has the maximum size already takes another byte. -/
theorem full_takes_byte (content : Bytes) (hpos : 0 < content.length)
    (hlt : content.length < 2 ^ 31) :
    ∃ s, Reaches sessionStep (StartsWithin content.length) (fun _ _ => True) s ∧
      s.received = content.length + 1 := by
  have hwithin := @openedSession_within _ (some content) (Nat.le_refl content.length)
  have hcheck : (openedSession (some content) content.length).store.saver.checkMaxSizeTInt
      [(0 : UInt8)].length = KErrNone := by
    refine if_neg fun ⟨_, hgt⟩ => ?_
    have hone : int32 (0 + 1 : Nat) = 1 := by decide
    have hlast : int32 (0 + 1 : Nat) > content.length := hgt
    omega
  obtain ⟨st', retVal, hrun, -⟩ :=
    writeOutNextBodyDataL_takes hwithin.isOpen hwithin.sized [(0 : UInt8)]
  have happend := appendDataTInt_of_check hcheck hrun
  have hstep : sessionStep (.appendData [0]) (openedSession (some content) content.length) =
      some (⟨⟩, { openedSession (some content) content.length with store := st', taken := 1 }) := by
    simp only [sessionStep, happend, Option.bind_eq_bind, Option.bind_some, Option.pure_def]
    cases retVal <;> rfl
  exact ⟨_, .call _ (.start ⟨some content, rfl, Nat.le_refl _⟩) trivial hstep, rfl⟩

/-- One byte more than the maximum size of 10240 is received. -/
theorem not_received_le_maxSize : ¬ ∀ (m : Nat) (s : Session), 0 < m → m < 2 ^ 31 →
    Reaches sessionStep (StartsWithin m) (fun _ _ => True) s → s.received ≤ m := by
  intro h
  have hlength : (List.replicate 10240 (0 : UInt8)).length = 10240 := List.length_replicate
  obtain ⟨s, hreaches, hreceived⟩ := full_takes_byte (List.replicate 10240 0)
    (by rw [hlength]; omega) (by rw [hlength]; omega)
  rw [hlength] at hreaches hreceived
  have hle := h 10240 s (by decide) (by decide) hreaches
  omega

end Runs

end SymbianWeb.Cod
