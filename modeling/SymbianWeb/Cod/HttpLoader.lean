import SymbianWeb.Cod.FileSaver
import Mathlib.Data.List.Infix

/-!
# Loading a media object (`codeng/src/HttpLoader.cpp`, `codeng/src/CodEngBase.cpp`)

The engine fetches a media object with a loader, which makes one GET. A fetch that fails or that
is paused leaves its temporary file, and the next fetch asks for the rest of the content. A step of
the system is the start of a fetch, the run of an active object, an event of the HTTP framework,
or a call of the user interface; `none` is an event that cannot come, or a panic. The response
that the transaction is receiving is part of the state.
-/

set_option autoImplicit false

namespace SymbianWeb.Cod

def KErrNotFound : Int := -1

def KErrCancel : Int := -3

def KErrTimedOut : Int := -33

def KErrCodHttpNoResponse : Int := -20015

def KErrCodHttpBadResponse : Int := -20019

def KErrCodHttpServerError : Int := -20025

def KErrCodHttpBadUrl : Int := -20028

def KErrCodHttpUnavailable : Int := -20029

def KErrCodWapConnectionDropped : Int := -20041

def KErrCodHttpAuthFailed : Int := -4157

def KErrCodHttpRequestedRangeNotSatisfiable : Int := -20043

def KErrCodHttpPreconditionFailed : Int := -20044

def KErrCodHttpDownloadPaused : Int := -20045

/-- Retry count for GET request timeout (1 attempt == no retry). -/
def KCodGetRetry : Nat := 1

/-- Estimated data transfer for response headers. -/
def KCodRespHdrsTraffic : Nat := 512

/-! ## The data of the engine -/

/-- `CHeaderField` -/
structure CHeaderField where
  iFieldName : String
  iFieldRawData : String
  deriving DecidableEq

/-- What the descriptor and the configuration say about the media object. -/
structure MediaObject where
  /-- `iCodDlInfoPath` is set. -/
  hasInfoPath : Bool
  types : List String
  /-- What `SetMaxSize` makes of the size in the descriptor. -/
  maxSize : Nat
  /-- The content is a FOTA package. -/
  isFota : Bool
  /-- `CheckResponseAttributesL` finds the type of the content among the types. -/
  typeMatches : Bool
  /-- `UpdatedDDUriL()` is not empty. -/
  hasUpdatedDDUri : Bool

/-- The info file of the media object. -/
structure SubInfoFile where
  headers : List CHeaderField
  iPausable : Bool
  iUniqueFilenameSet : Bool
  deriving DecidableEq

/-- `CCodEngBase` with the data of its active download, and the files on disk: the info file and
the file with the name `iFullName`. -/
structure CCodEngBase where
  temp : Option Bytes
  subInfo : Option SubInfoFile
  iDownloadedSize : Nat
  iPausable : Bool
  iUniqueFilenameSet : Bool
  iSaver : Option CFileSaver
  deriving DecidableEq

/-- `TCodProgress` in its load phase. -/
structure TCodProgress where
  load : Nat := 0
  notify : Nat := 0
  deriving DecidableEq

def TCodProgress.currentValue (progress : TCodProgress) : Nat := progress.load + progress.notify

def TCodProgress.incrementL (progress : TCodProgress) (aBytes : Nat) : TCodProgress :=
  { progress with load := progress.load + aBytes }

def TCodProgress.setAmountL (progress : TCodProgress) (aBytes : Nat) : TCodProgress :=
  { progress with load := aBytes }

/-- How far the framework is with the response: the bytes of the body that are still to come. -/
inductive Exchange where
  | requested
  | receiving (rest : Bytes)
  | received
  deriving DecidableEq

/-- An open transaction, with the offset of its Range field. -/
structure Transaction where
  range : Option Nat
  exchange : Exchange
  deriving DecidableEq

inductive LoaderState where
  | EInit
  | EStart
  | EOpen
  | ERequest
  deriving DecidableEq

/-- `CHttpLoader`. `iStatus` is `none` while the request is pending. -/
structure CHttpLoader where
  iState : LoaderState := .EStart
  iStatus : Option Int := some KErrNone
  iResult : Int := KErrNone
  iRetry : Nat := KCodGetRetry
  iHttp11 : Bool := true
  iResponseHeaders : List CHeaderField := []
  iProgress : TCodProgress := {}
  iTrans : Option Transaction := none
  deriving DecidableEq

/-- The engine between two fetches, during a fetch, or with the media object downloaded. -/
inductive State where
  | ready (eng : CCodEngBase)
  | fetching (eng : CCodEngBase) (loader : CHttpLoader)
  | downloaded (eng : CCodEngBase)
  deriving DecidableEq

/-! ## Info files and savers -/

/-- `CCodEngBase::StoreSubInfoFileL` -/
def storeSubInfoFileL (m : MediaObject) (eng : CCodEngBase) (aHeaders : List CHeaderField) :
    CCodEngBase :=
  if m.hasInfoPath then
    { eng with subInfo := some ⟨aHeaders, eng.iPausable, eng.iUniqueFilenameSet⟩ }
  else eng

/-- `CCodEngBase::LoadSubInfoFileL`, with the headers that it loads. The downloaded size is that of
the file, if there is one. -/
def loadSubInfoFileL (eng : CCodEngBase) : CCodEngBase × List CHeaderField :=
  match eng.subInfo with
  | none => (eng, [])
  | some info =>
      ({ eng with
          iPausable := info.iPausable
          iUniqueFilenameSet := info.iUniqueFilenameSet
          iDownloadedSize := (eng.temp.map List.length).getD eng.iDownloadedSize },
        info.headers)

/-- `CHttpLoader::FindHeaderField`: the raw data of the field. -/
def findHeaderField (aHeaders : List CHeaderField) (aFieldName : String) : Option String :=
  (aHeaders.find? fun field => field.iFieldName = aFieldName).map (·.iFieldRawData)

/-- `CHttpLoader::GetContentTypeL` of the headers that are kept. -/
def getContentTypeL (aHeaders : List CHeaderField) : String :=
  (findHeaderField aHeaders "Content-Type").getD ""

def acceptRangesSupported (aHeaders : List CHeaderField) : Bool :=
  findHeaderField aHeaders "Accept-Ranges" = some "bytes"

def KOma1DrmMessageContentType : String := "application/vnd.oma.drm.message"

def KOma1DcfContentType : String := "application/vnd.oma.drm.content"

/-- `aText.Find( aSub ) != KErrNotFound` -/
def contains (aText aSub : String) : Bool := aSub.toList <:+: aText.toList

/-- The type is one of the types of the descriptor; a DRM message arrives as a DCF. -/
def contentTypeMatches (types : List String) (aType : String) : Bool :=
  types.any fun type => contains aType type ||
    (contains type KOma1DrmMessageContentType && contains aType KOma1DcfContentType)

/-- `CCodEngBase::SetUniqueFileNameL`, unless it was called before: a name that no file has. -/
def setUniqueFileNameL (m : MediaObject) (eng : CCodEngBase) (headers : List CHeaderField) :
    CCodEngBase :=
  if eng.iUniqueFilenameSet then eng
  else storeSubInfoFileL m { eng with temp := none, iUniqueFilenameSet := true } headers

/-- `CCodEngBase::CreateSaverL`, for the types for which it makes a file saver. -/
def createSaverL (m : MediaObject) (eng : CCodEngBase) (headers : List CHeaderField)
    (aType : String) : Except Int CCodEngBase :=
  if aType = "" then
    .ok eng
  else if contentTypeMatches m.types aType = false then
    .error KErrCodAttributeMismatch
  else
    let eng := setUniqueFileNameL m eng headers
    let st := openStoreL { temp := eng.temp, saver := { iMaxSize := m.maxSize } }
    .ok { eng with temp := st.temp, iSaver := some st.saver }

/-- An operation of the saver. -/
def CCodEngBase.setStore (eng : CCodEngBase) (st : Store) : CCodEngBase :=
  { eng with temp := st.temp, iSaver := some st.saver }

/-! ## The end of a fetch -/

/-- `CCodEngBase::RunError` of a fetch: clean up and delete the saver. -/
def runError (m : MediaObject) (eng : CCodEngBase) (aError : Int) : Option State :=
  match eng.iSaver with
  | none => some (.ready eng)
  | some saver => do
      let temp ←
        if aError = KErrCodHttpServerError then
          some eng.temp
        else if aError = KErrCodHttpPreconditionFailed then
          if m.hasUpdatedDDUri then some eng.temp
          else cleanup ⟨eng.temp, saver⟩ (!eng.iPausable)
        else
          -- if the user cancels the download, delete the media object also
          cleanup ⟨eng.temp, saver⟩ (aError = KErrCancel || !eng.iPausable)
      return .ready { eng with temp := temp, iSaver := none }

/-- `CCodEngBase::EndFetchL` -/
def endFetchL (m : MediaObject) (eng : CCodEngBase) (aStatus : Int) : Option State :=
  if aStatus < 0 then
    runError m eng aStatus
  else
    match eng.iSaver with
    | none => none
    | some saver =>
        -- `CheckResponseAttributesL`
        if saver.iSize = 0 ∨ m.typeMatches = false then runError m eng KErrCodAttributeMismatch
        else some (.downloaded eng)

/-- `CHttpLoader::Done`; the engine is the parent. -/
def done (m : MediaObject) (eng : CCodEngBase) (aResult : Int) : Option State :=
  match eng.iSaver with
  | none => endFetchL m eng aResult
  | some saver => do endFetchL m (eng.setStore (← closeStore ⟨eng.temp, saver⟩)) aResult

/-- `CHttpLoader::CompleteTransaction`. `SelfComplete` overrides a status only with an error. -/
def CHttpLoader.completeTransaction (loader : CHttpLoader) (aError : Int) : CHttpLoader :=
  { loader with
    iTrans := none
    iResult := aError
    iStatus :=
      match loader.iStatus with
      | none => some aError
      | some status => if aError ≠ KErrNone then some aError else some status }

/-! ## The request -/

/-- The loader after `LoadL`: the progress starts with what is downloaded if there is a saver. -/
def newLoader (eng : CCodEngBase) (headers : List CHeaderField) : CHttpLoader :=
  let progress : TCodProgress := {}
  { iResponseHeaders := headers
    iProgress :=
      if eng.iSaver.isSome then progress.setAmountL eng.iDownloadedSize else progress }

/-- `CHttpLoader::LoadL`; a content type of more than 128 characters does not fit. -/
def loadL (m : MediaObject) (eng : CCodEngBase) :
    Option (Except Int (CCodEngBase × CHttpLoader)) :=
  let (eng, headers) := loadSubInfoFileL eng
  let contentType := getContentTypeL headers
  if 128 < contentType.length then
    none
  else
    match createSaverL m eng headers contentType with
    | .error code => some (.error code)
    | .ok eng => some (.ok (eng, newLoader eng headers))

/-- `CCodEngBase::StartFetchL` -/
def startFetchL (m : MediaObject) (eng : CCodEngBase) : Option State :=
  match loadL m eng with
  | none => none
  | some (.error code) => runError m (loadSubInfoFileL eng).1 code
  | some (.ok (eng, loader)) => some (.fetching eng loader)

/-- `CHttpLoader::SetRangeFieldL`, with the offset of the field when it is set. -/
def setRangeFieldL (m : MediaObject) (eng : CCodEngBase) (loader : CHttpLoader) :
    Option (CCodEngBase × CHttpLoader × Option Nat) :=
  match eng.iSaver with
  | none => some (eng, loader, none)
  | some saver => do
      let size ← downloadedFileSize ⟨eng.temp, saver⟩
      let (eng, loader) :=
        if m.isFota then
          ({ eng with iDownloadedSize := eng.iDownloadedSize + size },
            { loader with iProgress := loader.iProgress.incrementL size })
        else (eng, loader)
      return (eng, loader, if size = 0 then none else some size)

/-- `CHttpLoader::RequestL` -/
def requestL (m : MediaObject) (eng : CCodEngBase) (loader : CHttpLoader) : Option State := do
  let (eng, loader, range) ← setRangeFieldL m eng loader
  return .fetching eng
    { loader with
      iHttp11 := true
      iTrans := some ⟨range, .requested⟩
      iState := .ERequest
      iStatus := none }

/-- `CHttpLoader::RunL` and `CHttpLoader::RunError` -/
def runLoader (m : MediaObject) (eng : CCodEngBase) (loader : CHttpLoader) : Option State :=
  match loader.iStatus with
  | none => none
  | some status =>
      if status < 0 then
        done m eng status
      else
        match loader.iState with
        | .EInit => none
        | .EStart => some (.fetching eng { loader with iState := .EOpen, iStatus := none })
        | .EOpen => requestL m eng loader
        | .ERequest => done m eng loader.iResult

/-- `CHttpLoader::Pause` -/
def pause (loader : CHttpLoader) : CHttpLoader :=
  match loader.iState with
  | .ERequest => loader.completeTransaction KErrCodHttpDownloadPaused
  | _ => loader

/-- `CHttpLoader::Timeout` -/
def timeout (loader : CHttpLoader) : CHttpLoader :=
  let loader := { loader with iRetry := loader.iRetry - 1 }
  if loader.iRetry > 0 then
    { loader.completeTransaction KErrNone with iState := .EOpen }
  else
    loader.completeTransaction KErrTimedOut

/-! ## The response -/

def KDrmMessageMimeType : String := "application/vnd.oma.drm.message"

/-- `CHttpLoader::CheckRealDRMContentTypeL` and `UpdatePausableL`: an old DRM message cannot be
paused. -/
def checkRealDRMContentTypeL (m : MediaObject) (eng : CCodEngBase) (headers : List CHeaderField) :
    CCodEngBase :=
  let pausable : Bool :=
    findHeaderField headers "x-drm-old-content-type" ≠ some KDrmMessageMimeType
  if pausable ≠ eng.iPausable then
    storeSubInfoFileL m { eng with iPausable := pausable } headers
  else eng

/-- `HTTPStatus` -/
def EOk : Nat := 200

def ENonAuthoritativeInfo : Nat := 203

def EPartialContent : Nat := 206

/-- The state in which a function returns, or leaves with an error code. -/
abbrev Leaving := (CCodEngBase × CHttpLoader) × Int

/-- The decision to truncate: an answer with the whole content resets the store when there is no
progress yet. -/
def resetIfWhole (httpCode : Nat) (eng : CCodEngBase) (saver : CFileSaver) (loader : CHttpLoader) :
    CCodEngBase × CHttpLoader :=
  if httpCode ≠ EPartialContent ∧ loader.iProgress.currentValue = 0 then
    (eng.setStore (resetL ⟨eng.temp, saver⟩),
      { loader with iProgress := loader.iProgress.setAmountL 1024 })
  else (eng, loader)

/-- What `HandleResponseHeadersL` does with the saver. -/
def prepareSaverL (m : MediaObject) (eng : CCodEngBase) (saver : CFileSaver) (loader : CHttpLoader)
    (httpCode : Nat) (dataSize : Option Nat) : Leaving :=
  let (eng, loader) := resetIfWhole httpCode eng saver loader
  let eng := checkRealDRMContentTypeL m eng loader.iResponseHeaders
  let eng := { eng with
    iPausable := acceptRangesSupported loader.iResponseHeaders && eng.iPausable }
  ((eng, loader), (dataSize.map saver.checkMaxSize).getD KErrNone)

/-- The branch of `HandleResponseHeadersL` for a response with content. -/
def handleContentL (m : MediaObject) (eng : CCodEngBase) (loader : CHttpLoader) (httpCode : Nat)
    (contentType : String) (dataSize : Option Nat) : Option Leaving :=
  let loader := { loader with iResult := KErrNone }
  match eng.iSaver with
  | some saver => some (prepareSaverL m eng saver loader httpCode dataSize)
  | none =>
      match createSaverL m eng loader.iResponseHeaders contentType with
      | .error code => some ((eng, loader), code)
      | .ok eng =>
          match eng.iSaver with
          | none => none
          | some saver => some (prepareSaverL m eng saver loader httpCode dataSize)

/-- `CHttpLoader::VersionRetryL`: the result is set to `aResult` when there is no retry. -/
def versionRetryL (loader : CHttpLoader) (aResult : Int) : CHttpLoader :=
  if loader.iHttp11 then
    { loader with
      iHttp11 := false
      iTrans := loader.iTrans.map fun transaction => { transaction with exchange := .requested }
      iResult := KErrNone }
  else { loader with iResult := aResult }

/-- `CHttpLoader::HandleResponseHeadersL` of a GET -/
def handleResponseHeadersL (m : MediaObject) (eng : CCodEngBase) (loader : CHttpLoader)
    (httpCode : Nat) (contentType : String) (dataSize : Option Nat) : Option Leaving :=
  let result (code : Int) : Option Leaving := some ((eng, { loader with iResult := code }), KErrNone)
  if httpCode / 100 = 1 then
    some ((eng, loader), KErrNone)
  else if httpCode = EOk ∨ httpCode = ENonAuthoritativeInfo ∨ httpCode = EPartialContent then
    handleContentL m eng loader httpCode contentType dataSize
  else if httpCode / 100 = 2 then
    -- success codes without an usable body
    result KErrCodHttpNoResponse
  else if httpCode = 401 ∨ httpCode = 407 then
    result KErrCodHttpAuthFailed
  else if httpCode = 404 ∨ httpCode = 410 then
    some (({ eng with iPausable := false }, { loader with iResult := KErrCodHttpBadUrl }), KErrNone)
  else if httpCode = 416 then
    result KErrCodHttpRequestedRangeNotSatisfiable
  else if httpCode = 412 then
    -- re init the download
    let (eng, loader) :=
      match eng.iSaver with
      | none => (eng, loader)
      | some saver =>
          (eng.setStore (resetL ⟨eng.temp, saver⟩),
            { loader with iProgress := loader.iProgress.setAmountL 0 })
    some ((eng, loader.completeTransaction KErrCodHttpPreconditionFailed), KErrNone)
  else if httpCode / 100 = 4 then
    result KErrCodHttpUnavailable
  else if httpCode = 505 then
    some ((eng, versionRetryL loader KErrCodHttpUnavailable), KErrNone)
  else if httpCode / 100 = 5 then
    some ((eng, versionRetryL loader KErrCodHttpServerError), KErrNone)
  else
    result KErrCodHttpBadResponse

/-- `MHFRunL` of `EGotResponseHeaders`. `contentType` is the type in the headers, if they have
one. -/
def gotResponseHeaders (m : MediaObject) (eng : CCodEngBase) (loader : CHttpLoader)
    (httpCode : Nat) (headers : List CHeaderField) (contentType : Option String)
    (dataSize : Option Nat) : Option Leaving :=
  -- `StoreResponseHeaderL`
  let loader := { loader with iResponseHeaders := headers }
  let eng := checkRealDRMContentTypeL m eng headers
  match contentType with
  | none => some ((eng, loader), KErrNotFound)
  | some contentType => do
      let eng := storeSubInfoFileL m eng headers
      let ((eng, loader), code) ←
        handleResponseHeadersL m eng loader httpCode contentType dataSize
      if code < 0 then
        return ((eng, loader), code)
      else if loader.iResult = KErrCodHttpBadUrl ∨ loader.iResult = KErrCodHttpBadResponse then
        return ((eng, loader), loader.iResult)
      else
        return ((eng, { loader with
          iProgress := loader.iProgress.incrementL KCodRespHdrsTraffic }), KErrNone)

/-- `MHFRunError` completes the transaction when `MHFRunL` leaves. -/
def mhfRunError : Leaving → State
  | ((eng, loader), code) =>
      .fetching eng (if code < 0 then loader.completeTransaction code else loader)

def CHttpLoader.setExchange (loader : CHttpLoader) (transaction : Transaction) (exchange : Exchange) :
    CHttpLoader :=
  { loader with iTrans := some { transaction with exchange := exchange } }

/-- `MHFRunL` of `EGotResponseBodyData` -/
def gotResponseBodyData (eng : CCodEngBase) (loader : CHttpLoader) (bodyP : Bytes) :
    Option Leaving :=
  match eng.iSaver with
  | none =>
      some ((eng, { loader with iProgress := loader.iProgress.incrementL bodyP.length }), KErrNone)
  | some saver => do
      let (st, err) ← appendData ⟨eng.temp, saver⟩ bodyP
      let eng := { eng.setStore st with iDownloadedSize := eng.iDownloadedSize + bodyP.length }
      if err < 0 then
        return ((eng, loader), err)
      else
        return ((eng, { loader with
          iProgress := loader.iProgress.incrementL bodyP.length }), KErrNone)

/-- `MHFRunL` of `EResponseComplete` -/
def responseComplete (eng : CCodEngBase) : Option CCodEngBase :=
  match eng.iSaver with
  | none => some eng
  | some saver => do return eng.setStore (← onComplete ⟨eng.temp, saver⟩)

/-- The events of a transaction: the status, the headers, the content type in them, the size and
the bytes of the body of a response; the size of the next data; and the ends. -/
inductive HttpEvent where
  | EGotResponseHeaders (httpCode : Nat) (headers : List CHeaderField)
      (contentType : Option String) (dataSize : Option Nat) (body : Bytes)
  | EGotResponseBodyData (size : Nat)
  | EResponseComplete
  | ESucceeded
  | EFailed
  /-- `KErrHttpPartialResponseReceived`: the connection has been disconnected, which is ignored. -/
  | partialResponseReceived
  | error (code : Int)

/-- `CHttpLoader::MHFRunL` and `CHttpLoader::MHFRunError` -/
def mhfRunL (m : MediaObject) (eng : CCodEngBase) (loader : CHttpLoader) (transaction : Transaction) :
    HttpEvent → Option State
  | .EGotResponseHeaders httpCode headers contentType dataSize body =>
      match transaction.exchange with
      | .requested => do
          return mhfRunError (← gotResponseHeaders m eng (loader.setExchange transaction (.receiving body))
            httpCode headers contentType dataSize)
      | _ => none
  | .EGotResponseBodyData size =>
      match transaction.exchange with
      | .receiving rest =>
          if size ≤ rest.length then do
            return mhfRunError (← gotResponseBodyData eng
              (loader.setExchange transaction (.receiving (rest.drop size))) (rest.take size))
          else none
      | _ => none
  | .EResponseComplete =>
      match transaction.exchange with
      | .receiving [] => do
          return .fetching (← responseComplete eng) (loader.setExchange transaction .received)
      | _ => none
  | .ESucceeded =>
      match transaction.exchange with
      | .received => some (.fetching eng (loader.completeTransaction loader.iResult))
      | _ => none
  | .EFailed =>
      some (.fetching eng (loader.completeTransaction
        (if loader.iResult = KErrNone then KErrCodWapConnectionDropped else loader.iResult)))
  | .partialResponseReceived => some (.fetching eng loader)
  | .error code => some (mhfRunError ((eng, loader), code))

/-! ## The system -/

inductive Event where
  /-- The user starts or resumes the download. -/
  | start
  /-- The application is launched again, and the engine is made from the info file. -/
  | relaunch
  /-- The session is open, or cannot be opened. -/
  | connected (code : Int)
  /-- The loader runs. -/
  | run
  /-- The storage runs: a write has ended. -/
  | written
  | pause
  | timeout
  | http (event : HttpEvent)

def step (m : MediaObject) : State → Event → Option State
  | .ready eng, .start => startFetchL m eng
  | .ready eng, .relaunch =>
      if eng.subInfo.isSome then
        some (.ready (loadSubInfoFileL { eng with iDownloadedSize := 0 }).1)
      else none
  | .fetching eng loader, .connected code =>
      if loader.iState = .EOpen ∧ loader.iStatus = none then
        some (.fetching eng { loader with iStatus := some code })
      else none
  | .fetching eng loader, .run => runLoader m eng loader
  | .fetching eng loader, .written =>
      match eng.iSaver with
      | none => none
      | some saver => do
          return .fetching (eng.setStore (← Store.finishWrite ⟨eng.temp, saver⟩)) loader
  | .fetching eng loader, .pause => some (.fetching eng (Cod.pause loader))
  | .fetching eng loader, .timeout =>
      if loader.iState = .ERequest then some (.fetching eng (Cod.timeout loader)) else none
  | .fetching eng loader, .http event =>
      match loader.iTrans with
      | none => none
      | some transaction => mhfRunL m eng loader transaction event
  | _, _ => none

end SymbianWeb.Cod
