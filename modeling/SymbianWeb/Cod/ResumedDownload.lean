import SymbianWeb.Cod.HttpLoader
import SymbianWeb.Library.FaultState

/-!
# Resumed downloads are intact

The server answers each GET with status 206 and the requested range of the content, or with status
200 and all of it. A store is truncated for a 200 only while there is no progress, and after a
fetch that was interrupted the progress starts with the size of the temporary file: an answer with
the whole content is then appended to what is already there. As long as a 200 only answers a GET
without a Range field, the temporary file is a prefix of the content between two fetches, and a
media object that is downloaded is the content.
-/

set_option autoImplicit false

namespace SymbianWeb.Cod

open FaultState

/-- The system, one event after the other. -/
def stepM (m : MediaObject) (event : Event) : FaultM State PUnit :=
  fun s => (step m s event).map fun s' => (PUnit.unit, s')

/-- The answers of a server with `content`. -/
def ServerAnswers (content : Bytes) : Event → State → Prop
  | .http (.EGotResponseHeaders httpCode _ _ _ body), .fetching _ loader =>
      httpCode = EOk ∧ body = content ∨
        httpCode = EPartialContent ∧
          (loader.iTrans.bind (·.range)).map (content.drop ·) = some body
  | _, _ => True

/-- A download that has not been started: the name of its file is not chosen yet. -/
def NotStarted (s : State) : Prop :=
  ∃ eng, s = .ready eng ∧ eng.iSaver = none ∧ eng.iUniqueFilenameSet = false ∧
    ∀ info, eng.subInfo = some info → info.iUniqueFilenameSet = false

/-- In every run with a server that has `content` and whose events are admitted, the file that is
downloaded is `content`. -/
def Intact (m : MediaObject) (content : Bytes) (admits : Event → State → Prop) : Prop :=
  ∀ s, Reaches (stepM m) NotStarted (fun event s => ServerAnswers content event s ∧ admits event s) s →
    ∀ eng, s = .downloaded eng → eng.temp = some content

/-- The server answers with the whole content only when no range is requested. -/
def WholeWhenNoRange : Event → State → Prop
  | .http (.EGotResponseHeaders httpCode _ _ _ _), .fetching _ loader =>
      httpCode = EOk → loader.iTrans.bind (·.range) = none
  | _, _ => True

instance (content : Bytes) (event : Event) (s : State) :
    Decidable (ServerAnswers content event s) := by
  unfold ServerAnswers
  split <;> infer_instance

instance (event : Event) (s : State) : Decidable (WholeWhenNoRange event s) := by
  unfold WholeWhenNoRange
  split <;> infer_instance

/-! ## The invariant -/

/-- What is left of a fetch: a prefix of the content, if the file is that of the download. -/
structure Kept (content : Bytes) (eng : CCodEngBase) : Prop where
  file : eng.iSaver = none → eng.iUniqueFilenameSet = true →
    ∀ held, eng.temp = some held → held <+: content
  saver : ∀ saver, eng.iSaver = some saver → eng.iUniqueFilenameSet = true ∧
    ∃ held, Store.Keeps ⟨eng.temp, saver⟩ held ∧ held <+: content

/-- The info file does not claim a unique file name that the engine does not know of. -/
def InfoAgrees (eng : CCodEngBase) : Prop :=
  ∀ info, eng.subInfo = some info → info.iUniqueFilenameSet = true →
    eng.iUniqueFilenameSet = true

/-- Before the response: `offset` bytes are held, and without a saver there is no progress. -/
inductive Waiting (content : Bytes) (eng : CCodEngBase) (loader : CHttpLoader) : Nat → Prop where
  | noSaver (hsaver : eng.iSaver = none) (hkept : Kept content eng)
      (hprogress : loader.iProgress.currentValue = 0) : Waiting content eng loader 0
  | saver {saver : CFileSaver} {held : Bytes} (hsaver : eng.iSaver = some saver)
      (hunique : eng.iUniqueFilenameSet = true) (hopened : Store.Opened ⟨eng.temp, saver⟩ held)
      (hheld : held <+: content) : Waiting content eng loader held.length

/-- While the body arrives: what is held and what is still to come are the content. -/
def Receiving (content : Bytes) (eng : CCodEngBase) (rest : Bytes) : Prop :=
  ∃ saver held, eng.iSaver = some saver ∧ eng.iUniqueFilenameSet = true ∧
    Store.Holds ⟨eng.temp, saver⟩ held ∧ held ++ rest = content

def Complete (content : Bytes) (eng : CCodEngBase) : Prop :=
  ∃ saver, eng.iSaver = some saver ∧ eng.iUniqueFilenameSet = true ∧
    Store.Flushed ⟨eng.temp, saver⟩ content

/-- The phases of a fetch. -/
inductive Phase (content : Bytes) (eng : CCodEngBase) (loader : CHttpLoader) : Prop where
  | waiting {offset : Nat} (hstate : loader.iState = .EStart ∨ loader.iState = .EOpen)
      (hresult : loader.iResult = KErrNone) (htrans : loader.iTrans = none)
      (hwaiting : Waiting content eng loader offset)
  | requested {offset : Nat} (hstate : loader.iState = .ERequest) (hstatus : loader.iStatus = none)
      (hresult : loader.iResult = KErrNone)
      (htrans : loader.iTrans = some ⟨if offset = 0 then none else some offset, .requested⟩)
      (hwaiting : Waiting content eng loader offset)
  | receiving {range : Option Nat} {rest : Bytes} (hstate : loader.iState = .ERequest)
      (hstatus : loader.iStatus = none) (hresult : loader.iResult = KErrNone)
      (htrans : loader.iTrans = some ⟨range, .receiving rest⟩)
      (hreceiving : Receiving content eng rest)
  | received {range : Option Nat} (hstate : loader.iState = .ERequest)
      (hstatus : loader.iStatus = none) (hresult : loader.iResult = KErrNone)
      (htrans : loader.iTrans = some ⟨range, .received⟩) (hcomplete : Complete content eng)
  | failed {code : Int} (hstate : loader.iState = .ERequest) (htrans : loader.iTrans = none)
      (hstatus : loader.iStatus = some code) (hcode : code < 0) (hkept : Kept content eng)
  | succeeded (hstate : loader.iState = .ERequest) (htrans : loader.iTrans = none)
      (hstatus : loader.iStatus = some KErrNone) (hresult : loader.iResult = KErrNone)
      (hcomplete : Complete content eng)

/-- The invariant of the system. -/
def Inv (content : Bytes) : State → Prop
  | .ready eng => eng.iSaver = none ∧ Kept content eng ∧ InfoAgrees eng
  | .fetching eng loader => loader.iRetry ≤ 1 ∧ InfoAgrees eng ∧ Phase content eng loader
  | .downloaded eng => eng.temp = some content

variable {content : Bytes} {m : MediaObject}

/-! ## What is kept -/

theorem Store.Keeps.temp {st : Store} {held : Bytes} (h : st.Keeps held) :
    ∃ written, st.temp = some written ∧ written <+: held := by
  rcases h with h | h
  · obtain ⟨written, htemp, -, hheld⟩ := h.covers
    refine ⟨written, htemp, ?_⟩
    rw [← hheld, List.append_assoc]
    exact List.prefix_append _ _
  · exact ⟨held, h.content, List.prefix_refl held⟩

theorem Kept.of_saver {eng : CCodEngBase} {saver : CFileSaver} {held : Bytes}
    (hsaver : eng.iSaver = some saver) (hunique : eng.iUniqueFilenameSet = true)
    (hkeeps : Store.Keeps ⟨eng.temp, saver⟩ held) (hheld : held <+: content) :
    Kept content eng := by
  refine ⟨fun hnone => ?_, fun saver' hsaver' => ⟨hunique, held, ?_, hheld⟩⟩
  · rw [hsaver] at hnone
    cases hnone
  · rw [hsaver, Option.some.injEq] at hsaver'
    rw [← hsaver']
    exact hkeeps

theorem Waiting.kept {eng : CCodEngBase} {loader : CHttpLoader} {offset : Nat}
    (h : Waiting content eng loader offset) : Kept content eng := by
  cases h with
  | noSaver _ hkept _ => exact hkept
  | saver hsaver hunique hopened hheld =>
      exact .of_saver hsaver hunique (.inl hopened.holds) hheld

theorem Receiving.kept {eng : CCodEngBase} {rest : Bytes} (h : Receiving content eng rest) :
    Kept content eng := by
  obtain ⟨saver, held, hsaver, hunique, hholds, hcontent⟩ := h
  refine .of_saver hsaver hunique (.inl hholds) ?_
  rw [← hcontent]
  exact List.prefix_append _ _

theorem Complete.kept {eng : CCodEngBase} (h : Complete content eng) : Kept content eng := by
  obtain ⟨saver, hsaver, hunique, hflushed⟩ := h
  exact .of_saver hsaver hunique (.inr hflushed) (List.prefix_refl content)

theorem Phase.kept {eng : CCodEngBase} {loader : CHttpLoader} (h : Phase content eng loader) :
    Kept content eng := by
  cases h with
  | waiting _ _ _ hwaiting => exact hwaiting.kept
  | requested _ _ _ _ hwaiting => exact hwaiting.kept
  | receiving _ _ _ _ hreceiving => exact hreceiving.kept
  | received _ _ _ _ hcomplete => exact hcomplete.kept
  | failed _ _ _ _ hkept => exact hkept
  | succeeded _ _ _ _ hcomplete => exact hcomplete.kept

/-! ## The end of a fetch -/

theorem runError_inv {eng : CCodEngBase} {code : Int} {s : State} (hkept : Kept content eng)
    (hinfo : InfoAgrees eng) (hrun : runError m eng code = some s) : Inv content s := by
  cases hsaver : eng.iSaver with
  | none =>
      rw [runError, hsaver] at hrun
      cases hrun
      exact ⟨hsaver, hkept, hinfo⟩
  | some saver =>
      obtain ⟨hunique, held, hkeeps, hheld⟩ := hkept.saver saver hsaver
      obtain ⟨written, htemp, hwritten⟩ := hkeeps.temp
      -- the file is deleted, or kept as it is, or kept with the pending data written
      have hready : ∀ temp, (∀ left, temp = some left → left <+: content) →
          Inv content (.ready { eng with temp := temp, iSaver := none }) := by
        intro temp htemp
        exact ⟨rfl, ⟨fun _ _ => htemp, fun _ h => by cases h⟩, hinfo⟩
      have hcleanup : ∀ delete left,
          (if delete = true then none else some held) = some left → left <+: content := by
        intro delete left h
        cases delete with
        | true => cases h
        | false =>
            rw [if_neg (by decide), Option.some.injEq] at h
            rw [← h]
            exact hheld
      have huntouched : ∀ left, eng.temp = some left → left <+: content := by
        intro left h
        rw [show eng.temp = some written from htemp, Option.some.injEq] at h
        rw [← h]
        exact hwritten.trans hheld
      simp only [runError, hsaver, Option.bind_eq_bind, cleanup_flushed hkeeps] at hrun
      split at hrun
      · cases hrun
        exact hready _ huntouched
      · split at hrun
        · split at hrun
          · cases hrun
            exact hready _ huntouched
          · cases hrun
            exact hready _ (hcleanup _)
        · cases hrun
          exact hready _ (hcleanup _)

theorem done_inv_of_error {eng : CCodEngBase} {code : Int} {s : State} (hkept : Kept content eng)
    (hinfo : InfoAgrees eng) (hcode : code < 0) (hrun : done m eng code = some s) :
    Inv content s := by
  cases hsaver : eng.iSaver with
  | none =>
      simp only [done, hsaver, endFetchL, if_pos hcode] at hrun
      exact runError_inv hkept hinfo hrun
  | some saver =>
      obtain ⟨hunique, held, hkeeps, hheld⟩ := hkept.saver saver hsaver
      obtain ⟨st, hclose, hflushed⟩ := closeStore_flushed hkeeps
      simp only [done, hsaver, hclose, Option.bind_eq_bind, Option.bind_some, endFetchL,
        if_pos hcode] at hrun
      have hkept' : Kept content (eng.setStore st) := .of_saver rfl hunique (.inr hflushed) hheld
      exact runError_inv hkept' hinfo hrun

theorem done_inv_of_complete {eng : CCodEngBase} {s : State} (hcomplete : Complete content eng)
    (hinfo : InfoAgrees eng) (hrun : done m eng KErrNone = some s) : Inv content s := by
  obtain ⟨saver, hsaver, hunique, hflushed⟩ := hcomplete
  obtain ⟨st, hclose, hflushed'⟩ := closeStore_flushed (.inr hflushed)
  simp only [done, hsaver, hclose, Option.bind_eq_bind, Option.bind_some, endFetchL] at hrun
  rw [if_neg (by decide)] at hrun
  have hkept : Kept content (eng.setStore st) :=
    .of_saver rfl hunique (.inr hflushed') (List.prefix_refl content)
  simp only [CCodEngBase.setStore] at hrun
  split at hrun
  · exact runError_inv hkept hinfo hrun
  · cases hrun
    exact hflushed'.content

/-! ## Changes of the engine that do not touch the file -/

/-- The same file, saver and name; the info file may have been written. -/
structure SameFile (eng eng' : CCodEngBase) : Prop where
  temp : eng'.temp = eng.temp
  saver : eng'.iSaver = eng.iSaver
  unique : eng'.iUniqueFilenameSet = eng.iUniqueFilenameSet
  info : InfoAgrees eng → InfoAgrees eng'

theorem SameFile.trans {eng₁ eng₂ eng₃ : CCodEngBase} (h : SameFile eng₁ eng₂)
    (h' : SameFile eng₂ eng₃) : SameFile eng₁ eng₃ :=
  ⟨h'.temp.trans h.temp, h'.saver.trans h.saver, h'.unique.trans h.unique,
    fun hinfo => h'.info (h.info hinfo)⟩

theorem SameFile.kept {eng eng' : CCodEngBase} (h : SameFile eng eng') (hkept : Kept content eng) :
    Kept content eng' := by
  refine ⟨?_, ?_⟩
  · rw [h.temp, h.saver, h.unique]
    exact hkept.file
  · rw [h.temp, h.saver, h.unique]
    exact hkept.saver

theorem SameFile.receiving {eng eng' : CCodEngBase} {rest : Bytes} (h : SameFile eng eng')
    (hreceiving : Receiving content eng rest) : Receiving content eng' rest := by
  rw [Receiving, h.temp, h.saver, h.unique]
  exact hreceiving

theorem sameFile_downloadedSize (eng : CCodEngBase) (size : Nat) :
    SameFile eng { eng with iDownloadedSize := size } :=
  ⟨rfl, rfl, rfl, id⟩

theorem sameFile_pausable (eng : CCodEngBase) (pausable : Bool) :
    SameFile eng { eng with iPausable := pausable } :=
  ⟨rfl, rfl, rfl, id⟩

theorem sameFile_storeSubInfoFileL (m : MediaObject) (eng : CCodEngBase)
    (headers : List CHeaderField) : SameFile eng (storeSubInfoFileL m eng headers) := by
  by_cases hpath : m.hasInfoPath = true
  · rw [storeSubInfoFileL, if_pos hpath]
    refine ⟨rfl, rfl, rfl, fun _ info hstored hset => ?_⟩
    cases hstored
    exact hset
  · rw [storeSubInfoFileL, if_neg hpath]
    exact ⟨rfl, rfl, rfl, id⟩

theorem sameFile_checkRealDRMContentTypeL (m : MediaObject) (eng : CCodEngBase)
    (headers : List CHeaderField) : SameFile eng (checkRealDRMContentTypeL m eng headers) := by
  simp only [checkRealDRMContentTypeL]
  split
  · exact (sameFile_pausable eng _).trans (sameFile_storeSubInfoFileL m _ headers)
  · exact ⟨rfl, rfl, rfl, id⟩

/-! ## The start of a fetch -/

/-- Loading the info file can only forget that the name is unique. -/
theorem loadSubInfoFileL_kept {eng : CCodEngBase} (hsaver : eng.iSaver = none)
    (hkept : Kept content eng) (hinfo : InfoAgrees eng) :
    (loadSubInfoFileL eng).1.iSaver = none ∧ Kept content (loadSubInfoFileL eng).1 ∧
      InfoAgrees (loadSubInfoFileL eng).1 := by
  cases hsub : eng.subInfo with
  | none =>
      simp only [loadSubInfoFileL, hsub]
      exact ⟨hsaver, hkept, hinfo⟩
  | some info =>
      simp only [loadSubInfoFileL, hsub]
      refine ⟨hsaver, ⟨fun _ hset => ?_, fun saver h => ?_⟩, fun info' hstored hset => ?_⟩
      · exact hkept.file hsaver (hinfo info hsub hset)
      · rw [hsaver] at h
        cases h
      · cases hstored
        exact hset

/-- With a unique name the file is what is left of a former fetch, or there is no file. -/
theorem setUniqueFileNameL_kept {eng : CCodEngBase} (headers : List CHeaderField)
    (hsaver : eng.iSaver = none) (hkept : Kept content eng) (hinfo : InfoAgrees eng) :
    (setUniqueFileNameL m eng headers).iUniqueFilenameSet = true ∧
      InfoAgrees (setUniqueFileNameL m eng headers) ∧
      (setUniqueFileNameL m eng headers).temp.getD [] <+: content := by
  by_cases hset : eng.iUniqueFilenameSet = true
  · rw [setUniqueFileNameL, if_pos hset]
    refine ⟨hset, hinfo, ?_⟩
    cases htemp : eng.temp with
    | none => exact List.nil_prefix
    | some held => exact hkept.file hsaver hset held htemp
  · rw [setUniqueFileNameL, if_neg hset]
    have hsame := sameFile_storeSubInfoFileL m
      { eng with temp := none, iUniqueFilenameSet := true } headers
    refine ⟨hsame.unique, hsame.info fun _ _ _ => rfl, ?_⟩
    rw [hsame.temp]
    exact List.nil_prefix

/-- An engine with a saver that has opened a prefix of the content. -/
def OpenedPrefix (content : Bytes) (eng : CCodEngBase) : Prop :=
  ∃ saver held, eng.iSaver = some saver ∧ eng.iUniqueFilenameSet = true ∧
    Store.Opened ⟨eng.temp, saver⟩ held ∧ held <+: content

theorem createSaverL_ok {eng eng' : CCodEngBase} {headers : List CHeaderField} {aType : String}
    (hsaver : eng.iSaver = none) (hkept : Kept content eng) (hinfo : InfoAgrees eng)
    (hrun : createSaverL m eng headers aType = .ok eng') :
    InfoAgrees eng' ∧ (eng' = eng ∨ OpenedPrefix content eng') := by
  obtain ⟨hunique, hagrees, hheld⟩ :=
    setUniqueFileNameL_kept (m := m) headers hsaver hkept hinfo
  unfold createSaverL at hrun
  split at hrun
  · cases hrun
    exact ⟨hinfo, .inl rfl⟩
  split at hrun
  · cases hrun
  cases hrun
  exact ⟨hagrees, .inr ⟨_, _, rfl, hunique, openStoreL_opened _ _, hheld⟩⟩

theorem createSaverL_error {eng : CCodEngBase} {headers : List CHeaderField} {aType : String}
    {code : Int} (hrun : createSaverL m eng headers aType = .error code) : code < 0 := by
  unfold createSaverL at hrun
  split at hrun
  · cases hrun
  · split at hrun
    · cases hrun
      decide
    · cases hrun

theorem startFetchL_inv {eng : CCodEngBase} {s : State} (hsaver : eng.iSaver = none)
    (hkept : Kept content eng) (hinfo : InfoAgrees eng) (hrun : startFetchL m eng = some s) :
    Inv content s := by
  obtain ⟨hsaver₁, hkept₁, hinfo₁⟩ := loadSubInfoFileL_kept hsaver hkept hinfo
  unfold startFetchL loadL at hrun
  generalize loadSubInfoFileL eng = loaded at hsaver₁ hkept₁ hinfo₁ hrun
  obtain ⟨eng₁, headers⟩ := loaded
  simp only at hsaver₁ hkept₁ hinfo₁ hrun
  by_cases hlong : 128 < (getContentTypeL headers).length
  · simp only [if_pos hlong] at hrun
    cases hrun
  simp only [if_neg hlong] at hrun
  cases hcreate : createSaverL m eng₁ headers (getContentTypeL headers) with
  | error code =>
      -- `LoadL` leaves before there is a saver
      simp only [hcreate] at hrun
      exact runError_inv hkept₁ hinfo₁ hrun
  | ok eng₂ =>
      simp only [hcreate] at hrun
      cases hrun
      obtain ⟨hinfo₂, hopened⟩ := createSaverL_ok hsaver₁ hkept₁ hinfo₁ hcreate
      have hretry : (newLoader eng₂ headers).iRetry ≤ 1 := Nat.le_refl 1
      rcases hopened with rfl | ⟨saver, held, hsaver₂, hunique, hopened, hheld⟩
      · refine ⟨hretry, hinfo₂, .waiting (.inl rfl) rfl rfl (.noSaver hsaver₁ hkept₁ ?_)⟩
        simp [newLoader, hsaver₁, TCodProgress.currentValue]
      · exact ⟨hretry, hinfo₂, .waiting (.inl rfl) rfl rfl (.saver hsaver₂ hunique hopened hheld)⟩

/-! ## The request -/

/-- The Range field asks for what is not held yet. -/
theorem requestL_inv {eng : CCodEngBase} {loader : CHttpLoader} {offset : Nat} {s : State}
    (hretry : loader.iRetry ≤ 1) (hinfo : InfoAgrees eng) (hresult : loader.iResult = KErrNone)
    (hwaiting : Waiting content eng loader offset) (hrun : requestL m eng loader = some s) :
    Inv content s := by
  cases hwaiting with
  | noSaver hsaver hkept hprogress =>
      simp only [requestL, setRangeFieldL, hsaver, Option.bind_eq_bind, Option.bind_some] at hrun
      cases hrun
      exact ⟨hretry, hinfo, .requested rfl rfl hresult rfl (.noSaver hsaver hkept hprogress)⟩
  | @saver saver held hsaver hunique hopened hheld =>
      simp only [requestL, setRangeFieldL, hsaver, downloadedFileSize_opened hopened,
        Option.bind_eq_bind, Option.bind_some] at hrun
      by_cases hfota : m.isFota = true
      · simp only [hfota, if_true] at hrun
        cases hrun
        exact ⟨hretry, hinfo, .requested rfl rfl hresult rfl (.saver rfl hunique hopened hheld)⟩
      · simp only [hfota] at hrun
        cases hrun
        exact ⟨hretry, hinfo, .requested rfl rfl hresult rfl (.saver hsaver hunique hopened hheld)⟩

theorem runLoader_inv {eng : CCodEngBase} {loader : CHttpLoader} {s : State}
    (hretry : loader.iRetry ≤ 1) (hinfo : InfoAgrees eng) (hphase : Phase content eng loader)
    (hrun : runLoader m eng loader = some s) : Inv content s := by
  cases hstatus : loader.iStatus with
  | none =>
      simp only [runLoader, hstatus] at hrun
      cases hrun
  | some status =>
      by_cases hneg : status < 0
      · simp only [runLoader, hstatus, if_pos hneg] at hrun
        exact done_inv_of_error hphase.kept hinfo hneg hrun
      simp only [runLoader, hstatus, if_neg hneg] at hrun
      cases hphase with
      | waiting hstate hresult htrans hwaiting =>
          rcases hstate with hstate | hstate
          · simp only [hstate] at hrun
            cases hrun
            have hwaiting' := hwaiting
            cases hwaiting' with
            | noSaver hsaver hkept hprogress =>
                exact ⟨hretry, hinfo, .waiting (.inr rfl) hresult htrans (.noSaver hsaver hkept hprogress)⟩
            | saver hsaver hunique hopened hheld =>
                exact ⟨hretry, hinfo, .waiting (.inr rfl) hresult htrans
                  (.saver hsaver hunique hopened hheld)⟩
          · simp only [hstate] at hrun
            exact requestL_inv hretry hinfo hresult hwaiting hrun
      | requested _ hpending _ _ _ => simp [hpending] at hstatus
      | receiving _ hpending _ _ _ => simp [hpending] at hstatus
      | received _ hpending _ _ _ => simp [hpending] at hstatus
      | failed _ _ hfailed hcode _ =>
          rw [hstatus, Option.some.injEq] at hfailed
          exact absurd (hfailed ▸ hcode) hneg
      | succeeded hstate _ _ hresult hcomplete =>
          simp only [hstate, hresult] at hrun
          exact done_inv_of_complete hcomplete hinfo hrun

/-! ## The ends of a transaction -/

/-- A transaction that is completed with an error fails, whatever its status was. -/
theorem completeTransaction_fails {eng : CCodEngBase} {loader : CHttpLoader} {code : Int}
    (hstate : loader.iState = .ERequest) (hcode : code < 0) (hkept : Kept content eng) :
    Phase content eng (loader.completeTransaction code) := by
  refine Phase.failed hstate rfl ?_ hcode hkept
  have hne : code ≠ KErrNone := by
    unfold KErrNone
    omega
  cases hstatus : loader.iStatus with
  | none => simp only [CHttpLoader.completeTransaction, hstatus]
  | some status => simp only [CHttpLoader.completeTransaction, hstatus, if_pos hne]

theorem pause_inv {eng : CCodEngBase} {loader : CHttpLoader} (hretry : loader.iRetry ≤ 1)
    (hinfo : InfoAgrees eng) (hphase : Phase content eng loader) :
    Inv content (.fetching eng (pause loader)) := by
  by_cases hstate : loader.iState = .ERequest
  · simp only [pause, hstate]
    exact ⟨hretry, hinfo, completeTransaction_fails hstate (by decide) hphase.kept⟩
  · have hsame : pause loader = loader := by
      unfold pause
      split
      · exact absurd ‹_› hstate
      · rfl
    rw [hsame]
    exact ⟨hretry, hinfo, hphase⟩

/-- There is one attempt only. -/
theorem timeout_inv {eng : CCodEngBase} {loader : CHttpLoader} (hretry : loader.iRetry ≤ 1)
    (hinfo : InfoAgrees eng) (hphase : Phase content eng loader)
    (hstate : loader.iState = .ERequest) : Inv content (.fetching eng (timeout loader)) := by
  have hlast : ¬ loader.iRetry - 1 > 0 := by omega
  simp only [timeout, if_neg hlast]
  exact ⟨by show loader.iRetry - 1 ≤ 1; omega, hinfo,
    completeTransaction_fails hstate (by decide) hphase.kept⟩

/-- A function that leaves has kept what is needed to resume, and one that returns has gone on to
the next phase. -/
theorem mhfRunError_inv {eng : CCodEngBase} {loader : CHttpLoader} {code : Int}
    (hretry : loader.iRetry ≤ 1) (hinfo : InfoAgrees eng) (hstate : loader.iState = .ERequest)
    (hleft : code < 0 → Kept content eng) (hphase : ¬ code < 0 → Phase content eng loader) :
    Inv content (mhfRunError ((eng, loader), code)) := by
  by_cases hcode : code < 0
  · simp only [mhfRunError, if_pos hcode]
    exact ⟨hretry, hinfo, completeTransaction_fails hstate hcode (hleft hcode)⟩
  · simp only [mhfRunError, if_neg hcode]
    exact ⟨hretry, hinfo, hphase hcode⟩

/-! ## The response -/

/-- The answers to a GET that asks for what follows the first `offset` bytes, with the whole
content only if nothing is held. -/
def AnswerTo (content : Bytes) (offset httpCode : Nat) (body : Bytes) : Prop :=
  httpCode = EOk ∧ body = content ∧ offset = 0 ∨
    httpCode = EPartialContent ∧ body = content.drop offset ∧ offset ≠ 0

theorem AnswerTo.append {held body : Bytes} {httpCode : Nat} (hheld : held <+: content)
    (h : AnswerTo content held.length httpCode body) : held ++ body = content := by
  obtain ⟨rest, rfl⟩ := hheld
  rcases h with ⟨-, hbody, hempty⟩ | ⟨-, hbody, -⟩
  · rw [List.length_eq_zero_iff] at hempty
    subst hempty
    exact hbody
  · rw [hbody, List.drop_left]

/-- What is held and the body are the content: where the store is reset, nothing was held. -/
theorem resetIfWhole_receiving {eng : CCodEngBase} {saver : CFileSaver} {loader : CHttpLoader}
    {httpCode : Nat} {held body : Bytes} (hsaver : eng.iSaver = some saver)
    (hunique : eng.iUniqueFilenameSet = true) (hopened : Store.Opened ⟨eng.temp, saver⟩ held)
    (hbody : httpCode ≠ EPartialContent ∧ loader.iProgress.currentValue = 0 → body = content)
    (hheld : ¬ (httpCode ≠ EPartialContent ∧ loader.iProgress.currentValue = 0) →
      held ++ body = content) :
    Receiving content (resetIfWhole httpCode eng saver loader).1 body := by
  by_cases hreset : httpCode ≠ EPartialContent ∧ loader.iProgress.currentValue = 0
  · rw [resetIfWhole, if_pos hreset]
    exact ⟨_, [], rfl, hunique, (resetL_opened hopened).holds, hbody hreset⟩
  · rw [resetIfWhole, if_neg hreset]
    exact ⟨saver, held, hsaver, hunique, hopened.holds, hheld hreset⟩

/-- The fields of the loader that the framework's request depends on. -/
structure SameRequest (loader loader' : CHttpLoader) : Prop where
  state : loader'.iState = loader.iState
  status : loader'.iStatus = loader.iStatus
  transaction : loader'.iTrans = loader.iTrans
  retry : loader'.iRetry = loader.iRetry

theorem sameRequest_resetIfWhole (httpCode : Nat) (eng : CCodEngBase) (saver : CFileSaver)
    (loader : CHttpLoader) :
    SameRequest loader (resetIfWhole httpCode eng saver loader).2 ∧
      (resetIfWhole httpCode eng saver loader).2.iResult = loader.iResult := by
  unfold resetIfWhole
  split
  · exact ⟨⟨rfl, rfl, rfl, rfl⟩, rfl⟩
  · exact ⟨⟨rfl, rfl, rfl, rfl⟩, rfl⟩

theorem infoAgrees_resetIfWhole {httpCode : Nat} {eng : CCodEngBase} {saver : CFileSaver}
    {loader : CHttpLoader} (hinfo : InfoAgrees eng) :
    InfoAgrees (resetIfWhole httpCode eng saver loader).1 := by
  unfold resetIfWhole
  split
  · exact hinfo
  · exact hinfo

/-- What a response with content leads to. -/
structure Handled (content : Bytes) (loader : CHttpLoader) (body : Bytes) (out : Leaving) :
    Prop where
  info : InfoAgrees out.1.1
  request : SameRequest loader out.1.2
  result : out.1.2.iResult = KErrNone
  left : out.2 < 0 → Kept content out.1.1
  returned : ¬ out.2 < 0 → Receiving content out.1.1 body

theorem prepareSaverL_handled {eng : CCodEngBase} {saver : CFileSaver} {loader : CHttpLoader}
    {httpCode : Nat} {dataSize : Option Nat} {body : Bytes} (hinfo : InfoAgrees eng)
    (hreceiving : Receiving content
      (resetIfWhole httpCode eng saver { loader with iResult := KErrNone }).1 body) :
    Handled content loader body
      (prepareSaverL m eng saver { loader with iResult := KErrNone } httpCode dataSize) := by
  obtain ⟨hsame, hresult⟩ :=
    sameRequest_resetIfWhole httpCode eng saver { loader with iResult := KErrNone }
  have hinfo' : InfoAgrees
      (resetIfWhole httpCode eng saver { loader with iResult := KErrNone }).1 :=
    infoAgrees_resetIfWhole hinfo
  simp only [prepareSaverL]
  generalize resetIfWhole httpCode eng saver { loader with iResult := KErrNone } = out
    at hreceiving hsame hresult hinfo'
  have hfile := (sameFile_checkRealDRMContentTypeL m out.1 out.2.iResponseHeaders).trans
    (sameFile_pausable _ (acceptRangesSupported out.2.iResponseHeaders &&
      (checkRealDRMContentTypeL m out.1 out.2.iResponseHeaders).iPausable))
  exact ⟨hfile.info hinfo', ⟨hsame.state, hsame.status, hsame.transaction, hsame.retry⟩, hresult,
    fun _ => (hfile.receiving hreceiving).kept, fun _ => hfile.receiving hreceiving⟩

theorem handleContentL_handled {eng : CCodEngBase} {loader : CHttpLoader} {offset httpCode : Nat}
    {contentType : String} {dataSize : Option Nat} {body : Bytes} {out : Leaving}
    (hinfo : InfoAgrees eng) (hwaiting : Waiting content eng loader offset)
    (hanswer : AnswerTo content offset httpCode body)
    (hrun : handleContentL m eng loader httpCode contentType dataSize = some out) :
    Handled content loader body out := by
  unfold handleContentL at hrun
  cases hwaiting with
  | noSaver hsaver hkept hprogress =>
      -- nothing was asked for, and a store that is there is reset
      have hwhole : httpCode = EOk ∧ body = content := by
        rcases hanswer with ⟨hcode, hbody, -⟩ | ⟨-, -, hoffset⟩
        · exact ⟨hcode, hbody⟩
        · exact absurd rfl hoffset
      have hreset : httpCode ≠ EPartialContent ∧ loader.iProgress.currentValue = 0 :=
        ⟨by rw [hwhole.1]; decide, hprogress⟩
      simp only [hsaver] at hrun
      cases hcreate : createSaverL m eng loader.iResponseHeaders contentType with
      | error code =>
          simp only [hcreate] at hrun
          cases hrun
          exact ⟨hinfo, ⟨rfl, rfl, rfl, rfl⟩, rfl, fun _ => hkept,
            fun hcode => absurd (createSaverL_error hcreate) hcode⟩
      | ok eng' =>
          simp only [hcreate] at hrun
          obtain ⟨hinfo', hopened⟩ := createSaverL_ok hsaver hkept hinfo hcreate
          rcases hopened with rfl | ⟨saver, held, hsaver', hunique, hopened, -⟩
          · simp only [hsaver] at hrun
            cases hrun
          · simp only [hsaver'] at hrun
            cases hrun
            exact prepareSaverL_handled hinfo'
              (resetIfWhole_receiving hsaver' hunique hopened (fun _ => hwhole.2)
                (fun hno => absurd hreset hno))
  | @saver saver held hsaver hunique hopened hheld =>
      simp only [hsaver] at hrun
      cases hrun
      have hbody := hanswer.append hheld
      apply prepareSaverL_handled hinfo
      apply resetIfWhole_receiving hsaver hunique hopened _ (fun _ => hbody)
      rintro ⟨hcode, -⟩
      rcases hanswer with ⟨-, hwhole, -⟩ | ⟨hpart, -, -⟩
      · exact hwhole
      · exact absurd hpart hcode

theorem SameFile.waiting {eng eng' : CCodEngBase} {loader loader' : CHttpLoader} {offset : Nat}
    (h : SameFile eng eng') (hwaiting : Waiting content eng loader offset)
    (hprogress : loader'.iProgress = loader.iProgress) : Waiting content eng' loader' offset := by
  cases hwaiting with
  | noSaver hsaver hkept hzero =>
      exact .noSaver (h.saver.trans hsaver) (h.kept hkept) (by rw [hprogress]; exact hzero)
  | @saver saver held hsaver hunique hopened hheld =>
      refine .saver (h.saver.trans hsaver) (h.unique.trans hunique) ?_ hheld
      rw [h.temp]
      exact hopened

/-- The response headers: the transaction goes on with the body, or fails. -/
theorem gotResponseHeaders_inv {eng : CCodEngBase} (loader : CHttpLoader) {offset httpCode : Nat}
    {range : Option Nat} {headers : List CHeaderField} {contentType : Option String}
    {dataSize : Option Nat} {body : Bytes} {out : Leaving} (hretry : loader.iRetry ≤ 1)
    (hinfo : InfoAgrees eng) (hstate : loader.iState = .ERequest)
    (hstatus : loader.iStatus = none) (htrans : loader.iTrans = some ⟨range, .receiving body⟩)
    (hwaiting : Waiting content eng loader offset)
    (hanswer : AnswerTo content offset httpCode body)
    (hrun : gotResponseHeaders m eng loader httpCode headers contentType dataSize = some out) :
    Inv content (mhfRunError out) := by
  have hstored := sameFile_checkRealDRMContentTypeL m eng headers
  cases contentType with
  | none =>
      simp only [gotResponseHeaders] at hrun
      cases hrun
      exact mhfRunError_inv hretry (hstored.info hinfo) hstate
        (fun _ => (hstored.kept hwaiting.kept)) (fun h => absurd (by decide) h)
  | some contentType =>
      have hsame := hstored.trans (sameFile_storeSubInfoFileL m
        (checkRealDRMContentTypeL m eng headers) headers)
      have hcode : httpCode / 100 ≠ 1 ∧
          (httpCode = EOk ∨ httpCode = ENonAuthoritativeInfo ∨ httpCode = EPartialContent) := by
        rcases hanswer with ⟨rfl, -⟩ | ⟨rfl, -⟩
        · decide
        · decide
      simp only [gotResponseHeaders, handleResponseHeadersL, if_neg hcode.1, if_pos hcode.2,
        Option.bind_eq_bind, Option.bind_eq_some_iff] at hrun
      obtain ⟨⟨⟨eng', loader'⟩, code⟩, hhandle, hrun⟩ := hrun
      have hwaiting' : Waiting content _ { loader with iResponseHeaders := headers } offset :=
        hsame.waiting hwaiting rfl
      have hhandled := handleContentL_handled (hsame.info hinfo) hwaiting' hanswer hhandle
      have hstate' := hhandled.request.state.trans hstate
      have hretry' : loader'.iRetry ≤ 1 := by
        rw [hhandled.request.retry]
        exact hretry
      by_cases hneg : code < 0
      · simp only [if_pos hneg] at hrun
        cases hrun
        exact mhfRunError_inv hretry' hhandled.info hstate' hhandled.left
          (fun h => absurd hneg h)
      · have hresult : ¬ (loader'.iResult = KErrCodHttpBadUrl ∨
            loader'.iResult = KErrCodHttpBadResponse) := by
          rw [hhandled.result]
          decide
        simp only [if_neg hneg, if_neg hresult] at hrun
        cases hrun
        refine mhfRunError_inv hretry' hhandled.info hstate' (fun h => absurd h (by decide))
          (fun _ => ?_)
        exact .receiving hstate' (hhandled.request.status.trans hstatus) hhandled.result
          (hhandled.request.transaction.trans htrans) (hhandled.returned hneg)

/-- Body data move from what is still to come to what is held. -/
theorem gotResponseBodyData_inv {eng : CCodEngBase} (loader : CHttpLoader) {range : Option Nat}
    {rest : Bytes} {size : Nat} {out : Leaving} (hretry : loader.iRetry ≤ 1)
    (hinfo : InfoAgrees eng) (hstate : loader.iState = .ERequest)
    (hstatus : loader.iStatus = none) (hresult : loader.iResult = KErrNone)
    (htrans : loader.iTrans = some ⟨range, .receiving (rest.drop size)⟩)
    (hreceiving : Receiving content eng rest)
    (hrun : gotResponseBodyData eng loader (rest.take size) = some out) :
    Inv content (mhfRunError out) := by
  obtain ⟨saver, held, hsaver, hunique, hholds, hcontent⟩ := hreceiving
  obtain ⟨st, err, happend, herr⟩ := appendData_holds hholds (rest.take size)
  simp only [gotResponseBodyData, hsaver, happend, Option.bind_eq_bind, Option.bind_some] at hrun
  rcases herr with ⟨hneg, hholds'⟩ | ⟨hnonneg, hholds'⟩
  · simp only [if_pos hneg] at hrun
    cases hrun
    refine mhfRunError_inv hretry hinfo hstate (fun _ => ?_) (fun h => absurd hneg h)
    refine .of_saver rfl hunique (.inl hholds') ?_
    rw [← hcontent]
    exact List.prefix_append _ _
  · have hneg : ¬ err < 0 := by omega
    simp only [if_neg hneg] at hrun
    cases hrun
    refine mhfRunError_inv hretry hinfo hstate (fun h => absurd h (by decide)) (fun _ => ?_)
    refine .receiving hstate hstatus hresult htrans ⟨st.saver, _, rfl, hunique, hholds', ?_⟩
    rw [List.append_assoc, List.take_append_drop, hcontent]

theorem responseComplete_inv {eng eng' : CCodEngBase} {loader : CHttpLoader}
    {range : Option Nat} (hretry : loader.iRetry ≤ 1) (hinfo : InfoAgrees eng)
    (hstate : loader.iState = .ERequest) (hstatus : loader.iStatus = none)
    (hresult : loader.iResult = KErrNone) (htrans : loader.iTrans = some ⟨range, .received⟩)
    (hreceiving : Receiving content eng []) (hrun : responseComplete eng = some eng') :
    Inv content (.fetching eng' loader) := by
  obtain ⟨saver, held, hsaver, hunique, hholds, hcontent⟩ := hreceiving
  rw [List.append_nil] at hcontent
  subst hcontent
  obtain ⟨st, hcomplete, hflushed⟩ := onComplete_flushed (.inl hholds)
  simp only [responseComplete, hsaver, hcomplete, Option.bind_eq_bind, Option.bind_some] at hrun
  cases hrun
  exact ⟨hretry, hinfo, .received hstate hstatus hresult htrans ⟨st.saver, rfl, hunique, hflushed⟩⟩

theorem Phase.state {eng : CCodEngBase} {loader : CHttpLoader} {transaction : Transaction}
    (h : Phase content eng loader) (htrans : loader.iTrans = some transaction) :
    loader.iState = .ERequest ∧ loader.iResult = KErrNone := by
  cases h with
  | waiting _ _ hnone _ => simp [hnone] at htrans
  | requested hstate _ hresult _ _ => exact ⟨hstate, hresult⟩
  | receiving hstate _ hresult _ _ => exact ⟨hstate, hresult⟩
  | received hstate _ hresult _ _ => exact ⟨hstate, hresult⟩
  | failed _ hnone _ _ _ => simp [hnone] at htrans
  | succeeded _ hnone _ _ _ => simp [hnone] at htrans

theorem Phase.requested_of {eng : CCodEngBase} {loader : CHttpLoader} {range : Option Nat}
    (h : Phase content eng loader) (htrans : loader.iTrans = some ⟨range, .requested⟩) :
    loader.iStatus = none ∧ ∃ offset, range = (if offset = 0 then none else some offset) ∧
      Waiting content eng loader offset := by
  cases h with
  | waiting _ _ hnone _ => simp [hnone] at htrans
  | @requested offset _ hstatus _ htrans' hwaiting =>
      rw [htrans', Option.some.injEq, Transaction.mk.injEq] at htrans
      exact ⟨hstatus, offset, htrans.1.symm, hwaiting⟩
  | receiving _ _ _ htrans' _ => simp [htrans'] at htrans
  | received _ _ _ htrans' _ => simp [htrans'] at htrans
  | failed _ hnone _ _ _ => simp [hnone] at htrans
  | succeeded _ hnone _ _ _ => simp [hnone] at htrans

theorem Phase.receiving_of {eng : CCodEngBase} {loader : CHttpLoader} {range : Option Nat}
    {rest : Bytes} (h : Phase content eng loader)
    (htrans : loader.iTrans = some ⟨range, .receiving rest⟩) :
    loader.iStatus = none ∧ Receiving content eng rest := by
  cases h with
  | waiting _ _ hnone _ => simp [hnone] at htrans
  | requested _ _ _ htrans' _ => simp [htrans'] at htrans
  | receiving _ hstatus _ htrans' hreceiving =>
      rw [htrans', Option.some.injEq, Transaction.mk.injEq, Exchange.receiving.injEq] at htrans
      rw [← htrans.2]
      exact ⟨hstatus, hreceiving⟩
  | received _ _ _ htrans' _ => simp [htrans'] at htrans
  | failed _ hnone _ _ _ => simp [hnone] at htrans
  | succeeded _ hnone _ _ _ => simp [hnone] at htrans

theorem Phase.received_of {eng : CCodEngBase} {loader : CHttpLoader} {range : Option Nat}
    (h : Phase content eng loader) (htrans : loader.iTrans = some ⟨range, .received⟩) :
    loader.iStatus = none ∧ Complete content eng := by
  cases h with
  | waiting _ _ hnone _ => simp [hnone] at htrans
  | requested _ _ _ htrans' _ => simp [htrans'] at htrans
  | receiving _ _ _ htrans' _ => simp [htrans'] at htrans
  | received _ hstatus _ _ hcomplete => exact ⟨hstatus, hcomplete⟩
  | failed _ hnone _ _ _ => simp [hnone] at htrans
  | succeeded _ hnone _ _ _ => simp [hnone] at htrans

/-- What the server answers, when a 200 only answers a GET without a Range field. -/
theorem answerTo_of_server {eng : CCodEngBase} {loader : CHttpLoader} {offset httpCode : Nat}
    {exchange : Exchange} {headers : List CHeaderField} {contentType : Option String}
    {dataSize : Option Nat} {body : Bytes}
    (htrans : loader.iTrans = some ⟨if offset = 0 then none else some offset, exchange⟩)
    (hserver : ServerAnswers content
      (.http (.EGotResponseHeaders httpCode headers contentType dataSize body))
      (.fetching eng loader))
    (hwhole : WholeWhenNoRange
      (.http (.EGotResponseHeaders httpCode headers contentType dataSize body))
      (.fetching eng loader)) : AnswerTo content offset httpCode body := by
  have hrange : loader.iTrans.bind (·.range) = if offset = 0 then none else some offset := by
    rw [htrans]
    rfl
  rcases hserver with ⟨hcode, hbody⟩ | ⟨hcode, hbody⟩
  · refine .inl ⟨hcode, hbody, ?_⟩
    have hnone := hwhole hcode
    by_contra hoffset
    rw [hrange, if_neg hoffset] at hnone
    cases hnone
  · rw [hrange] at hbody
    by_cases hoffset : offset = 0
    · rw [if_pos hoffset] at hbody
      cases hbody
    · rw [if_neg hoffset, Option.map_some, Option.some.injEq] at hbody
      exact .inr ⟨hcode, hbody.symm, hoffset⟩

theorem mhfRunL_inv {eng : CCodEngBase} {loader : CHttpLoader} {transaction : Transaction}
    {event : HttpEvent} {s : State} (hretry : loader.iRetry ≤ 1) (hinfo : InfoAgrees eng)
    (hphase : Phase content eng loader) (htrans : loader.iTrans = some transaction)
    (hserver : ServerAnswers content (.http event) (.fetching eng loader))
    (hwhole : WholeWhenNoRange (.http event) (.fetching eng loader))
    (hrun : mhfRunL m eng loader transaction event = some s) : Inv content s := by
  obtain ⟨hstate, hresult⟩ := hphase.state htrans
  obtain ⟨range, exchange⟩ := transaction
  cases event with
  | EGotResponseHeaders httpCode headers contentType dataSize body =>
      cases exchange with
      | requested =>
          simp only [mhfRunL, Option.bind_eq_bind, Option.bind_eq_some_iff] at hrun
          obtain ⟨out, hgot, hout⟩ := hrun
          cases hout
          obtain ⟨hstatus, offset, rfl, hwaiting⟩ := hphase.requested_of htrans
          have hanswer := answerTo_of_server htrans hserver hwhole
          have hsame : SameFile eng eng := ⟨rfl, rfl, rfl, id⟩
          exact gotResponseHeaders_inv (loader.setExchange _ _) hretry hinfo hstate hstatus rfl
            (hsame.waiting hwaiting rfl) hanswer hgot
      | receiving rest => cases hrun
      | received => cases hrun
  | EGotResponseBodyData size =>
      cases exchange with
      | requested => cases hrun
      | receiving rest =>
          obtain ⟨hstatus, hreceiving⟩ := hphase.receiving_of htrans
          by_cases hsize : size ≤ rest.length
          · simp only [mhfRunL, if_pos hsize, Option.bind_eq_bind, Option.bind_eq_some_iff] at hrun
            obtain ⟨out, hgot, hout⟩ := hrun
            cases hout
            exact gotResponseBodyData_inv (loader.setExchange _ _) hretry hinfo hstate hstatus
              hresult rfl hreceiving hgot
          · simp only [mhfRunL, if_neg hsize] at hrun
            cases hrun
      | received => cases hrun
  | EResponseComplete =>
      cases exchange with
      | requested => cases hrun
      | receiving rest =>
          cases rest with
          | nil =>
              obtain ⟨hstatus, hreceiving⟩ := hphase.receiving_of htrans
              simp only [mhfRunL, Option.bind_eq_bind, Option.bind_eq_some_iff] at hrun
              obtain ⟨eng', hcomplete, hout⟩ := hrun
              cases hout
              exact responseComplete_inv hretry hinfo hstate hstatus hresult rfl hreceiving
                hcomplete
          | cons b rest => cases hrun
      | received => cases hrun
  | ESucceeded =>
      cases exchange with
      | requested => cases hrun
      | receiving rest => cases hrun
      | received =>
          cases hrun
          obtain ⟨hstatus, hcomplete⟩ := hphase.received_of htrans
          refine ⟨hretry, hinfo, .succeeded hstate rfl ?_ hresult hcomplete⟩
          simp only [CHttpLoader.completeTransaction, hstatus, hresult]
  | EFailed =>
      cases hrun
      rw [if_pos hresult]
      exact ⟨hretry, hinfo, completeTransaction_fails hstate (by decide) hphase.kept⟩
  | partialResponseReceived =>
      cases hrun
      exact ⟨hretry, hinfo, hphase⟩
  | error code =>
      cases hrun
      exact mhfRunError_inv hretry hinfo hstate (fun _ => hphase.kept) (fun _ => hphase)

/-! ## Every run -/

theorem Complete.written {eng : CCodEngBase} {saver : CFileSaver} {st : Store}
    (h : Complete content eng) (hsaver : eng.iSaver = some saver)
    (hrun : Store.finishWrite ⟨eng.temp, saver⟩ = some st) : Complete content (eng.setStore st) := by
  obtain ⟨saver', hsaver', hunique, hflushed⟩ := h
  rw [hsaver, Option.some.injEq] at hsaver'
  subst hsaver'
  rw [finishWrite_of_none hflushed.noWrite, Option.some.injEq] at hrun
  subst hrun
  exact ⟨saver, rfl, hunique, hflushed⟩

theorem Waiting.written {eng : CCodEngBase} {loader : CHttpLoader} {saver : CFileSaver}
    {st : Store} {offset : Nat} (h : Waiting content eng loader offset)
    (hsaver : eng.iSaver = some saver)
    (hrun : Store.finishWrite ⟨eng.temp, saver⟩ = some st) :
    Waiting content (eng.setStore st) loader offset := by
  cases h with
  | noSaver hnone _ _ =>
      rw [hsaver] at hnone
      cases hnone
  | saver hsaver' hunique hopened hheld =>
      rw [hsaver, Option.some.injEq] at hsaver'
      subst hsaver'
      obtain ⟨st', hrun', hopened'⟩ := hopened.finishWrite
      rw [hrun, Option.some.injEq] at hrun'
      subst hrun'
      exact .saver rfl hunique hopened' hheld

/-- The end of an outstanding write keeps what is held, in every phase. -/
theorem written_inv {eng : CCodEngBase} {loader : CHttpLoader} {saver : CFileSaver} {st : Store}
    (hretry : loader.iRetry ≤ 1) (hinfo : InfoAgrees eng) (hphase : Phase content eng loader)
    (hsaver : eng.iSaver = some saver) (hrun : Store.finishWrite ⟨eng.temp, saver⟩ = some st) :
    Inv content (.fetching (eng.setStore st) loader) := by
  refine ⟨hretry, hinfo, ?_⟩
  cases hphase with
  | waiting hstate hresult htrans hwaiting =>
      exact .waiting hstate hresult htrans (hwaiting.written hsaver hrun)
  | requested hstate hstatus hresult htrans hwaiting =>
      exact .requested hstate hstatus hresult htrans (hwaiting.written hsaver hrun)
  | receiving hstate hstatus hresult htrans hreceiving =>
      obtain ⟨saver', held, hsaver', hunique, hholds, hcontent⟩ := hreceiving
      rw [hsaver, Option.some.injEq] at hsaver'
      subst hsaver'
      obtain ⟨st', hrun', hholds'⟩ := hholds.finishWrite
      rw [hrun, Option.some.injEq] at hrun'
      subst hrun'
      exact .receiving hstate hstatus hresult htrans
        ⟨st.saver, held, rfl, hunique, hholds', hcontent⟩
  | received hstate hstatus hresult htrans hcomplete =>
      exact .received hstate hstatus hresult htrans (hcomplete.written hsaver hrun)
  | failed hstate htrans hstatus hcode hkept =>
      obtain ⟨hunique, held, hkeeps, hheld⟩ := hkept.saver saver hsaver
      obtain ⟨st', hrun', hkeeps'⟩ := hkeeps.finishWrite
      rw [hrun, Option.some.injEq] at hrun'
      subst hrun'
      exact .failed hstate htrans hstatus hcode (.of_saver rfl hunique hkeeps' hheld)
  | succeeded hstate htrans hstatus hresult hcomplete =>
      exact .succeeded hstate htrans hstatus hresult (hcomplete.written hsaver hrun)

/-- The session that is open, or that cannot be opened. -/
theorem connected_inv {eng : CCodEngBase} {loader : CHttpLoader} (code : Int)
    (hretry : loader.iRetry ≤ 1) (hinfo : InfoAgrees eng) (hphase : Phase content eng loader)
    (hstate : loader.iState = .EOpen) :
    Inv content (.fetching eng { loader with iStatus := some code }) := by
  have hsame : SameFile eng eng := ⟨rfl, rfl, rfl, id⟩
  cases hphase with
  | waiting hopen hresult htrans hwaiting =>
      exact ⟨hretry, hinfo, .waiting hopen hresult htrans (hsame.waiting hwaiting rfl)⟩
  | requested hrequest _ _ _ _ => simp [hstate] at hrequest
  | receiving hrequest _ _ _ _ => simp [hstate] at hrequest
  | received hrequest _ _ _ _ => simp [hstate] at hrequest
  | failed hrequest _ _ _ _ => simp [hstate] at hrequest
  | succeeded hrequest _ _ _ _ => simp [hstate] at hrequest

/-- Each event keeps the invariant, if a 200 only answers a GET without a Range field. -/
theorem step_inv {s s' : State} {event : Event} (hinv : Inv content s)
    (hserver : ServerAnswers content event s) (hwhole : WholeWhenNoRange event s)
    (hstep : step m s event = some s') : Inv content s' := by
  cases s with
  | ready eng =>
      obtain ⟨hsaver, hkept, hinfo⟩ := hinv
      cases event with
      | start => exact startFetchL_inv hsaver hkept hinfo hstep
      | relaunch =>
          simp only [step] at hstep
          split at hstep
          · cases hstep
            have hsame := sameFile_downloadedSize eng 0
            exact loadSubInfoFileL_kept hsaver (hsame.kept hkept) (hsame.info hinfo)
          · cases hstep
      | _ => cases hstep
  | fetching eng loader =>
      obtain ⟨hretry, hinfo, hphase⟩ := hinv
      cases event with
      | connected code =>
          simp only [step] at hstep
          split at hstep
          · rename_i hopen
            cases hstep
            exact connected_inv code hretry hinfo hphase hopen.1
          · cases hstep
      | run => exact runLoader_inv hretry hinfo hphase hstep
      | written =>
          cases hsaver : eng.iSaver with
          | none => simp [step, hsaver] at hstep
          | some saver =>
              simp only [step, hsaver, Option.bind_eq_bind, Option.bind_eq_some_iff] at hstep
              obtain ⟨st, hrun, hout⟩ := hstep
              cases hout
              exact written_inv hretry hinfo hphase hsaver hrun
      | pause =>
          cases hstep
          exact pause_inv hretry hinfo hphase
      | timeout =>
          simp only [step] at hstep
          split at hstep
          · cases hstep
            exact timeout_inv hretry hinfo hphase ‹_›
          · cases hstep
      | http event =>
          cases htrans : loader.iTrans with
          | none => simp [step, htrans] at hstep
          | some transaction =>
              simp only [step, htrans] at hstep
              exact mhfRunL_inv hretry hinfo hphase htrans hserver hwhole hstep
      | _ => cases hstep
  | downloaded eng => cases hstep

theorem notStarted_inv {s : State} (h : NotStarted s) : Inv content s := by
  obtain ⟨eng, rfl, hsaver, hunique, hinfo⟩ := h
  refine ⟨hsaver, ⟨fun _ hset => ?_, fun saver h => ?_⟩, fun info hsub hset => ?_⟩
  · rw [hunique] at hset
    cases hset
  · rw [hsaver] at h
    cases h
  · rw [hinfo info hsub] at hset
    cases hset

theorem reaches_inv {s : State}
    (h : Reaches (stepM m) NotStarted
      (fun event s => ServerAnswers content event s ∧ WholeWhenNoRange event s) s) :
    Inv content s := by
  refine h.invariant (fun s hs => notStarted_inv hs) ?_
  rintro event s ⟨hserver, hwhole⟩ hinv a s' hrun
  simp only [stepM, Option.map_eq_some_iff, Prod.mk.injEq] at hrun
  obtain ⟨s'', hstep, -, rfl⟩ := hrun
  exact step_inv hinv hserver hwhole hstep

/-- Downloads are intact over all interrupted and resumed transfers, as long as a 200 only answers
a GET without a Range field. -/
theorem intact_wholeWhenNoRange (m : MediaObject) (content : Bytes) :
    Intact m content WholeWhenNoRange := by
  rintro s hreaches eng rfl
  exact reaches_inv hreaches

/-! ## A run -/

/-- A song without DRM. -/
def song : MediaObject where
  hasInfoPath := true
  types := ["audio/mp3"]
  maxSize := 10240
  isFota := false
  typeMatches := true
  hasUpdatedDDUri := false

def songHeaders : List CHeaderField :=
  [⟨"Content-Type", "audio/mp3"⟩, ⟨"Accept-Ranges", "bytes"⟩]

def notStarted : State :=
  .ready {
    temp := none, subInfo := none, iDownloadedSize := 0, iPausable := false
    iUniqueFilenameSet := false, iSaver := none }

/-- A session up to the answer of the server. -/
def session (httpCode : Nat) (body : Bytes) : List Event :=
  [.start, .run, .connected 0, .run,
    .http (.EGotResponseHeaders httpCode songHeaders (some "audio/mp3") (some body.length) body)]

/-- One byte arrives, the user pauses, and the rest is downloaded in a second session. -/
def pausedRun (httpCode : Nat) (body : Bytes) : List Event :=
  session EOk [1, 2] ++ [.http (.EGotResponseBodyData 1), .pause, .run] ++
    session httpCode body ++
    [.http (.EGotResponseBodyData body.length), .http .EResponseComplete, .http .ESucceeded, .run]

/-- What is downloaded in a state. -/
def State.downloadedFile : State → Option Bytes
  | .downloaded eng => eng.temp
  | _ => none

example : (runChecked (stepM song) (fun event s => ServerAnswers [1, 2] event s ∧
    WholeWhenNoRange event s) (pausedRun EPartialContent [2]) notStarted).bind
      State.downloadedFile = some [1, 2] := by decide +kernel

/-- A server that answers the resumed GET with the whole content. -/
theorem not_intact : ¬ ∀ m content, Intact m content fun _ _ => True := by
  intro h
  have hrun : (runChecked (stepM song) (fun event s => ServerAnswers [1, 2] event s ∧ True)
      (pausedRun EOk [1, 2]) notStarted).bind State.downloadedFile = some [1, 1, 2] := by
    decide +kernel
  obtain ⟨s, hs, hfile⟩ := Option.bind_eq_some_iff.1 hrun
  have hreaches := Reaches.of_runChecked
    (.start ⟨_, rfl, rfl, rfl, fun _ h => by cases h⟩ : Reaches (stepM song) NotStarted
      (fun event s => ServerAnswers [1, 2] event s ∧ True) notStarted) hs
  cases s with
  | ready eng => cases hfile
  | fetching eng loader => cases hfile
  | downloaded eng =>
      have hintact := h song [1, 2] _ hreaches eng rfl
      have hfile' : eng.temp = some [1, 1, 2] := hfile
      rw [hintact] at hfile'
      exact absurd hfile' (by decide)

end SymbianWeb.Cod
