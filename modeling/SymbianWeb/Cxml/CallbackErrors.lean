import SymbianWeb.Cxml.ParserRuns

/-!
# Errors of the callbacks

The status of a callback is kept in two places. Each status goes into the field `status`, where the
next callback overwrites it; a status other than success also sets a flag, which stays. Three kinds
of errors have a flag of their own, and for all others the flag only says that there was an error,
so that `NW_WBXML_Parser_flagToStatus` returns whatever the last callback has returned.

Between a callback that fails and the next look at the flags there can be another callback. If it
succeeds, the error is lost and a parse that has broken off returns success
(`not_stopsTheParse_lost`). If no error is lost in this way, the parse ends with another status
than success (`errors_stopTheParse`).
-/

set_option autoImplicit false

namespace SymbianWeb.WbxmlParser

open Wbxml ErrorState RelatedRuns

variable {σ : Type}

/-- A status that sets a flag of its own. -/
def NwStatus.hasFlag (status : NwStatus) : Prop :=
  status = .outOfMemory ∨ status = .wbxmlErrorBytecode ∨ status = .wbxmlErrorCharsetUnsupported

/-- If a callback has failed, the parse ends with another status than success. Where the parser
leaves its memory nothing is said. -/
def StopsTheParse (r : EStateM.Result Stop (Machine σ) NwStatus) : Prop :=
  (∃ status ∈ (finalState r).returned, status ≠ .success) →
    (∃ m, r = .error .fault m) ∨ ∃ status m, r = .ok status m ∧ status ≠ .success

/-- No error of a callback is lost: there is none, or there is one with a flag of its own, or the
last callback has failed. `returned` has the last status first. -/
def KeepsErrors (returned : List NwStatus) : Prop :=
  (∀ status ∈ returned, status = .success) ∨ (∃ status ∈ returned, status.hasFlag) ∨
    returned.head? ≠ some .success

/-! ## What the flags say about the callbacks -/

/-- One of the flags that stand for one status. -/
def Flags.marked (flags : Flags) : Prop :=
  flags.noMemory ∨ flags.bytecodeError ∨ flags.charsetUnsupported

/-- The flags and the status of the parser show what the callbacks have returned. -/
structure Reflects (m : Machine σ) : Prop where
  failed : ∀ status ∈ m.returned, status ≠ .success → m.parser.flags.ok = false
  flagged : ∀ status ∈ m.returned, status.hasFlag → m.parser.flags.marked
  last : ∀ status ∈ m.returned.head?, status ≠ .success → m.parser.status = status

/-- The parser reaches its limit only with flags that are all right. -/
def LimitOk (stop : Stop) (m : Machine σ) : Prop := stop = .limit → m.parser.flags.ok

theorem flagToStatus_of_marked {parser : Parser} (h : parser.flags.marked) :
    parser.flagToStatus ≠ .success := by
  rw [Parser.flagToStatus]
  split
  · exact NwStatus.noConfusion
  split
  · exact NwStatus.noConfusion
  split
  · exact NwStatus.noConfusion
  · simp_all [Flags.marked]

theorem flagToStatus_of_status {parser : Parser} (h : parser.status ≠ .success) :
    parser.flagToStatus ≠ .success := by
  rw [Parser.flagToStatus]
  split
  · exact NwStatus.noConfusion
  split
  · exact NwStatus.noConfusion
  split
  · exact NwStatus.noConfusion
  · exact h

/-- What `NW_WBXML_Parser_setStatus` does to the flags: they are not taken back, and an error is
entered. -/
theorem not_ok_setStatus (parser : Parser) {status : NwStatus}
    (h : status ≠ .success ∨ parser.flags.ok = false) :
    (parser.setStatus status).flags.ok = false := by
  cases status <;> simp_all [Parser.setStatus, Flags.ok]

theorem marked_setStatus (parser : Parser) {status : NwStatus}
    (h : status.hasFlag ∨ parser.flags.marked) : (parser.setStatus status).flags.marked := by
  cases status <;> simp_all [Parser.setStatus, Flags.marked, NwStatus.hasFlag]

theorem Reflects.intro {m : Machine σ} (h : m.returned = []) : Reflects m where
  failed := by
    rw [h]
    intro status hmem
    cases hmem
  flagged := by
    rw [h]
    intro status hmem
    cases hmem
  last := by
    rw [h]
    intro status hmem
    cases hmem

/-- A change of the parser that concerns neither its flags nor its status. -/
theorem Reflects.of_parsed {m m' : Machine σ} (h : Reflects m) (hreturned : m'.returned = m.returned)
    (hflags : m'.parser.flags = m.parser.flags) (hstatus : m'.parser.status = m.parser.status) :
    Reflects m' where
  failed := by
    rw [hreturned, hflags]
    exact h.failed
  flagged := by
    rw [hreturned, hflags]
    exact h.flagged
  last := by
    rw [hreturned, hstatus]
    exact h.last

/-- The call of a function of the handler, with what the machine notes of it. -/
theorem callback_eq (event : Event) (m : Machine σ) :
    ∃ m', m'.parser = m.parser ∧
      ((callback event m = .ok none m' ∧ m'.returned = m.returned) ∨
        ∃ status, callback event m = .ok (some status) m' ∧
          m'.returned = status :: m.returned) := by
  cases h : m.handler event with
  | none =>
      refine ⟨{ m with events := event :: m.events }, rfl, .inl ⟨?_, rfl⟩⟩
      rw [callback, get_bind, h]
      rfl
  | some function =>
      refine ⟨{ m with
        context := (function m.parser m.context).2
        events := event :: m.events
        returned := (function m.parser m.context).1 :: m.returned }, rfl, .inr ⟨_, ?_, rfl⟩⟩
      rw [callback, get_bind, h]
      rfl

/-- A callback whose status is entered keeps the flags and the status true. -/
theorem reflects_handle (event : Event) :
    Keeps (Reflects (σ := σ)) LimitOk (handle event) := by
  have hrun : ∀ m : Machine σ, Reflects m → ∃ m', handle event m = .ok () m' ∧ Reflects m' := by
    intro m h
    obtain ⟨m', hparser, hcase⟩ := callback_eq event m
    rcases hcase with ⟨hcall, hreturned⟩ | ⟨status, hcall, hreturned⟩
    · refine ⟨m', ?_, h.of_parsed hreturned (by rw [hparser]) (by rw [hparser])⟩
      rw [handle, bind_of_ok hcall]
      rfl
    · refine ⟨{ m' with parser := m'.parser.setStatus status }, ?_, ?_, ?_, ?_⟩
      · rw [handle, bind_of_ok hcall]
        rfl
      · rw [hreturned]
        intro st hst hne
        rw [hparser]
        apply not_ok_setStatus
        rcases List.mem_cons.1 hst with rfl | hst
        · exact .inl hne
        · exact .inr (h.failed st hst hne)
      · rw [hreturned]
        intro st hst hflag
        rw [hparser]
        apply marked_setStatus
        rcases List.mem_cons.1 hst with rfl | hst
        · exact .inl hflag
        · exact .inr (h.flagged st hst hflag)
      · rw [hreturned]
        intro st hst _
        exact Option.some.inj hst
  apply Keeps.intro
  · intro m a m' h hok
    obtain ⟨m₁, hrun, hm₁⟩ := hrun m h
    rw [hrun] at hok
    cases hok
    exact hm₁
  · intro m e m' h herror
    obtain ⟨m₁, hrun, -⟩ := hrun m h
    rw [hrun] at herror
    cases herror

/-- A step that ends where a function of the parser leads, without a word of the callbacks. -/
theorem keeps_parsed {α : Type} {x : Parse σ α}
    (hrun : ∀ m, ∃ m' : Machine σ, m'.returned = m.returned ∧
      m'.parser.flags = m.parser.flags ∧ m'.parser.status = m.parser.status ∧
      ((∃ a, x m = .ok a m') ∨ x m = .error .fault m')) :
    Keeps Reflects LimitOk x := by
  apply Keeps.intro
  · intro m a m' h hok
    obtain ⟨m₁, hreturned, hflags, hstatus, hcase⟩ := hrun m
    rcases hcase with ⟨a', hx⟩ | hx
    · rw [hx] at hok
      cases hok
      exact h.of_parsed hreturned hflags hstatus
    · rw [hx] at hok
      cases hok
  · intro m e m' h herror
    obtain ⟨m₁, hreturned, hflags, hstatus, hcase⟩ := hrun m
    rcases hcase with ⟨a', hx⟩ | hx
    · rw [hx] at herror
      cases herror
    · rw [hx] at herror
      cases herror
      exact ⟨h.of_parsed hreturned hflags hstatus, Stop.noConfusion⟩

theorem reflects_advance (count : Int) : Keeps (Reflects (σ := σ)) LimitOk (advance count) := by
  apply keeps_parsed
  intro m
  rw [advance_eq]
  cases h : m.parser.advance? count with
  | none => exact ⟨m, rfl, rfl, rfl, .inl ⟨_, rfl⟩⟩
  | some parser =>
      refine ⟨{ m with parser }, rfl, ?_, ?_, .inl ⟨true, rfl⟩⟩
      · rw [advance?_eq h]
      · rw [advance?_eq h]

theorem reflects_enterPage (tokenState : TokenState) :
    Keeps (Reflects (σ := σ)) LimitOk (enterPage tokenState) := by
  apply keeps_parsed
  intro m
  rw [enterPage_eq]
  cases h : m.parser.enterPage? tokenState with
  | none => exact ⟨m, rfl, rfl, rfl, .inr rfl⟩
  | some parser =>
      refine ⟨{ m with parser }, rfl, ?_, ?_, .inl ⟨(), rfl⟩⟩
      · rw [enterPage?_eq h]
      · rw [enterPage?_eq h]

theorem reflects_readToken : Keeps (Reflects (σ := σ)) LimitOk readToken := by
  apply keeps_parsed
  intro m
  rw [readToken_eq]
  cases m.parser.readUint8 with
  | none => exact ⟨m.visit, rfl, rfl, rfl, .inr rfl⟩
  | some token => exact ⟨m.visit, rfl, rfl, rfl, .inl ⟨token, rfl⟩⟩

theorem reflects_modifyParser {f : Parser → Parser} (hflags : ∀ parser, (f parser).flags = parser.flags)
    (hstatus : ∀ parser, (f parser).status = parser.status) :
    Keeps (Reflects (σ := σ)) LimitOk (modifyParser f) :=
  Keeps.modify fun h => h.of_parsed rfl (hflags _) (hstatus _)

theorem reflects_reads : Reads (.invariant (Reflects (σ := σ)) LimitOk) where
  place hst := by rw [hst.1]
  shared hst := by rw [hst.1]
  fault _ := Stop.noConfusion
  advance count := reflects_advance count

/-- Every function of the parser keeps the flags and the status true. -/
theorem reflects_steps : Steps (.invariant (Reflects (σ := σ)) LimitOk) where
  toReads := reflects_reads
  limit _ hok _ := hok
  handle := reflects_handle
  skipOpaque _ := (reflects_handle _).bind fun _ => reflects_advance _
  switchPage _ := by
    apply (reflects_advance 1).bind
    intro moved
    apply Related.ite _ (.pure _)
    apply reflects_reads.hasMoreBytecode _ (.pure _)
    apply (reflects_enterPage _).bind
    intro _
    apply (reflects_handle _).bind
    intro _
    exact reflects_advance 1
  readToken := reflects_readToken
  count _ := reflects_modifyParser (fun _ => rfl) fun _ => rfl

theorem reflects_header : HeaderSteps (.invariant (Reflects (σ := σ)) LimitOk) where
  toPlaces := reflects_reads.toPlaces
  move := reflects_advance
  setDocument _ := reflects_modifyParser (fun _ => rfl) fun _ => rfl

/-! ## The end of the parse -/

/-- Where a run ends with success or reaches its limit, no callback has failed whose error was
kept. -/
def Sound (r : EStateM.Result Stop (Machine σ) NwStatus) : Prop :=
  ∀ m, r = .ok .success m ∨ r = .error .limit m → KeepsErrors m.returned →
    ∀ status ∈ m.returned, status = .success

theorem stopsTheParse_of_sound {r : EStateM.Result Stop (Machine σ) NwStatus} (h : Sound r)
    (hkept : KeepsErrors (finalState r).returned) : StopsTheParse r := by
  rintro ⟨failed, hmem, hfailed⟩
  cases r with
  | ok status m =>
      refine .inr ⟨status, m, rfl, ?_⟩
      rintro rfl
      exact hfailed (h m (.inl rfl) hkept failed hmem)
  | error stop m =>
      cases stop with
      | fault => exact .inl ⟨m, rfl⟩
      | limit => exact absurd (h m (.inr rfl) hkept failed hmem) hfailed

theorem sound_of_status {status : NwStatus} (h : status ≠ .success) (m : Machine σ) :
    Sound (.ok status m) := by
  rintro m' (hm | hm)
  · cases hm
    exact absurd rfl h
  · cases hm

/-- As long as the flags are all right, no callback has failed. -/
theorem Reflects.succeeded {m : Machine σ} (h : Reflects m) (hok : m.parser.flags.ok) :
    ∀ status ∈ m.returned, status = .success := by
  intro status hmem
  by_contra hne
  rw [h.failed status hmem hne] at hok
  cases hok

theorem sound_of_stop {stop : Stop} {m : Machine σ} (h : Reflects m ∧ LimitOk stop m) :
    Sound (.error stop m) := by
  rintro m' (hm | hm)
  · cases hm
  · cases hm
    intro _
    exact h.1.succeeded (h.2 rfl)

/-- The first part of a run, and one that follows if it ends with success. -/
theorem sound_ifSuccess {x y : Parse σ NwStatus} (hx : Keeps Reflects LimitOk x)
    (hy : ∀ m, Reflects m → Sound (y m)) {m : Machine σ} (h : Reflects m) :
    Sound (ifSuccess x y m) := by
  rw [ifSuccess]
  cases hrun : x m with
  | ok status m₁ =>
      rw [bind_of_ok hrun]
      show Sound ((if status = .success then y else pure status) m₁)
      split
      · exact hy m₁ (hx.ok h hrun)
      · rename_i hne
        exact sound_of_status hne m₁
  | error stop m₁ =>
      rw [bind_of_error hrun]
      exact sound_of_stop (hx.error h hrun)

/-- The callback for the end of the document, behind the last look at the flags. -/
theorem sound_endDocument {m : Machine σ} (hok : ∀ status ∈ m.returned, status = .success) :
    Sound (handleDocument .endDocument m) := by
  obtain ⟨m', -, ⟨hcall, hreturned⟩ | ⟨status, hcall, hreturned⟩⟩ := callback_eq .endDocument m
  · rw [handleDocument, bind_of_ok hcall]
    rintro m'' (hm | hm)
    · cases hm
      intro _
      rw [hreturned]
      exact hok
    · cases hm
  · rw [handleDocument, bind_of_ok hcall]
    rintro m'' (hm | hm)
    · cases hm
      intro _
      rw [hreturned]
      exact List.forall_mem_cons.2 ⟨rfl, hok⟩
    · cases hm

/-- The flags tell `NW_WBXML_Parser_flagToStatus` of an error that was kept. -/
theorem sound_flagToStatus {m : Machine σ} (h : Reflects m) :
    Sound (.ok m.parser.flagToStatus m) := by
  rintro m' (hm | hm) hkept
  · injection hm with hstatus hmachine
    subst hmachine
    rcases hkept with hall | ⟨status, hmem, hflag⟩ | hlast
    · exact hall
    · exact absurd hstatus (flagToStatus_of_marked (h.flagged status hmem hflag))
    · cases hreturned : m.returned with
      | nil =>
          intro status hmem
          cases hmem
      | cons status returned =>
          rw [hreturned] at hlast
          have hne : status ≠ .success := fun heq => hlast (congrArg some heq)
          have hstatus' : m.parser.status = status := h.last status (by rw [hreturned]; rfl) hne
          exact absurd hstatus (flagToStatus_of_status (by rwa [hstatus']))
  · cases hm

theorem sound_bodyParse (n : Nat) {m : Machine σ} (h : Reflects m) : Sound (bodyParse n m) := by
  apply sound_ifSuccess (reflects_steps.bodyLoop n) _ h
  intro m₁ h₁
  show Sound ((if m₁.parser.flags.ok then
    modifyParser Parser.initRegistry >>= fun _ => handleDocument .endDocument
    else pure m₁.parser.flagToStatus : Parse σ NwStatus) m₁)
  split
  · rename_i hok
    exact sound_endDocument (h₁.succeeded hok)
  · exact sound_flagToStatus h₁

/-- The callback for the start of the document, whose errors are returned at once. -/
theorem sound_startDocument {y : Parse σ NwStatus} (hy : ∀ m, Reflects m → Sound (y m))
    {m : Machine σ} (h : Reflects m) :
    Sound (ifSuccess (handleDocument .startDocument) y m) := by
  obtain ⟨m', hparser, ⟨hcall, hreturned⟩ | ⟨status, hcall, hreturned⟩⟩ :=
    callback_eq .startDocument m
  · have hdocument : handleDocument .startDocument m = .ok .success m' := by
      rw [handleDocument, bind_of_ok hcall]
      rfl
    rw [ifSuccess, bind_of_ok hdocument]
    exact hy m' (h.of_parsed hreturned (by rw [hparser]) (by rw [hparser]))
  · have hdocument : handleDocument .startDocument m = .ok status m' := by
      rw [handleDocument, bind_of_ok hcall]
      rfl
    rw [ifSuccess, bind_of_ok hdocument]
    show Sound ((if status = .success then y else pure status) m')
    split
    · rename_i hsuccess
      apply hy
      constructor
      · rw [hreturned, hparser]
        intro st hst hne
        rcases List.mem_cons.1 hst with rfl | hst
        · exact absurd hsuccess hne
        · exact h.failed st hst hne
      · rw [hreturned, hparser]
        intro st hst hflag
        rcases List.mem_cons.1 hst with rfl | hst
        · rw [hsuccess] at hflag
          simp [NwStatus.hasFlag] at hflag
        · exact h.flagged st hst hflag
      · rw [hreturned]
        intro st hst hne
        cases hst
        exact absurd hsuccess hne
    · rename_i hne
      exact sound_of_status hne m'

theorem reflects_selectDictionary (surroundings : Surroundings) :
    Keeps (Reflects (σ := σ)) LimitOk (modifyParser (Parser.selectDictionary surroundings)) := by
  apply reflects_modifyParser
  · intro parser
    obtain ⟨doc, dictionary, heq⟩ := selectDictionary_eq surroundings parser
    rw [heq]
  · intro parser
    obtain ⟨doc, dictionary, heq⟩ := selectDictionary_eq surroundings parser
    rw [heq]

theorem sound_parseBuffer (surroundings : Surroundings) (buff : Bytes) (buffsize : UInt32) (n : Nat)
    {m : Machine σ} (h : Reflects m) : Sound (parseBuffer surroundings buff buffsize n m) := by
  show Sound ((if m.parser.p.isNone then
    modifyParser (fun parser => { parser with p := some ⟨buff, 0⟩, left := buffsize }) >>= fun _ =>
      ifSuccess (docHeaderParse surroundings.docTypeMemory)
        (modifyParser (Parser.selectDictionary surroundings) >>= fun _ =>
          ifSuccess (handleDocument .startDocument) (bodyParse n))
    else bodyParse n : Parse σ NwStatus) m)
  split
  · show Sound (ifSuccess (docHeaderParse surroundings.docTypeMemory) _ _)
    apply sound_ifSuccess (reflects_header.docHeaderParse _)
    · intro m₁ h₁
      have h₂ := (reflects_selectDictionary surroundings).ok h₁ (modifyParser_run _ m₁)
      exact sound_startDocument (fun _ => sound_bodyParse n) h₂
    · exact h.of_parsed rfl rfl rfl
  · exact sound_bodyParse n h

/-- If no error of a callback is lost, a callback that fails stops the parse: whatever the parser
was before, and whatever the buffer and the handler are. -/
theorem errors_stopTheParse (surroundings : Surroundings) (buff : Bytes) (buffsize : UInt32)
    (n : Nat) (parser : Parser) (handler : EventHandler σ) (context : σ)
    (hkept : KeepsErrors
      (finalState
        (parseBuffer surroundings buff buffsize n (.start parser handler context))).returned) :
    StopsTheParse (parseBuffer surroundings buff buffsize n (.start parser handler context)) :=
  stopsTheParse_of_sound (sound_parseBuffer surroundings buff buffsize n (.intro rfl)) hkept

/-- A library with one dictionary. -/
def oneDictionary : Surroundings := ⟨fun _ => 1, fun _ _ => 1, 0, true⟩

/-- A document in UTF-8 with one element that is empty. -/
def emptyElement : Bytes := [0x03, 0x02, 0x6A, 0x00, 0x05]

/-- A handler that refuses the name of a tag, and has a function for its end if `tagEnd`. -/
def refusingHandler (tagEnd : Bool) : EventHandler Unit
  | .fqToken _ => some fun _ context => (.failure, context)
  | .tagEnd => if tagEnd then some fun _ context => (.success, context) else none
  | _ => none

def refusedParse (tagEnd : Bool) : EStateM.Result Stop (Machine Unit) NwStatus :=
  parseBuffer oneDictionary emptyElement 5 5 (.start .newInPlace (refusingHandler tagEnd) ())

theorem errors_stopTheParse_kept : StopsTheParse (refusedParse false) :=
  errors_stopTheParse oneDictionary emptyElement 5 5 .newInPlace (refusingHandler false) ()
    (.inr (.inr (by decide +kernel)))

/-- The name of the tag is refused, the callback for its end succeeds, and so does the parse. -/
theorem not_stopsTheParse_lost : ¬ StopsTheParse (refusedParse true) := by
  have hreturned : (finalState (refusedParse true)).returned = [.success, .failure] := by
    decide +kernel
  have hresult : result? (refusedParse true) = some .success := by decide +kernel
  intro h
  have hends := h ⟨.failure, by rw [hreturned]; decide, by decide⟩
  rw [eq_ok_of_result hresult] at hends
  rcases hends with ⟨m, hm⟩ | ⟨status, m, hm, hne⟩
  · cases hm
  · cases hm
    exact hne rfl

end SymbianWeb.WbxmlParser
