import SymbianWeb.Cxml.WbxmlParser
import SymbianWeb.Library.RelatedRuns

/-!
# Runs of the parser

The parser looks at its state in a few ways only, and changes it in a few steps: a callback, a move
forward, a piece of opaque data, a switch of the code page, a token that is looked for, and the
count of the elements that are open. If two runs go together in each of these steps
(`Steps`), they go together in every function of the parser, up to the body of a document
(`Steps.bodyLoop`). One lemma for each function follows its definition.
-/

set_option autoImplicit false

namespace SymbianWeb.WbxmlParser

open Wbxml ErrorState RelatedRuns

/-- The part of the parser that decides what it does: all but the registry of code pages. -/
def Parser.shared (parser : Parser) : Parser :=
  { parser with
    flags := { parser.flags with registryInit := false }
    state := 0
    cpRegistry := ⟨[], 0, 0⟩ }

/-- The part of the parser that says where it is. -/
def Parser.place (parser : Parser) : Parser :=
  { Parser.newInPlace with
    offset := parser.offset
    left := parser.left
    p := parser.p }

/-- Two runs are at the same place, and go together when they move forward. -/
structure Places {σ τ : Type} (c : Comparison Stop (Machine σ) (Machine τ)) : Prop where
  place : ∀ {s : Machine σ} {t : Machine τ}, c.Rel s t → s.parser.place = t.parser.place
  fault : ∀ {s : Machine σ} {t : Machine τ}, c.Rel s t → c.Stops .fault s t
  advance : ∀ count : Nat, Related c (advance count) (advance count)

/-- Two runs go together in the steps that read. -/
structure Reads {σ τ : Type} (c : Comparison Stop (Machine σ) (Machine τ)) : Prop
    extends Places c where
  shared : ∀ {s : Machine σ} {t : Machine τ}, c.Rel s t → s.parser.shared = t.parser.shared

/-- Two runs go together in each step of the parser. -/
structure Steps {σ τ : Type} (c : Comparison Stop (Machine σ) (Machine τ)) : Prop
    extends Reads c where
  limit : ∀ {s : Machine σ} {t : Machine τ}, c.Rel s t → s.parser.flags.ok → c.Stops .limit s t
  handle : ∀ event, Related c (handle event) (handle event)
  skipOpaque : ∀ index, Related c (skipOpaque index) (skipOpaque index)
  switchPage : ∀ tokenState, Related c (switchPage tokenState) (switchPage tokenState)
  readToken : Related c readToken readToken
  count : ∀ f : UInt32 → UInt32,
    Related c
      (modifyParser fun parser => { parser with recursiveCallCnt := f parser.recursiveCallCnt })
      (modifyParser fun parser => { parser with recursiveCallCnt := f parser.recursiveCallCnt })

/-! ## What the steps do to the machine -/

section

variable {σ : Type}

@[simp] theorem modifyParser_run (f : Parser → Parser) (m : Machine σ) :
    modifyParser f m = .ok () { m with parser := f m.parser } := rfl

theorem advance_eq (count : Int) (m : Machine σ) :
    advance count m =
      match m.parser.advance? count with
      | none => .ok false m
      | some parser => .ok true { m with parser } := by
  show (match m.parser.advance? count with
    | none => (pure false : Parse σ Bool)
    | some parser => modifyParser (fun _ => parser) >>= fun _ => pure true) m = _
  cases m.parser.advance? count with
  | none => rfl
  | some parser => rfl

theorem enterPage_eq (tokenState : TokenState) (m : Machine σ) :
    enterPage tokenState m =
      match m.parser.enterPage? tokenState with
      | none => .error .fault m
      | some parser => .ok () { m with parser } := by
  show ((orFault (m.parser.enterPage? tokenState) : Parse σ Parser) >>= fun parser =>
    modifyParser fun _ => parser) m = _
  cases m.parser.enterPage? tokenState with
  | none => rfl
  | some parser => rfl

/-- The machine with the place noted at which it looks for a token. -/
def Machine.visit (m : Machine σ) : Machine σ :=
  { m with
    boundaries :=
      ⟨m.parser.offset, m.parser.tagCodePage, m.parser.attributeCodePage⟩ :: m.boundaries }

theorem readToken_eq (m : Machine σ) :
    readToken m =
      match m.parser.readUint8 with
      | none => .error .fault m.visit
      | some token => .ok token m.visit := by
  show (orFault m.parser.readUint8 : Parse σ UInt8) m.visit = _
  cases m.parser.readUint8 with
  | none => rfl
  | some token => rfl

/-- A move leaves everything in the parser but its place. -/
theorem advance?_eq {count : Int} {parser parser' : Parser}
    (h : parser.advance? count = some parser') :
    parser' = { parser with p := parser'.p, offset := parser'.offset, left := parser'.left } := by
  rw [Parser.advance?] at h
  simp only [Option.ite_none_left_eq_some, Option.some.injEq] at h
  rw [← h.2]

theorem registerPage_eq {tokenState : TokenState} {page : UInt8} {parser parser' : Parser}
    (h : parser.registerPage tokenState page = some parser') :
    parser' = { parser with cpRegistry := parser'.cpRegistry } := by
  rw [Parser.registerPage] at h
  split at h
  · obtain ⟨cpRegistry, -, hparser⟩ := Option.map_eq_some_iff.1 h
    rw [← hparser]
  · cases h
    rfl

/-- The switch of a code page leaves everything in the parser but the pages and their registry. -/
theorem enterPage?_eq {tokenState : TokenState} {parser parser' : Parser}
    (h : parser.enterPage? tokenState = some parser') :
    parser' = { parser with
      tagCodePage := parser'.tagCodePage
      attributeCodePage := parser'.attributeCodePage
      cpRegistry := parser'.cpRegistry } := by
  obtain ⟨page, -, hpage⟩ := Option.bind_eq_some_iff.1 h
  have heq := registerPage_eq hpage
  cases tokenState with
  | tag =>
      rw [heq]
      rfl
  | attr =>
      rw [heq]
      rfl

/-- The choice of the dictionary concerns the dictionary and the document only. -/
theorem selectDictionary_eq (surroundings : Surroundings) (parser : Parser) :
    ∃ doc dictionary, parser.selectDictionary surroundings = { parser with doc, dictionary } := by
  cases h : parser.doc with
  | none =>
      refine ⟨none, parser.dictionary, ?_⟩
      rw [Parser.selectDictionary, h]
      show parser = _
      rw [← h]
  | some doc =>
      have hcases : ∀ index : UInt32, ∃ doc' dictionary,
          (if index = 0 then
            { parser with
              doc := some { doc with publicid := surroundings.defaultPublicId }
              dictionary := surroundings.getIndexByPublicId surroundings.defaultPublicId }
          else { parser with doc := some doc, dictionary := index }) =
            { parser with doc := doc', dictionary := dictionary } := by
        intro index
        split
        · exact ⟨_, _, rfl⟩
        · exact ⟨some doc, index, rfl⟩
      rw [Parser.selectDictionary, h]
      exact hcases _

end

section

variable {σ τ α : Type} {c : Comparison Stop (Machine σ) (Machine τ)}

/-! ## Reading -/

/-- What is a function of a part of the parser that both runs share. -/
theorem related_read {view : Parser → Parser}
    (hview : ∀ {s : Machine σ} {t : Machine τ}, c.Rel s t → view s.parser = view t.parser)
    {F : Parser → Parse σ α} {G : Parser → Parse τ α} (hF : ∀ p, F p = F (view p))
    (hG : ∀ p, G p = G (view p)) (hFG : ∀ p, Related c (F p) (G p)) :
    Related c (getParser >>= F) (getParser >>= G) where
  results := by
    intro s t hst
    show Compared c (F s.parser s) (G t.parser t)
    rw [hF, hG, ← hview hst]
    exact (hFG _).results hst
  left hs := (hFG _).left hs
  right ht := (hFG _).right ht

namespace Places

variable (h : Places c)

include h

/-- A function of the place of the parser. -/
theorem readPlace {F : Parser → Parse σ α} {G : Parser → Parse τ α} (hF : ∀ p, F p = F p.place)
    (hG : ∀ p, G p = G p.place) (hFG : ∀ p, Related c (F p) (G p)) :
    Related c (getParser >>= F) (getParser >>= G) :=
  related_read h.place hF hG hFG

theorem orFault : ∀ a : Option α, Related c (orFault a) (orFault a)
  | some a => .pure a
  | none => .throw h.fault

theorem hasMoreBytecode {x x' : Parse σ α} {y y' : Parse τ α} (hxy : Related c x y)
    (hxy' : Related c x' y') :
    Related c (do if (← getParser).hasMoreBytecode then x else x')
      (do if (← getParser).hasMoreBytecode then y else y') :=
  h.readPlace (fun _ => rfl) (fun _ => rfl) fun _ => .ite hxy hxy'

variable {x : Parse σ NwStatus} {y : Parse τ NwStatus}

theorem afterAdvance {count : Nat} (hxy : Related c x y) :
    Related c (afterAdvance count x) (afterAdvance count y) :=
  (h.advance count).bind fun _ => .ite hxy (.pure _)

theorem withMbUint32 {f : UInt32 → Nat → Parse σ NwStatus} {g : UInt32 → Nat → Parse τ NwStatus}
    (hfg : ∀ val count, Related c (f val count) (g val count)) :
    Related c (withMbUint32 f) (withMbUint32 g) :=
  h.readPlace (fun _ => rfl) (fun _ => rfl) fun _ =>
    (h.orFault _).bind fun
      | .value val count => hfg val count
      | .bad => .pure _

end Places

namespace Reads

variable (h : Reads c)

include h

/-- A function of the shared part of the parser. -/
theorem read {F : Parser → Parse σ α} {G : Parser → Parse τ α} (hF : ∀ p, F p = F p.shared)
    (hG : ∀ p, G p = G p.shared) (hFG : ∀ p, Related c (F p) (G p)) :
    Related c (getParser >>= F) (getParser >>= G) :=
  related_read h.shared hF hG hFG

variable {x x' : Parse σ NwStatus} {y y' : Parse τ NwStatus}

theorem checkParserStatus (hxy : Related c x y) :
    Related c (checkParserStatus x) (checkParserStatus y) :=
  h.read (fun _ => rfl) (fun _ => rfl) fun _ => .ite hxy (.pure _)

theorem whileOk (hxy : Related c x y) : Related c (whileOk x) (whileOk y) :=
  h.read (fun _ => rfl) (fun _ => rfl) fun _ => .ite hxy (.pure _)

omit h in
theorem ifSuccess (hxy : Related c x y) (hxy' : Related c x' y') :
    Related c (ifSuccess x x') (ifSuccess y y') :=
  hxy.bind fun _ => .ite hxy' (.pure _)

theorem withInlineStrLen {f : Nat → Parse σ NwStatus} {g : Nat → Parse τ NwStatus}
    (hfg : ∀ ilen, Related c (f ilen) (g ilen)) :
    Related c (withInlineStrLen f) (withInlineStrLen g) :=
  h.read (fun _ => rfl) (fun _ => rfl) fun _ =>
    (h.orFault _).bind fun _ => (h.orFault _).bind fun _ => .ite (.pure _) (hfg _)

theorem ifTableString {index : UInt32} (hxy : Related c x y) :
    Related c (ifTableString index x) (ifTableString index y) :=
  h.read (fun _ => rfl) (fun _ => rfl) fun _ =>
    (h.orFault _).bind fun _ => (h.orFault _).bind fun _ => .ite hxy (.pure _)

end Reads

/-! ## The header -/

/-- Two runs go together in each step of the header. The move behind the string table can be one
in either direction. -/
structure HeaderSteps {σ τ : Type} (c : Comparison Stop (Machine σ) (Machine τ)) : Prop
    extends Places c where
  move : ∀ count : Int, Related c (WbxmlParser.advance count) (WbxmlParser.advance count)
  setDocument : ∀ doc,
    Related c (modifyParser (Parser.setDocument doc)) (modifyParser (Parser.setDocument doc))

namespace HeaderSteps

variable (h : HeaderSteps c)

include h

theorem withPublicId {f : UInt32 → UInt32 → Parse σ NwStatus}
    {g : UInt32 → UInt32 → Parse τ NwStatus} (hfg : ∀ id index, Related c (f id index) (g id index)) :
    Related c (withPublicId f) (withPublicId g) :=
  h.withMbUint32 fun _ _ => h.afterAdvance
    (.ite (h.withMbUint32 fun _ _ => h.afterAdvance (hfg _ _)) (hfg _ _))

theorem withCharset {version : UInt8} {f : Charset → Parse σ NwStatus}
    {g : Charset → Parse τ NwStatus} (hfg : ∀ charset, Related c (f charset) (g charset)) :
    Related c (withCharset version f) (withCharset version g) := by
  apply Related.ite _ (hfg _)
  apply h.withMbUint32
  intro encoding count
  apply h.afterAdvance
  split
  · exact hfg _
  · exact .pure _

theorem withStringTable {f : UInt32 → Pointer → Parse σ NwStatus}
    {g : UInt32 → Pointer → Parse τ NwStatus} (hfg : ∀ length data, Related c (f length data)
      (g length data)) :
    Related c (withStringTable f) (withStringTable g) := by
  apply h.withMbUint32
  intro length skip
  apply h.afterAdvance
  apply h.readPlace (fun _ => rfl) (fun _ => rfl)
  intro parser
  apply (h.orFault _).bind
  intro data
  exact (h.move _).bind fun _ => .ite (hfg _ _) (.pure _)

theorem withDocType {publicid : UInt32} {charset : Charset} {data : Pointer}
    {length index : UInt32} {memory : Bool} {f : Option NwString → Parse σ NwStatus}
    {g : Option NwString → Parse τ NwStatus} (hfg : ∀ docType, Related c (f docType) (g docType)) :
    Related c (withDocType publicid charset data length index memory f)
      (withDocType publicid charset data length index memory g) := by
  apply Related.ite _ (.ite (hfg _) (.pure _))
  apply Related.ite (.pure _)
  apply (h.orFault _).bind
  intro storage
  apply (h.orFault _).bind
  intro valid
  apply Related.ite _ (.pure _)
  apply Related.ite _ (.pure _)
  apply (h.orFault _).bind
  intro docType
  cases docType with
  | none => exact .pure _
  | some docType => exact hfg _

theorem docHeaderParse (docTypeMemory : Bool) :
    Related c (docHeaderParse docTypeMemory) (docHeaderParse docTypeMemory) := by
  apply h.readPlace (fun _ => rfl) (fun _ => rfl)
  intro parser
  apply (h.orFault _).bind
  intro version
  apply h.afterAdvance
  apply h.withPublicId
  intro publicid docTypeByteOffset
  apply Related.ite (.pure _)
  apply h.withCharset
  intro charset
  apply h.withStringTable
  intro length data
  apply h.withDocType
  intro docType
  exact (h.setDocument _).bind fun _ => .pure _

end HeaderSteps

/-! ## Tokens and iterators -/

namespace Steps

variable (h : Steps c)

include h

theorem withTokenFrom {tokenState : TokenState} {f : UInt8 → Parse σ NwStatus}
    {g : UInt8 → Parse τ NwStatus} (hfg : ∀ token, Related c (f token) (g token)) :
    ∀ rounds, Related c (withTokenFrom tokenState f rounds) (withTokenFrom tokenState g rounds) := by
  intro rounds
  induction rounds with
  | zero => exact .pure _
  | succ rounds ih =>
      apply h.hasMoreBytecode _ (.pure _)
      apply h.readToken.bind
      intro token
      apply Related.ite _ (hfg token)
      exact (h.switchPage tokenState).bind fun _ => .ite ih (.pure _)

theorem withToken {tokenState : TokenState} {f : UInt8 → Parse σ NwStatus}
    {g : UInt8 → Parse τ NwStatus} (hfg : ∀ token, Related c (f token) (g token)) :
    Related c (withToken tokenState f) (withToken tokenState g) :=
  h.read (fun _ => rfl) (fun _ => rfl) fun _ => h.withTokenFrom hfg _

/-- A loop that would go on stops, and one that has found an error in the flags does not. -/
theorem checkLimit {p : Parser → Prop} [DecidablePred p] {f : Parser → NwStatus}
    (hp : ∀ parser, p parser = p parser.shared) (hf : ∀ parser, f parser = f parser.shared)
    (hok : ∀ parser, p parser → parser.flags.ok) :
    Related c
      (getParser >>= fun parser =>
        if p parser then throw Stop.limit else pure (f parser) : Parse σ NwStatus)
      (getParser >>= fun parser =>
        if p parser then throw Stop.limit else pure (f parser)) where
  results := by
    intro s t hst
    have hshared := h.shared hst
    show Compared c ((if p s.parser then throw Stop.limit else pure (f s.parser) : Parse σ _) s)
      ((if p t.parser then throw Stop.limit else pure (f t.parser) : Parse τ _) t)
    have hpt : p t.parser = p s.parser := by rw [hp, ← hshared, ← hp]
    have hft : f t.parser = f s.parser := by rw [hf, ← hshared, ← hf]
    by_cases hgo : p s.parser
    · rw [if_pos hgo, if_pos (hpt ▸ hgo)]
      exact .error hst (h.limit hst (hok _ hgo))
    · rw [if_neg hgo, if_neg (hpt ▸ hgo), hft]
      exact .ok hst
  left := by
    intro s hs
    show c.Left (finalState
      ((if p s.parser then throw Stop.limit else pure (f s.parser) : Parse σ _) s))
    split
    · exact hs
    · exact hs
  right := by
    intro t ht
    show c.Right (finalState
      ((if p t.parser then throw Stop.limit else pure (f t.parser) : Parse τ _) t))
    split
    · exact ht
    · exact ht

theorem statusLimit :
    Related c (checkParserStatus (throw Stop.limit : Parse σ NwStatus))
      (checkParserStatus (throw Stop.limit)) :=
  h.checkLimit (fun _ => rfl) (fun _ => rfl) fun _ hok => hok

theorem runIterator {x : Parse σ NwStatus} {y : Parse τ NwStatus} (hxy : Related c x y) :
    ∀ n, Related c (runIterator x n) (runIterator y n) := by
  intro n
  induction n with
  | zero => exact h.statusLimit
  | succ n ih =>
      apply h.checkParserStatus
      exact hxy.bind fun _ => .ite (.pure _) (.ite (.pure _) ih)

theorem advanceIfMore : Related c advanceIfMore advanceIfMore :=
  h.hasMoreBytecode ((h.advance 1).bind fun _ => .pure _) (.pure _)

/-! ## The parts of a document -/

theorem extensionParse (tokenState : TokenState) :
    Related c (extensionParse tokenState) (extensionParse tokenState) := by
  apply (h.handle _).bind
  intro _
  apply h.withToken
  intro token
  apply h.read (fun _ => rfl) (fun _ => rfl)
  intro parser
  apply (h.handle _).bind
  intro _
  apply Related.ite
  · exact h.afterAdvance (h.withInlineStrLen fun _ => (h.handle _).bind fun _ =>
      h.afterAdvance (.pure _))
  apply Related.ite
  · exact h.afterAdvance (h.withMbUint32 fun _ _ =>
      h.read (fun _ => rfl) (fun _ => rfl) fun _ => (h.handle _).bind fun _ =>
        h.afterAdvance (.pure _))
  apply Related.ite
  · exact h.afterAdvance ((h.handle _).bind fun _ => .pure _)
  · exact .pure _

theorem opaqueParse (tokenState : TokenState) :
    Related c (opaqueParse tokenState) (opaqueParse tokenState) := by
  apply h.withToken
  intro token
  apply Related.ite
  · exact h.afterAdvance (h.withMbUint32 fun _ _ => h.afterAdvance
      ((h.skipOpaque _).bind fun _ => .ite (.pure _) (.pure _)))
  · exact .pure _

theorem attributeNameParse : Related c attributeNameParse attributeNameParse := by
  apply h.hasMoreBytecode _ (.pure _)
  apply h.withToken
  intro token
  apply Related.ite _ (.pure _)
  apply (h.handle _).bind
  intro _
  apply h.read (fun _ => rfl) (fun _ => rfl)
  intro parser
  apply Related.ite
  · exact h.read (fun _ => rfl) (fun _ => rfl) fun _ => .pure _
  · apply h.afterAdvance
    apply h.read (fun _ => rfl) (fun _ => rfl)
    intro parser
    apply (h.handle _).bind
    intro _
    apply Related.ite _ (.pure _)
    exact h.withMbUint32 fun _ _ => (h.handle _).bind fun _ => h.afterAdvance (.pure _)

theorem attributeValParse : Related c attributeValParse attributeValParse := by
  apply h.withToken
  intro token
  apply Related.ite
  · exact h.afterAdvance (h.withInlineStrLen fun _ => (h.handle _).bind fun _ =>
      (h.handle _).bind fun _ => h.afterAdvance (.pure _))
  apply Related.ite
  · exact h.afterAdvance (h.withMbUint32 fun _ _ => (h.handle _).bind fun _ =>
      (h.handle _).bind fun _ => h.afterAdvance (.pure _))
  apply Related.ite
  · exact h.afterAdvance (h.withMbUint32 fun _ _ => h.afterAdvance
      ((h.handle _).bind fun _ => (h.skipOpaque _).bind fun _ => .ite (.pure _) (.pure _)))
  apply Related.ite
  · exact h.afterAdvance (h.withMbUint32 fun _ _ => (h.handle _).bind fun _ =>
      h.afterAdvance (.pure _))
  apply Related.ite
  · exact (h.handle _).bind fun _ => (h.extensionParse _).bind fun _ => .ite (.pure _) (.pure _)
  apply Related.ite
  · exact h.read (fun _ => rfl) (fun _ => rfl) fun _ => (h.handle _).bind fun _ =>
      (h.handle _).bind fun _ => h.afterAdvance (.pure _)
  · exact .pure _

theorem attributeValsIterate : Related c attributeValsIterate attributeValsIterate :=
  Reads.ifSuccess h.attributeValParse (h.withToken fun _ => .ite (.pure _) (.pure _))

theorem attributeParse (n : Nat) : Related c (attributeParse n) (attributeParse n) :=
  Reads.ifSuccess h.attributeNameParse (h.runIterator h.attributeValsIterate n)

theorem attributeListParse (n : Nat) : Related c (attributeListParse n) (attributeListParse n) :=
  h.runIterator
    (Reads.ifSuccess (h.attributeParse n) (h.withToken fun _ => .ite (.pure _) (.pure _))) n

theorem piParse (n : Nat) (tokenState : TokenState) :
    Related c (piParse n tokenState) (piParse n tokenState) := by
  apply h.withToken
  intro token
  apply Related.ite _ (.pure _)
  apply (h.handle _).bind
  intro _
  apply h.afterAdvance
  apply Reads.ifSuccess (h.attributeParse n)
  apply h.withToken
  intro token
  apply Related.ite _ (.pure _)
  exact (h.handle _).bind fun _ => h.advanceIfMore.bind fun _ => .pure _

theorem textTokenParse (n : Nat) : Related c (textTokenParse n) (textTokenParse n) := by
  apply h.withToken
  intro token
  apply Related.ite
  · exact (h.handle _).bind fun _ => h.afterAdvance (h.withInlineStrLen fun _ =>
      (h.handle _).bind fun _ => h.afterAdvance (.pure _))
  apply Related.ite
  · exact (h.handle _).bind fun _ => h.afterAdvance (h.withMbUint32 fun _ _ =>
      h.ifTableString ((h.handle _).bind fun _ => h.afterAdvance (.pure _)))
  apply Related.ite
  · exact (h.handle _).bind fun _ => h.afterAdvance (h.withMbUint32 fun _ _ =>
      h.afterAdvance ((h.handle _).bind fun _ => .pure _))
  apply Related.ite
  · exact (h.handle _).bind fun _ => h.opaqueParse _
  apply Related.ite
  · exact (h.handle _).bind fun _ => h.extensionParse _
  apply Related.ite
  · exact h.piParse n _
  · exact .pure _

theorem textParse (n : Nat) : Related c (textParse n) (textParse n) := by
  apply h.runIterator
  apply Reads.ifSuccess (h.textTokenParse n)
  exact h.hasMoreBytecode (h.withToken fun _ => .ite (.pure _) (.pure _)) (.pure _)

/-! ## Elements -/

theorem tagStatus (fqToken : UInt32) : Related c (tagStatus fqToken) (tagStatus fqToken) := by
  apply Related.ite
  · exact .ite (.pure _) (.pure _)
  apply Related.ite
  · exact .pure _
  · exact (h.handle _).bind fun _ => .pure _

theorem literalTagName (token : UInt8) (fqToken : UInt32) :
    Related c (literalTagName token fqToken) (literalTagName token fqToken) := by
  apply Related.ite
  · exact h.withMbUint32 fun _ _ => (h.handle _).bind fun _ => h.afterAdvance (h.tagStatus _)
  · exact h.tagStatus _

theorem tagNameParse : Related c tagNameParse tagNameParse := by
  apply (h.handle _).bind
  intro _
  apply h.checkParserStatus
  apply h.withToken
  intro token
  apply h.read (fun _ => rfl) (fun _ => rfl)
  intro parser
  apply (h.handle _).bind
  intro _
  apply h.read (fun _ => rfl) (fun _ => rfl)
  intro parser
  exact .ite (h.afterAdvance (h.literalTagName _ _)) (h.literalTagName _ _)

section Content

variable {x : Parse σ NwStatus} {y : Parse τ NwStatus} (hxy : Related c x y)

include hxy

theorem elementContent : Related c (elementContent x) (elementContent y) :=
  Reads.ifSuccess hxy ((h.handle _).bind fun _ => .pure _)

theorem behindAttributes (tagStatus : NwStatus) :
    Related c (behindAttributes x tagStatus) (behindAttributes y tagStatus) := by
  apply Related.ite
  · exact h.whileOk (h.elementContent hxy)
  · exact (h.handle _).bind fun _ => .pure _

theorem elementRest (n : Nat) (tagStatus : NwStatus) :
    Related c (elementRest x n tagStatus) (elementRest y n tagStatus) := by
  apply Related.ite
  · apply Reads.ifSuccess (h.attributeListParse n)
    exact h.hasMoreBytecode (h.afterAdvance (h.behindAttributes hxy _)) (h.behindAttributes hxy _)
  apply Related.ite
  · exact h.elementContent hxy
  · exact .pure _

theorem elementParse (n : Nat) : Related c (elementParse x n) (elementParse y n) := by
  apply (h.count (· + 1)).bind
  intro _
  apply Related.bind
  · apply h.read (fun _ => rfl) (fun _ => rfl)
    intro parser
    apply Related.ite (.pure _)
    apply h.whileOk
    apply h.tagNameParse.bind
    intro tagStatus
    exact .ite (.pure _) (h.whileOk (h.elementRest hxy n _))
  · intro status
    exact (h.count (· - 1)).bind fun _ => .pure _

end Content

theorem contentParse : ∀ n, Related c (contentParse n) (contentParse n) := by
  intro n
  induction n with
  | zero => exact h.statusLimit
  | succ n ih =>
      apply h.checkParserStatus
      apply h.withToken
      intro token
      apply Related.ite
      · exact h.advanceIfMore.bind fun _ => .pure _
      apply Related.ite
      · exact Reads.ifSuccess (h.textParse n) ih
      · exact (h.handle _).bind fun _ => Reads.ifSuccess (h.elementParse ih n) ih

/-- The body of a document, up to the check of the flags behind it. -/
theorem bodyLoop : ∀ n, Related c (bodyLoop n) (bodyLoop n) := by
  intro n
  induction n with
  | zero => exact h.checkLimit (fun _ => rfl) (fun _ => rfl) fun _ hgo => hgo.1
  | succ n ih =>
      apply h.read (fun _ => rfl) (fun _ => rfl)
      intro parser
      apply Related.ite _ (.pure _)
      apply h.withToken
      intro token
      apply Related.ite
      · exact h.hasMoreBytecode (h.afterAdvance ((h.handle _).bind fun _ => ih)) ih
      apply Related.ite
      · exact Reads.ifSuccess (h.textParse n) ih
      · exact Reads.ifSuccess (h.elementParse (h.contentParse n) n) ih

end Steps

end

end SymbianWeb.WbxmlParser
