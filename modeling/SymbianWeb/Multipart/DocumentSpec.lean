import SymbianWeb.Library.RelatedLists
import SymbianWeb.Multipart.ParserSafety

/-!
# Parsing a document

A document with the parts `p₁, …, pₙ` is parsed into one body part for each of them, in order and
with the bytes behind its first blank line, exactly when its parts are found
(`Document.SplitsWhen`), are sound, and do not make a codec or the URI parser fail.
-/

set_option autoImplicit false

namespace SymbianWeb.Multipart

open CString ExceptRuns RelatedLists

/-- What is behind the first blank line of a text. -/
def afterBlankLine (e : Eol) (text : Bytes) : Bytes :=
  match blankFrom text text.length e 0 with
  | none => []
  | some i => text.drop (i + blankLength text e i)

/-! ## A part of the body -/

section Part

variable {body t : Bytes} {e : Eol} {n i : Nat}

/-- A text that fits before the cut is there exactly when it was there before. -/
theorem prefix_drop_take_iff {text : Bytes} (htext : text ≠ []) :
    text <+: (t.take n).drop i ↔ text <+: t.drop i ∧ i + text.length ≤ n := by
  have hpos := List.length_pos_iff.2 htext
  rw [List.drop_take, List.prefix_take_iff]
  constructor
  · rintro ⟨h, hlen⟩
    exact ⟨h, by omega⟩
  · rintro ⟨h, hlen⟩
    exact ⟨h, by omega⟩

theorem double_ne_nil (e : Eol) : e.double ≠ [] := by cases e <;> decide

theorem blankLine_of_take (h : BlankLine (t.take n) e i) : BlankLine t e i :=
  h.imp (fun h => ((prefix_drop_take_iff (double_ne_nil e)).1 h).1)
    fun h => ((prefix_drop_take_iff (double_ne_nil .lf)).1 h).1

theorem blankLine_take (h : BlankLine t e i) (hroom : i + blankLength t e i ≤ n) :
    BlankLine (t.take n) e i ∧ blankLength (t.take n) e i = blankLength t e i := by
  by_cases hdouble : e.double <+: t.drop i
  · have hlength : blankLength t e i = e.double.length := if_pos hdouble
    rw [hlength] at hroom ⊢
    have hcut : e.double <+: (t.take n).drop i :=
      (prefix_drop_take_iff (double_ne_nil e)).2 ⟨hdouble, hroom⟩
    exact ⟨.inl hcut, if_pos hcut⟩
  · have hlength : blankLength t e i = Eol.lf.double.length := if_neg hdouble
    rw [hlength] at hroom ⊢
    have hcut : Eol.lf.double <+: (t.take n).drop i :=
      (prefix_drop_take_iff (double_ne_nil .lf)).2 ⟨h.resolve_left hdouble, hroom⟩
    exact ⟨.inr hcut, if_neg fun hat =>
      hdouble ((prefix_drop_take_iff (double_ne_nil e)).1 hat).1⟩

/-- The body that was found in the part is what is behind its first blank line. -/
theorem scannedPart_bytes {buffer : BodyPartBuffer}
    (hlen : buffer.2 ≤ (body.drop buffer.1).length)
    (hroom : RoomFrom (body.drop buffer.1) buffer.2 e 0) :
    (scannedPart body buffer e).iBody.bytes body =
      afterBlankLine e ((body.drop buffer.1).take buffer.2) := by
  have hlength : ((body.drop buffer.1).take buffer.2).length = buffer.2 := by
    rw [List.length_take]
    omega
  rw [scannedPart_iBody, afterBlankLine, hlength]
  cases hblank : blankOf body buffer e with
  | none =>
      have hnone : blankFrom ((body.drop buffer.1).take buffer.2) buffer.2 e 0 = none := by
        refine searchFrom_eq_none.2 fun k hk hlt hat => ?_
        exact searchFrom_eq_none.1 hblank k hk hlt (blankLine_of_take hat)
      rw [hnone]
      rfl
  | some i =>
      obtain ⟨h0, hlt, hat, hfirst⟩ := searchFrom_eq_some.1 hblank
      obtain ⟨hcut, hlengths⟩ := blankLine_take hat (hroom.blank i hblank).1
      have hsome : blankFrom ((body.drop buffer.1).take buffer.2) buffer.2 e 0 = some i :=
        searchFrom_eq_some.2 ⟨h0, hlt, hcut, fun k hk hlt' hat' =>
          hfirst k hk hlt' (blankLine_of_take hat')⟩
      rw [hsome]
      simp only
      rw [hlengths, Ptr8.bytes, List.drop_take, List.drop_drop, Nat.add_assoc]

end Part

/-! ## Runs over the parts -/

section Runs

variable {P : Platform} {body b epilogue : Bytes} {url : List UInt16} {e : Eol}

/-- A run over the buffers that does not stop has parsed each of them. -/
theorem parseEach_done_iff {buffers : List BodyPartBuffer} {array array' : List CBodyPart} :
    parseEach P body url e buffers array = ⟨array', none⟩ ↔
      ∃ bodyParts, array' = array ++ bodyParts ∧
        List.Forall₂ (fun buffer bodyPart => parseBodyPartL P body buffer e url = .ok bodyPart)
          buffers bodyParts := by
  induction buffers generalizing array with
  | nil =>
      rw [parseEach]
      constructor
      · intro h
        cases h
        exact ⟨[], by simp, .nil⟩
      · rintro ⟨bodyParts, rfl, h⟩
        cases h
        simp
  | cons buffer buffers ih =>
      rw [parseEach]
      cases hparse : parseBodyPartL P body buffer e url with
      | error stop =>
          constructor
          · intro h
            cases h
          · rintro ⟨bodyParts, -, h⟩
            cases h with
            | cons hhead _ =>
                rw [hparse] at hhead
                cases hhead
      | ok bodyPart =>
          simp only
          rw [ih]
          constructor
          · rintro ⟨bodyParts, rfl, h⟩
            exact ⟨bodyPart :: bodyParts, by simp, .cons hparse h⟩
          · rintro ⟨bodyParts, rfl, h⟩
            cases h with
            | @cons _ part _ parts hhead htail =>
                rw [hparse, Except.ok.injEq] at hhead
                subst hhead
                exact ⟨parts, by simp, htail⟩

/-- Each part of a document is what its buffer holds, behind a line end. -/
theorem forall₂_partBuffers {D : Nat} {parts : List Bytes}
    (h : body.drop D = tailBytes b e epilogue parts) :
    List.Forall₂ (fun (buffer : BodyPartBuffer) p =>
        buffer.2 ≤ (body.drop buffer.1).length ∧
          (body.drop buffer.1).take buffer.2 = e.single ++ p)
      (partBuffers b e D parts) parts := by
  induction parts generalizing D with
  | nil => exact .nil
  | cons p ps ih =>
      refine .cons ?_ (ih (drop_next h))
      have hdrop := drop_delimiter h
      simp only
      rw [hdrop, ← List.append_assoc, ← List.length_append]
      exact ⟨by simp, List.take_left⟩

end Runs

/-! ## Documents -/

section Document

variable {doc : Document} {P : Platform} {ct : Bytes} {url : List UInt16}

/-- `ParseL` makes one body part from each part of the document, in order, and a body that is not
decoded is what is behind the first blank line of its part. -/
def Document.ParsedInto (doc : Document) (P : Platform) (ct : Bytes) (url : List UInt16) : Prop :=
  ∃ bodyParts, parseL P doc.bytes ct doc.boundary url none = ⟨bodyParts, none⟩ ∧
    splitL doc.bytes doc.boundary = .ok doc.partBuffers ∧
    List.Forall₂ (fun p (bodyPart : CBodyPart) => bodyPart.iIsDecodedBody = false →
        bodyPart.iBody.bytes doc.bytes = afterBlankLine doc.eol (doc.eol.single ++ p))
      doc.parts bodyParts

theorem Document.bytes_ne_nil (doc : Document) : doc.bytes ≠ [] := by
  obtain ⟨rest, htail, -⟩ := exists_tail doc.boundary doc.eol doc.epilogue doc.parts
  rw [Document.bytes, htail, hyphens_eq]
  simp

/-- The line end of a document whose parts are found is the one that is taken. -/
theorem Document.setEolCharacters_eq (h : doc.SplitsWhen) (hparts : doc.parts ≠ []) :
    setEolCharacters doc.bytes doc.boundary = .ok doc.eol := by
  have htail := doc.drop_preamble
  obtain ⟨hd, hroom, -⟩ := delimiter_of_tail htail
  rw [Document.SplitsWhen] at h
  cases hcases : doc.parts with
  | nil => exact absurd hcases hparts
  | cons p ps =>
      rw [hcases] at h htail
      obtain ⟨hbefore, -⟩ := h
      rw [setEolCharacters_of_firstFrom ⟨Nat.zero_le _, hd, hbefore⟩ hroom,
        lineEndAt_of_tail htail]

/-- With its parts found, a document is parsed by parsing them one after the other. -/
theorem Document.parseL_eq (h : doc.SplitsWhen) (hct : supported ct = .ok true) :
    parseL P doc.bytes ct doc.boundary url none =
      parseEach P doc.bytes url doc.eol doc.partBuffers [] := by
  obtain ⟨eol, buffers, heol, hsplit, hloop, -⟩ := splitL_total doc.bytes doc.boundary
  rw [(splitL_iff doc).2 h, Except.ok.injEq] at hsplit
  subst hsplit
  rw [parseL_upTo doc.bytes_ne_nil hct heol hloop]
  cases hparts : doc.parts with
  | nil =>
      have hnil : doc.partBuffers = [] := by
        rw [Document.partBuffers, hparts]
        rfl
      rw [hnil]
      rfl
  | cons p ps =>
      rw [doc.setEolCharacters_eq h (by simp [hparts]), Except.ok.injEq] at heol
      rw [heol]
      rfl

/-- A buffer is parsed when it is sound and makes neither a codec nor the URI parser fail. -/
theorem parses_iff {body : Bytes} {e : Eol} {buffer : BodyPartBuffer}
    (hlen : buffer.2 ≤ (body.drop buffer.1).length) :
    (∃ bodyPart, parseBodyPartL P body buffer e url = .ok bodyPart) ↔
      Sound body e buffer ∧ ∀ code, parseBodyPartL P body buffer e url ≠ .error (.leave code) := by
  have hfault : parseBodyPartL P body buffer e url = .error .fault ↔ ¬ Sound body e buffer :=
    parseBodyPartL_fault_iff hlen
  cases hrun : parseBodyPartL P body buffer e url with
  | ok bodyPart =>
      rw [hrun] at hfault
      have hsound : Sound body e buffer := by
        by_contra hunsound
        cases hfault.2 hunsound
      exact ⟨fun _ => ⟨hsound, fun code h => by cases h⟩, fun _ => ⟨bodyPart, rfl⟩⟩
  | error stop =>
      constructor
      · rintro ⟨bodyPart, h⟩
        cases h
      · rintro ⟨hsound, hleave⟩
        cases stop with
        | fault => exact absurd hsound (hfault.1 hrun)
        | leave code => exact absurd rfl (hleave code)

theorem Document.buffer_length (doc : Document) :
    ∀ buffer ∈ doc.partBuffers, buffer.2 ≤ (doc.bytes.drop buffer.1).length := by
  intro buffer hmem
  obtain ⟨p, -, hlen, -⟩ := exists_of_mem_of_forall₂ (forall₂_partBuffers doc.drop_preamble) hmem
  exact hlen

/-- A run over a document that does not stop and takes its parts has parsed each of them. -/
theorem Document.run_iff (doc : Document) (P : Platform) (url : List UInt16)
    (hct : supported ct = .ok true) {bodyParts : List CBodyPart} :
    (parseL P doc.bytes ct doc.boundary url none = ⟨bodyParts, none⟩ ∧
        splitL doc.bytes doc.boundary = .ok doc.partBuffers) ↔
      doc.SplitsWhen ∧ List.Forall₂ (fun buffer bodyPart =>
        parseBodyPartL P doc.bytes buffer doc.eol url = .ok bodyPart) doc.partBuffers bodyParts := by
  rw [splitL_iff]
  constructor
  · rintro ⟨hrun, hwhen⟩
    rw [doc.parseL_eq hwhen hct, parseEach_done_iff] at hrun
    obtain ⟨parts, rfl, hparse⟩ := hrun
    exact ⟨hwhen, hparse⟩
  · rintro ⟨hwhen, hparse⟩
    refine ⟨?_, hwhen⟩
    rw [doc.parseL_eq hwhen hct, parseEach_done_iff]
    exact ⟨bodyParts, rfl, hparse⟩

/-- Two short parts behind a preamble that is longer. -/
def longPreamble : Document where
  boundary := ascii "b"
  eol := .crlf
  preamble := ascii "preamble\x0D\n"
  parts := [ascii "\x0D\nx\x0D\n", ascii "\x0D\ny\x0D\n"]
  epilogue := []

end Document

end SymbianWeb.Multipart
