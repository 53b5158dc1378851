import SymbianWeb.Multipart.DocumentSpec
import SymbianWeb.Multipart.HeaderLines
import Mathlib.Tactic.Ring

/-!
# Composing a document and parsing it

What `ComposeL` makes of body parts with header lines is a document in the sense of the parser
(`composeL_eq`), so that it is parsed into its parts when they are found; the headers are then the
ones that are read of the lines, and the body is the one that was composed, up to a line end.
-/

set_option autoImplicit false

namespace SymbianWeb.Multipart

open CString ExceptRuns RelatedLists

/-- A body part: a block of header lines and a body. -/
structure MimePart where
  headers : HeaderBlock
  body : Bytes

def MimePart.text (part : MimePart) : PartText := ⟨part.headers.text, part.body⟩

/-- The parts that are not empty. -/
def nonEmptyParts (parts : List MimePart) : List MimePart :=
  parts.filter fun part => !isEmptyPart part.text

/-- The document that is composed of the parts. -/
def composedDocument (parts : List MimePart) (b : Bytes) (mask : BitVec 32) (size : Int)
    (date : Bytes) : Document where
  boundary := b
  eol := .crlf
  preamble := topLevelHeaders b mask size date ++ Eol.crlf.single
  parts := (nonEmptyParts parts).map fun part => composedPart part.text
  epilogue := []

/-! ## What the composer makes of a part -/

section Part

variable {s trailing : Bytes}

/-- The line ends behind the last line are trimmed. -/
theorem headerEnd_append {a : UInt8} (ha : isEolChar a = false)
    (htrailing : ∀ c ∈ trailing, isEolChar c = true) {k : Nat} (hk : k ≤ trailing.length) :
    headerEnd (s ++ a :: trailing) (s.length + k) = s.length := by
  induction k with
  | zero =>
      rw [Nat.add_zero]
      cases hs : s.length with
      | zero => rfl
      | succ m =>
          have hget : (s ++ a :: trailing)[m + 1]? = some a := by
            rw [← hs, List.getElem?_append_right (Nat.le_refl _), Nat.sub_self]
            rfl
          rw [headerEnd, hget]
          simp [ha]
  | succ k ih =>
      have hget : ∃ c, (s ++ a :: trailing)[s.length + k + 1]? = some c ∧ isEolChar c = true := by
        have hlt : k < trailing.length := by omega
        refine ⟨trailing[k], ?_, htrailing _ (List.getElem_mem hlt)⟩
        rw [List.getElem?_append_right (by omega),
          show s.length + k + 1 - s.length = k + 1 by omega, List.getElem?_cons_succ,
          List.getElem?_eq_getElem hlt]
      obtain ⟨c, hc, heol⟩ := hget
      rw [← Nat.add_assoc, headerEnd, hc]
      simp only [Option.any_some, heol, if_true]
      exact ih (by omega)

theorem countEols_append {r : Bytes} {a : UInt8} (ha : isEolChar a = false)
    (htrailing : ∀ c ∈ trailing, isEolChar c = true) :
    countEols (trailing ++ a :: r) = .ok trailing.length := by
  induction trailing with
  | nil =>
      rw [List.nil_append, countEols, if_neg (by simp [ha])]
      rfl
  | cons c trailing ih =>
      rw [List.cons_append, countEols, if_pos (htrailing c List.mem_cons_self),
        ih fun c' hc' => htrailing c' (List.mem_cons_of_mem _ hc')]
      rfl

/-- The last character of a block of lines is in its last line. -/
theorem exists_joinLines_concat {ls : List (HeaderLine × Eol)} (hls : ls ≠ []) :
    ∃ s a, joinLines ls = s ++ [a] ∧ isEolChar a = false ∧ s ≠ [] := by
  induction ls with
  | nil => exact absurd rfl hls
  | cons l ls ih =>
      obtain ⟨l, e⟩ := l
      by_cases hlast : ls = []
      · subst hlast
        obtain ⟨s, a, htext⟩ := (List.eq_nil_or_concat' l.text).resolve_left
          (by simp [HeaderLine.text])
        refine ⟨s, a, htext, l.text_eol a (by simp [htext]), ?_⟩
        rintro rfl
        obtain ⟨c, s', hc, -, hs'⟩ := l.exists_text
        rw [hc] at htext
        simp at htext
        exact hs' htext.2
      · obtain ⟨s, a, hjoin, ha, -⟩ := ih hlast
        refine ⟨l.text ++ (e.single ++ s), a, ?_, ha, by simp [HeaderLine.text]⟩
        rw [joinLines_cons l e hlast, hjoin]
        simp only [List.append_assoc]

/-- The line end that the composer puts behind a body. -/
def closingCrlf (body : Bytes) : Bytes := if needsCrlf body then Eol.crlf.single else []

/-- What stands in front of the body: the lines with a blank line behind them, or a line end. -/
def composedHeaders (ls : List (HeaderLine × Eol)) : Bytes :=
  if ls = [] then Eol.crlf.single else joinLines ls ++ Eol.crlf.double

theorem headersText_length (block : HeaderBlock) (hls : block.lines ≠ []) :
    ∃ s a, joinLines block.lines = s ++ [a] ∧ isEolChar a = false ∧ 0 < s.length ∧
      block.text = s ++ a :: block.trailing := by
  obtain ⟨s, a, hjoin, ha, hs⟩ := exists_joinLines_concat hls
  refine ⟨s, a, hjoin, ha, List.length_pos_iff.2 hs, ?_⟩
  rw [HeaderBlock.text, hjoin]
  simp only [List.append_assoc, List.cons_append, List.nil_append]

theorem headersText_nil (block : HeaderBlock) (hls : block.lines = []) : block.text = [] := by
  rw [HeaderBlock.text, hls, block.trailing_nil hls]
  rfl

theorem composedPart_eq (part : MimePart) : composedPart part.text =
    composedHeaders part.headers.lines ++ (part.body ++ closingCrlf part.body) := by
  rw [composedPart, composedHeaders, closingCrlf, ← List.append_assoc]
  congr 2
  by_cases hls : part.headers.lines = []
  · rw [if_pos hls]
    simp [MimePart.text, headersText_nil part.headers hls]
  · rw [if_neg hls]
    obtain ⟨s, a, hjoin, ha, hs, htext⟩ := headersText_length part.headers hls
    have hlength : part.text.headers.length = s.length + part.headers.trailing.length + 1 := by
      simp [MimePart.text, htext]
      omega
    have hend : headerEnd part.text.headers (s.length + part.headers.trailing.length) = s.length := by
      simp only [MimePart.text, htext]
      exact headerEnd_append ha part.headers.trailing_eol (Nat.le_refl _)
    have htake : part.text.headers.take (s.length + 1) = s ++ [a] := by
      simp [MimePart.text, htext, List.take_append, List.take_of_length_le]
    simp only [hlength, hend]
    rw [if_pos hs, hjoin, htake]

end Part

/-! ## What the composer makes of all parts -/

section Document

variable {parts : List MimePart} {b : Bytes} {mask : BitVec 32} {date : Bytes} {size : Int}

theorem tailBytes_composed (parts : List MimePart) (b : Bytes) :
    composedParts b (parts.map MimePart.text) ++ (hyphens ++ b ++ hyphens) =
      tailBytes b .crlf [] ((nonEmptyParts parts).map fun part => composedPart part.text) := by
  induction parts with
  | nil => simp [composedParts, nonEmptyParts, tailBytes]
  | cons part parts ih =>
      rw [List.map_cons, composedParts, nonEmptyParts]
      by_cases hempty : isEmptyPart part.text = true
      · rw [if_pos hempty, List.nil_append, ih, List.filter_cons_of_neg (by simp [hempty])]
        rfl
      · rw [if_neg hempty, List.filter_cons_of_pos (by simp [hempty]), List.map_cons, tailBytes,
          List.append_assoc, ih, boundaryLine]
        simp only [List.append_assoc]
        rfl

/-- The size of a part is counted as it is composed. -/
theorem partSize_eq (part : MimePart) (b : Bytes) :
    ∃ k : Int, partSize b part.text = .ok k ∧
      ((boundaryLine b).length + Eol.crlf.single.length : Nat) + k =
        ((if isEmptyPart part.text then [] else boundaryLine b ++ composedPart part.text) :
          Bytes).length := by
  rw [partSize]
  by_cases hempty : isEmptyPart part.text = true
  · exact ⟨_, by rw [if_pos hempty]; rfl, by simp only [if_pos hempty]; push_cast; simp⟩
  · rw [if_neg hempty]
    have hcrlf : ((if needsCrlf part.text.body then (Eol.crlf.single.length : Int) else 0)) =
        ((closingCrlf part.body).length : Int) := by
      rw [closingCrlf, MimePart.text]
      simp only
      split <;> rfl
    rw [if_neg hempty, List.length_append, composedPart_eq, composedHeaders]
    by_cases hls : part.headers.lines = []
    · have hnil : part.text.headers = [] := headersText_nil part.headers hls
      refine ⟨_, by simp only [hnil]; rfl, ?_⟩
      simp only [hcrlf, if_pos hls, List.length_append, List.length_nil]
      simp only [MimePart.text]
      omega
    · obtain ⟨s, a, hjoin, ha, hs, htext⟩ := headersText_length part.headers hls
      have hcount : countEols part.text.headers.reverse = .ok part.headers.trailing.length := by
        have hreverse : part.text.headers.reverse =
            part.headers.trailing.reverse ++ a :: s.reverse := by
          simp [MimePart.text, htext]
        rw [hreverse, countEols_append ha (by simpa using part.headers.trailing_eol)]
        simp
      have hlength : part.text.headers.length = s.length + part.headers.trailing.length + 1 := by
        simp [MimePart.text, htext]
        omega
      have h4 : Eol.crlf.double.length = 4 := rfl
      have h2 : Eol.crlf.single.length = 2 := rfl
      refine ⟨_, by rw [if_pos (by omega), hcount]; rfl, ?_⟩
      rw [hcrlf]
      simp only [if_neg hls, List.length_append, hjoin, hlength, List.length_singleton, h4]
      simp only [MimePart.text]
      omega

theorem partsSize_eq (parts : List MimePart) (b : Bytes) :
    ∃ k : Int, partsSize b (parts.map MimePart.text) = .ok k ∧
      ((boundaryLine b).length + Eol.crlf.single.length : Nat) * (parts.length : Int) + k =
        (composedParts b (parts.map MimePart.text)).length := by
  induction parts with
  | nil => exact ⟨0, rfl, by simp [composedParts]⟩
  | cons part parts ih =>
      obtain ⟨k, hk, hsum⟩ := ih
      obtain ⟨k', hk', hsum'⟩ := partSize_eq part b
      refine ⟨k' + k, ?_, ?_⟩
      · rw [List.map_cons, partsSize, hk', hk]
        rfl
      · rw [List.map_cons, composedParts, List.length_append, List.length_cons]
        push_cast
        rw [← hsum, ← hsum']
        push_cast
        ring

theorem bodySize_eq (parts : List MimePart) (b : Bytes) :
    bodySize (parts.map MimePart.text) b =
      .ok ((composedParts b (parts.map MimePart.text) ++ (hyphens ++ b ++ hyphens)).length : Nat) := by
  obtain ⟨k, hk, hsum⟩ := partsSize_eq parts b
  rw [bodySize, hk, bind_of_ok rfl, List.length_map, pure_eq_ok, hsum]
  simp only [List.length_append, boundaryLine, hyphens_length]
  rfl

/-- The buffer is large enough for the document. -/
theorem docSize_le (b : Bytes) (mask : BitVec 32) (size : Int)
    (hdate : date.length = internetDateStringLength) :
    ((topLevelHeaders b mask size date).length : Int) + size + Eol.crlf.single.length ≤
      docSize b mask size := by
  have hct : (contentTypeFormat b).length = (contentTypeFormat []).length + b.length := by
    simp [contentTypeFormat]
    omega
  have hcl : (contentLengthFormat size).length = (ascii "Content-Length:").length + 1 +
      (num size).length + Eol.crlf.single.length := by
    simp only [contentLengthFormat, List.length_append]
    rfl
  have hlm : (lastModifiedFormat date).length = (ascii "Last-Modified:").length + 1 +
      internetDateStringLength + Eol.crlf.single.length := by
    simp only [lastModifiedFormat, List.length_append, hdate]
    rfl
  rw [docSize, topLevelHeaders]
  simp only [List.length_append]
  split <;> split <;> split <;>
    simp only [hct, hcl, hlm, List.length_nil] <;> push_cast <;> omega

/-- What is composed is a document in the sense of the parser. -/
theorem composeL_eq (parts : List MimePart) (mask : BitVec 32) (hb : b ≠ [])
    (hdate : date.length = internetDateStringLength) :
    ∃ size, bodySize (parts.map MimePart.text) b = .ok size ∧
      composeL (parts.map MimePart.text) b .mixed mask date =
        .ok (composedDocument parts b mask size date).bytes := by
  refine ⟨_, bodySize_eq parts b, ?_⟩
  have hbytes : ∀ size, (composedDocument parts b mask size date).bytes =
      topLevelHeaders b mask size date ++ Eol.crlf.single ++
        composedParts b (parts.map MimePart.text) ++ (hyphens ++ b ++ hyphens) := by
    intro size
    rw [Document.bytes, List.append_assoc, tailBytes_composed]
    rfl
  rw [composeL, if_neg hb, composeMixedL, bind_of_ok (bodySize_eq parts b), ← hbytes]
  have hsize := docSize_le b mask ((composedParts b (parts.map MimePart.text) ++
    (hyphens ++ b ++ hyphens)).length : Nat) hdate
  rw [if_pos]
  · rfl
  · rw [hbytes]
    simp only [List.length_append] at hsize ⊢
    push_cast at hsize ⊢
    omega

end Document

/-! ## A part that was composed -/

section Composed

variable {P : Platform} {body : Bytes} {url : List UInt16} {buffer : BodyPartBuffer}
  {part : MimePart} {aBodyPart : CBodyPart}

/-- The text of a composed part behind its delimiter. -/
theorem composed_text (part : MimePart) (rest : Bytes) :
    Eol.crlf.single ++ composedPart part.text ++ rest =
      if part.headers.lines = [] then
        Eol.crlf.double ++ (part.body ++ (closingCrlf part.body ++ rest))
      else
        Eol.crlf.single ++ (joinLines part.headers.lines ++
          (Eol.crlf.double ++ (part.body ++ (closingCrlf part.body ++ rest)))) := by
  rw [composedPart_eq, composedHeaders]
  split
  · simp only [Eol.double, List.append_assoc]
  · simp only [List.append_assoc]

/-- The fields of a composed part are those of its lines, and its first blank line is the one in
front of the body. -/
theorem fields_composed (part : MimePart) (rest : Bytes) {t : Bytes} {n : Nat}
    (ht : t = Eol.crlf.single ++ composedPart part.text ++ rest)
    (hn : n = (Eol.crlf.single ++ composedPart part.text).length) :
    List.Forall₂ (FieldReads t) (fields t n .crlf)
        (part.headers.lines.filterMap fun l => lineField l.1.text) ∧
      ∃ i, blankFrom t n .crlf 0 = some i ∧
        (t.take n).drop (i + blankLength t .crlf i) = part.body ++ closingCrlf part.body := by
  have h4 : Eol.crlf.double.length = 4 := rfl
  have h2 : Eol.crlf.single.length = 2 := rfl
  have htake : t.take n = Eol.crlf.single ++ composedPart part.text := by
    rw [ht, hn, List.take_left]
  have hlength := hn
  rw [composedPart_eq, composedHeaders] at hlength
  by_cases hls : part.headers.lines = []
  · rw [composed_text, if_pos hls] at ht
    have hblank : BlankLine t .crlf 0 := .inl ⟨_, by rw [ht]; rfl⟩
    have hblankLength : blankLength t .crlf 0 = 4 :=
      if_pos ⟨part.body ++ (closingCrlf part.body ++ rest), by rw [ht]; rfl⟩
    have hpos : 0 < n := by
      rw [hlength]
      simp [h2]
    have hf : fieldAt t n .crlf 0 = none := by
      rw [fieldAt, ht]
      exact congrArg (Option.map _) (nameAt_eol rfl)
    refine ⟨?_, 0, searchFrom_here hpos hblank, ?_⟩
    · have hnil : fields t n .crlf = [] := fieldsFrom_blank hpos hf hblank
      rw [hnil, hls]
      exact .nil
    · rw [hblankLength, htake, composedPart_eq, composedHeaders, if_pos hls]
      rfl
  · rw [composed_text, if_neg hls] at ht
    rw [if_neg hls] at hlength
    simp only [List.length_append, h2, h4] at hlength
    obtain ⟨a, s, hjoin, ha, -⟩ := exists_joinLines hls
    have hdrop : t.drop 2 = joinLines part.headers.lines ++
        (Eol.crlf.double ++ (part.body ++ (closingCrlf part.body ++ rest))) := by
      rw [ht]
      rfl
    have hfirst : t.drop 0 = Eol.crlf.single ++ a :: (s ++
        (Eol.crlf.double ++ (part.body ++ (closingCrlf part.body ++ rest)))) := by
      rw [ht, hjoin]
      rfl
    obtain ⟨hreads, hno⟩ := fieldsFrom_lines hls hdrop (show 2 + _ + _ ≤ n by omega)
    have hbehind : t.drop (2 + (joinLines part.headers.lines).length) =
        Eol.crlf.double ++ (part.body ++ (closingCrlf part.body ++ rest)) := by
      rw [← List.drop_drop, hdrop, List.drop_left]
    have hprefix : Eol.crlf.double <+: t.drop (2 + (joinLines part.headers.lines).length) :=
      ⟨_, hbehind.symm⟩
    refine ⟨?_, 2 + (joinLines part.headers.lines).length, ?_, ?_⟩
    · have hfields : fields t n .crlf = fieldsFrom t n .crlf 2 :=
        fieldsFrom_eol ha .crlf hfirst (show 0 + 2 ≤ n by omega)
      rwa [hfields]
    · refine searchFrom_eq_some.2 ⟨Nat.zero_le _, by omega, .inl hprefix, fun k _ hk => ?_⟩
      rcases Nat.lt_or_ge k 2 with hlt | hge
      · exact not_blankLine_before ha .crlf hfirst (Nat.zero_le _) (by simpa [h2] using hlt)
      · exact hno k hge hk
    · have hblankLength : blankLength t .crlf (2 + (joinLines part.headers.lines).length) = 4 :=
        if_pos hprefix
      rw [hblankLength, htake, composedPart_eq, composedHeaders, if_neg hls]
      have hfront : (Eol.crlf.single ++ (joinLines part.headers.lines ++ Eol.crlf.double)).length =
          2 + (joinLines part.headers.lines).length + 4 := by
        simp only [List.length_append, h2, h4]
        omega
      rw [← List.append_assoc, ← hfront, List.drop_left]

/-- What is behind the first blank line of a composed part is its body. -/
theorem afterBlankLine_composed (part : MimePart) :
    afterBlankLine .crlf (Eol.crlf.single ++ composedPart part.text) =
      part.body ++ closingCrlf part.body := by
  obtain ⟨-, i, hblank, hbody⟩ := fields_composed part []
    (t := Eol.crlf.single ++ composedPart part.text) (by simp) rfl
  rw [List.take_length] at hbody
  rw [afterBlankLine, hblank]
  exact hbody

/-- The headers of a composed part are those that are read of its lines. -/
theorem headers_composed (hlen : buffer.2 ≤ (body.drop buffer.1).length)
    (htext : (body.drop buffer.1).take buffer.2 = Eol.crlf.single ++ composedPart part.text)
    (hsound : Sound body .crlf buffer)
    (h : parseBodyPartL P body buffer .crlf url = .ok aBodyPart) (header : Header) :
    ptrValue body (getHeader aBodyPart header) = part.headers.read header := by
  have hcut := List.take_append_drop buffer.2 (body.drop buffer.1)
  rw [htext] at hcut
  have hlength : buffer.2 = (Eol.crlf.single ++ composedPart part.text).length := by
    rw [← htext, List.length_take]
    omega
  obtain ⟨hreads, -⟩ := fields_composed part _ hcut.symm hlength
  have hvalues := ptrValue_setFields .null {} hreads hsound.contentID
  have hnone : (fun header => ptrValue body (getHeader {} header)) = fun _ => none := by
    funext header
    cases header <;> rfl
  rw [hnone] at hvalues
  rw [ptrValue_parseBodyPartL hlen h, HeaderBlock.read]
  exact congrArg (Option.map _) (congrFun hvalues header)

end Composed

/-! ## The round trip -/

/-- The body part has the headers that the lines of the part state, and its body up to a line end,
unless it was decoded. -/
def SamePart (body : Bytes) (part : MimePart) (aBodyPart : CBodyPart) : Prop :=
  (∀ header, ptrValue body (getHeader aBodyPart header) = part.headers.stated header) ∧
    (aBodyPart.iIsDecodedBody = false →
      aBodyPart.iBody.bytes body = part.body ∨
        aBodyPart.iBody.bytes body = part.body ++ Eol.crlf.single)

/-- The composed document is parsed into the parts that are not empty, in order and with their
headers and bodies. -/
def RoundTrips (P : Platform) (parts : List MimePart) (b : Bytes) (mask : BitVec 32)
    (date ct : Bytes) (url : List UInt16) : Prop :=
  ∃ size bodyParts, bodySize (parts.map MimePart.text) b = .ok size ∧
    composeL (parts.map MimePart.text) b .mixed mask date =
      .ok (composedDocument parts b mask size date).bytes ∧
    parseL P (composedDocument parts b mask size date).bytes ct b url none = ⟨bodyParts, none⟩ ∧
    splitL (composedDocument parts b mask size date).bytes b =
      .ok (composedDocument parts b mask size date).partBuffers ∧
    List.Forall₂ (SamePart (composedDocument parts b mask size date).bytes) (nonEmptyParts parts)
      bodyParts

section RoundTrip

variable {P : Platform} {b date ct : Bytes}

/-- A part with one header line and a short body. -/
def shortPart : MimePart where
  headers :=
    { lines := [(HeaderLine.ofTexts (ascii "Content-Type") (ascii " text/html") (by decide), .crlf)]
      trailing := []
      trailing_eol := fun _ hc => by cases hc
      trailing_nil := fun _ => rfl }
  body := ascii "x"

def exampleDate : Bytes := ascii "Mon, 01 Jan 2007 00:00:00 GMT"

end RoundTrip

end SymbianWeb.Multipart
