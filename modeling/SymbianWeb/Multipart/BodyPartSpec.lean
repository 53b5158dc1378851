import SymbianWeb.Multipart.BodyPartScan

/-!
# When `ParseBodyPartL` does not fault

A part is sound when the scan of its headers stays inside the buffer, and when a part whose headers
ask for decoding has a body to decode. `parseBodyPartL_fault_iff` says that these are exactly the
parts on which `ParseBodyPartL` does not fault, whatever the codecs and the URI parser do.
-/

set_option autoImplicit false

namespace SymbianWeb.Multipart

open CString ExceptRuns

/-! ## Values -/

/-- The buffer at the pointer starts with the text, in any letter case. -/
def StartsWith (aMultipartBody : Bytes) (value : Ptr8) (text : Bytes) : Prop :=
  match value with
  | .null => False
  | .view pos _ => NameAt (aMultipartBody.drop pos) text
  | .owned bytes => NameAt bytes text

instance (aMultipartBody : Bytes) (value : Ptr8) (text : Bytes) :
    Decidable (StartsWith aMultipartBody value text) :=
  match value with
  | .null => inferInstanceAs (Decidable False)
  | .view pos _ => inferInstanceAs (Decidable (NameAt (aMultipartBody.drop pos) text))
  | .owned bytes => inferInstanceAs (Decidable (NameAt bytes text))

/-- The transfer encoding asks for decoding. -/
def Encoded (aMultipartBody : Bytes) (value : Ptr8) : Prop :=
  value ≠ .null ∧ ¬ StartsWith aMultipartBody value (ascii "7bit") ∧
    ¬ StartsWith aMultipartBody value (ascii "8bit") ∧
    ¬ StartsWith aMultipartBody value (ascii "binary")

/-- The transfer encoding is one that can be decoded. -/
def KnownEncoding (aMultipartBody : Bytes) (value : Ptr8) : Prop :=
  StartsWith aMultipartBody value (ascii "base64") ∨
    StartsWith aMultipartBody value (ascii "quoted-printable") ∨
    StartsWith aMultipartBody value (ascii "gzip")

/-- The content type asks for unzipping. -/
def Zipped (aMultipartBody : Bytes) (value : Ptr8) : Prop :=
  StartsWith aMultipartBody value (ascii "application/x-gzip")

instance (aMultipartBody : Bytes) (value : Ptr8) : Decidable (Encoded aMultipartBody value) :=
  inferInstanceAs (Decidable (_ ∧ _ ∧ _ ∧ _))

instance (aMultipartBody : Bytes) (value : Ptr8) :
    Decidable (KnownEncoding aMultipartBody value) :=
  inferInstanceAs (Decidable (_ ∨ _ ∨ _))

instance (aMultipartBody : Bytes) (value : Ptr8) : Decidable (Zipped aMultipartBody value) :=
  inferInstanceAs (Decidable (StartsWith _ _ _))

/-- A value with a line end behind its beginning, or none. -/
def Ended (aMultipartBody : Bytes) (e : Eol) (value : Ptr8) : Prop :=
  value = .null ∨ ∃ pos len j, value = .view pos len ∧ pos ≤ j ∧ LineEnd aMultipartBody e j

section Values

variable {body text : Bytes} {e : Eol} {value : Ptr8}

/-- A text in which a line end can not be. -/
def OneLine (text : Bytes) : Prop :=
  0 ∉ text ∧ ((text.map toLower).all fun c => c != 0x0D && c != 0x0A) = true

instance (text : Bytes) : Decidable (OneLine text) := inferInstanceAs (Decidable (_ ∧ _))

theorem OneLine.char {text : Bytes} (h : OneLine text) {c : UInt8} (hc : c ∈ text.map toLower) :
    c ≠ 0x0D ∧ c ≠ 0x0A := by
  have hchar := List.all_eq_true.1 h.2 c hc
  rw [Bool.and_eq_true, bne_iff_ne, bne_iff_ne] at hchar
  exact hchar

/-- The comparison with a value stops at the line end behind it. -/
theorem ptrStartsWith_eq (htext : OneLine text) (h : Ended body e value) :
    ptrStartsWith body value text = .ok (decide (StartsWith body value text)) := by
  rcases h with rfl | ⟨pos, len, j, rfl, hpos, hend⟩
  · rfl
  · rw [ptrStartsWith]
    cases hcmp : strncasecmp (body.drop pos) text with
    | none =>
        obtain ⟨-, hprefix⟩ := (strncasecmp_none_iff htext.1).1 hcmp
        obtain ⟨d, rfl⟩ := Nat.exists_eq_add_of_le hpos
        have hchar := hend.char
        rw [← List.getElem?_drop] at hchar
        rcases hchar with h | h
        · have hmem := chars_of_prefix hprefix h
          rw [toLower_cr] at hmem
          exact absurd rfl (htext.char hmem).1
        · have hmem := chars_of_prefix hprefix h
          rw [toLower_lf] at hmem
          exact absurd rfl (htext.char hmem).2
    | some yes =>
        have hiff : StartsWith body (.view pos len) text ↔ yes = true := by
          rw [StartsWith, NameAt, ← strncasecmp_true_iff htext.1, hcmp, Option.some.injEq]
        cases yes with
        | true => simp [hiff, readM]
        | false => simp [hiff, readM]

theorem isEncoded_eq (h : Ended body e value) :
    isEncoded body value = .ok (decide (Encoded body value)) := by
  have h7 : OneLine (ascii "7bit") := by decide
  have h8 : OneLine (ascii "8bit") := by decide
  have hbinary : OneLine (ascii "binary") := by decide
  rw [isEncoded]
  by_cases hnull : value = .null
  · rw [if_pos hnull]
    simp [Encoded, hnull]
    rfl
  · rw [if_neg hnull, ptrStartsWith_eq h7 h, ptrStartsWith_eq h8 h, ptrStartsWith_eq hbinary h]
    by_cases hy7 : StartsWith body value (ascii "7bit")
    · simp [Encoded, hy7, bind_of_ok rfl]
      rfl
    · by_cases hy8 : StartsWith body value (ascii "8bit")
      · simp [Encoded, hy7, hy8, bind_of_ok rfl]
        rfl
      · by_cases hyb : StartsWith body value (ascii "binary")
        · simp [Encoded, hy7, hy8, hyb, bind_of_ok rfl]
          rfl
        · simp [Encoded, hnull, hy7, hy8, hyb, bind_of_ok rfl]
          rfl

theorem isZipped_eq (h : Ended body e value) :
    isZipped body value = .ok (decide (Zipped body value)) :=
  ptrStartsWith_eq (by decide) h

end Values

/-! ## The values of the fields -/

section FieldValues

variable {body : Bytes} {e : Eol} {base n fuel i : Nat} {value : Ptr8} {aBodyPart : CBodyPart}

theorem exists_of_mem_readFields {t : Bytes} {f : Field} (h : f ∈ readFields t n e fuel i) :
    ∃ j, fieldAt t n e j = some f := by
  induction fuel generalizing i with
  | zero => cases h
  | succ fuel ih =>
      rw [readFields] at h
      split at h
      · split at h
        · rename_i field hf
          rcases List.mem_cons.1 h with rfl | h
          · exact ⟨i, hf⟩
          · exact ih h
        · split at h
          · cases h
          · exact ih h
      · cases h

/-- A field takes a value with a line end behind it. -/
theorem ended_fieldValue {f : Field} (hf : fieldAt (body.drop base) n e i = some f)
    (hvalue : Ended body e value) :
    Ended body e (fieldValue base (body.drop base) value f) := by
  rw [fieldValue]
  cases hline : f.lineEnd with
  | none => exact hvalue
  | some j =>
      obtain ⟨hstart, -, hend, -⟩ := lineEnd_of_field hf hline
      have hend' : LineEnd body e (base + j) := by
        rwa [LineEnd, List.drop_drop] at hend
      simp only
      split
      · split
        · rename_i hangle
          -- the angle bracket is no line end
          have hne : f.startPos ≠ j := by
            rintro rfl
            rcases hend.char with h | h
            · rw [hangle] at h
              exact absurd h (by decide)
            · rw [hangle] at h
              exact absurd h (by decide)
          exact .inr ⟨_, _, base + j, rfl, by omega, hend'⟩
        · exact hvalue
      · exact .inr ⟨_, _, base + j, rfl, by omega, hend'⟩

/-- The scan leaves everything but the headers as it is. -/
theorem setFields_frame (t : Bytes) (value : Ptr8) (aBodyPart : CBodyPart) (fs : List Field) :
    (setFields base t value aBodyPart fs).iBody = aBodyPart.iBody ∧
      (setFields base t value aBodyPart fs).iIsDecodedBody = aBodyPart.iIsDecodedBody := by
  induction fs generalizing value aBodyPart with
  | nil => exact ⟨rfl, rfl⟩
  | cons f fs ih =>
      rw [setFields]
      obtain ⟨hbody, hdecoded⟩ := ih (fieldValue base t value f)
        (setHeader aBodyPart f.header (fieldValue base t value f))
      rw [hbody, hdecoded]
      cases f.header <;> exact ⟨rfl, rfl⟩

theorem ended_setFields {fs : List Field}
    (hfs : ∀ f ∈ fs, ∃ j, fieldAt (body.drop base) n e j = some f)
    (hvalue : Ended body e value) (hencoding : Ended body e aBodyPart.iContentTransferEncoding)
    (htype : Ended body e aBodyPart.iContentType) :
    Ended body e (setFields base (body.drop base) value aBodyPart fs).iContentTransferEncoding ∧
      Ended body e (setFields base (body.drop base) value aBodyPart fs).iContentType := by
  induction fs generalizing value aBodyPart with
  | nil => exact ⟨hencoding, htype⟩
  | cons f fs ih =>
      obtain ⟨j, hf⟩ := hfs f List.mem_cons_self
      have hnew := ended_fieldValue hf hvalue
      rw [setFields]
      refine ih (fun g hg => hfs g (List.mem_cons_of_mem _ hg)) hnew ?_ ?_
      · cases f.header <;> first | exact hnew | exact hencoding
      · cases f.header <;> first | exact hnew | exact htype

end FieldValues

/-- The header values of the part. -/
def headersOf (aMultipartBody : Bytes) (buffer : BodyPartBuffer) (e : Eol) : CBodyPart :=
  let t := aMultipartBody.drop buffer.1
  setFields buffer.1 t .null {} (fields t buffer.2 e)

/-- Where the first blank line of the part is. -/
def blankOf (aMultipartBody : Bytes) (buffer : BodyPartBuffer) (e : Eol) : Option Nat :=
  blankFrom (aMultipartBody.drop buffer.1) buffer.2 e 0

/-- The part can be parsed without a fault. -/
structure Sound (aMultipartBody : Bytes) (e : Eol) (buffer : BodyPartBuffer) : Prop where
  /-- The buffer does not end in the headers, and no length is negative, -/
  room : RoomFrom (aMultipartBody.drop buffer.1) buffer.2 e 0
  /-- no content id is an angle bracket alone, -/
  contentID : ∀ f ∈ fields (aMultipartBody.drop buffer.1) buffer.2 e,
    ¬ f.Alone (aMultipartBody.drop buffer.1)
  /-- a part without a body is not encoded, -/
  encoded : Encoded aMultipartBody (headersOf aMultipartBody buffer e).iContentTransferEncoding →
    blankOf aMultipartBody buffer e ≠ none
  /-- and neither a part without a body nor one whose encoding is not known is zipped. -/
  zipped : Zipped aMultipartBody (headersOf aMultipartBody buffer e).iContentType →
    blankOf aMultipartBody buffer e ≠ none ∧
      (Encoded aMultipartBody (headersOf aMultipartBody buffer e).iContentTransferEncoding →
        KnownEncoding aMultipartBody (headersOf aMultipartBody buffer e).iContentTransferEncoding)

/-! ## Decoding -/

section Decoding

variable {P : Platform} {body : Bytes} {e : Eol} {aBodyPart : CBodyPart}

/-- A codec fails on some input, or some URL has no scheme. -/
def Platform.MayLeave (P : Platform) : Prop :=
  (∃ bytes, P.decodeBase64 bytes = []) ∨ (∃ bytes, P.decodeQuotedPrintable bytes = []) ∨
    (∃ bytes, ∀ out, P.inflate bytes = .ok out → out = []) ∨ ∃ url, P.hasScheme url ≠ .ok true

theorem decoded_cases (bytes : Bytes) :
    (bytes = [] ∧ decoded bytes = .error (.leave KErrGeneral)) ∨
      decoded bytes = .ok (.owned bytes) := by
  rw [decoded]
  split
  · rename_i h
    exact .inl ⟨h, rfl⟩
  · exact .inr rfl

theorem inflated_cases (bytes : Bytes) :
    (P.MayLeave ∧ ∃ code, (match P.inflate bytes with
      | .error _ => .error (.leave KErrGeneral)
      | .ok bytes => decoded bytes : ParseM Ptr8) = .error (.leave code)) ∨
    ∃ out, (match P.inflate bytes with
      | .error _ => .error (.leave KErrGeneral)
      | .ok bytes => decoded bytes : ParseM Ptr8) = .ok (.owned out) := by
  cases hinflate : P.inflate bytes with
  | error code =>
      refine .inl ⟨.inr (.inr (.inl ⟨bytes, fun out hout => ?_⟩)), _, rfl⟩
      rw [hinflate] at hout
      cases hout
  | ok out =>
      rcases decoded_cases out with ⟨hnil, h⟩ | h
      · refine .inl ⟨.inr (.inr (.inl ⟨bytes, fun out' hout => ?_⟩)), _, h⟩
        rw [hinflate, Except.ok.injEq] at hout
        exact hout ▸ hnil
      · exact .inr ⟨_, h⟩

/-- What decoding a body gives: an error of the codec, owned memory, or nothing when the encoding
is not known. -/
theorem decodeContentTransferEncoding_cases {value encodedBody : Ptr8} (hvalue : Ended body e value)
    (hbody : encodedBody ≠ .null) :
    (KnownEncoding body value ∧
      ((P.MayLeave ∧
          ∃ code, decodeContentTransferEncoding P body value encodedBody = .error (.leave code)) ∨
        ∃ bytes, decodeContentTransferEncoding P body value encodedBody = .ok (.owned bytes))) ∨
    (¬ KnownEncoding body value ∧
      decodeContentTransferEncoding P body value encodedBody = .ok .null) := by
  have hbase64 : OneLine (ascii "base64") := by decide
  have hquoted : OneLine (ascii "quoted-printable") := by decide
  have hgzip : OneLine (ascii "gzip") := by decide
  rw [decodeContentTransferEncoding, if_neg hbody]
  simp only
  rw [ptrStartsWith_eq hbase64 hvalue, ptrStartsWith_eq hquoted hvalue,
    ptrStartsWith_eq hgzip hvalue, bind_of_ok rfl, bind_of_ok rfl, bind_of_ok rfl, KnownEncoding]
  by_cases h64 : StartsWith body value (ascii "base64")
  · rw [if_pos (decide_eq_true h64)]
    refine .inl ⟨.inl h64, ?_⟩
    rcases decoded_cases (P.decodeBase64 (encodedBody.bytes body)) with ⟨hnil, h⟩ | h
    · exact .inl ⟨.inl ⟨_, hnil⟩, _, h⟩
    · exact .inr ⟨_, h⟩
  rw [if_neg (by simp [h64])]
  by_cases hqp : StartsWith body value (ascii "quoted-printable")
  · rw [if_pos (decide_eq_true hqp)]
    refine .inl ⟨.inr (.inl hqp), ?_⟩
    rcases decoded_cases (P.decodeQuotedPrintable (encodedBody.bytes body)) with ⟨hnil, h⟩ | h
    · exact .inl ⟨.inr (.inl ⟨_, hnil⟩), _, h⟩
    · exact .inr ⟨_, h⟩
  rw [if_neg (by simp [hqp])]
  by_cases hgz : StartsWith body value (ascii "gzip")
  · rw [if_pos (decide_eq_true hgz)]
    exact .inl ⟨.inr (.inr hgz), inflated_cases _⟩
  · rw [if_neg (by simp [hgz])]
    exact .inr ⟨by simp [h64, hqp, hgz], rfl⟩

theorem cutOff_iContentType (body : Bytes) (aBodyPart : CBodyPart) :
    (cutOffContentTypeAttributes body aBodyPart).iContentType = aBodyPart.iContentType ∨
      ∃ length, (cutOffContentTypeAttributes body aBodyPart).iContentType =
        aBodyPart.iContentType.left length := by
  rw [cutOffContentTypeAttributes]
  simp only
  cases findText (ascii ";") (aBodyPart.iContentType.bytes body) with
  | none => exact .inl rfl
  | some offset =>
      refine .inr ⟨offset, ?_⟩
      simp only
      split <;> split <;> rfl

theorem cutOff_frame : (cutOffContentTypeAttributes body aBodyPart).iBody = aBodyPart.iBody ∧
    (cutOffContentTypeAttributes body aBodyPart).iIsDecodedBody = aBodyPart.iIsDecodedBody := by
  rw [cutOffContentTypeAttributes]
  simp only
  split
  · exact ⟨rfl, rfl⟩
  · split <;> split <;> exact ⟨rfl, rfl⟩

/-- Cutting off the attributes of a content type leaves its beginning as it is. -/
theorem cutOff_ended (h : Ended body e aBodyPart.iContentType) :
    Ended body e (cutOffContentTypeAttributes body aBodyPart).iContentType ∧
      (Zipped body (cutOffContentTypeAttributes body aBodyPart).iContentType ↔
        Zipped body aBodyPart.iContentType) := by
  rcases cutOff_iContentType body aBodyPart with hcut | ⟨length, hcut⟩
  · rw [hcut]
    exact ⟨h, Iff.rfl⟩
  · rcases h with hnull | ⟨pos, len, j, hview, hpos, hend⟩
    · rw [hcut, hnull]
      exact ⟨.inl rfl, Iff.rfl⟩
    · rw [hcut, hview]
      exact ⟨.inr ⟨pos, length, j, rfl, hpos, hend⟩, Iff.rfl⟩

/-- The first half of `decodeBody`: the transfer encoding. -/
def decodeStage (P : Platform) (aMultipartBody : Bytes) (aBodyPart : CBodyPart) :
    ParseM CBodyPart := do
  if ← isEncoded aMultipartBody aBodyPart.iContentTransferEncoding then
    let body ← decodeContentTransferEncoding P aMultipartBody aBodyPart.iContentTransferEncoding
      aBodyPart.iBody
    return { aBodyPart with iBody := body, iIsDecodedBody := true }
  else
    return aBodyPart

/-- The second half: the content type. -/
def unzipStage (P : Platform) (aMultipartBody : Bytes) (aBodyPart : CBodyPart) :
    ParseM CBodyPart := do
  let aBodyPart :=
    if aBodyPart.iContentType = .null then aBodyPart
    else cutOffContentTypeAttributes aMultipartBody aBodyPart
  if ← isZipped aMultipartBody aBodyPart.iContentType then
    let body ← unzip P aMultipartBody aBodyPart.iBody
    return { aBodyPart with iBody := body, iIsDecodedBody := true }
  else
    return aBodyPart

theorem decodeBody_eq :
    decodeBody P body aBodyPart = decodeStage P body aBodyPart >>= unzipStage P body := by
  rw [decodeBody, decodeStage]
  cases isEncoded body aBodyPart.iContentTransferEncoding with
  | error stop => rfl
  | ok yes =>
      cases yes with
      | false => rfl
      | true =>
          rw [bind_of_ok rfl, bind_of_ok rfl, if_pos rfl, if_pos rfl]
          cases decodeContentTransferEncoding P body aBodyPart.iContentTransferEncoding
            aBodyPart.iBody <;> rfl

/-- What the first half can do. -/
inductive DecodeStage (P : Platform) (body : Bytes) (aBodyPart : CBodyPart) : Prop where
  | plain (h : ¬ Encoded body aBodyPart.iContentTransferEncoding)
      (hrun : decodeStage P body aBodyPart = .ok aBodyPart)
  | noBody (h : Encoded body aBodyPart.iContentTransferEncoding) (hbody : aBodyPart.iBody = .null)
      (hrun : decodeStage P body aBodyPart = .error .fault)
  | leaves (hbody : aBodyPart.iBody ≠ .null)
      (hknown : KnownEncoding body aBodyPart.iContentTransferEncoding) (hleave : P.MayLeave)
      (code : Int) (hrun : decodeStage P body aBodyPart = .error (.leave code))
  | decodes (hbody : aBodyPart.iBody ≠ .null)
      (hknown : KnownEncoding body aBodyPart.iContentTransferEncoding) (bytes : Bytes)
      (hrun : decodeStage P body aBodyPart =
        .ok { aBodyPart with iBody := .owned bytes, iIsDecodedBody := true })
  | unknown (h : Encoded body aBodyPart.iContentTransferEncoding)
      (hbody : aBodyPart.iBody ≠ .null)
      (hknown : ¬ KnownEncoding body aBodyPart.iContentTransferEncoding)
      (hrun : decodeStage P body aBodyPart =
        .ok { aBodyPart with iBody := .null, iIsDecodedBody := true })

theorem decodeStage_spec (hencoding : Ended body e aBodyPart.iContentTransferEncoding) :
    DecodeStage P body aBodyPart := by
  by_cases h : Encoded body aBodyPart.iContentTransferEncoding
  · have hstage : decodeStage P body aBodyPart =
        decodeContentTransferEncoding P body aBodyPart.iContentTransferEncoding aBodyPart.iBody >>=
          fun body => .ok { aBodyPart with iBody := body, iIsDecodedBody := true } := by
      rw [decodeStage, isEncoded_eq hencoding, bind_of_ok rfl, if_pos (decide_eq_true h)]
      rfl
    by_cases hbody : aBodyPart.iBody = .null
    · refine .noBody h hbody ?_
      rw [hstage, decodeContentTransferEncoding, if_pos hbody]
      rfl
    · rcases decodeContentTransferEncoding_cases (P := P) hencoding hbody with
        ⟨hknown, ⟨hleave, code, hrun⟩ | ⟨bytes, hrun⟩⟩ | ⟨hknown, hrun⟩
      · exact .leaves hbody hknown hleave code (hstage.trans (bind_of_error hrun _))
      · exact .decodes hbody hknown bytes (hstage.trans (bind_of_ok hrun _))
      · exact .unknown h hbody hknown (hstage.trans (bind_of_ok hrun _))
  · refine .plain h ?_
    rw [decodeStage, isEncoded_eq hencoding, bind_of_ok rfl, if_neg (by simpa using h)]
    rfl

/-- What the second half can do. -/
inductive UnzipStage (P : Platform) (body : Bytes) (aBodyPart : CBodyPart) : Prop where
  | plain (h : ¬ Zipped body aBodyPart.iContentType) (aBodyPart' : CBodyPart)
      (hrun : unzipStage P body aBodyPart = .ok aBodyPart')
      (hbody : aBodyPart'.iBody = aBodyPart.iBody)
      (hdecoded : aBodyPart'.iIsDecodedBody = aBodyPart.iIsDecodedBody)
  | noBody (h : Zipped body aBodyPart.iContentType) (hbody : aBodyPart.iBody = .null)
      (hrun : unzipStage P body aBodyPart = .error .fault)
  | leaves (hbody : aBodyPart.iBody ≠ .null) (hleave : P.MayLeave) (code : Int)
      (hrun : unzipStage P body aBodyPart = .error (.leave code))
  | unzips (hbody : aBodyPart.iBody ≠ .null) (aBodyPart' : CBodyPart)
      (hrun : unzipStage P body aBodyPart = .ok aBodyPart')
      (hdecoded : aBodyPart'.iIsDecodedBody = true)

theorem unzipStage_spec (htype : Ended body e aBodyPart.iContentType) :
    UnzipStage P body aBodyPart := by
  -- with or without its attributes, the content type is taken for the same
  obtain ⟨cut, hcut, hended, hzipped, hbody, hdecoded⟩ : ∃ cut : CBodyPart,
      (if aBodyPart.iContentType = .null then aBodyPart
        else cutOffContentTypeAttributes body aBodyPart) = cut ∧
      Ended body e cut.iContentType ∧
      (Zipped body cut.iContentType ↔ Zipped body aBodyPart.iContentType) ∧
      cut.iBody = aBodyPart.iBody ∧ cut.iIsDecodedBody = aBodyPart.iIsDecodedBody := by
    by_cases hnull : aBodyPart.iContentType = .null
    · exact ⟨aBodyPart, if_pos hnull, htype, Iff.rfl, rfl, rfl⟩
    · exact ⟨_, if_neg hnull, (cutOff_ended htype).1, (cutOff_ended htype).2, cutOff_frame.1,
        cutOff_frame.2⟩
  have hstage : unzipStage P body aBodyPart =
      if Zipped body aBodyPart.iContentType then
        unzip P body aBodyPart.iBody >>= fun body =>
          .ok { cut with iBody := body, iIsDecodedBody := true }
      else .ok cut := by
    rw [unzipStage, hcut, isZipped_eq hended, bind_of_ok rfl, hbody]
    by_cases h : Zipped body aBodyPart.iContentType
    · rw [if_pos (decide_eq_true (hzipped.2 h)), if_pos h]
      rfl
    · rw [if_neg (by simpa [hzipped] using h), if_neg h]
      rfl
  by_cases h : Zipped body aBodyPart.iContentType
  · rw [if_pos h] at hstage
    by_cases hnull : aBodyPart.iBody = .null
    · refine .noBody h hnull ?_
      rw [hstage, unzip, if_pos hnull]
      rfl
    · rw [unzip, if_neg hnull] at hstage
      rcases inflated_cases (P := P) (aBodyPart.iBody.bytes body) with
        ⟨hleave, code, hrun⟩ | ⟨bytes, hrun⟩
      · exact .leaves hnull hleave code (hstage.trans (bind_of_error hrun _))
      · exact .unzips hnull _ (hstage.trans (bind_of_ok hrun _)) rfl
  · rw [if_neg h] at hstage
    exact .plain h cut hstage hbody hdecoded

theorem decodeBody_fault_iff (hencoding : Ended body e aBodyPart.iContentTransferEncoding)
    (htype : Ended body e aBodyPart.iContentType) :
    decodeBody P body aBodyPart = .error .fault ↔
      (Encoded body aBodyPart.iContentTransferEncoding ∧ aBodyPart.iBody = .null) ∨
        (Zipped body aBodyPart.iContentType ∧ (aBodyPart.iBody = .null ∨
          (Encoded body aBodyPart.iContentTransferEncoding ∧
            ¬ KnownEncoding body aBodyPart.iContentTransferEncoding))) := by
  have hunzip : ∀ aBodyPart' : CBodyPart, aBodyPart'.iContentType = aBodyPart.iContentType →
      (unzipStage P body aBodyPart' = .error .fault ↔
        Zipped body aBodyPart.iContentType ∧ aBodyPart'.iBody = .null) := by
    intro aBodyPart' htype'
    rw [← htype'] at htype ⊢
    cases unzipStage_spec (P := P) htype with
    | plain h cut hrun => simp [hrun, h]
    | noBody h hbody hrun => simp [hrun, h, hbody]
    | leaves hbody _ code hrun => simp [hrun, hbody]
    | unzips hbody cut hrun => simp [hrun, hbody]
  rw [decodeBody_eq]
  cases decodeStage_spec (P := P) hencoding with
  | plain h hrun =>
      rw [bind_of_ok hrun, hunzip aBodyPart rfl]
      simp [h]
  | noBody h hbody hrun =>
      rw [bind_of_error hrun]
      simp [h, hbody]
  | leaves hbody hknown _ code hrun =>
      rw [bind_of_error hrun]
      simp [hbody, hknown]
  | decodes hbody hknown bytes hrun =>
      rw [bind_of_ok hrun,
        hunzip { aBodyPart with iBody := .owned bytes, iIsDecodedBody := true } rfl]
      simp [hbody, hknown]
  | unknown h hbody hknown hrun =>
      rw [bind_of_ok hrun, hunzip { aBodyPart with iBody := .null, iIsDecodedBody := true } rfl]
      simp [h, hbody, hknown]

/-- A body that is not marked as decoded is the one that was found. -/
theorem decodeBody_iBody (hencoding : Ended body e aBodyPart.iContentTransferEncoding)
    (htype : Ended body e aBodyPart.iContentType) {aBodyPart' : CBodyPart}
    (h : decodeBody P body aBodyPart = .ok aBodyPart') (hdecoded : aBodyPart'.iIsDecodedBody = false) :
    aBodyPart'.iBody = aBodyPart.iBody := by
  rw [decodeBody_eq] at h
  obtain ⟨stage, hstage, h⟩ := bind_eq_ok.1 h
  have hunzip : ∀ p : CBodyPart, p.iContentType = aBodyPart.iContentType →
      unzipStage P body p = .ok aBodyPart' →
      aBodyPart'.iBody = p.iBody ∧ p.iIsDecodedBody = false := by
    intro p htype' hrun'
    rw [← htype'] at htype
    cases unzipStage_spec (P := P) htype with
    | plain h cut hrun hbody hd =>
        rw [hrun', Except.ok.injEq] at hrun
        subst hrun
        exact ⟨hbody, hd ▸ hdecoded⟩
    | noBody h hbody hrun => simp [hrun'] at hrun
    | leaves hbody _ code hrun => simp [hrun'] at hrun
    | unzips hbody cut hrun hd =>
        rw [hrun', Except.ok.injEq] at hrun
        subst hrun
        rw [hdecoded] at hd
        cases hd
  cases decodeStage_spec (P := P) hencoding with
  | plain hplain hrun =>
      rw [hrun, Except.ok.injEq] at hstage
      subst hstage
      exact (hunzip _ rfl h).1
  | noBody henc hbody hrun => simp [hstage] at hrun
  | leaves hbody hknown _ code hrun => simp [hstage] at hrun
  | decodes hbody hknown bytes hrun =>
      rw [hrun, Except.ok.injEq] at hstage
      subst hstage
      have hfalse := (hunzip { aBodyPart with iBody := .owned bytes, iIsDecodedBody := true } rfl h).2
      exact absurd hfalse (by simp)
  | unknown henc hbody hknown hrun =>
      rw [hrun, Except.ok.injEq] at hstage
      subst hstage
      have hfalse := (hunzip { aBodyPart with iBody := .null, iIsDecodedBody := true } rfl h).2
      exact absurd hfalse (by simp)

/-- Decoding a body leaves only when a codec may fail. -/
theorem decodeBody_leave (hencoding : Ended body e aBodyPart.iContentTransferEncoding)
    (htype : Ended body e aBodyPart.iContentType) {code : Int}
    (h : decodeBody P body aBodyPart = .error (.leave code)) : P.MayLeave := by
  rw [decodeBody_eq] at h
  have hunzip : ∀ p : CBodyPart, p.iContentType = aBodyPart.iContentType →
      unzipStage P body p = .error (.leave code) → P.MayLeave := by
    intro p htype' hrun'
    rw [← htype'] at htype
    cases unzipStage_spec (P := P) htype with
    | plain h cut hrun => simp [hrun'] at hrun
    | noBody h hbody hrun => simp [hrun'] at hrun
    | leaves hbody hleave => exact hleave
    | unzips hbody cut hrun => simp [hrun'] at hrun
  cases decodeStage_spec (P := P) hencoding with
  | plain henc hrun =>
      rw [bind_of_ok hrun] at h
      exact hunzip _ rfl h
  | noBody henc hbody hrun =>
      rw [bind_of_error hrun] at h
      cases h
  | leaves hbody hknown hleave => exact hleave
  | decodes hbody hknown bytes hrun =>
      rw [bind_of_ok hrun] at h
      exact hunzip { aBodyPart with iBody := .owned bytes, iIsDecodedBody := true } rfl h
  | unknown henc hbody hknown hrun =>
      rw [bind_of_ok hrun] at h
      exact hunzip { aBodyPart with iBody := .null, iIsDecodedBody := true } rfl h

end Decoding

/-! ## The URL -/

section Url

variable {P : Platform} {body : Bytes}

theorem isUrlRelativeL_error {url : Bytes} {stop : Stop}
    (h : isUrlRelativeL P url = .error stop) : P.MayLeave ∧ ∃ code, stop = .leave code := by
  rw [isUrlRelativeL] at h
  cases hscheme : P.hasScheme url with
  | error code =>
      rw [hscheme] at h
      cases h
      exact ⟨.inr (.inr (.inr ⟨url, by simp [hscheme]⟩)), code, rfl⟩
  | ok yes =>
      rw [hscheme] at h
      cases h

theorem isUrlRelativeL_true {url : Bytes} (h : isUrlRelativeL P url = .ok true) : P.MayLeave := by
  refine .inr (.inr (.inr ⟨url, fun hscheme => ?_⟩))
  rw [isUrlRelativeL, hscheme] at h
  cases h

theorem urlRelToAbsL_error {base : List UInt16} {url : Bytes} {stop : Stop}
    (h : urlRelToAbsL P base url = .error stop) : ∃ code, stop = .leave code := by
  rw [urlRelToAbsL] at h
  cases hparse : P.parseUri base with
  | error code =>
      rw [hparse] at h
      cases h
      exact ⟨code, rfl⟩
  | ok uri =>
      rw [hparse] at h
      obtain ⟨scheme, userinfo, host, port, path⟩ := uri
      cases scheme with
      | none =>
          cases h
          exact ⟨_, rfl⟩
      | some scheme =>
          cases host with
          | none =>
              cases h
              exact ⟨_, rfl⟩
          | some host => cases h

/-- The URL of a part is found, or the URI parser fails. -/
theorem getBodyPartUrlL_error {contentBase contentLocation : Ptr8} {url : List UInt16} {stop : Stop}
    (h : getBodyPartUrlL P body contentBase contentLocation url = .error stop) :
    P.MayLeave ∧ ∃ code, stop = .leave code := by
  rw [getBodyPartUrlL] at h
  have hlocation : ∀ {url : List UInt16}, (do
      if contentLocation = .null then
        return url
      else if ← isUrlRelativeL P (contentLocation.bytes body) then
        urlRelToAbsL P url (contentLocation.bytes body)
      else
        return widen (contentLocation.bytes body) : ParseM (List UInt16)) = .error stop →
      P.MayLeave ∧ ∃ code, stop = .leave code := by
    intro url h
    split at h
    · cases h
    · rcases bind_eq_error.1 h with h | ⟨relative, hrelative, h⟩
      · exact isUrlRelativeL_error h
      · cases relative with
        | true => exact ⟨isUrlRelativeL_true hrelative, urlRelToAbsL_error h⟩
        | false => cases h
  split at h
  · exact hlocation h
  · rcases bind_eq_error.1 h with h | ⟨invalid, -, h⟩
    · exact isUrlRelativeL_error h
    · exact hlocation h

end Url

/-! ## The whole part -/

section Whole

variable {P : Platform} {body : Bytes} {e : Eol} {url : List UInt16} {buffer : BodyPartBuffer}

/-- The body part that the scan gives: the header values, with what is around the blank line. -/
def scannedPart (aMultipartBody : Bytes) (buffer : BodyPartBuffer) (e : Eol) : CBodyPart :=
  setBody buffer.1 (aMultipartBody.drop buffer.1) buffer.2 e (headersOf aMultipartBody buffer e)
    (blankOf aMultipartBody buffer e)

theorem scan_ok_iff (hlen : buffer.2 ≤ (body.drop buffer.1).length) {aBodyPart : CBodyPart} :
    scanLoop buffer.1 (body.drop buffer.1) buffer.2 e (buffer.2 + 1) ⟨0, .null, {}⟩ =
        .ok aBodyPart ↔
      (RoomFrom (body.drop buffer.1) buffer.2 e 0 ∧
        ∀ f ∈ fields (body.drop buffer.1) buffer.2 e, ¬ f.Alone (body.drop buffer.1)) ∧
        aBodyPart = scannedPart body buffer e :=
  scanLoop_ok_iff hlen (Nat.zero_le _) (by simp)

theorem setBody_frame {t : Bytes} {base n : Nat} {aBodyPart : CBodyPart} {m : Option Nat} :
    (setBody base t n e aBodyPart m).iContentTransferEncoding =
        aBodyPart.iContentTransferEncoding ∧
      (setBody base t n e aBodyPart m).iContentType = aBodyPart.iContentType ∧
      (setBody base t n e aBodyPart m).iIsDecodedBody = aBodyPart.iIsDecodedBody := by
  cases m with
  | none => exact ⟨rfl, rfl, rfl⟩
  | some i =>
      rw [setBody]
      simp only
      split <;> exact ⟨rfl, rfl, rfl⟩

theorem setBody_iBody {t : Bytes} {base n : Nat} {aBodyPart : CBodyPart} {m : Option Nat}
    (h : aBodyPart.iBody = .null) :
    (setBody base t n e aBodyPart m).iBody =
      match m with
      | none => .null
      | some i => .view (base + i + blankLength t e i) (n - (i + blankLength t e i)) := by
  cases m with
  | none => exact h
  | some i =>
      rw [setBody]
      simp only
      split <;> rfl

theorem scannedPart_iBody : (scannedPart body buffer e).iBody =
    match blankOf body buffer e with
    | none => .null
    | some i => .view (buffer.1 + i + blankLength (body.drop buffer.1) e i)
        (buffer.2 - (i + blankLength (body.drop buffer.1) e i)) :=
  setBody_iBody (setFields_frame _ _ _ _).1

theorem scannedPart_iBody_null : (scannedPart body buffer e).iBody = .null ↔
    blankOf body buffer e = none := by
  rw [scannedPart_iBody]
  cases blankOf body buffer e <;> simp

theorem ended_headersOf :
    Ended body e (headersOf body buffer e).iContentTransferEncoding ∧
      Ended body e (headersOf body buffer e).iContentType :=
  ended_setFields (fun _ hf => exists_of_mem_readFields hf) (.inl rfl) (.inl rfl) (.inl rfl)

theorem ended_scannedPart :
    Ended body e (scannedPart body buffer e).iContentTransferEncoding ∧
      Ended body e (scannedPart body buffer e).iContentType := by
  rw [scannedPart, setBody_frame.1, setBody_frame.2.1]
  exact ended_headersOf

/-- The part is scanned, decoded, and its URL is found. -/
theorem parseBodyPartL_eq : parseBodyPartL P body buffer e url =
    scanLoop buffer.1 (body.drop buffer.1) buffer.2 e (buffer.2 + 1) ⟨0, .null, {}⟩ >>= fun scanned =>
      decodeBody P body scanned >>= fun aBodyPart =>
        getBodyPartUrlL P body aBodyPart.iContentBase aBodyPart.iContentLocation url >>= fun u =>
          .ok { aBodyPart with iUrl := some u } :=
  rfl

/-- `ParseBodyPartL` faults exactly on the parts that are not sound. -/
theorem parseBodyPartL_fault_iff (hlen : buffer.2 ≤ (body.drop buffer.1).length) :
    parseBodyPartL P body buffer e url = .error .fault ↔ ¬ Sound body e buffer := by
  have hscan := @scan_ok_iff body e buffer hlen
  have hdecode := decodeBody_fault_iff (P := P) (@ended_scannedPart body e buffer).1
    (@ended_scannedPart body e buffer).2
  rw [scannedPart_iBody_null, scannedPart, setBody_frame.1, setBody_frame.2.1, ← scannedPart]
    at hdecode
  rw [parseBodyPartL_eq]
  cases hrun : scanLoop buffer.1 (body.drop buffer.1) buffer.2 e (buffer.2 + 1) ⟨0, .null, {}⟩ with
  | error stop =>
      have hstop := scanLoop_error hlen hrun
      subst hstop
      refine ⟨fun _ hsound => ?_, fun _ => rfl⟩
      have hok := hscan.2 ⟨⟨hsound.room, hsound.contentID⟩, rfl⟩
      rw [hrun] at hok
      cases hok
  | ok scanned =>
      obtain ⟨⟨hroom, hid⟩, rfl⟩ := hscan.1 hrun
      rw [bind_of_ok rfl]
      have hsound : Sound body e buffer ↔
          ¬ decodeBody P body (scannedPart body buffer e) = .error .fault := by
        rw [hdecode]
        constructor
        · rintro ⟨-, -, hencoded, hzipped⟩ (⟨henc, hnone⟩ | ⟨hzip, hnone | ⟨henc, hunknown⟩⟩)
          · exact hencoded henc hnone
          · exact (hzipped hzip).1 hnone
          · exact hunknown ((hzipped hzip).2 henc)
        · intro h
          simp only [not_or, not_and, not_not] at h
          exact ⟨hroom, hid, fun henc hnone => h.1 henc hnone, fun hzip => ⟨(h.2 hzip).1,
            (h.2 hzip).2⟩⟩
      rw [hsound, not_not]
      constructor
      · intro h
        rcases bind_eq_error.1 h with h | ⟨aBodyPart, -, h⟩
        · exact h
        · rcases bind_eq_error.1 h with h | ⟨u, -, h⟩
          · obtain ⟨-, code, hcode⟩ := getBodyPartUrlL_error h
            cases hcode
          · cases h
      · intro h
        rw [bind_of_error h]

/-- A part is only left when a codec may fail or a URL is relative. -/
theorem parseBodyPartL_leave (hlen : buffer.2 ≤ (body.drop buffer.1).length) {code : Int}
    (h : parseBodyPartL P body buffer e url = .error (.leave code)) : P.MayLeave := by
  rw [parseBodyPartL_eq] at h
  rcases bind_eq_error.1 h with h | ⟨scanned, hscan, h⟩
  · cases scanLoop_error hlen h
  obtain ⟨-, rfl⟩ := (scan_ok_iff hlen).1 hscan
  rcases bind_eq_error.1 h with h | ⟨part, -, h⟩
  · exact decodeBody_leave ended_scannedPart.1 ended_scannedPart.2 h
  · rcases bind_eq_error.1 h with h | ⟨u, -, h⟩
    · exact (getBodyPartUrlL_error h).1
    · cases h

/-- A body that is not marked as decoded is what is behind the first blank line. -/
theorem parseBodyPartL_iBody (hlen : buffer.2 ≤ (body.drop buffer.1).length) {aBodyPart : CBodyPart}
    (h : parseBodyPartL P body buffer e url = .ok aBodyPart)
    (hdecoded : aBodyPart.iIsDecodedBody = false) :
    aBodyPart.iBody = (scannedPart body buffer e).iBody := by
  rw [parseBodyPartL_eq] at h
  obtain ⟨scanned, hscan, h⟩ := bind_eq_ok.1 h
  obtain ⟨-, rfl⟩ := (scan_ok_iff hlen).1 hscan
  obtain ⟨part, hdecode, h⟩ := bind_eq_ok.1 h
  obtain ⟨u, -, h⟩ := bind_eq_ok.1 h
  cases h
  have hbody := decodeBody_iBody ended_scannedPart.1 ended_scannedPart.2 hdecode hdecoded
  exact hbody

end Whole

end SymbianWeb.Multipart
