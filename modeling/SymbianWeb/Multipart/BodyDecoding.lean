import SymbianWeb.Multipart.ParserSafety

/-!
# The body of a part

Behind the blank line of a part stands its raw body. The transfer encoding and the content type say
what is to be made of it: a decoder for base64, quoted-printable or gzip, and the decompressor for a
zipped content type. Every other encoding leaves the body as it is. `keepsBody_iff` says for which
parts `ParseBodyPartL` does this.
-/

set_option autoImplicit false

namespace SymbianWeb.Multipart

open CString ExceptRuns

/-- The raw body: what stands behind the first blank line, up to the end of the part. -/
def rawBody (aMultipartBody : Bytes) (buffer : BodyPartBuffer) (e : Eol) : Bytes :=
  let part := (aMultipartBody.drop buffer.1).take buffer.2
  match blankOf aMultipartBody buffer e with
  | none => []
  | some i => part.drop (i + blankLength (aMultipartBody.drop buffer.1) e i)

/-- What the decoder for the encoding gives. An encoding without a decoder is no encoding. -/
def transferDecoded (P : Platform) (aMultipartBody : Bytes) (encoding : Ptr8) (bytes : Bytes) :
    Except Int Bytes :=
  if StartsWith aMultipartBody encoding (ascii "base64") then
    .ok (P.decodeBase64 bytes)
  else if StartsWith aMultipartBody encoding (ascii "quoted-printable") then
    .ok (P.decodeQuotedPrintable bytes)
  else if StartsWith aMultipartBody encoding (ascii "gzip") then
    P.inflate bytes
  else
    .ok bytes

/-- What the decompressor gives for a zipped content type. -/
def unzipped (P : Platform) (aMultipartBody : Bytes) (contentType : Ptr8) (bytes : Bytes) :
    Except Int Bytes :=
  if Zipped aMultipartBody contentType then P.inflate bytes else .ok bytes

/-- The body of the part is what its encoding and its content type make of the raw body. -/
def KeepsBody (P : Platform) (aMultipartBody : Bytes) (buffer : BodyPartBuffer) (e : Eol)
    (aBodyPart : CBodyPart) : Prop :=
  let headers := headersOf aMultipartBody buffer e
  (transferDecoded P aMultipartBody headers.iContentTransferEncoding
      (rawBody aMultipartBody buffer e) >>= unzipped P aMultipartBody headers.iContentType) =
    .ok (aBodyPart.iBody.bytes aMultipartBody)

instance (P : Platform) (aMultipartBody : Bytes) (buffer : BodyPartBuffer) (e : Eol)
    (aBodyPart : CBodyPart) : Decidable (KeepsBody P aMultipartBody buffer e aBodyPart) :=
  inferInstanceAs (Decidable (_ = _))

section Decoding

variable {P : Platform} {body : Bytes} {e : Eol} {buffer : BodyPartBuffer} {url : List UInt16}
  {aBodyPart aBodyPart' : CBodyPart}

theorem rawBody_eq : rawBody body buffer e = (scannedPart body buffer e).iBody.bytes body := by
  rw [rawBody, scannedPart_iBody]
  cases blankOf body buffer e with
  | none => rfl
  | some i =>
      simp only [Ptr8.bytes]
      rw [List.drop_take, List.drop_drop, Nat.add_assoc]

/-- Every encoding with a decoder asks for decoding. -/
theorem KnownEncoding.encoded {value : Ptr8} (h : KnownEncoding body value) :
    Encoded body value := by
  have happart : ∀ known ∈ [ascii "base64", ascii "quoted-printable", ascii "gzip"],
      ∀ plain ∈ [ascii "7bit", ascii "8bit", ascii "binary"],
        ¬ known.map toLower <+: plain.map toLower ∧ ¬ plain.map toLower <+: known.map toLower := by
    decide
  obtain ⟨known, hknown, hstart⟩ : ∃ known ∈ [ascii "base64", ascii "quoted-printable",
      ascii "gzip"], StartsWith body value known := by
    rcases h with h | h | h
    · exact ⟨_, by simp, h⟩
    · exact ⟨_, by simp, h⟩
    · exact ⟨_, by simp, h⟩
  have hnot : ∀ plain ∈ [ascii "7bit", ascii "8bit", ascii "binary"],
      ¬ StartsWith body value plain := by
    intro plain hplain hstart'
    obtain ⟨h₁, h₂⟩ := happart known hknown plain hplain
    -- of two beginnings of one text, one begins with the other
    cases value with
    | null => exact hstart
    | view pos len =>
        rcases List.prefix_or_prefix_of_prefix hstart hstart' with h | h
        · exact h₁ h
        · exact h₂ h
    | owned bytes =>
        rcases List.prefix_or_prefix_of_prefix hstart hstart' with h | h
        · exact h₁ h
        · exact h₂ h
  refine ⟨?_, hnot _ (by simp), hnot _ (by simp), hnot _ (by simp)⟩
  rintro rfl
  exact hstart

theorem transferDecoded_of_unknown {value : Ptr8} (h : ¬ KnownEncoding body value) (bytes : Bytes) :
    transferDecoded P body value bytes = .ok bytes := by
  rw [KnownEncoding, not_or, not_or] at h
  rw [transferDecoded, if_neg h.1, if_neg h.2.1, if_neg h.2.2]

/-- Decoded bytes are kept as they are. -/
theorem decoded_eq_ok {bytes : Bytes} {ptr : Ptr8} (h : decoded bytes = .ok ptr) :
    ptr = .owned bytes := by
  rw [decoded] at h
  split at h
  · cases h
  · cases h
    rfl

theorem inflated_eq_ok {bytes : Bytes} {ptr : Ptr8} (h : (match P.inflate bytes with
    | .error _ => .error (.leave KErrGeneral)
    | .ok bytes => decoded bytes : ParseM Ptr8) = .ok ptr) :
    ∃ out, P.inflate bytes = .ok out ∧ ptr = .owned out := by
  cases hinflate : P.inflate bytes with
  | error code =>
      rw [hinflate] at h
      cases h
  | ok out =>
      rw [hinflate] at h
      exact ⟨out, rfl, decoded_eq_ok h⟩

/-- A body with a known encoding becomes the output of its decoder, any other is gone. -/
theorem decodeContentTransferEncoding_ok {value encodedBody ptr : Ptr8}
    (hvalue : Ended body e value)
    (h : decodeContentTransferEncoding P body value encodedBody = .ok ptr) :
    (KnownEncoding body value ∧ ∃ out,
      transferDecoded P body value (encodedBody.bytes body) = .ok out ∧ ptr = .owned out) ∨
    (¬ KnownEncoding body value ∧ ptr = .null) := by
  have hbase64 : OneLine (ascii "base64") := by decide
  have hquoted : OneLine (ascii "quoted-printable") := by decide
  have hgzip : OneLine (ascii "gzip") := by decide
  rw [decodeContentTransferEncoding] at h
  by_cases hnull : encodedBody = .null
  · rw [if_pos hnull] at h
    cases h
  rw [if_neg hnull] at h
  simp only at h
  rw [ptrStartsWith_eq hbase64 hvalue, ptrStartsWith_eq hquoted hvalue,
    ptrStartsWith_eq hgzip hvalue, bind_of_ok rfl, bind_of_ok rfl, bind_of_ok rfl] at h
  rw [KnownEncoding, transferDecoded]
  by_cases h64 : StartsWith body value (ascii "base64")
  · rw [if_pos (decide_eq_true h64)] at h
    rw [if_pos h64]
    exact .inl ⟨.inl h64, _, rfl, decoded_eq_ok h⟩
  rw [if_neg (by simp [h64])] at h
  rw [if_neg h64]
  by_cases hqp : StartsWith body value (ascii "quoted-printable")
  · rw [if_pos (decide_eq_true hqp)] at h
    rw [if_pos hqp]
    exact .inl ⟨.inr (.inl hqp), _, rfl, decoded_eq_ok h⟩
  rw [if_neg (by simp [hqp])] at h
  rw [if_neg hqp]
  by_cases hgz : StartsWith body value (ascii "gzip")
  · rw [if_pos (decide_eq_true hgz)] at h
    rw [if_pos hgz]
    exact .inl ⟨.inr (.inr hgz), inflated_eq_ok h⟩
  · rw [if_neg (by simp [hgz])] at h
    cases h
    exact .inr ⟨by simp [h64, hqp, hgz], rfl⟩

/-- After the first half the body is decoded, or it is gone. -/
theorem decodeStage_ok (hencoding : Ended body e aBodyPart.iContentTransferEncoding)
    (h : decodeStage P body aBodyPart = .ok aBodyPart') :
    aBodyPart'.iContentType = aBodyPart.iContentType ∧
      ((Encoded body aBodyPart.iContentTransferEncoding →
          KnownEncoding body aBodyPart.iContentTransferEncoding) →
        transferDecoded P body aBodyPart.iContentTransferEncoding (aBodyPart.iBody.bytes body) =
          .ok (aBodyPart'.iBody.bytes body)) ∧
      (Encoded body aBodyPart.iContentTransferEncoding →
        ¬ KnownEncoding body aBodyPart.iContentTransferEncoding → aBodyPart'.iBody = .null) := by
  rw [decodeStage, isEncoded_eq hencoding, bind_of_ok rfl] at h
  by_cases hencoded : Encoded body aBodyPart.iContentTransferEncoding
  · rw [if_pos (decide_eq_true hencoded)] at h
    obtain ⟨ptr, hdecode, h⟩ := bind_eq_ok.1 h
    cases h
    refine ⟨rfl, ?_⟩
    rcases decodeContentTransferEncoding_ok hencoding hdecode with
      ⟨hknown, out, hout, rfl⟩ | ⟨hknown, rfl⟩
    · exact ⟨fun _ => hout, fun _ hnot => absurd hknown hnot⟩
    · exact ⟨fun himp => absurd (himp hencoded) hknown, fun _ _ => rfl⟩
  · rw [if_neg (by simpa using hencoded)] at h
    cases h
    exact ⟨rfl, fun _ => transferDecoded_of_unknown (fun hknown => hencoded hknown.encoded) _,
      fun henc => absurd henc hencoded⟩

/-- After the second half a zipped body is unzipped; a body that is gone is not zipped. -/
theorem unzipStage_ok (htype : Ended body e aBodyPart.iContentType)
    (h : unzipStage P body aBodyPart = .ok aBodyPart') :
    unzipped P body aBodyPart.iContentType (aBodyPart.iBody.bytes body) =
        .ok (aBodyPart'.iBody.bytes body) ∧
      (aBodyPart.iBody = .null → ¬ Zipped body aBodyPart.iContentType) := by
  have hcut : ∃ cut : CBodyPart,
      (if aBodyPart.iContentType = .null then aBodyPart
        else cutOffContentTypeAttributes body aBodyPart) = cut ∧
      Ended body e cut.iContentType ∧
      (Zipped body cut.iContentType ↔ Zipped body aBodyPart.iContentType) ∧
      cut.iBody = aBodyPart.iBody := by
    by_cases hnull : aBodyPart.iContentType = .null
    · exact ⟨aBodyPart, if_pos hnull, htype, Iff.rfl, rfl⟩
    · exact ⟨_, if_neg hnull, (cutOff_ended htype).1, (cutOff_ended htype).2, cutOff_frame.1⟩
  obtain ⟨cut, hcut, hended, hzipped, hbody⟩ := hcut
  rw [unzipStage, hcut, isZipped_eq hended, bind_of_ok rfl] at h
  rw [unzipped]
  by_cases hzip : Zipped body aBodyPart.iContentType
  · rw [if_pos (decide_eq_true (hzipped.2 hzip)), hbody] at h
    obtain ⟨ptr, hunzip, h⟩ := bind_eq_ok.1 h
    cases h
    rw [unzip] at hunzip
    by_cases hnull : aBodyPart.iBody = .null
    · rw [if_pos hnull] at hunzip
      cases hunzip
    · rw [if_neg hnull] at hunzip
      obtain ⟨out, hinflate, rfl⟩ := inflated_eq_ok hunzip
      rw [if_pos hzip]
      exact ⟨hinflate, fun heq => absurd heq hnull⟩
  · rw [if_neg (by simpa [hzipped] using hzip)] at h
    cases h
    rw [if_neg hzip, hbody]
    exact ⟨rfl, fun _ => hzip⟩

/-- A part that is parsed keeps its body, unless its encoding asks for decoding and has no
decoder. -/
theorem keepsBody_iff (hlen : buffer.2 ≤ (body.drop buffer.1).length)
    (h : parseBodyPartL P body buffer e url = .ok aBodyPart) :
    KeepsBody P body buffer e aBodyPart ↔
      (Encoded body (headersOf body buffer e).iContentTransferEncoding →
        KnownEncoding body (headersOf body buffer e).iContentTransferEncoding) ∨
      rawBody body buffer e = [] := by
  rw [parseBodyPartL_eq] at h
  obtain ⟨scanned, hscan, h⟩ := bind_eq_ok.1 h
  obtain ⟨-, rfl⟩ := (scan_ok_iff hlen).1 hscan
  obtain ⟨part, hrun, h⟩ := bind_eq_ok.1 h
  obtain ⟨u, -, h⟩ := bind_eq_ok.1 h
  cases h
  obtain ⟨hencoding, htype⟩ := @ended_scannedPart body e buffer
  rw [decodeBody_eq] at hrun
  obtain ⟨stage, hdecode, hunzip⟩ := bind_eq_ok.1 hrun
  obtain ⟨hsame, hdecoded, hgone⟩ := decodeStage_ok hencoding hdecode
  obtain ⟨hunzipped, hplain⟩ := unzipStage_ok (hsame ▸ htype) hunzip
  have hheaders : (scannedPart body buffer e).iContentTransferEncoding =
      (headersOf body buffer e).iContentTransferEncoding ∧
      (scannedPart body buffer e).iContentType = (headersOf body buffer e).iContentType :=
    ⟨setBody_frame.1, setBody_frame.2.1⟩
  rw [hheaders.1, ← rawBody_eq] at hdecoded
  rw [hheaders.1] at hgone
  rw [hsame, hheaders.2] at hunzipped hplain
  rw [KeepsBody]
  simp only
  by_cases hknown : Encoded body (headersOf body buffer e).iContentTransferEncoding →
      KnownEncoding body (headersOf body buffer e).iContentTransferEncoding
  · rw [hdecoded hknown, bind_of_ok rfl]
    exact ⟨fun _ => .inl hknown, fun _ => hunzipped⟩
  · -- the body is gone, and was not to be unzipped
    obtain ⟨hencoded, hunknown⟩ := Classical.not_imp.1 hknown
    have hnull := hgone hencoded hunknown
    have hzip := hplain hnull
    rw [unzipped, if_neg hzip, hnull, Except.ok.injEq] at hunzipped
    rw [transferDecoded_of_unknown hunknown, bind_of_ok rfl, unzipped, if_neg hzip, ← hunzipped,
      Except.ok.injEq]
    exact ⟨.inr, fun hor => hor.resolve_left hknown⟩

/-- A document whose only part says `hello`, in the given encoding. -/
def encodedDocument (encoding : Bytes) : Bytes :=
  ascii "--b\x0D\nContent-Transfer-Encoding: " ++ encoding ++
    ascii "\x0D\n\x0D\nhello\x0D\n--b--"

/-- What is parsed of a part of the given length behind the first boundary. -/
def encodedPart (iBody : Ptr8) (valueLength headersLength : Nat) : CBodyPart :=
  { iBody := iBody, iHeaders := .view 5 headersLength
    iContentTransferEncoding := .view 32 valueLength
    iIsDecodedBody := iBody = .null, iUrl := some [] }

theorem keepsBody_iff_8bit :
    KeepsBody lenient (encodedDocument (ascii "8bit")) (3, 44) .crlf
        (encodedPart (.view 40 7) 4 31) ↔
      (Encoded (encodedDocument (ascii "8bit")) (headersOf (encodedDocument (ascii "8bit"))
          (3, 44) .crlf).iContentTransferEncoding →
        KnownEncoding (encodedDocument (ascii "8bit")) (headersOf (encodedDocument (ascii "8bit"))
          (3, 44) .crlf).iContentTransferEncoding) ∨
      rawBody (encodedDocument (ascii "8bit")) (3, 44) .crlf = [] :=
  @keepsBody_iff lenient _ _ _ [] _ (by decide +kernel) (by decide +kernel)

/-- The body of a part with the encoding `identity` is lost. -/
theorem not_keepsBody_identity : ¬ ∀ (P : Platform) (body : Bytes) (buffer : BodyPartBuffer)
    (e : Eol) (url : List UInt16) (aBodyPart : CBodyPart),
      buffer.2 ≤ (body.drop buffer.1).length →
      parseBodyPartL P body buffer e url = .ok aBodyPart → KeepsBody P body buffer e aBodyPart := by
  intro h
  have hrun := h lenient (encodedDocument (ascii "identity")) (3, 48) .crlf []
    (encodedPart .null 8 35) (by decide +kernel) (by decide +kernel)
  exact absurd hrun (by decide +kernel)

end Decoding

end SymbianWeb.Multipart
