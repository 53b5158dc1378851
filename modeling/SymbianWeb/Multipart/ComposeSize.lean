import SymbianWeb.Multipart.ComposeSpec
import SymbianWeb.Library.MachineInt
import Mathlib.Data.List.DropRight
import Mathlib.Data.List.TakeWhile

/-!
# The size of a composed document

`ComposeMixedL` counts the bytes of the document in one loop and appends them in another. The first
loop trims the line ends behind the headers of a part without a bound, and adds a blank line to all
headers; the second stops trimming at the first character, and puts a blank line only behind headers
that are longer than that. `sizedRight_iff` says when the two agree.
-/

set_option autoImplicit false

namespace SymbianWeb.Multipart

open CString ExceptRuns MachineInt

/-! ## What is promised -/

/-- The document from its first boundary on. -/
def fromFirstBoundary (aBodyArray : List PartText) (aBoundary : Bytes) : Bytes :=
  composedParts aBoundary aBodyArray ++ (hyphens ++ aBoundary ++ hyphens)

/-- What is appended to the buffer, with `bodySize` as the value of Content-Length. -/
def appended (aBodyArray : List PartText) (aBoundary : Bytes) (aHeaderMask : BitVec 32)
    (bodySize : Int) (date : Bytes) : Bytes :=
  topLevelHeaders aBoundary aHeaderMask bodySize date ++ Eol.crlf.single ++
    fromFirstBoundary aBodyArray aBoundary

/-- No index is out of range, the buffer has room for all that is appended to it, and the value of
Content-Length is the number of bytes from the first boundary on. The document is then returned. -/
def SizedRight (aBodyArray : List PartText) (aBoundary : Bytes) (aHeaderMask : BitVec 32)
    (date : Bytes) : Prop :=
  ∃ size, bodySize aBodyArray aBoundary = .ok size ∧
    ((appended aBodyArray aBoundary aHeaderMask (int32 size) date).length : Int) ≤
      int32 (docSize aBoundary aHeaderMask (int32 size)) ∧
    (selected aHeaderMask EMultipartTopLevelHeaderContentLength = true →
      int32 size = (fromFirstBoundary aBodyArray aBoundary).length) ∧
    composeMixedL aBodyArray aBoundary aHeaderMask date =
      .ok (appended aBodyArray aBoundary aHeaderMask (int32 size) date)

/-! ## The trimmed headers -/

/-- The headers without the line ends behind them. -/
def trimmed (headers : Bytes) : Bytes := headers.rdropWhile isEolChar

/-- The headers are not made of line ends only. -/
def Trims (part : PartText) : Prop := part.headers ≠ [] → trimmed part.headers ≠ []

/-- The headers are one character with line ends behind it. -/
def oneChar (part : PartText) : Bool := (trimmed part.headers).length = 1

/-- The room that is reserved for a part, with its boundary. -/
def partRoom (aBoundary : Bytes) (part : PartText) : Nat :=
  if isEmptyPart part then 0
  else (boundaryLine aBoundary).length + Eol.crlf.single.length +
    (if part.headers = [] then 0 else (trimmed part.headers).length + Eol.crlf.single.length) +
    part.body.length + (closingCrlf part.body).length

/-- The room from the first boundary on. -/
def bodyRoom (aBodyArray : List PartText) (aBoundary : Bytes) : Nat :=
  (aBodyArray.map (partRoom aBoundary)).sum + (boundaryLine aBoundary).length

/-- The room for the whole document, with 16 bytes to spare in front of the content type. -/
def documentRoom (aBodyArray : List PartText) (aBoundary : Bytes) (aHeaderMask : BitVec 32) : Nat :=
  bodyRoom aBodyArray aBoundary +
    (if selected aHeaderMask EMultipartTopLevelHeaderContentType then
      (contentTypeFormat aBoundary).length + 16 else 0) +
    (if selected aHeaderMask EMultipartTopLevelHeaderContentLength then
      (contentLengthFormat (bodyRoom aBodyArray aBoundary)).length else 0) +
    (if selected aHeaderMask EMultipartTopLevelHeaderLastModified then
      (lastModifiedFormat []).length + internetDateStringLength else 0) +
    Eol.crlf.single.length

section Trimming

variable {headers : Bytes} {part : PartText} {b : Bytes}

theorem exists_trimmed (headers : Bytes) :
    ∃ trailing, headers = trimmed headers ++ trailing ∧ ∀ c ∈ trailing, isEolChar c = true := by
  refine ⟨(headers.reverse.takeWhile isEolChar).reverse, ?_, fun c hc => ?_⟩
  · rw [trimmed, List.rdropWhile, ← List.reverse_append, List.takeWhile_append_dropWhile,
      List.reverse_reverse]
  · exact List.mem_takeWhile_imp (List.mem_reverse.1 hc)

/-- The last character that is left is no line end. -/
theorem exists_trimmed_concat (h : trimmed headers ≠ []) :
    ∃ s a, trimmed headers = s ++ [a] ∧ isEolChar a = false := by
  refine ⟨(trimmed headers).dropLast, (trimmed headers).getLast h, ?_, ?_⟩
  · exact (List.dropLast_append_getLast h).symm
  · exact Bool.eq_false_iff.2 (List.rdropWhile_last_not isEolChar headers h)

theorem countEols_of_all {s : Bytes} (h : ∀ c ∈ s, isEolChar c = true) :
    countEols s = .error .fault := by
  induction s with
  | nil => rfl
  | cons c s ih =>
      rw [countEols, if_pos (h c List.mem_cons_self), ih fun c' hc' => h c' (List.mem_cons_of_mem _ hc')]
      rfl

/-- The first loop reads in front of headers that are made of line ends. -/
theorem countEols_fault (h : trimmed headers = []) : countEols headers.reverse = .error .fault := by
  obtain ⟨trailing, heq, hall⟩ := exists_trimmed headers
  rw [h, List.nil_append] at heq
  exact countEols_of_all fun c hc => hall c (heq ▸ List.mem_reverse.1 hc)

theorem countEols_ok (h : trimmed headers ≠ []) :
    ∃ k, countEols headers.reverse = .ok k ∧ headers.length = (trimmed headers).length + k := by
  obtain ⟨trailing, heq, hall⟩ := exists_trimmed headers
  obtain ⟨s, a, htrimmed, ha⟩ := exists_trimmed_concat h
  refine ⟨trailing.length, ?_, ?_⟩
  · have hreverse : headers.reverse = trailing.reverse ++ a :: s.reverse := by
      rw [heq, htrimmed]
      simp
    rw [hreverse, countEols_append ha (by simpa using hall), List.length_reverse]
  · have hlength := congrArg List.length heq
    rwa [List.length_append] at hlength

/-- The second loop stops at the last character that is left. -/
theorem headerEnd_eq (h : trimmed headers ≠ []) :
    headerEnd headers (headers.length - 1) = (trimmed headers).length - 1 := by
  obtain ⟨trailing, heq, hall⟩ := exists_trimmed headers
  obtain ⟨s, a, htrimmed, ha⟩ := exists_trimmed_concat h
  have hheaders : headers = s ++ a :: trailing := by
    rw [heq, htrimmed, List.append_assoc, List.singleton_append]
  have hlength : headers.length - 1 = s.length + trailing.length := by
    rw [hheaders]
    simp
  rw [hlength, htrimmed, List.length_append, List.length_singleton, Nat.add_sub_cancel]
  have hend := headerEnd_append (s := s) ha hall (Nat.le_refl _)
  rwa [← hheaders] at hend

end Trimming

/-! ## The two loops -/

section Sizes

variable {part : PartText} {parts : List PartText} {b : Bytes}

theorem partSize_fault (h : ¬ Trims part) : partSize b part = .error .fault := by
  rw [Trims, Classical.not_imp, not_not] at h
  obtain ⟨hne, htrimmed⟩ := h
  have hpos := List.length_pos_iff.2 hne
  have hempty : ¬ isEmptyPart part = true := by
    simp [isEmptyPart, hne]
  rw [partSize, if_neg hempty, if_pos hpos, countEols_fault htrimmed]
  rfl

theorem partSize_room (h : Trims part) : ∃ k : Int, partSize b part = .ok k ∧
    ((boundaryLine b).length + Eol.crlf.single.length : Nat) + k = partRoom b part := by
  rw [partSize, partRoom]
  by_cases hempty : isEmptyPart part = true
  · rw [if_pos hempty, if_pos hempty]
    exact ⟨_, rfl, by push_cast; omega⟩
  rw [if_neg hempty, if_neg hempty]
  have hcrlf : (if needsCrlf part.body then (Eol.crlf.single.length : Int) else 0) =
      ((closingCrlf part.body).length : Int) := by
    rw [closingCrlf]
    split <;> rfl
  by_cases hnil : part.headers = []
  · rw [if_neg (by simp [hnil]), if_pos hnil]
    refine ⟨_, rfl, ?_⟩
    rw [hcrlf, hnil]
    push_cast
    simp only [List.length_nil]
    omega
  · obtain ⟨k, hcount, hlength⟩ := countEols_ok (h hnil)
    rw [if_pos (List.length_pos_iff.2 hnil), if_neg hnil, hcount]
    refine ⟨_, rfl, ?_⟩
    rw [hcrlf, hlength]
    push_cast
    omega

/-- The first loop gives the room that is reserved, or reads in front of some headers. -/
theorem partsSize_room (parts : List PartText) (b : Bytes) :
    ((∀ part ∈ parts, Trims part) ∧ ∃ k : Int, partsSize b parts = .ok k ∧
      ((boundaryLine b).length + Eol.crlf.single.length : Nat) * (parts.length : Int) + k =
        ((parts.map (partRoom b)).sum : Nat)) ∨
    ((¬ ∀ part ∈ parts, Trims part) ∧ partsSize b parts = .error .fault) := by
  induction parts with
  | nil => exact .inl ⟨by simp, 0, rfl, by simp⟩
  | cons part parts ih =>
      rw [partsSize, List.forall_mem_cons]
      by_cases hpart : Trims part
      · obtain ⟨k, hk, hsum⟩ := partSize_room (b := b) hpart
        rw [hk, bind_of_ok rfl]
        rcases ih with ⟨hall, k', hk', hsum'⟩ | ⟨hnot, hfault⟩
        · rw [hk', bind_of_ok rfl]
          refine .inl ⟨⟨hpart, hall⟩, _, rfl, ?_⟩
          rw [List.map_cons, List.sum_cons, List.length_cons]
          push_cast at hsum hsum' ⊢
          rw [← hsum, ← hsum']
          ring
        · rw [hfault]
          exact .inr ⟨fun h => hnot h.2, rfl⟩
      · rw [partSize_fault hpart]
        exact .inr ⟨fun h => hpart h.1, rfl⟩

/-- A part takes the room that is reserved for it, or two bytes less. -/
theorem composedPart_room (h : Trims part) (hempty : isEmptyPart part = false) :
    (boundaryLine b ++ composedPart part).length + (if oneChar part then 2 else 0) =
      partRoom b part := by
  have h2 : Eol.crlf.single.length = 2 := rfl
  have h4 : Eol.crlf.double.length = 4 := rfl
  rw [partRoom, hempty, if_neg Bool.false_ne_true, List.length_append, composedPart, oneChar]
  have hclosing : (if needsCrlf part.body then Eol.crlf.single else []) = closingCrlf part.body := rfl
  rw [hclosing, List.length_append, List.length_append]
  by_cases hnil : part.headers = []
  · simp [hnil, trimmed]
    omega
  · have hne := h hnil
    have hpos := List.length_pos_iff.2 hne
    have hend := headerEnd_eq hne
    obtain ⟨k, -, hlength⟩ := countEols_ok hne
    obtain ⟨n, hn⟩ : ∃ n, part.headers.length = n + 1 := ⟨part.headers.length - 1, by omega⟩
    rw [hn, Nat.add_sub_cancel] at hend
    rw [if_neg hnil]
    simp only [hn, hend]
    rw [List.length_append, List.length_take]
    by_cases hone : (trimmed part.headers).length = 1
    · rw [if_neg (by omega), h2, if_pos (by simpa using hone)]
      omega
    · rw [if_pos (by omega), h2, h4, if_neg (by simpa using hone)]
      omega

/-- The second loop leaves two bytes for each of the short headers, and a part with such headers is
much longer. -/
theorem composedParts_room (h : ∀ part ∈ parts, Trims part) :
    (composedParts b parts).length + 2 * parts.countP oneChar = (parts.map (partRoom b)).sum ∧
      7 * parts.countP oneChar ≤ (composedParts b parts).length := by
  induction parts with
  | nil => simp [composedParts]
  | cons part parts ih =>
      rw [List.forall_mem_cons] at h
      obtain ⟨hsum, hle⟩ := ih h.2
      rw [composedParts, List.map_cons, List.sum_cons, List.length_append, List.countP_cons, ← hsum]
      cases hempty : isEmptyPart part with
      | true =>
          have hheaders : part.headers = [] := by
            have hlengths : part.headers.length + part.body.length = 0 := by
              simpa [isEmptyPart] using hempty
            exact List.length_eq_zero_iff.1 (by omega)
          have hone : oneChar part = false := by simp [oneChar, hheaders, trimmed]
          have hroom : partRoom b part = 0 := by rw [partRoom, if_pos hempty]
          rw [hroom, hone]
          simp only [if_true, List.length_nil, Bool.false_eq_true, if_false]
          exact ⟨by omega, by omega⟩
      | false =>
          have hroom := composedPart_room (b := b) h.1 hempty
          rw [← hroom]
          simp only [Bool.false_eq_true, if_false]
          cases hone : oneChar part with
          | false =>
              simp only [Bool.false_eq_true, if_false]
              omega
          | true =>
              have hline : 4 ≤ (boundaryLine b).length := by
                simp [boundaryLine, hyphens_length, Eol.single]
                omega
              have hnil : part.headers ≠ [] := by
                intro hnil
                simp [oneChar, hnil, trimmed] at hone
              have hlength : (boundaryLine b ++ composedPart part).length + 2 =
                  partRoom b part := by
                rw [← hroom, hone]
                simp
              have hone' : (trimmed part.headers).length = 1 := by simpa [oneChar] using hone
              have h2 : Eol.crlf.single.length = 2 := rfl
              rw [partRoom, hempty, if_neg Bool.false_ne_true, if_neg hnil, hone', h2] at hlength
              simp only [if_true]
              omega

theorem bodySize_room (parts : List PartText) (b : Bytes) :
    ((∀ part ∈ parts, Trims part) ∧ bodySize parts b = .ok (bodyRoom parts b : Nat)) ∨
      ((¬ ∀ part ∈ parts, Trims part) ∧ bodySize parts b = .error .fault) := by
  rw [bodySize]
  rcases partsSize_room parts b with ⟨hall, k, hk, hsum⟩ | ⟨hnot, hfault⟩
  · refine .inl ⟨hall, ?_⟩
    rw [hk, bind_of_ok rfl, pure_eq_ok, hsum, bodyRoom]
    push_cast
    rfl
  · rw [hfault]
    exact .inr ⟨hnot, rfl⟩

end Sizes

/-! ## The document -/

section Document

variable {parts : List PartText} {b : Bytes} {mask : BitVec 32} {date : Bytes}

theorem fromFirstBoundary_room (h : ∀ part ∈ parts, Trims part) :
    (fromFirstBoundary parts b).length + 2 * parts.countP oneChar = bodyRoom parts b ∧
      7 * parts.countP oneChar ≤ (fromFirstBoundary parts b).length := by
  obtain ⟨hsum, hle⟩ := composedParts_room (b := b) h
  have hlast : (hyphens ++ b ++ hyphens).length = (boundaryLine b).length := by
    simp [boundaryLine, hyphens_length, Eol.single]
  rw [fromFirstBoundary, bodyRoom, List.length_append, hlast, ← hsum]
  exact ⟨by omega, by omega⟩

/-- The room for the document is what the lengths of the pieces add up to. -/
theorem docSize_room (parts : List PartText) (b : Bytes) (mask : BitVec 32) :
    docSize b mask (bodyRoom parts b : Nat) = (documentRoom parts b mask : Nat) := by
  have hct : (contentTypeFormat b).length = (contentTypeFormat []).length + b.length := by
    simp [contentTypeFormat]
    omega
  have hcl : (contentLengthFormat (bodyRoom parts b : Nat)).length =
      (ascii "Content-Length:").length + 1 + (num (bodyRoom parts b : Nat)).length +
        Eol.crlf.single.length := by
    simp only [contentLengthFormat, List.length_append]
    rfl
  have hlm : (lastModifiedFormat []).length + internetDateStringLength =
      (ascii "Last-Modified:").length + 1 + internetDateStringLength + Eol.crlf.single.length := by
    simp only [lastModifiedFormat, List.length_append, List.length_nil]
    rfl
  have h13 : (ascii "Content-Type:").length = 13 := by decide
  have h2 : Eol.crlf.single.length = 2 := rfl
  rw [docSize, documentRoom, hcl, hlm, hct, h13, h2]
  split <;> split <;> split <;> push_cast <;> omega

/-- What is in front of the first boundary has its room, with no more than 16 bytes to spare. -/
theorem docSize_spare (b : Bytes) (mask : BitVec 32) (size : Int)
    (hdate : date.length = internetDateStringLength) :
    docSize b mask size ≤
      size + ((topLevelHeaders b mask size date).length : Int) + Eol.crlf.single.length + 16 := by
  have hct : (contentTypeFormat b).length = (contentTypeFormat []).length + b.length := by
    simp [contentTypeFormat]
    omega
  have hcl : (contentLengthFormat size).length = (ascii "Content-Length:").length + 1 +
      (num size).length + Eol.crlf.single.length := by
    simp only [contentLengthFormat, List.length_append]
    rfl
  have hlm : (lastModifiedFormat date).length = (ascii "Last-Modified:").length + 1 +
      internetDateStringLength + Eol.crlf.single.length := by
    simp only [lastModifiedFormat, List.length_append, hdate]
    rfl
  have h13 : (ascii "Content-Type:").length = 13 := by decide
  have h2 : Eol.crlf.single.length = 2 := rfl
  rw [docSize, topLevelHeaders, h13, h2]
  simp only [List.length_append]
  split <;> split <;> split <;>
    simp only [hct, hcl, hlm, h2, List.length_nil] <;> push_cast <;> omega

/-- The buffer of a composed document is sized right exactly when no headers are made of line ends
only, a value of Content-Length has no headers of one character to count, and the document is short
enough for a `TInt`. -/
theorem sizedRight_iff (parts : List PartText) (b : Bytes) (mask : BitVec 32) (date : Bytes)
    (hdate : date.length = internetDateStringLength) :
    SizedRight parts b mask date ↔
      (∀ part ∈ parts, Trims part) ∧
      (selected mask EMultipartTopLevelHeaderContentLength = true →
        ∀ part ∈ parts, oneChar part = false) ∧
      documentRoom parts b mask < 2 ^ 31 := by
  rw [SizedRight]
  rcases bodySize_room parts b with ⟨hall, hsize⟩ | ⟨hnot, hfault⟩
  · obtain ⟨hroom, hle⟩ := fromFirstBoundary_room (b := b) hall
    have hshort : parts.countP oneChar = 0 ↔ ∀ part ∈ parts, oneChar part = false := by
      rw [List.countP_eq_zero]
      simp only [Bool.not_eq_true]
    have hbody : bodyRoom parts b ≤ documentRoom parts b mask := by
      rw [documentRoom]
      omega
    have h2 : Eol.crlf.single.length = 2 := rfl
    constructor
    · rintro ⟨size, hrun, hfits, hvalue, -⟩
      rw [hsize, Except.ok.injEq] at hrun
      subst hrun
      have hlt : documentRoom parts b mask < 2 ^ 31 := by
        by_contra hge
        have hspare := docSize_spare b mask (int32 (bodyRoom parts b : Nat)) hdate
        have hleast := docSize_le b mask (int32 (bodyRoom parts b : Nat)) hdate
        rw [appended, List.length_append, List.length_append] at hfits
        have hfull : (bodyRoom parts b : Int) < 2 ^ 31 →
            docSize b mask (int32 (bodyRoom parts b : Nat)) = documentRoom parts b mask := by
          intro hsmall
          rw [int32_natCast (by omega), docSize_room]
        generalize docSize b mask (int32 (bodyRoom parts b : Nat)) = size at *
        rw [h2] at *
        -- the number of the document's bytes does not come back to them when it wraps
        simp only [int32] at *
        omega
      refine ⟨hall, fun hselected => ?_, hlt⟩
      have hcount := hvalue hselected
      rw [int32_natCast (by omega)] at hcount
      exact hshort.1 (by omega)
    · rintro ⟨-, hone, hlt⟩
      have hsmall : int32 (bodyRoom parts b : Nat) = (bodyRoom parts b : Nat) :=
        int32_natCast (by omega)
      have hdoc := docSize_room parts b mask
      have hleast := docSize_le b mask (bodyRoom parts b : Nat) hdate
      have hfits : ((appended parts b mask (bodyRoom parts b : Nat) date).length : Int) ≤
          docSize b mask (bodyRoom parts b : Nat) := by
        rw [appended, List.length_append, List.length_append]
        push_cast
        omega
      refine ⟨_, hsize, ?_, fun hselected => ?_, ?_⟩
      · rw [hsmall, hdoc, int32_natCast hlt, ← hdoc]
        exact hfits
      · have hzero := hshort.2 (hone hselected)
        rw [hsmall]
        omega
      · rw [composeMixedL, bind_of_ok hsize, hsmall, List.append_assoc]
        exact if_pos hfits
  · rw [hfault]
    constructor
    · rintro ⟨size, hrun, -⟩
      cases hrun
    · rintro ⟨hall, -⟩
      exact absurd hall hnot

/-- Two parts, one with a header and one without. -/
def letter : List PartText :=
  [⟨ascii "Content-Type: text/plain\x0D\n", ascii "hello"⟩, ⟨[], ascii "world"⟩]

theorem sizedRight_iff_letter :
    SizedRight letter (ascii "b") 7#32 (ascii "Sun, 06 Nov 1994 08:49:37 GMT") ↔
      (∀ part ∈ letter, Trims part) ∧
      (selected 7#32 EMultipartTopLevelHeaderContentLength = true →
        ∀ part ∈ letter, oneChar part = false) ∧
      documentRoom letter (ascii "b") 7#32 < 2 ^ 31 :=
  sizedRight_iff letter (ascii "b") 7#32 (ascii "Sun, 06 Nov 1994 08:49:37 GMT") (by decide)

/-- Headers of one line end: the first loop reads in front of them. -/
theorem not_sizedRight_lineEnd : ¬ ∀ (parts : List PartText) (b : Bytes) (mask : BitVec 32)
    (date : Bytes), b ≠ [] → date.length = internetDateStringLength →
      SizedRight parts b mask date := by
  intro h
  obtain ⟨size, hsize, -⟩ := h [⟨Eol.crlf.single, ascii "hello"⟩] (ascii "b") 7#32
    (ascii "Sun, 06 Nov 1994 08:49:37 GMT") (by decide) (by decide)
  cases hsize

end Document

end SymbianWeb.Multipart
