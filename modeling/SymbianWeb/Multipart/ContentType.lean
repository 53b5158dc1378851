import SymbianWeb.Library.Search
import SymbianWeb.Multipart.HeaderLines

/-!
# The parameters of a content type

A content type is a media type and parameters behind semicolons, whose values may stand in quotes.
`CutOffContentTypeAttributes` looks for `boundary=` and `charset=` in everything behind the first
semicolon. The value that follows is to be taken without its quotes: the function moves to the first
quote that comes, wherever it stands, and cuts the value off at the first quote from there, which is
the same one. So there is no value left as soon as a quote stands anywhere behind the name.

`takesApart_iff` says of every list of parameters when the media type and the two values come out
as they are written.
-/

set_option autoImplicit false

namespace SymbianWeb.Multipart

open CString Search

/-! ## Content types -/

/-- A parameter of a content type: `name=value`, with blanks before it. -/
structure Parameter where
  blanks : Bytes
  name : Bytes
  quoted : Bool
  value : Bytes
  blanks_eq : ∀ c ∈ blanks, c = 0x20 ∨ c = 0x09
  name_ne : ∀ c ∈ name, c ≠ 0x3B ∧ c ≠ 0x22 ∧ c ≠ 0x3D ∧ c ≠ 0x20 ∧ c ≠ 0x09
  value_ne : 0x22 ∉ value ∧ (quoted = false → 0x3B ∉ value)

/-- The value as it stands in the text. -/
def Parameter.valueText (p : Parameter) : Bytes :=
  if p.quoted then 0x22 :: (p.value ++ [0x22]) else p.value

/-- The parameters, each behind its semicolon. -/
def parametersText : List Parameter → Bytes
  | [] => []
  | p :: ps => 0x3B :: (p.blanks ++ p.name) ++ 0x3D :: (p.valueText ++ parametersText ps)

/-- The value of the first parameter with a name. -/
def stated (name : Bytes) (ps : List Parameter) : Option Bytes :=
  (ps.find? fun p => p.name = name).map (·.value)

/-- The media type is the content type of the body part, and its boundary and charset are the values
of the parameters with these names. -/
def TakesApart (aMultipartBody : Bytes) (aBodyPart : CBodyPart) (mediaType : Bytes)
    (ps : List Parameter) : Prop :=
  let cut := cutOffContentTypeAttributes aMultipartBody aBodyPart
  cut.iContentType.bytes aMultipartBody = mediaType ∧
    ptrValue aMultipartBody cut.iBoundary = stated (ascii "boundary") ps ∧
    ptrValue aMultipartBody cut.iCharset = stated (ascii "charset") ps

/-! ## What is found -/

/-- What stands behind the name and `=` in one parameter: its value, if its name ends with the
name, or a part of its value. -/
def Parameter.found (name : Bytes) (p : Parameter) : Option Bytes :=
  if name <:+ p.name then some p.value else behind (name ++ [0x3D]) p.value

/-- The first place where the name and `=` stand, and whether a quote stands behind it. -/
def firstFound (name : Bytes) : List Parameter → Option (Bytes × Bool)
  | [] => none
  | p :: ps =>
      match p.found name with
      | some text => some (text, p.quoted || ps.any (·.quoted))
      | none => firstFound name ps

/-- The name and `=` do not stand in the parameters; or the first place where they stand has the
value of the parameter and no quote behind it; or there is a quote, and the value is empty. -/
def ReadsAttribute (name : Bytes) (ps : List Parameter) : Prop :=
  match firstFound name ps with
  | none => True
  | some (text, false) => stated name ps = some text
  | some (_, true) => stated name ps = some []

instance (name : Bytes) (ps : List Parameter) : Decidable (ReadsAttribute name ps) := by
  unfold ReadsAttribute
  split
  · exact inferInstanceAs (Decidable True)
  · exact inferInstanceAs (Decidable (_ = _))
  · exact inferInstanceAs (Decidable (_ = _))

/-! ## The search for an attribute -/

theorem findText_eq_findSub (text s : Bytes) : findText text s = findSub text s := by
  induction s with
  | nil => rfl
  | cons c s ih =>
      rw [findText, findSub, ih]
      simp only [List.isPrefixOf_iff_prefix]

/-- What is taken of the text behind the name of an attribute. -/
def attributeText (text : Bytes) : Bytes :=
  if 0x22 ∈ text then [] else text.takeWhile (· ≠ 0x3B)

theorem findText_quote_eq_none_iff {s : Bytes} : findText (ascii "\"") s = none ↔ 0x22 ∉ s := by
  have hquote : ascii "\"" = [0x22] := by decide
  rw [findText_eq_findSub, findSub_eq_none_iff, hquote, List.singleton_infix_iff]

/-- A text from its first quote on has a quote at its front. -/
theorem findText_quote_drop {s : Bytes} {k : Nat} (h : findText (ascii "\"") s = some k) :
    findText (ascii "\"") (s.drop k) = some 0 := by
  rw [findText_eq_findSub, findSub_eq_some_iff] at h ⊢
  exact ⟨Nat.zero_le _, h.2.1, fun k hk => absurd hk (Nat.not_lt_zero k)⟩

section Attribute

variable {body : Bytes} {p : Ptr8}

theorem bytes_dropLeft (n : Nat) : (p.dropLeft n).bytes body = (p.bytes body).drop n := by
  cases p with
  | null => exact List.drop_nil.symm
  | owned bytes => rfl
  | view pos len =>
      show (body.drop (pos + n)).take (len - n) = ((body.drop pos).take len).drop n
      rw [List.drop_take, List.drop_drop]

theorem ptrValue_dropLeft (n : Nat) :
    ptrValue body (p.dropLeft n) = (ptrValue body p).map (List.drop n) := by
  cases p with
  | null => rfl
  | owned bytes => rfl
  | view pos len =>
      have hbytes := @bytes_dropLeft body (.view pos len) n
      rw [ptrValue, ptrValue, if_neg (by simp [Ptr8.dropLeft]), if_neg (by simp), hbytes]
      rfl

/-- The value of an attribute is what `attributeText` takes of the text behind its name. -/
theorem ptrValue_attributeValue (name : Bytes) (hp : p ≠ .null) :
    (attributeValue body p name).bind (ptrValue body) =
      (behind name (p.bytes body)).map attributeText := by
  rw [attributeValue, behind, ← findText_eq_findSub]
  cases hname : findText name (p.bytes body) with
  | none => rfl
  | some offset =>
      simp only [Option.map_some, Option.bind_some]
      have hvalue : ptrValue body (p.dropLeft (offset + name.length)) =
          some ((p.bytes body).drop (offset + name.length)) := by
        rw [ptrValue_dropLeft, ptrValue, if_neg hp]
        rfl
      rw [← @bytes_dropLeft body] at hvalue ⊢
      generalize p.dropLeft (offset + name.length) = value at hvalue
      cases hquote : findText (ascii "\"") (value.bytes body) with
      | some offsetQ =>
          -- the quote that ends the value is the one it starts with
          have hmem : (0x22 : UInt8) ∈ value.bytes body := by
            by_contra hno
            rw [findText_quote_eq_none_iff.2 hno] at hquote
            cases hquote
          simp only [bytes_dropLeft, findText_quote_drop hquote]
          rw [ptrValue_left (Nat.zero_le _), ptrValue_dropLeft, hvalue, attributeText, if_pos hmem]
          rfl
      | none =>
          have hno := findText_quote_eq_none_iff.1 hquote
          simp only [hquote]
          rw [attributeText, if_neg hno, takeWhile_of_findText]
          cases hsemicolon : findText (ascii ";") (value.bytes body) with
          | none => exact hvalue
          | some offsetE =>
              simp only
              rw [ptrValue_left (findText_le hsemicolon), hvalue]
              rfl

end Attribute

/-! ## The text of the parameters -/

theorem quote_mem_parametersText (ps : List Parameter) :
    0x22 ∈ parametersText ps ↔ ps.any (·.quoted) = true := by
  induction ps with
  | nil => simp [parametersText]
  | cons p ps ih =>
      have hblanks : (0x22 : UInt8) ∉ p.blanks := by
        intro h
        rcases p.blanks_eq _ h with h | h <;> exact absurd h (by decide)
      have hname : (0x22 : UInt8) ∉ p.name := fun h => (p.name_ne _ h).2.1 rfl
      have hvalue : 0x22 ∈ p.valueText ↔ p.quoted = true := by
        rw [Parameter.valueText]
        cases hq : p.quoted with
        | true => simp
        | false => simpa using p.value_ne.1
      rw [parametersText, List.any_cons, Bool.or_eq_true, ← ih, ← hvalue]
      simp [hblanks, hname]

/-- The value of a parameter without quotes ends where the text of the others begins. -/
theorem attributeText_append {text : Bytes} (hquote : 0x22 ∉ text) (hsemicolon : 0x3B ∉ text)
    (ps : List Parameter) :
    attributeText (text ++ parametersText ps) = if ps.any (·.quoted) then [] else text := by
  have hmem : 0x22 ∈ text ++ parametersText ps ↔ ps.any (·.quoted) = true := by
    rw [List.mem_append, quote_mem_parametersText]
    exact or_iff_right hquote
  rw [attributeText]
  simp only [hmem]
  split
  · rfl
  · have hall : ∀ c ∈ text, decide (c ≠ 0x3B) = true := by
      intro c hc
      exact decide_eq_true fun heq => hsemicolon (heq ▸ hc)
    rw [List.takeWhile_append_of_pos hall]
    cases ps with
    | nil => simp [parametersText]
    | cons p ps => simp [parametersText]

section Search

variable {name : Bytes} (hname : ∀ c ∈ name, c ≠ 0x3B ∧ c ≠ 0x22 ∧ c ≠ 0x3D ∧ c ≠ 0x20 ∧ c ≠ 0x09)

include hname

/-- A name does not reach over the blanks before the name of a parameter. -/
theorem suffix_name_iff (p : Parameter) :
    name <:+ 0x3B :: (p.blanks ++ p.name) ↔ name <:+ p.name := by
  constructor
  · intro h
    rw [← List.cons_append] at h
    rcases List.suffix_or_suffix_of_suffix h (List.suffix_append _ _) with hs | hs
    · exact hs
    · obtain ⟨front, hfront⟩ := hs
      obtain ⟨before, hbefore⟩ := h
      -- what is in `name` before the name of the parameter is a semicolon or a blank
      have hfront' : before ++ front = 0x3B :: p.blanks := by
        rw [← hfront, ← List.append_assoc] at hbefore
        exact List.append_cancel_right hbefore
      cases hlast : front.getLast? with
      | none =>
          rw [List.getLast?_eq_none_iff] at hlast
          rw [← hfront, hlast]
          exact List.suffix_refl _
      | some c =>
          have hc : c ∈ front := List.mem_of_getLast? hlast
          have hcname : c ∈ name := hfront ▸ List.mem_append_left _ hc
          have hblank : c ∈ 0x3B :: p.blanks := hfront' ▸ List.mem_append_right _ hc
          have hne := hname c hcname
          rcases List.mem_cons.1 hblank with heq | hmem
          · exact absurd heq hne.1
          · rcases p.blanks_eq c hmem with heq | heq
            · exact absurd heq hne.2.2.2.1
            · exact absurd heq hne.2.2.2.2
  · exact fun h => h.trans ((List.suffix_append _ _).trans (List.suffix_cons _ _))

theorem behind_valueText (p : Parameter) (ps : List Parameter) :
    behind (name ++ [0x3D]) (p.valueText ++ parametersText ps) =
      ((behind (name ++ [0x3D]) p.value).map fun text =>
        (text ++ if p.quoted then [0x22] else []) ++ parametersText ps).or
        (behind (name ++ [0x3D]) (parametersText ps)) := by
  have hpat : name ++ [0x3D] ≠ [] := by simp
  have hsemicolon : (0x3B : UInt8) ∉ name ++ [0x3D] := by
    simpa using fun h => (hname _ h).1 rfl
  have hquote : (0x22 : UInt8) ∉ name ++ [0x3D] := by
    simpa using fun h => (hname _ h).2.1 rfl
  have hnil : behind (name ++ [0x3D]) ([] : Bytes) = none := by
    rw [behind, findSub, if_neg hpat]
    rfl
  rw [Parameter.valueText]
  cases p.quoted with
  | true =>
      simp only [if_true]
      have htext : 0x22 :: (p.value ++ [0x22]) ++ parametersText ps =
          [] ++ 0x22 :: (p.value ++ 0x22 :: parametersText ps) := by simp
      rw [htext, behind_append_cons hpat hquote, hnil, behind_append_cons hpat hquote]
      simp
  | false =>
      simp only [Bool.false_eq_true, if_false, List.append_nil]
      cases ps with
      | nil =>
          rw [parametersText, hnil, List.append_nil]
          cases behind (name ++ [0x3D]) p.value <;> simp
      | cons q ps =>
          have hrest := behind_append_cons (l := []) (t := (q.blanks ++ q.name) ++
            0x3D :: (q.valueText ++ parametersText ps)) hpat hsemicolon
          rw [hnil] at hrest
          rw [parametersText, List.cons_append, behind_append_cons hpat hsemicolon, ← List.nil_append
            (0x3B :: _ : Bytes), hrest]
          simp

/-- What the search finds in the text of the parameters. -/
theorem attributeText_parametersText (ps : List Parameter) :
    (behind (name ++ [0x3D]) (parametersText ps)).map attributeText =
      (firstFound name ps).map fun found => if found.2 then [] else found.1 := by
  have hequals : (0x3D : UInt8) ∉ name := fun h => (hname _ h).2.2.1 rfl
  induction ps with
  | nil =>
      rw [parametersText, firstFound, behind, findSub, if_neg (by simp)]
      rfl
  | cons p ps ih =>
      have hblanks : (0x3D : UInt8) ∉ (0x3B :: (p.blanks ++ p.name) : Bytes) := by
        intro h
        rcases List.mem_cons.1 h with h | h
        · exact absurd h (by decide)
        rcases List.mem_append.1 h with h | h
        · rcases p.blanks_eq _ h with h | h <;> exact absurd h (by decide)
        · exact (p.name_ne _ h).2.2.1 rfl
      -- the text that is found in the parameter, with what follows it
      have htaken : ∀ text : Bytes, (∀ c ∈ text, c ∈ p.value) →
          attributeText ((text ++ if p.quoted then [0x22] else []) ++ parametersText ps) =
            if (p.quoted || ps.any (·.quoted)) = true then [] else text := by
        intro text hsub
        cases hq : p.quoted with
        | true => simp [attributeText]
        | false =>
            rw [if_neg Bool.false_ne_true, List.append_nil, Bool.false_or]
            exact attributeText_append (fun h => p.value_ne.1 (hsub _ h))
              (fun h => p.value_ne.2 hq (hsub _ h)) ps
      rw [parametersText, behind_key hequals hblanks, firstFound, Parameter.found]
      simp only [suffix_name_iff hname]
      by_cases hsuffix : name <:+ p.name
      · rw [if_pos hsuffix, if_pos hsuffix]
        simp only [Option.map_some]
        cases hq : p.quoted with
        | true => simp [Parameter.valueText, hq, attributeText]
        | false =>
            have hvalue := htaken p.value fun _ hc => hc
            simp only [hq, Bool.false_eq_true, if_false, List.append_nil] at hvalue
            rw [Parameter.valueText, hq, if_neg Bool.false_ne_true, hvalue]
      · rw [if_neg hsuffix, if_neg hsuffix, behind_valueText hname]
        cases hfound : behind (name ++ [0x3D]) p.value with
        | none => exact ih
        | some text =>
            have hsub : ∀ c ∈ text, c ∈ p.value := by
              obtain ⟨n, -, htext⟩ := Option.map_eq_some_iff.1 hfound
              rw [← htext]
              exact fun c hc => List.mem_of_mem_drop hc
            show some (attributeText _) = _
            rw [htaken text hsub]
            rfl

/-- A parameter that is stated is found. -/
theorem stated_eq_none {ps : List Parameter} (h : firstFound name ps = none) :
    stated name ps = none := by
  induction ps with
  | nil => rfl
  | cons p ps ih =>
      rw [firstFound] at h
      cases hfound : p.found name with
      | some text =>
          rw [hfound] at h
          cases h
      | none =>
          rw [hfound] at h
          have hne : p.name ≠ name := by
            rintro rfl
            rw [Parameter.found, if_pos (List.suffix_refl _)] at hfound
            cases hfound
          rw [stated, List.find?_cons_of_neg (by simpa using hne)]
          exact ih h

/-- The attribute comes out as it is stated exactly in the case of `ReadsAttribute`. -/
theorem attributeText_iff (ps : List Parameter) :
    (behind (name ++ [0x3D]) (parametersText ps)).map attributeText = stated name ps ↔
      ReadsAttribute name ps := by
  rw [attributeText_parametersText hname, ReadsAttribute]
  cases hfound : firstFound name ps with
  | none =>
      rw [stated_eq_none hname hfound]
      exact iff_of_true rfl trivial
  | some found =>
      obtain ⟨text, quote⟩ := found
      cases quote with
      | false => exact eq_comm
      | true => exact eq_comm

end Search

/-! ## The body part -/

theorem findText_semicolon {mediaType : Bytes} (hmedia : 0x3B ∉ mediaType) (p : Parameter)
    (ps : List Parameter) :
    findText (ascii ";") (mediaType ++ parametersText (p :: ps)) = some mediaType.length := by
  have hsemicolon : ascii ";" = [0x3B] := by decide
  rw [findText_eq_findSub, hsemicolon]
  have hinfix : ¬ [0x3B] <:+: mediaType ++ [(0x3B : UInt8)].dropLast := by
    rw [List.singleton_infix_iff]
    simpa using hmedia
  exact findSub_eq_length _ (List.cons_ne_nil _ _) hinfix

/-- The descriptors of the body part behind the cut. -/
theorem cutOff_values {aMultipartBody : Bytes} {aBodyPart : CBodyPart} {mediaType : Bytes}
    {ps : List Parameter} (hmedia : 0x3B ∉ mediaType)
    (htext : aBodyPart.iContentType.bytes aMultipartBody = mediaType ++ parametersText ps)
    (hboundary : aBodyPart.iBoundary = .null) (hcharset : aBodyPart.iCharset = .null) :
    let cut := cutOffContentTypeAttributes aMultipartBody aBodyPart
    cut.iContentType.bytes aMultipartBody = mediaType ∧
      ptrValue aMultipartBody cut.iBoundary =
        (behind (ascii "boundary=") (parametersText ps)).map attributeText ∧
      ptrValue aMultipartBody cut.iCharset =
        (behind (ascii "charset=") (parametersText ps)).map attributeText := by
  cases ps with
  | nil =>
      rw [parametersText, List.append_nil] at htext
      have hnone : findText (ascii ";") (aBodyPart.iContentType.bytes aMultipartBody) = none := by
        rw [htext, findText_eq_findSub, findSub_eq_none_iff]
        have hsemicolon : ascii ";" = [0x3B] := by decide
        rw [hsemicolon, List.singleton_infix_iff]
        exact hmedia
      have hcut : cutOffContentTypeAttributes aMultipartBody aBodyPart = aBodyPart := by
        rw [cutOffContentTypeAttributes]
        simp only [hnone]
      rw [hcut]
      simp only [hboundary, hcharset]
      exact ⟨htext, rfl, rfl⟩
  | cons p ps =>
      have hsome := findText_semicolon hmedia p ps
      have hnull : aBodyPart.iContentType ≠ .null := by
        intro heq
        rw [heq] at htext
        have hlength := congrArg List.length htext
        simp [Ptr8.bytes, parametersText] at hlength
      have hunrelated : (aBodyPart.iContentType.dropLeft mediaType.length).bytes aMultipartBody =
          parametersText (p :: ps) := by
        rw [bytes_dropLeft, htext, List.drop_left]
      have hunrelated_null : aBodyPart.iContentType.dropLeft mediaType.length ≠ .null := by
        cases hct : aBodyPart.iContentType with
        | null => exact absurd hct hnull
        | view pos len => simp [Ptr8.dropLeft]
        | owned bytes => simp [Ptr8.dropLeft]
      have hleft : (aBodyPart.iContentType.left mediaType.length).bytes aMultipartBody = mediaType := by
        have hvalue := @ptrValue_left aMultipartBody aBodyPart.iContentType mediaType.length
          (by simp [htext])
        rw [ptrValue, ptrValue, if_neg hnull, htext, Option.map_some, List.take_left] at hvalue
        split at hvalue
        · cases hvalue
        · exact Option.some.inj hvalue
      have hattribute := fun name => @ptrValue_attributeValue aMultipartBody _ name hunrelated_null
      rw [hunrelated] at hattribute
      rw [← hattribute, ← hattribute, cutOffContentTypeAttributes, htext, hsome]
      simp only
      generalize attributeValue aMultipartBody
        (aBodyPart.iContentType.dropLeft mediaType.length) (ascii "boundary=") = boundary
      generalize attributeValue aMultipartBody
        (aBodyPart.iContentType.dropLeft mediaType.length) (ascii "charset=") = charset
      cases boundary with
      | none =>
          cases charset with
          | none => exact ⟨hleft, by simp [ptrValue, hboundary], by simp [ptrValue, hcharset]⟩
          | some charset => exact ⟨hleft, by simp [ptrValue, hboundary], rfl⟩
      | some boundary =>
          cases charset with
          | none => exact ⟨hleft, rfl, by simp [ptrValue, hcharset]⟩
          | some charset => exact ⟨hleft, rfl, rfl⟩

/-- The content type comes apart into its media type and the values of its parameters exactly when
both attributes are read. -/
theorem takesApart_iff (aMultipartBody : Bytes) (aBodyPart : CBodyPart) (mediaType : Bytes)
    (ps : List Parameter) (hmedia : 0x3B ∉ mediaType)
    (htext : aBodyPart.iContentType.bytes aMultipartBody = mediaType ++ parametersText ps)
    (hboundary : aBodyPart.iBoundary = .null) (hcharset : aBodyPart.iCharset = .null) :
    TakesApart aMultipartBody aBodyPart mediaType ps ↔
      ReadsAttribute (ascii "boundary") ps ∧ ReadsAttribute (ascii "charset") ps := by
  obtain ⟨htype, hboundary', hcharset'⟩ := cutOff_values hmedia htext hboundary hcharset
  have hb : ascii "boundary=" = ascii "boundary" ++ [0x3D] := by decide
  have hc : ascii "charset=" = ascii "charset" ++ [0x3D] := by decide
  rw [← @attributeText_iff (ascii "boundary") (by decide +kernel),
    ← @attributeText_iff (ascii "charset") (by decide +kernel), ← hb, ← hc, ← hboundary', ← hcharset']
  exact and_iff_right htype

theorem forall_mem_of_all {t : Bytes} {p : UInt8 → Prop} [DecidablePred p]
    (h : (t.all fun c => p c) = true) : ∀ c ∈ t, p c :=
  fun c hmem => of_decide_eq_true (List.all_eq_true.mp h c hmem)

def charsetParameter (quoted : Bool) : Parameter where
  blanks := [0x20]
  name := ascii "charset"
  quoted := quoted
  value := ascii "utf-8"
  blanks_eq := forall_mem_of_all (by decide)
  name_ne := forall_mem_of_all (by decide)
  value_ne := ⟨by decide +kernel, fun _ => by decide⟩

def boundaryParameter : Parameter where
  blanks := [0x20]
  name := ascii "boundary"
  quoted := false
  value := ascii "abc"
  blanks_eq := forall_mem_of_all (by decide)
  name_ne := forall_mem_of_all (by decide)
  value_ne := ⟨by decide +kernel, fun _ => by decide⟩

/-- `text/plain; charset=utf-8; boundary=abc`, and the same with quotes round the charset. -/
def plainText (quoted : Bool) : Bytes :=
  ascii "text/plain" ++ parametersText [charsetParameter quoted, boundaryParameter]

def plainPart (quoted : Bool) : CBodyPart :=
  { iContentType := .view 0 (plainText quoted).length }

theorem takesApart_iff_unquoted :
    TakesApart (plainText false) (plainPart false) (ascii "text/plain")
      [charsetParameter false, boundaryParameter] :=
  (takesApart_iff (plainText false) (plainPart false) (ascii "text/plain")
    [charsetParameter false, boundaryParameter] (by decide) (by decide +kernel) rfl rfl).2
    (by decide +kernel)

/-- Quotes round the charset, and the charset comes out empty. -/
theorem not_takesApart_quoted :
    ¬ TakesApart (plainText true) (plainPart true) (ascii "text/plain")
      [charsetParameter true, boundaryParameter] := by
  rintro ⟨-, -, hcharset⟩
  exact absurd hcharset (by decide +kernel)

end SymbianWeb.Multipart
