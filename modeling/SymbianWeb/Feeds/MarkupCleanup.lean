import SymbianWeb.Feeds.OpmlExport
import SymbianWeb.Library.BracketPairs

/-!
# Text of feeds without markup

`StripMarkupL` deletes what stands from the last `<` to a `>`, and puts a new line there if it was
one of four tags; `CleanupMarkupL` does this, resolves entities, deletes the markers of CDATA
sections and strips the markup again. An entity whose value is `&` begins another one
(`resolveEntitiesL_iff_readOnce`), and a tag with tags in it leaves a tag (`hasTag_stripMarkupL_iff`).
-/

set_option autoImplicit false

namespace SymbianWeb.Feeds

open XmlContent BracketPairs

/-! ## Stripping markup -/

/-- The tags that a new line is put in place of. -/
def newLineTags : List Text := [lit "<br>", lit "<br/>", lit "<br />", lit "<p>"]

/-- What stands there since the last `<`. -/
def heldTag : Option Text → Text
  | none => []
  | some tag => 60 :: tag

/-- Whether a tag is one of them; `LowerCase` is that of their letters. -/
def isNewLineTag (tag : Text) : Bool := newLineTags.contains ((tag.take 6).map casemap)

section

variable (p : Platform) (aNewLineChar : UInt16) (maxLength : Nat)

/-- The loop of `StripMarkupL`: whether the text has changed, the text that is done, what follows
the last `<`, and the rest. The buffer has room for `maxLength` characters. -/
def stripMarkupFrom (textHasChanged : Bool) (before : Text) (held : Option Text) :
    Text → Except Failure (Bool × Text)
  | [] => .ok (textHasChanged, before ++ heldTag held)
  | c :: rest =>
    if c = 60 then stripMarkupFrom textHasChanged (before ++ heldTag held) (some []) rest
    else
      match held with
      | none => stripMarkupFrom textHasChanged (before ++ [c]) none rest
      | some tag =>
        if c = 62 then
          if aNewLineChar ≠ 0 ∧ isNewLineTag (60 :: (tag ++ [62])) = true then
            -- `Insert` panics when there is no room.
            if maxLength < (before ++ rest).length + 1 then .error .panic
            else stripMarkupFrom true (before ++ [aNewLineChar]) none rest
          else stripMarkupFrom true before none rest
        else stripMarkupFrom textHasChanged before (some (tag ++ [c])) rest

/-- `StripMarkupL`. -/
def stripMarkupL (aBuffer : Text) : Except Failure Text := do
  let (textHasChanged, aBuffer) ← stripMarkupFrom aNewLineChar maxLength false [] none aBuffer
  .ok (if textHasChanged then trimAll p.isSpace aBuffer else aBuffer)

/-- The buffer in front of the last step of `CleanupMarkupL`. -/
def resolvedMarkupL (aBuffer : Text) : Except Failure Text := do
  let aBuffer ← stripMarkupL p aNewLineChar maxLength aBuffer
  let aBuffer ← resolveEntitiesL p aBuffer
  .ok (stripCDataMarkers p aBuffer)

/-- `CleanupMarkupL`. -/
def cleanupMarkupL (aBuffer : Text) : Except Failure Text := do
  let aBuffer ← resolvedMarkupL p aNewLineChar maxLength aBuffer
  let aBuffer ← stripMarkupL p aNewLineChar maxLength aBuffer
  .ok (trim p aBuffer)

/-! ## What is meant -/

/-- The text behind what is held back, with each entity replaced once. -/
def resolveOnceFrom (held : Option Text) : Text → Text
  | [] => heldText held
  | c :: rest =>
    if c = 38 then heldText held ++ resolveOnceFrom (some []) rest
    else
      match held with
      | none => c :: resolveOnceFrom none rest
      | some name =>
        if c = 59 then
          match resolveL p name with
          | .ok entityCode => entityCode :: resolveOnceFrom none rest
          | .error _ => heldText held ++ 59 :: resolveOnceFrom none rest
        else resolveOnceFrom (some (name ++ [c])) rest

/-- Each entity of a text replaced once. -/
def resolveOnce (t : Text) : Text := resolveOnceFrom p none t

/-- Each entity has a name, and behind one that gives an ampersand no semicolon stands in front of
the next ampersand. -/
def ReadOnceFrom (held : Option Text) : Text → Prop
  | [] => True
  | c :: rest =>
    if c = 38 then ReadOnceFrom (some []) rest
    else
      match held with
      | none => ReadOnceFrom none rest
      | some name =>
        if c = 59 then
          name ≠ [] ∧ (resolveL p name = .ok 38 → 59 ∉ rest.takeWhile (· ≠ 38)) ∧
            ReadOnceFrom none rest
        else ReadOnceFrom (some (name ++ [c])) rest

def ReadOnce (t : Text) : Prop := ReadOnceFrom p none t

/-- A `<`, other characters than brackets, and a `>`. -/
abbrev HasTag (t : Text) : Prop := HasPair 60 62 t

/-- A tag with tags in it. -/
abbrev NestedTag (t : Text) : Prop := Nested 60 62 t

/-- What the functions are meant to do with a text. -/
structure CleansMarkup (aBuffer : Text) : Prop where
  resolved : resolveEntitiesL p aBuffer = .ok (resolveOnce p aBuffer)
  stripped : ∃ t, stripMarkupL p aNewLineChar maxLength aBuffer = .ok t ∧
    t.length ≤ aBuffer.length
  unmarked : (stripCDataMarkers p aBuffer).length ≤ aBuffer.length
  fits : cleanupMarkupL p aNewLineChar maxLength aBuffer ≠ .error .panic
  noTag : ∀ t, cleanupMarkupL p aNewLineChar maxLength aBuffer = .ok t → ¬ HasTag t

end

/-! ## Entities -/

section

variable {p : Platform}

theorem resolveL_of_ne_nil {name : Text} (h : name ≠ []) :
    ∃ entityCode, resolveL p name = .ok entityCode := by
  have hlength : ¬ name.length < 1 := by
    have := List.length_pos_of_ne_nil h
    omega
  unfold resolveL
  rw [if_neg hlength]
  cases resolveNumericL p name with
  | none => exact ⟨_, rfl⟩
  | some ucs2Value => exact ⟨_, rfl⟩

theorem resolveL_nil : resolveL p [] = .error (.leave kErrCorrupt) := rfl

/-! The steps of the loop, and what is meant there. -/

theorem resolveFrom_nil (before : Text) (held : Option Text) :
    resolveFrom p before held [] = .ok (before ++ heldText held) := by
  rw [resolveFrom]

theorem resolveFrom_amp (before : Text) (held : Option Text) (rest : Text) :
    resolveFrom p before held (38 :: rest) = resolveFrom p (before ++ heldText held) (some []) rest := by
  conv_lhs => unfold resolveFrom
  simp only [if_true]

theorem resolveFrom_none {c : UInt16} (hc : c ≠ 38) (before rest : Text) :
    resolveFrom p before none (c :: rest) = resolveFrom p (before ++ [c]) none rest := by
  conv_lhs => unfold resolveFrom
  simp only [hc, if_false]

theorem resolveFrom_semi {name : Text} {entityCode : UInt16} (h : resolveL p name = .ok entityCode)
    (before rest : Text) :
    resolveFrom p before (some name) (59 :: rest) = resolveFrom p before none (entityCode :: rest) := by
  have hne : (59 : UInt16) ≠ 38 := by decide
  conv_lhs => unfold resolveFrom
  simp only [hne, if_false, if_true]
  split
  · rename_i herror
    rw [h] at herror
    cases herror
  · rename_i hok
    rw [h] at hok
    rw [Except.ok.inj hok]

theorem resolveFrom_semi_nil (before rest : Text) :
    resolveFrom p before (some []) (59 :: rest) = .error (.leave kErrCorrupt) := by
  rw [resolveFrom, if_neg (by decide)]
  rfl

theorem resolveFrom_some {c : UInt16} (hc : c ≠ 38) (hs : c ≠ 59) (before name rest : Text) :
    resolveFrom p before (some name) (c :: rest) = resolveFrom p before (some (name ++ [c])) rest := by
  rw [resolveFrom, if_neg hc]
  simp only [hs, if_false]

theorem resolveOnceFrom_amp (held : Option Text) (rest : Text) :
    resolveOnceFrom p held (38 :: rest) = heldText held ++ resolveOnceFrom p (some []) rest := by
  conv_lhs => unfold resolveOnceFrom
  simp only [if_true]

theorem resolveOnceFrom_none {c : UInt16} (hc : c ≠ 38) (rest : Text) :
    resolveOnceFrom p none (c :: rest) = c :: resolveOnceFrom p none rest := by
  conv_lhs => unfold resolveOnceFrom
  simp only [hc, if_false]

theorem resolveOnceFrom_semi {name : Text} {entityCode : UInt16}
    (h : resolveL p name = .ok entityCode) (rest : Text) :
    resolveOnceFrom p (some name) (59 :: rest) = entityCode :: resolveOnceFrom p none rest := by
  rw [resolveOnceFrom, if_neg (by decide)]
  simp only [if_true, h]

theorem resolveOnceFrom_some {c : UInt16} (hc : c ≠ 38) (hs : c ≠ 59) (name rest : Text) :
    resolveOnceFrom p (some name) (c :: rest) = resolveOnceFrom p (some (name ++ [c])) rest := by
  rw [resolveOnceFrom, if_neg hc]
  simp only [hs, if_false]

theorem heldText_append (name : Text) (c : UInt16) :
    heldText (some (name ++ [c])) = heldText (some name) ++ [c] := rfl

/-- An ampersand with no semicolon in front of the next one is a character like others. -/
theorem resolveFrom_some_of_not_mem {rest : Text} (h : 59 ∉ rest.takeWhile (· ≠ 38)) (before : Text)
    (name : Text) :
    resolveFrom p before (some name) rest =
      resolveFrom p (before ++ heldText (some name)) none rest := by
  induction rest generalizing name with
  | nil =>
    rw [resolveFrom_nil, resolveFrom_nil]
    simp [heldText]
  | cons c rest ih =>
    by_cases hc : c = 38
    · rw [hc, resolveFrom_amp, resolveFrom_amp]
      simp [heldText]
    · have htake : (c :: rest).takeWhile (· ≠ 38) = c :: rest.takeWhile (· ≠ 38) := by
        simp [hc]
      rw [htake, List.mem_cons, not_or] at h
      obtain ⟨hs, hrest⟩ := h
      rw [resolveFrom_some hc (Ne.symm hs), ih hrest, resolveFrom_none hc, heldText_append,
        List.append_assoc]

/-- What is held back does not make the text longer. -/
theorem length_resolveOnceFrom_some (name rest : Text) :
    (resolveOnceFrom p (some name) rest).length ≤
      name.length + 1 + (resolveOnceFrom p none rest).length := by
  induction rest generalizing name with
  | nil => simp [resolveOnceFrom, heldText]
  | cons c rest ih =>
    by_cases hc : c = 38
    · rw [hc, resolveOnceFrom_amp, resolveOnceFrom_amp]
      simp [heldText]
    · rw [resolveOnceFrom_none hc]
      by_cases hs : c = 59
      · rw [hs]
        by_cases hname : name = []
        · rw [hname, resolveOnceFrom, if_neg (by decide)]
          simp [resolveL_nil, heldText]
        · obtain ⟨entityCode, hcode⟩ := resolveL_of_ne_nil (p := p) hname
          rw [resolveOnceFrom_semi hcode]
          simp only [List.length_cons]
          omega
      · rw [resolveOnceFrom_some hc hs]
        have := ih (name ++ [c])
        simp only [List.length_append, List.length_cons, List.length_nil] at this ⊢
        omega

theorem length_resolveFrom_le {before : Text} {held : Option Text} {rest u : Text}
    (h : resolveFrom p before held rest = .ok u) :
    u.length ≤ before.length + (resolveOnceFrom p held rest).length := by
  fun_induction resolveFrom p before held rest with
  | case1 before held =>
    rw [← Except.ok.inj h, resolveOnceFrom, List.length_append]
  | case2 before held rest ih =>
    have hu := ih h
    rw [resolveOnceFrom_amp]
    simp only [List.length_append] at hu ⊢
    omega
  | case3 before c rest hc ih =>
    have hu := ih h
    rw [resolveOnceFrom_none hc]
    simp only [List.length_append, List.length_cons, List.length_nil] at hu ⊢
    omega
  | case4 => cases h
  | case5 before rest name entityCode hcode hsemi ih =>
    have hu := ih h
    rw [resolveOnceFrom_semi hcode]
    by_cases hamp : entityCode = 38
    · -- The ampersand is held back.
      rw [hamp, resolveOnceFrom_amp] at hu
      have hheld := length_resolveOnceFrom_some (p := p) [] rest
      simp only [heldText, List.nil_append, List.length_nil, List.length_cons] at hu hheld ⊢
      omega
    · rw [resolveOnceFrom_none hamp] at hu
      exact hu
  | case6 before c rest hc name hsemi ih =>
    rw [resolveOnceFrom_some hc hsemi]
    exact ih h

/-- A semicolon in front of the next ampersand makes the text shorter. -/
theorem length_resolveFrom_lt {before name rest u : Text}
    (h : resolveFrom p before (some name) rest = .ok u) (hsemi : 59 ∈ rest.takeWhile (· ≠ 38)) :
    u.length < before.length + name.length + 1 + (resolveOnceFrom p none rest).length := by
  induction rest generalizing name with
  | nil => exact absurd hsemi List.not_mem_nil
  | cons c rest ih =>
    by_cases hc : c = 38
    · simp [hc] at hsemi
    · have htake : (c :: rest).takeWhile (· ≠ 38) = c :: rest.takeWhile (· ≠ 38) := by
        simp [hc]
      rw [htake, List.mem_cons] at hsemi
      rw [resolveOnceFrom_none hc]
      by_cases hs : c = 59
      · rw [hs] at h
        by_cases hname : name = []
        · rw [hname, resolveFrom_semi_nil] at h
          cases h
        · obtain ⟨entityCode, hcode⟩ := resolveL_of_ne_nil (p := p) hname
          have hlength := length_resolveFrom_le h
          rw [resolveOnceFrom_semi hcode] at hlength
          have hpos := List.length_pos_of_ne_nil hname
          simp only [List.length_cons] at hlength ⊢
          omega
      · rw [resolveFrom_some hc hs] at h
        have hlength := ih h (hsemi.resolve_left (Ne.symm hs))
        simp only [List.length_append, List.length_cons, List.length_nil] at hlength ⊢
        omega

theorem resolveFrom_iff_readOnceFrom (before : Text) (held : Option Text) (rest : Text) :
    resolveFrom p before held rest = .ok (before ++ resolveOnceFrom p held rest) ↔
      ReadOnceFrom p held rest := by
  induction rest generalizing before held with
  | nil => simp [resolveFrom_nil, resolveOnceFrom, ReadOnceFrom]
  | cons c rest ih =>
    by_cases hc : c = 38
    · have hread : ReadOnceFrom p held (38 :: rest) ↔ ReadOnceFrom p (some []) rest := by
        conv_lhs => unfold ReadOnceFrom
        simp only [if_true]
      rw [hc, resolveFrom_amp, resolveOnceFrom_amp, hread, ← List.append_assoc]
      exact ih _ _
    · cases held with
      | none =>
        have hread : ReadOnceFrom p none (c :: rest) ↔ ReadOnceFrom p none rest := by
          conv_lhs => unfold ReadOnceFrom
          simp only [hc, if_false]
        rw [resolveFrom_none hc, resolveOnceFrom_none hc, hread]
        have hih := ih (before ++ [c]) none
        rwa [List.append_assoc] at hih
      | some name =>
        by_cases hs : c = 59
        · rw [hs, ReadOnceFrom, if_neg (by decide)]
          simp only [if_true]
          by_cases hname : name = []
          · rw [hname, resolveFrom_semi_nil]
            simp
          · obtain ⟨entityCode, hcode⟩ := resolveL_of_ne_nil (p := p) hname
            rw [resolveFrom_semi hcode, resolveOnceFrom_semi hcode, hcode]
            have hih := ih (before ++ [entityCode]) none
            rw [List.append_assoc, List.singleton_append] at hih
            by_cases hamp : entityCode = 38
            · rw [hamp] at hih ⊢
              rw [resolveFrom_amp]
              by_cases hmem : 59 ∈ rest.takeWhile (· ≠ 38)
              · refine iff_of_false ?_ fun h => h.2.1 rfl hmem
                intro h
                have hlength := length_resolveFrom_lt h hmem
                simp only [heldText, List.append_nil, List.length_append, List.length_cons,
                  List.length_nil] at hlength
                omega
              · rw [resolveFrom_some_of_not_mem hmem]
                simp only [heldText, List.append_nil]
                rw [hih]
                exact ⟨fun h => ⟨hname, fun _ => hmem, h⟩, fun h => h.2.2⟩
            · rw [resolveFrom_none hamp, hih]
              simp [hname, hamp]
        · rw [resolveFrom_some hc hs, resolveOnceFrom_some hc hs, ReadOnceFrom, if_neg hc]
          simp only [hs, if_false]
          exact ih _ _

/-- Entities are replaced once if and only if none begins with the value of another. -/
theorem resolveEntitiesL_iff_readOnce (t : Text) :
    resolveEntitiesL p t = .ok (resolveOnce p t) ↔ ReadOnce p t :=
  resolveFrom_iff_readOnceFrom [] none t

theorem length_resolveEntitiesL_le {t u : Text} (h : resolveEntitiesL p t = .ok u) :
    u.length ≤ t.length := by
  by_cases hfree : EntityFree t
  · rw [resolveEntitiesL_of_entityFree hfree] at h
    rw [Except.ok.inj h]
  · exact (resolveEntitiesL_shorter h hfree).le

/-! ## White space and markers -/

theorem length_squeeze_le (isSpace : UInt16 → Bool) (afterSpace : Bool) (t : Text) :
    (squeeze isSpace afterSpace t).length ≤ t.length := by
  induction t generalizing afterSpace with
  | nil => exact le_rfl
  | cons c rest ih =>
    have htrue := ih true
    have hfalse := ih false
    rw [squeeze]
    split_ifs
    all_goals
      simp only [List.length_cons]
      omega

theorem length_trimAll_le (isSpace : UInt16 → Bool) (t : Text) :
    (trimAll isSpace t).length ≤ t.length :=
  (length_squeeze_le isSpace false _).trans
    ((List.rdropWhile_prefix _ _).length_le.trans (List.dropWhile_suffix _).length_le)

theorem length_stripFrom_le (changed markerStartFound : Bool) (before rest : Text) :
    (stripFrom changed markerStartFound before rest).2.length ≤ before.length + rest.length := by
  fun_induction stripFrom changed markerStartFound before rest with
  | case1 => exact le_rfl
  | case2 changed markerStartFound before c tail hmarker ih =>
    refine ih.trans ?_
    simp only [List.length_drop, List.length_cons]
    omega
  | case3 changed markerStartFound before c tail hmarker hend ih =>
    refine ih.trans ?_
    simp only [List.length_drop, List.length_cons]
    omega
  | case4 changed markerStartFound before c tail hmarker hend ih =>
    refine ih.trans ?_
    simp only [List.length_append, List.length_cons, List.length_nil]
    omega

theorem length_stripCDataMarkers_le (t : Text) : (stripCDataMarkers p t).length ≤ t.length := by
  have hstrip := length_stripFrom_le false false [] t
  rw [List.length_nil, Nat.zero_add] at hstrip
  unfold stripCDataMarkers
  dsimp only
  split
  · exact (length_trimAll_le p.isSpace _).trans hstrip
  · exact hstrip

/-- White space is no bracket. -/
theorem ne_bracket_of_isSpace {c : UInt16} (h : p.isSpace c = true) : c ≠ 60 ∧ c ≠ 62 := by
  constructor
  · rintro rfl
    rw [p.isSpace_ascii 60 (by decide)] at h
    exact absurd h (by decide)
  · rintro rfl
    rw [p.isSpace_ascii 62 (by decide)] at h
    exact absurd h (by decide)

theorem brackets_dropWhile (t : Text) :
    brackets 60 62 (t.dropWhile p.isSpace) = brackets 60 62 t := by
  have hspace : brackets 60 62 (t.takeWhile p.isSpace) = [] :=
    brackets_eq_nil fun c hc => ne_bracket_of_isSpace (List.mem_takeWhile_imp hc)
  conv_rhs => rw [← List.takeWhile_append_dropWhile (p := p.isSpace) (l := t)]
  rw [brackets_append, hspace, List.nil_append]

theorem brackets_rdropWhile (t : Text) :
    brackets 60 62 (t.rdropWhile p.isSpace) = brackets 60 62 t := by
  have hreverse : ∀ w : Text, brackets 60 62 w.reverse = (brackets 60 62 w).reverse := by
    intro w
    simp [brackets]
  rw [List.rdropWhile, hreverse, brackets_dropWhile, hreverse, List.reverse_reverse]

theorem brackets_squeeze (afterSpace : Bool) (t : Text) :
    brackets 60 62 (squeeze p.isSpace afterSpace t) = brackets 60 62 t := by
  induction t generalizing afterSpace with
  | nil => rfl
  | cons c rest ih =>
    have hcons : ∀ flag, brackets 60 62 (c :: squeeze p.isSpace flag rest) =
        brackets 60 62 (c :: rest) := by
      intro flag
      rw [← List.singleton_append, brackets_append, ih flag, ← brackets_append,
        List.singleton_append]
    rw [squeeze]
    split_ifs with hspace hafter
    · obtain ⟨hopens, hcloses⟩ := ne_bracket_of_isSpace hspace
      rw [ih, brackets_cons_of_ne hopens hcloses]
    · exact hcons true
    · exact hcons false

theorem brackets_trim (t : Text) : brackets 60 62 (trim p t) = brackets 60 62 t := by
  rw [trim, brackets_rdropWhile, brackets_dropWhile]

theorem brackets_trimAll (t : Text) : brackets 60 62 (trimAll p.isSpace t) = brackets 60 62 t := by
  rw [trimAll, brackets_squeeze, brackets_rdropWhile, brackets_dropWhile]

/-! ## What is left of the markup -/

theorem brackets_heldTag {held : Option Text}
    (hheld : ∀ tag, held = some tag → ∀ c ∈ tag, c ≠ 60 ∧ c ≠ 62) :
    brackets 60 62 (heldTag held) = if held.isSome then [60] else [] := by
  cases held with
  | none => rfl
  | some tag => simp [heldTag, brackets_eq_nil (hheld tag rfl)]

/-- The loop has room for a new line, and leaves the brackets that a scan leaves. -/
theorem stripMarkupFrom_spec {aNewLineChar : UInt16} (hchar : aNewLineChar ≠ 60 ∧ aNewLineChar ≠ 62)
    {maxLength : Nat} (changed : Bool) (before : Text) (held : Option Text) (rest : Text)
    (hroom : (before ++ heldTag held ++ rest).length ≤ maxLength)
    (hheld : ∀ tag, held = some tag → ∀ c ∈ tag, c ≠ 60 ∧ c ≠ 62) :
    ∃ changed' t, stripMarkupFrom aNewLineChar maxLength changed before held rest =
        .ok (changed', t) ∧
      t.length ≤ (before ++ heldTag held ++ rest).length ∧
      brackets 60 62 t = brackets 60 62 before ++ deletePairs 60 62 held.isSome rest := by
  induction rest generalizing changed before held with
  | nil =>
    refine ⟨changed, before ++ heldTag held, rfl, ?_, ?_⟩
    · rw [List.append_nil]
    · rw [brackets_append, brackets_heldTag hheld, deletePairs]
  | cons c rest ih =>
    by_cases hopens : c = 60
    · subst hopens
      obtain ⟨changed', t, hrun, hlength, hbrackets⟩ := ih changed (before ++ heldTag held) (some [])
        (by simpa [heldTag] using hroom) (by simp)
      refine ⟨changed', t, ?_, ?_, ?_⟩
      · rw [← hrun]
        simp only [stripMarkupFrom, if_true]
      · simpa [heldTag] using hlength
      · rw [hbrackets, brackets_append, brackets_heldTag hheld, List.append_assoc, deletePairs,
          if_pos rfl]
        cases held with
        | none => rfl
        | some tag => rfl
    · cases held with
      | none =>
        obtain ⟨changed', t, hrun, hlength, hbrackets⟩ := ih changed (before ++ [c]) none
          (by simpa [heldTag] using hroom) (by simp)
        refine ⟨changed', t, ?_, ?_, ?_⟩
        · rw [← hrun]
          simp only [stripMarkupFrom, hopens, if_false]
        · simpa [heldTag] using hlength
        · rw [hbrackets, brackets_append, List.append_assoc]
          by_cases hcloses : c = 62
          · rw [hcloses]
            rfl
          · rw [brackets_cons_of_ne hopens hcloses, deletePairs, if_neg hopens, if_neg hcloses]
            rfl
      | some tag =>
        by_cases hcloses : c = 62
        · subst hcloses
          have hdelete : deletePairs 60 62 (some tag).isSome (62 :: rest) =
              deletePairs (60 : UInt16) 62 false rest := rfl
          by_cases hnewLine : aNewLineChar ≠ 0 ∧ isNewLineTag (60 :: (tag ++ [62])) = true
          · have hlengths : (before ++ heldTag (some tag) ++ 62 :: rest).length =
                (before ++ rest).length + tag.length + 2 := by
              simp only [heldTag, List.length_append, List.length_cons]
              omega
            have hfits : ¬ maxLength < (before ++ rest).length + 1 := by omega
            obtain ⟨changed', t, hrun, hlength, hbrackets⟩ := ih true (before ++ [aNewLineChar]) none
              (by
                simp only [heldTag, List.append_nil, List.length_append, List.length_cons,
                  List.length_nil] at hlengths hroom ⊢
                omega) (by simp)
            refine ⟨changed', t, ?_, ?_, ?_⟩
            · rw [← hrun]
              simp only [stripMarkupFrom, hopens, if_false, if_true, hnewLine, and_self, hfits,
                ne_eq, not_false_eq_true]
            · simp only [heldTag, List.append_nil, List.length_append, List.length_cons,
                List.length_nil] at hlength ⊢
              omega
            · rw [hbrackets, brackets_append, brackets_cons_of_ne hchar.1 hchar.2, hdelete]
              simp
          · obtain ⟨changed', t, hrun, hlength, hbrackets⟩ := ih true before none
              (by
                simp only [heldTag, List.append_nil, List.length_append, List.length_cons] at hroom ⊢
                omega) (by simp)
            refine ⟨changed', t, ?_, ?_, ?_⟩
            · rw [← hrun]
              simp only [stripMarkupFrom, hopens, if_false, if_true, hnewLine]
            · simp only [heldTag, List.append_nil, List.length_append, List.length_cons] at hlength ⊢
              omega
            · rw [hbrackets, hdelete]
              rfl
        · obtain ⟨changed', t, hrun, hlength, hbrackets⟩ := ih changed before (some (tag ++ [c]))
            (by simpa [heldTag] using hroom) (by
              rintro tag' rfl' d hd
              obtain rfl := Option.some.inj rfl'
              rcases List.mem_append.mp hd with hd | hd
              · exact hheld tag rfl d hd
              · rw [List.mem_singleton.mp hd]
                exact ⟨hopens, hcloses⟩)
          refine ⟨changed', t, ?_, ?_, ?_⟩
          · rw [← hrun]
            simp only [stripMarkupFrom, hopens, if_false, hcloses]
          · simpa [heldTag] using hlength
          · rw [hbrackets, deletePairs, if_neg hopens, if_neg hcloses]
            rfl

theorem stripMarkupL_spec {aNewLineChar : UInt16} (hchar : aNewLineChar ≠ 60 ∧ aNewLineChar ≠ 62)
    {maxLength : Nat} {aBuffer : Text} (hroom : aBuffer.length ≤ maxLength) :
    ∃ t, stripMarkupL p aNewLineChar maxLength aBuffer = .ok t ∧ t.length ≤ aBuffer.length ∧
      brackets 60 62 t = deletePairs 60 62 false aBuffer := by
  obtain ⟨changed, t, hrun, hlength, hbrackets⟩ := stripMarkupFrom_spec hchar false [] none aBuffer
    (by simpa [heldTag] using hroom) nofun
  refine ⟨if changed then trimAll p.isSpace t else t, ?_, ?_, ?_⟩
  · rw [stripMarkupL, hrun]
    rfl
  · rw [List.nil_append, heldTag, List.nil_append] at hlength
    split
    · exact (length_trimAll_le p.isSpace t).trans hlength
    · exact hlength
  · rw [brackets_nil, List.nil_append] at hbrackets
    split
    · rw [brackets_trimAll]
      exact hbrackets
    · exact hbrackets

/-- A tag is left of the text if and only if one was in another. -/
theorem hasTag_stripMarkupL_iff {aNewLineChar : UInt16}
    (hchar : aNewLineChar ≠ 60 ∧ aNewLineChar ≠ 62) {maxLength : Nat} {aBuffer t : Text}
    (hroom : aBuffer.length ≤ maxLength)
    (h : stripMarkupL p aNewLineChar maxLength aBuffer = .ok t) :
    HasTag (trim p t) ↔ NestedTag aBuffer := by
  obtain ⟨t', hrun, -, hbrackets⟩ := stripMarkupL_spec (p := p) hchar hroom
  obtain rfl := Except.ok.inj (hrun.symm.trans h)
  have hne : (60 : UInt16) ≠ 62 := by decide
  rw [HasTag, hasPair_iff hne, brackets_trim, hbrackets, infix_deletePairs_iff hne]

/-! ## The whole clean-up -/

theorem resolvedMarkupL_cases {aNewLineChar : UInt16}
    (hchar : aNewLineChar ≠ 60 ∧ aNewLineChar ≠ 62) {maxLength : Nat} {aBuffer : Text}
    (hroom : aBuffer.length ≤ maxLength) :
    (∃ e, resolvedMarkupL p aNewLineChar maxLength aBuffer = .error e ∧ e ≠ .panic) ∨
      ∃ t, resolvedMarkupL p aNewLineChar maxLength aBuffer = .ok t ∧ t.length ≤ maxLength := by
  obtain ⟨t, hstrip, hlength, -⟩ := stripMarkupL_spec (p := p) hchar hroom
  rw [resolvedMarkupL, hstrip]
  simp only [bind, Except.bind]
  cases hresolve : resolveEntitiesL p t with
  | error e =>
    refine .inl ⟨e, rfl, ?_⟩
    rintro rfl
    exact resolveFrom_ne_panic p [] none t hresolve
  | ok u =>
    have hresolved := length_resolveEntitiesL_le hresolve
    have hmarkers := length_stripCDataMarkers_le (p := p) u
    exact .inr ⟨_, rfl, by omega⟩

/-- A text is cleaned if and only if no entity begins with the value of another, and no tag is in
another when the markup is stripped for the last time. -/
theorem cleansMarkup_iff (p : Platform) {aNewLineChar : UInt16}
    (hchar : aNewLineChar ≠ 60 ∧ aNewLineChar ≠ 62) {maxLength : Nat} {aBuffer : Text}
    (hroom : aBuffer.length ≤ maxLength) :
    CleansMarkup p aNewLineChar maxLength aBuffer ↔
      ReadOnce p aBuffer ∧
        ∀ t, resolvedMarkupL p aNewLineChar maxLength aBuffer = .ok t → ¬ NestedTag t := by
  constructor
  · intro hcleans
    refine ⟨(resolveEntitiesL_iff_readOnce aBuffer).mp hcleans.resolved, ?_⟩
    intro t hresolved hnested
    rcases resolvedMarkupL_cases (p := p) hchar hroom with ⟨e, herror, -⟩ | ⟨t', hok, hlength⟩
    · rw [herror] at hresolved
      cases hresolved
    · obtain rfl := Except.ok.inj (hok.symm.trans hresolved)
      obtain ⟨u, hstrip, -, -⟩ := stripMarkupL_spec (p := p) hchar hlength
      refine hcleans.noTag (trim p u) ?_ ((hasTag_stripMarkupL_iff hchar hlength hstrip).mpr hnested)
      rw [cleanupMarkupL, hresolved]
      simp only [bind, Except.bind, hstrip]
  · rintro ⟨honce, hnested⟩
    obtain ⟨t, hstrip, hlength, -⟩ := stripMarkupL_spec (p := p) hchar hroom
    refine ⟨(resolveEntitiesL_iff_readOnce aBuffer).mpr honce, ⟨t, hstrip, hlength⟩,
      length_stripCDataMarkers_le aBuffer, ?_, ?_⟩
    · rw [cleanupMarkupL]
      rcases resolvedMarkupL_cases (p := p) hchar hroom with ⟨e, herror, hpanic⟩ | ⟨v, hok, hfits⟩
      · rw [herror]
        exact fun h => hpanic (Except.error.inj h)
      · obtain ⟨u, hagain, -, -⟩ := stripMarkupL_spec (p := p) hchar hfits
        rw [hok]
        simp only [bind, Except.bind, hagain]
        exact fun h => (nomatch h)
    · intro u hu
      rw [cleanupMarkupL] at hu
      rcases resolvedMarkupL_cases (p := p) hchar hroom with ⟨e, herror, -⟩ | ⟨v, hok, hfits⟩
      · rw [herror] at hu
        cases hu
      · obtain ⟨w, hagain, -, -⟩ := stripMarkupL_spec (p := p) hchar hfits
        rw [hok] at hu
        simp only [bind, Except.bind, hagain] at hu
        rw [← Except.ok.inj hu, hasTag_stripMarkupL_iff hchar hfits hagain]
        exact hnested v hok

end

/-- A text in two tags, with an entity. -/
theorem cleansMarkup_iff_bold :
    CleansMarkup asciiPlatform 0 256 (lit "<p>A<b>&#66;</b></p>") := by
  have hresolve : resolveL asciiPlatform (lit "#66") = .ok 66 := rfl
  have hname : lit "#66" ≠ [] := by decide
  have hvalue : resolveL asciiPlatform (lit "#66") ≠ .ok 38 := by
    rw [hresolve]
    exact fun h => absurd (Except.ok.inj h) (by decide)
  have hread : ReadOnce asciiPlatform (lit "A&#66;") := ⟨hname, fun h => absurd h hvalue, trivial⟩
  have hresolved : resolveEntitiesL asciiPlatform (lit "A&#66;") = .ok (lit "AB") :=
    (resolveEntitiesL_iff_readOnce _).mpr hread
  have hstrip : stripMarkupL asciiPlatform 0 256 (lit "<p>A<b>&#66;</b></p>") =
      .ok (lit "A&#66;") := rfl
  have hmarkers : stripCDataMarkers asciiPlatform (lit "AB") = lit "AB" := by
    rw [stripCDataMarkers, stripFrom_of_not_mem false [] (by decide)]
    rfl
  have hbrackets : brackets 60 62 (lit "AB") = [] := by decide
  refine (cleansMarkup_iff asciiPlatform (by decide) (by decide)).mpr ⟨?_, ?_⟩
  · exact ⟨hname, fun h => absurd h hvalue, trivial⟩
  · rw [resolvedMarkupL, hstrip]
    simp only [bind, Except.bind, hresolved, hmarkers]
    rintro t ht ⟨k, hnested⟩
    obtain rfl := Except.ok.inj ht
    rw [hbrackets] at hnested
    exact absurd hnested (by simp)

/-- The entity of an ampersand begins another one. -/
theorem not_cleansMarkup_amp :
    ¬ ∀ (aNewLineChar : UInt16) (maxLength : Nat) (aBuffer : Text),
      aNewLineChar ≠ 60 ∧ aNewLineChar ≠ 62 → aBuffer.length ≤ maxLength →
        CleansMarkup asciiPlatform aNewLineChar maxLength aBuffer := by
  intro h
  have hresolve : resolveL asciiPlatform (lit "#38") = .ok 38 := rfl
  have hread : lit "#38" ≠ [] ∧
      (resolveL asciiPlatform (lit "#38") = .ok 38 → 59 ∉ (lit "lt;").takeWhile (· ≠ 38)) ∧ True :=
    (resolveEntitiesL_iff_readOnce (p := asciiPlatform) (lit "&#38;lt;")).mp
      (h 0 256 (lit "&#38;lt;") (by decide) (by decide)).resolved
  exact hread.2.1 hresolve (by decide)

end SymbianWeb.Feeds
