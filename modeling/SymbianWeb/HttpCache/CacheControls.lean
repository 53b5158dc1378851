import SymbianWeb.HttpCache.State
import SymbianWeb.Library.CString
import SymbianWeb.Library.Search
import Mathlib.Data.List.TakeWhile

/-!
# Cache-control directives

`GetCacheControls` reads the directives of a `Cache-Control` field one by one. A directive that
must have a value and has none ends the loop with an error. The variable for the value is shared:
a directive without a value leaves it as the directive before it has set it, and a `max-stale`
without a value reports what it finds there.

`reportsOwn_iff` says for which lists of directives each one is reported by its own text alone.
-/

set_option autoImplicit false

namespace SymbianWeb.HttpCache

open CString Search

/-- `KErrGeneral`. -/
def kErrGeneral : Int := -2

/-- The strings of the HTTP string table that a directive is compared with. -/
inductive Directive where
  | maxAge
  | minFresh
  | maxStale
  | sMaxAge
  | mustRevalidate
  | noCache
  | noStore
  | other
  deriving DecidableEq

/-- The string that is equal to a name; letter case does not matter. -/
def directiveOf (name : Des8) : Directive :=
  let name := name.map toLower
  if name = ascii "max-age" then .maxAge
  else if name = ascii "min-fresh" then .minFresh
  else if name = ascii "max-stale" then .maxStale
  else if name = ascii "s-maxage" then .sMaxAge
  else if name = ascii "must-revalidate" then .mustRevalidate
  else if name = ascii "no-cache" then .noCache
  else if name = ascii "no-store" then .noStore
  else .other

/-- Directives which must have values. -/
def Directive.mustHaveValue (d : Directive) : Bool :=
  d = .maxAge || d = .minFresh || d = .sMaxAge

/-- `temp = strtoul( .. )`, where `temp` is a `TInt`. -/
def strToInt (s : Des8) : Int := (strtoul s : Int).bmod 4294967296

/-- `ExtractCacheControlDirectiveValue`; `strtoul` never sets the end pointer to null. -/
def extractCacheControlDirectiveValue (aDirective : Directive) (aValue : Des8) : Int :=
  if aDirective.mustHaveValue = true ∨ aDirective = .maxStale then strToInt aValue else -1

/-- `GetCacheControlDirective` for a directive that is a string: the directive, and the value that
the shared variable then has. -/
def getCacheControlDirective (cacheDir : Des8) (value : Int) : Except Int (Directive × Int) :=
  match findSub [0x3d] cacheDir with
  | some endPos =>
      let aDirective := directiveOf (cacheDir.take endPos)
      .ok (aDirective,
        extractCacheControlDirectiveValue aDirective (cacheDir.drop (endPos + 1)))
  | none =>
      let aDirective := directiveOf cacheDir
      if aDirective.mustHaveValue then .error kErrGeneral else .ok (aDirective, value)

/-- What `GetCacheControls` reports. A caller that passes a null pointer for one of these does
not read it. -/
structure CacheControls where
  aMaxAge : Int := -1
  aMinFresh : Int := -1
  aMaxStale : Int := -1
  aMustRevalidate : Bool := false
  aNoCache : Bool := false
  aNoStore : Bool := false

/-- Report one directive. -/
def CacheControls.set (c : CacheControls) (directive : Directive) (value : Int) : CacheControls :=
  match directive with
  | .maxAge => { c with aMaxAge := value }
  | .minFresh => { c with aMinFresh := value }
  | .maxStale => { c with aMaxStale := value }
  | .mustRevalidate => { c with aMustRevalidate := true }
  | .noCache => { c with aNoCache := true }
  | .noStore => { c with aNoStore := true }
  | .sMaxAge | .other => c

/-- The loop of `GetCacheControls` over the parts of the field; a part that is no string is
`none`. -/
def controlsLoop : List (Option Des8) → Int → CacheControls → Int × CacheControls
  | [], _, c => (kErrNone, c)
  | none :: parts, value, c => controlsLoop parts value c
  | some cacheDir :: parts, value, c =>
      match getCacheControlDirective cacheDir value with
      | .error status => (status, c)
      | .ok (directive, value) => controlsLoop parts value (c.set directive value)

/-- `GetCacheControls`, with the parts of the field or the error with which `FieldPartsL` leaves;
`value` is what the uninitialised variable happens to hold. -/
def getCacheControls (aHeaders : Except Int (List (Option Des8))) (value : Int) :
    Int × CacheControls :=
  match aHeaders with
  | .error status => (status, {})
  | .ok parts => controlsLoop parts value {}

/-! ## Directives -/

/-- The name of a directive: what stands before the first `=`. -/
def directiveName (text : Des8) : Des8 := text.takeWhile (· ≠ 0x3d)

/-- Which directive a text is. -/
def kindOf (text : Des8) : Directive := directiveOf (directiveName text)

/-- A directive without a value that must have one. -/
def Malformed (text : Des8) : Prop := 0x3d ∉ text ∧ (kindOf text).mustHaveValue = true

instance (text : Des8) : Decidable (Malformed text) := inferInstanceAs (Decidable (_ ∧ _))

/-- A `max-stale` without a value. -/
def BareMaxStale (text : Des8) : Prop := 0x3d ∉ text ∧ kindOf text = .maxStale

instance (text : Des8) : Decidable (BareMaxStale text) := inferInstanceAs (Decidable (_ ∧ _))

/-- The value that a text gives its directive. -/
def ownValue (text : Des8) : Int :=
  extractCacheControlDirectiveValue (kindOf text) (text.drop ((directiveName text).length + 1))

theorem findSub_equals (text : Des8) :
    findSub [0x3d] text = if 0x3d ∈ text then some (directiveName text).length else none := by
  induction text with
  | nil => rfl
  | cons c text ih =>
      by_cases hc : c = 0x3d
      · subst hc
        rw [findSub, if_pos (by simp), if_pos List.mem_cons_self]
        rfl
      · have hpre : ¬ [0x3d] <+: c :: text := fun h => hc (List.cons_prefix_cons.1 h).1.symm
        have hname : directiveName (c :: text) = c :: directiveName text :=
          List.takeWhile_cons_of_pos (by simpa using hc)
        rw [findSub, if_neg hpre, ih, hname]
        by_cases hmem : 0x3d ∈ text
        · rw [if_pos hmem, if_pos (List.mem_cons_of_mem _ hmem)]
          rfl
        · rw [if_neg hmem, if_neg fun h => hmem ((List.mem_cons.1 h).resolve_left (Ne.symm hc))]
          rfl

theorem directiveName_of_not_mem {text : Des8} (h : 0x3d ∉ text) : directiveName text = text := by
  refine List.takeWhile_eq_self_iff.2 fun c hc => ?_
  have hne : c ≠ 0x3d := fun heq => h (heq ▸ hc)
  simpa using hne

/-- What one round of the loop reads. -/
theorem getCacheControlDirective_eq (text : Des8) (value : Int) :
    getCacheControlDirective text value =
      if Malformed text then .error kErrGeneral
      else .ok (kindOf text, if 0x3d ∈ text then ownValue text else value) := by
  rw [getCacheControlDirective, findSub_equals]
  by_cases hmem : 0x3d ∈ text
  · have htake : text.take (directiveName text).length = directiveName text :=
      List.prefix_iff_eq_take.1 (List.takeWhile_prefix _) |>.symm
    have hwell : ¬ Malformed text := fun h => h.1 hmem
    rw [if_pos hmem, if_pos hmem, if_neg hwell]
    dsimp only
    rw [htake]
    rfl
  · rw [if_neg hmem, if_neg hmem]
    dsimp only
    have hkind : kindOf text = directiveOf text := by
      rw [kindOf, directiveName_of_not_mem hmem]
    rw [← hkind]
    by_cases hmust : (kindOf text).mustHaveValue = true
    · have hbad : Malformed text := ⟨hmem, hmust⟩
      rw [if_pos hmust, if_pos hbad]
    · have hwell : ¬ Malformed text := fun h => hmust h.2
      rw [if_neg hmust, if_neg hwell]

/-! ## What is reported for a directive -/

/-- What is reported for a directive. -/
def CacheControls.report (c : CacheControls) : Directive → Int
  | .maxAge => c.aMaxAge
  | .minFresh => c.aMinFresh
  | .maxStale => c.aMaxStale
  | .mustRevalidate => c.aMustRevalidate.toInt
  | .noCache => c.aNoCache.toInt
  | .noStore => c.aNoStore.toInt
  | .sMaxAge | .other => 0

/-- A directive whose value is reported. -/
def Directive.hasValue (d : Directive) : Bool := d = .maxAge || d = .minFresh || d = .maxStale

/-- What is reported for a directive that is present with this value. -/
def Directive.reported (d : Directive) (value : Int) : Int :=
  if d.hasValue then value else if d = .sMaxAge ∨ d = .other then 0 else 1

/-- What is reported for a directive that is absent. -/
def Directive.absent (d : Directive) : Int := if d.hasValue then -1 else 0

@[simp] theorem report_default (d : Directive) : ({} : CacheControls).report d = d.absent := by
  cases d with
  | _ => rfl

theorem report_set (c : CacheControls) (d d' : Directive) (value : Int) :
    (c.set d value).report d' = if d = d' then d.reported value else c.report d' := by
  cases d with
  | _ =>
    cases d' with
    | _ => rfl

theorem reported_of_not_hasValue {d : Directive} (h : d.hasValue = false) (v v' : Int) :
    d.reported v = d.reported v' := by
  simp [Directive.reported, h]

/-- The text of a directive. -/
def Directive.text : Directive → Des8
  | .maxAge => ascii "max-age"
  | .minFresh => ascii "min-fresh"
  | .maxStale => ascii "max-stale"
  | .sMaxAge => ascii "s-maxage"
  | .mustRevalidate => ascii "must-revalidate"
  | .noCache => ascii "no-cache"
  | .noStore => ascii "no-store"
  | .other => []

theorem map_toLower_of_directiveOf {name : Des8} (h : directiveOf name ≠ .other) :
    name.map toLower = (directiveOf name).text := by
  unfold directiveOf at h ⊢
  dsimp only at h ⊢
  split_ifs at h ⊢ with h₁ h₂ h₃ h₄ h₅ h₆ h₇
  · exact h₁
  · exact h₂
  · exact h₃
  · exact h₄
  · exact h₅
  · exact h₆
  · exact h₇
  · exact absurd rfl h

section Lists

variable {texts pre post : List Des8} {text : Des8} {d : Directive} {value : Int}
  {c : CacheControls}

/-- One round of the loop. -/
theorem controlsLoop_cons (text : Des8) (texts : List Des8) (value : Int) (c : CacheControls) :
    controlsLoop ((text :: texts).map some) value c =
      if Malformed text then (kErrGeneral, c)
      else controlsLoop (texts.map some) (if 0x3d ∈ text then ownValue text else value)
        (c.set (kindOf text) (if 0x3d ∈ text then ownValue text else value)) := by
  rw [List.map_cons, controlsLoop, getCacheControlDirective_eq]
  by_cases hbad : Malformed text
  · rw [if_pos hbad, if_pos hbad]
  · rw [if_neg hbad, if_neg hbad]

/-- Nothing is reported for a directive that is not in the list, or only behind a malformed one. -/
theorem report_of_absent (h : ∀ text ∈ texts, kindOf text = d →
      ∃ pre m post, texts = pre ++ m :: post ∧ Malformed m ∧ ∀ t ∈ pre, kindOf t ≠ d) :
    (controlsLoop (texts.map some) value c).2.report d = c.report d := by
  induction texts generalizing value c with
  | nil => rfl
  | cons t texts ih =>
      rw [controlsLoop_cons]
      by_cases hbad : Malformed t
      · rw [if_pos hbad]
      · rw [if_neg hbad]
        have hkind : kindOf t ≠ d := by
          intro hkind
          obtain ⟨pre, m, post, hsplit, hm, hpre⟩ := h t List.mem_cons_self hkind
          cases pre with
          | nil =>
              rw [List.nil_append, List.cons.injEq] at hsplit
              exact hbad (hsplit.1 ▸ hm)
          | cons p pre =>
              rw [List.cons_append, List.cons.injEq] at hsplit
              exact hpre p List.mem_cons_self (hsplit.1 ▸ hkind)
        rw [ih, report_set, if_neg hkind]
        intro t' ht' hkind'
        obtain ⟨pre, m, post, hsplit, hm, hpre⟩ := h t' (List.mem_cons_of_mem _ ht') hkind'
        cases pre with
        | nil =>
            rw [List.nil_append, List.cons.injEq] at hsplit
            exact absurd (hsplit.1 ▸ hm) hbad
        | cons p pre =>
            rw [List.cons_append, List.cons.injEq] at hsplit
            exact ⟨pre, m, post, hsplit.2, hm, fun q hq => hpre q (List.mem_cons_of_mem _ hq)⟩

/-- A directive before which none is malformed is reported with its own value. -/
theorem report_of_present (hwell : ∀ t ∈ pre ++ [text], ¬ Malformed t)
    (hbare : ¬ BareMaxStale text) (hpost : ∀ t ∈ post, kindOf t ≠ kindOf text) :
    (controlsLoop ((pre ++ text :: post).map some) value c).2.report (kindOf text) =
      (kindOf text).reported (ownValue text) := by
  induction pre generalizing value c with
  | nil =>
      have hgood := hwell text (by simp)
      rw [List.nil_append, controlsLoop_cons, if_neg hgood, report_of_absent, report_set,
        if_pos rfl]
      · by_cases hmem : 0x3d ∈ text
        · rw [if_pos hmem]
        · -- neither a value that must be there nor one that may be
          refine reported_of_not_hasValue ?_ _ _
          have hmust : (kindOf text).mustHaveValue ≠ true := fun h => hgood ⟨hmem, h⟩
          have hstale : kindOf text ≠ .maxStale := fun h => hbare ⟨hmem, h⟩
          revert hmust hstale
          cases kindOf text with
          | _ => decide
      · exact fun t ht hkind => absurd hkind (hpost t ht)
  | cons t pre ih =>
      rw [List.cons_append, controlsLoop_cons, if_neg (hwell t (by simp))]
      exact ih fun t' ht' => hwell t' (List.mem_cons_of_mem _ ht')

/-- The loop on one directive alone. -/
theorem report_single (text : Des8) (value : Int) :
    (getCacheControls (.ok [some text]) value).2.report (kindOf text) =
      if Malformed text then (kindOf text).absent
      else (kindOf text).reported (if 0x3d ∈ text then ownValue text else value) := by
  have hloop := controlsLoop_cons text [] value {}
  rw [List.map_cons, List.map_nil] at hloop
  rw [getCacheControls, hloop]
  by_cases hbad : Malformed text
  · rw [if_pos hbad, if_pos hbad, report_default]
  · rw [if_neg hbad, if_neg hbad, controlsLoop, report_set, if_pos rfl]

end Lists

/-! ## Lists without repeated directives -/

/-- No directive is repeated; letter case does not matter. -/
def NoRepeats (texts : List Des8) : Prop :=
  (texts.map fun text => (directiveName text).map toLower).Nodup

instance (texts : List Des8) : Decidable (NoRepeats texts) :=
  inferInstanceAs (Decidable (List.Nodup _))

/-- Each directive of the list is reported as if it were alone, whatever the uninitialised
variable holds. -/
def ReportsOwn (texts : List Des8) : Prop :=
  ∀ text ∈ texts, ∀ value value' : Int,
    (getCacheControls (.ok (texts.map some)) value).2.report (kindOf text) =
      (getCacheControls (.ok [some text]) value').2.report (kindOf text)

/-- A text for which the same is reported as for one that is not there: its value is missing, no
value is reported for it at all, or its value is the number that stands for none. -/
def SaysNothing (text : Des8) : Prop :=
  Malformed text ∨ kindOf text = .sMaxAge ∨ kindOf text = .other ∨
    ((kindOf text).hasValue = true ∧ 0x3d ∈ text ∧ ownValue text = -1)

/-- Nobody leaves `max-stale` without a value, and what stands behind a malformed directive says
nothing. -/
def OwnOnly (texts : List Des8) : Prop :=
  (∀ text ∈ texts, ¬ BareMaxStale text) ∧
    ∀ pre m post, texts = pre ++ m :: post → Malformed m → ∀ text ∈ post, SaysNothing text

section Own

variable {texts pre post : List Des8} {text m : Des8} {value : Int}

theorem kindOf_ne_of_noRepeats (h : NoRepeats (pre ++ text :: post))
    (hkind : kindOf text ≠ .other) : ∀ t ∈ pre ++ post, kindOf t ≠ kindOf text := by
  intro t ht heq
  have hsame : (directiveName t).map toLower = (directiveName text).map toLower := by
    have htext : (directiveName text).map toLower = (kindOf text).text :=
      map_toLower_of_directiveOf hkind
    have ht' : (directiveName t).map toLower = (kindOf t).text :=
      map_toLower_of_directiveOf fun h => hkind (heq ▸ h)
    rw [htext, ht']
    exact congrArg Directive.text heq
  rw [NoRepeats, (List.perm_middle.map _).nodup_iff, List.map_cons, List.nodup_cons] at h
  exact h.1 (List.mem_map.2 ⟨t, ht, hsame⟩)

theorem report_other (c : CacheControls) {d : Directive} (h : d = .sMaxAge ∨ d = .other) :
    c.report d = d.absent := by
  obtain rfl | rfl := h
  · rfl
  · rfl

/-- Behind a malformed directive nothing is reported. -/
theorem report_behind (h : NoRepeats (pre ++ m :: post)) (hm : Malformed m)
    (htext : text ∈ m :: post) :
    (getCacheControls (.ok ((pre ++ m :: post).map some)) value).2.report (kindOf text) =
      (kindOf text).absent := by
  by_cases hkind : kindOf text = .other
  · exact report_other _ (.inr hkind)
  · rw [getCacheControls]
    rw [report_of_absent, report_default]
    intro t ht heq
    refine ⟨pre, m, post, rfl, hm, fun q hq hq' => ?_⟩
    -- the text stands behind `m`, and no text before `m` is the same directive
    obtain ⟨front, back, hsplit⟩ := List.append_of_mem htext
    have hlist : pre ++ m :: post = (pre ++ front) ++ text :: back := by
      rw [hsplit, List.append_assoc]
    rw [hlist] at h
    exact kindOf_ne_of_noRepeats h hkind q (by simp [hq]) hq'

theorem not_malformed_iff_of_not_bare (hbare : ¬ BareMaxStale text)
    (hvalue : (kindOf text).hasValue = true) : ¬ Malformed text ↔ 0x3d ∈ text := by
  constructor
  · intro hgood
    by_contra hmem
    have hmust : (kindOf text).mustHaveValue ≠ true := fun h => hgood ⟨hmem, h⟩
    have hstale : kindOf text ≠ .maxStale := fun h => hbare ⟨hmem, h⟩
    revert hmust hstale hvalue
    cases kindOf text with
    | _ => decide
  · exact fun hmem hbad => hbad.1 hmem

/-- When a directive alone is reported as if it were not there. -/
theorem report_single_absent_iff (hbare : ¬ BareMaxStale text) :
    (getCacheControls (.ok [some text]) value).2.report (kindOf text) = (kindOf text).absent ↔
      SaysNothing text := by
  rw [report_single]
  by_cases hbad : Malformed text
  · rw [if_pos hbad]
    exact ⟨fun _ => .inl hbad, fun _ => rfl⟩
  rw [if_neg hbad]
  by_cases hvalue : (kindOf text).hasValue = true
  · have hmem := (not_malformed_iff_of_not_bare hbare hvalue).1 hbad
    have hkind : kindOf text ≠ .sMaxAge ∧ kindOf text ≠ .other := by
      constructor
      · exact fun h => absurd (h ▸ hvalue) (by decide)
      · exact fun h => absurd (h ▸ hvalue) (by decide)
    rw [if_pos hmem, Directive.reported, Directive.absent, if_pos hvalue, if_pos hvalue]
    constructor
    · exact fun h => .inr (.inr (.inr ⟨hvalue, hmem, h⟩))
    · rintro (h | h | h | ⟨-, -, h⟩)
      · exact absurd h hbad
      · exact absurd h hkind.1
      · exact absurd h hkind.2
      · exact h
  · rw [Directive.reported, Directive.absent, if_neg hvalue, if_neg hvalue]
    by_cases hkind : kindOf text = .sMaxAge ∨ kindOf text = .other
    · rw [if_pos hkind]
      exact ⟨fun _ => hkind.elim (fun h => .inr (.inl h)) fun h => .inr (.inr (.inl h)),
        fun _ => rfl⟩
    · rw [if_neg hkind]
      constructor
      · exact fun h => absurd h (by decide)
      · rintro (h | h | h | ⟨h, -, -⟩)
        · exact absurd h hbad
        · exact absurd (.inl h) hkind
        · exact absurd (.inr h) hkind
        · exact absurd h hvalue

/-- In a list without repeats, each directive is reported by its own text exactly if nothing is
left to what stands before it. -/
theorem reportsOwn_iff (hnodup : NoRepeats texts) : ReportsOwn texts ↔ OwnOnly texts := by
  constructor
  · intro h
    have hbare : ∀ text ∈ texts, ¬ BareMaxStale text := by
      rintro text htext ⟨hmem, hkind⟩
      have hgood : ¬ Malformed text := fun hbad => absurd (hkind ▸ hbad.2) (by decide)
      have hzero := h text htext 0 0
      have hone := h text htext 0 1
      rw [report_single, if_neg hgood, if_neg hmem, hkind] at hzero hone
      exact absurd (hzero.symm.trans hone) (by decide)
    refine ⟨hbare, ?_⟩
    rintro pre m post rfl hm text htext
    rw [← @report_single_absent_iff text 0 (hbare text (by simp [htext])),
      ← h text (by simp [htext]) 0 0]
    exact report_behind hnodup hm (List.mem_cons_of_mem _ htext)
  · rintro ⟨hbare, hbehind⟩ text htext value value'
    obtain ⟨pre, post, rfl⟩ := List.append_of_mem htext
    by_cases hpre : ∃ m ∈ pre ++ [text], Malformed m
    · obtain ⟨m, hmem, hm⟩ := hpre
      rcases List.mem_append.1 hmem with hm' | hm'
      · -- a malformed directive stands before this one
        obtain ⟨front, back, rfl⟩ := List.append_of_mem hm'
        have hlist : (front ++ m :: back) ++ text :: post =
            front ++ m :: (back ++ text :: post) := by simp
        have hnothing := hbehind front m (back ++ text :: post) hlist hm text (by simp)
        rw [hlist] at hnodup ⊢
        rw [report_behind hnodup hm (by simp),
          (report_single_absent_iff (hbare text htext)).2 hnothing]
      · obtain rfl := List.mem_singleton.1 hm'
        rw [report_behind hnodup hm List.mem_cons_self, report_single, if_pos hm]
    · have hwell : ∀ t ∈ pre ++ [text], ¬ Malformed t := fun t ht hbad => hpre ⟨t, ht, hbad⟩
      have hgood := hwell text (by simp)
      by_cases hkind : kindOf text = .other
      · rw [report_other _ (.inr hkind), report_other _ (.inr hkind)]
      · rw [getCacheControls]
        rw [report_of_present hwell (hbare text htext) fun t ht =>
          kindOf_ne_of_noRepeats hnodup hkind t (List.mem_append_right _ ht), report_single,
          if_neg hgood]
        by_cases hmem : 0x3d ∈ text
        · rw [if_pos hmem]
        · rw [if_neg hmem]
          refine reported_of_not_hasValue ?_ _ _
          rw [← Bool.not_eq_true]
          exact fun hvalue => hmem ((not_malformed_iff_of_not_bare (hbare text htext) hvalue).1 hgood)

end Own

end SymbianWeb.HttpCache
