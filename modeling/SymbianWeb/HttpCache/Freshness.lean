import SymbianWeb.HttpCache.CacheControls

/-!
# When a cached response is fresh

`CacheTimeIsFresh` compares the age of a cached response with the time for which it is fresh. Both
are in microseconds. The directives of the request narrow or widen what it accepts.

A number of seconds goes through `strtoul` into a `TInt`: from 2^31 on it is read as a negative
number, and from 2^32 - 1 on as the -1 that stands for a directive which is not there.
`monoMaxAge_iff` and `monoMaxStale_iff` say for which numbers a larger `max-age` or `max-stale`
never makes a fresh response stale.
-/

set_option autoImplicit false

namespace SymbianWeb.HttpCache

open CString

/-- The header fields that `CacheTimeIsFresh` reads from a cached response. A date field can be
there and hold no date. -/
structure CachedHeaders where
  date : Option Int
  cacheControl : Except Int (List (Option Des8))
  expires : Option (Option Int)
  lastModified : Option (Option Int)
  /-- In delta seconds. -/
  age : Option Int

/-- `MAKE_TINT64( KMaxTInt, KMaxTInt )` -/
def kMaxStaleForever : Int := 0x7FFFFFFF7FFFFFFF

section Fresh

variable (tenth : Int → Int) (now : Int)

/-- `Freshness`; `tenth` is the conversion of `freshness * 0.10` back to an integer, and `value`
what the uninitialised variable of `GetCacheControls` holds. -/
def freshness (aHeaders : CachedHeaders) (aResponseTime value : Int) : Int :=
  let date := aHeaders.date.getD aResponseTime
  let controls := getCacheControls aHeaders.cacheControl value
  if controls.1 = kErrNone then
    if controls.2.aMaxAge ≠ -1 then controls.2.aMaxAge * 1000 * 1000
    else
      match aHeaders.expires with
      | some expires => expires.getD 0 - date
      | none =>
          match aHeaders.lastModified with
          | some lastModified =>
              if lastModified.getD 0 < aResponseTime then
                let freshness := aResponseTime - lastModified.getD 0
                freshness + tenth freshness
              else 0
          | none => 0
  else 0

/-- `Age`. -/
def age (aHeaders : CachedHeaders) (aRequestTime aResponseTime : Int) : Int :=
  let time := aRequestTime
  let aRequestTime := min aRequestTime now
  let aResponseTime := min aResponseTime now
  let aRequestTime := min aRequestTime aResponseTime
  let time := min time aResponseTime
  let age := aHeaders.age.getD 0
  let apparentAge := max 0 (aResponseTime - time)
  let correctedRecvAge := max apparentAge (age * 1000 * 1000)
  let responseDelay := aResponseTime - aRequestTime
  let correctedInitialAge := correctedRecvAge + responseDelay
  let residentTime := now - aResponseTime
  correctedInitialAge + residentTime

/-- `CacheTimeIsFresh`; `value n` is what the uninitialised variable of the `n`-th call of
`GetCacheControls` holds. -/
def cacheTimeIsFresh (value : Nat → Int) (aRequestHeaders : Except Int (List (Option Des8)))
    (aCachedHeaders : CachedHeaders) : Bool :=
  let date := aCachedHeaders.date.getD 0
  let cached := getCacheControls aCachedHeaders.cacheControl (value 0)
  if cached.1 = kErrNone ∧ cached.2.aMaxAge = 0 then false
  else
    let freshness := freshness tenth aCachedHeaders date (value 1)
    let age := age now aCachedHeaders date date
    let request := getCacheControls aRequestHeaders (value 2)
    if request.1 = kErrNone then
      -- the directives of the request are in seconds
      let freshness :=
        if request.2.aMaxStale ≠ -1 then
          if request.2.aMaxStale = kMaxStaleForever then kMaxStaleForever
          else freshness + request.2.aMaxStale * 1000 * 1000
        else freshness
      if request.2.aMinFresh ≠ -1 ∧ freshness < age + request.2.aMinFresh * 1000 * 1000 then false
      else if request.2.aMaxAge ≠ -1 ∧ request.2.aMaxAge * 1000 * 1000 < age then false
      else decide (freshness ≠ 0 ∧ age ≤ freshness)
    else false

end Fresh

/-! ## The decision -/

/-- For how long the request takes a response that is fresh for this time. -/
def CacheControls.extend (c : CacheControls) (freshness : Int) : Int :=
  if c.aMaxStale ≠ -1 then
    if c.aMaxStale = kMaxStaleForever then kMaxStaleForever
    else freshness + c.aMaxStale * 1000 * 1000
  else freshness

/-- The request takes a response of this age which it can use for this time. -/
structure CacheControls.Accepts (c : CacheControls) (age freshness : Int) : Prop where
  minFresh : c.aMinFresh ≠ -1 → age + c.aMinFresh * 1000 * 1000 ≤ freshness
  maxAge : c.aMaxAge ≠ -1 → age ≤ c.aMaxAge * 1000 * 1000
  ne_zero : freshness ≠ 0
  le : age ≤ freshness

section Decision

variable {tenth : Int → Int} {now : Int} {value : Nat → Int}
  {request : Except Int (List (Option Des8))} {h : CachedHeaders}

theorem cacheTimeIsFresh_iff :
    cacheTimeIsFresh tenth now value request h = true ↔
      ¬ ((getCacheControls h.cacheControl (value 0)).1 = kErrNone ∧
          (getCacheControls h.cacheControl (value 0)).2.aMaxAge = 0) ∧
        (getCacheControls request (value 2)).1 = kErrNone ∧
        (getCacheControls request (value 2)).2.Accepts (age now h (h.date.getD 0) (h.date.getD 0))
          ((getCacheControls request (value 2)).2.extend
            (freshness tenth h (h.date.getD 0) (value 1))) := by
  rw [cacheTimeIsFresh]
  dsimp only
  by_cases hzero : (getCacheControls h.cacheControl (value 0)).1 = kErrNone ∧
      (getCacheControls h.cacheControl (value 0)).2.aMaxAge = 0
  · rw [if_pos hzero]
    exact ⟨fun hf => absurd hf (by decide), fun hf => absurd hzero hf.1⟩
  rw [if_neg hzero]
  by_cases hstatus : (getCacheControls request (value 2)).1 = kErrNone
  · rw [if_pos hstatus, ← CacheControls.extend]
    generalize (getCacheControls request (value 2)).2 = c
    generalize c.extend _ = f
    generalize age now h _ _ = a
    split_ifs with hmin hmax
    · exact ⟨fun hf => absurd hf (by decide), fun hf => absurd (hf.2.2.minFresh hmin.1) (by omega)⟩
    · exact ⟨fun hf => absurd hf (by decide), fun hf => absurd (hf.2.2.maxAge hmax.1) (by omega)⟩
    · rw [decide_eq_true_iff]
      constructor
      · rintro ⟨hne, hle⟩
        exact ⟨hzero, hstatus, fun h => by omega, fun h => by omega, hne, hle⟩
      · exact fun hf => ⟨hf.2.2.ne_zero, hf.2.2.le⟩
  · rw [if_neg hstatus]
    exact ⟨fun hf => absurd hf (by decide), fun hf => absurd hf.2.1 hstatus⟩

/-- No response is of negative age. -/
theorem age_nonneg (time : Int) : 0 ≤ age now h time time := by
  rw [age]
  omega

theorem CacheControls.Accepts.pos {c : CacheControls} {a f : Int} (h : c.Accepts a f) (ha : 0 ≤ a) :
    0 < f := by
  have hne := h.ne_zero
  have hle := h.le
  omega

theorem CacheControls.Accepts.mono {c : CacheControls} {a f f' : Int} (h : c.Accepts a f)
    (ha : 0 ≤ a) (hle : f ≤ f') : c.Accepts a f' where
  minFresh hne := Int.le_trans (h.minFresh hne) hle
  maxAge := h.maxAge
  ne_zero := by
    have hpos := h.pos ha
    omega
  le := Int.le_trans h.le hle

theorem CacheControls.extend_mono (c : CacheControls) {f f' : Int} (hle : f ≤ f') :
    c.extend f ≤ c.extend f' := by
  rw [CacheControls.extend, CacheControls.extend]
  split_ifs with habsent hforever
  · exact Int.le_refl _
  · omega
  · exact hle

end Decision

/-! ## Two runs that differ in one value -/

/-- What is reported for two fields that differ in one value of one directive. A `max-stale` without
a value takes over what it finds. -/
structure Alike (d : Directive) (x x' : Int) (c c' : CacheControls) : Prop where
  maxAge : c.aMaxAge = c'.aMaxAge ∨ d = .maxAge ∧ c.aMaxAge = x ∧ c'.aMaxAge = x'
  maxStale : c.aMaxStale = c'.aMaxStale ∨ c.aMaxStale = x ∧ c'.aMaxStale = x'
  minFresh : c.aMinFresh = c'.aMinFresh

section Alike

variable {d : Directive} {x x' v v' : Int} {c c' : CacheControls}

theorem Alike.rfl : Alike d x x' c c := ⟨.inl (Eq.refl _), .inl (Eq.refl _), Eq.refl _⟩

/-- The same value is reported for a directive. -/
theorem Alike.set_same (h : Alike d x x' c c') (k : Directive) (v : Int) :
    Alike d x x' (c.set k v) (c'.set k v) := by
  cases k with
  | maxAge => exact ⟨.inl (Eq.refl _), h.maxStale, h.minFresh⟩
  | minFresh => exact ⟨h.maxAge, h.maxStale, Eq.refl _⟩
  | maxStale => exact ⟨h.maxAge, .inl (Eq.refl _), h.minFresh⟩
  | sMaxAge | mustRevalidate | noCache | noStore | other =>
      exact ⟨h.maxAge, h.maxStale, h.minFresh⟩

/-- What is found in the shared variable is reported for a directive without a value. -/
theorem Alike.set_found (h : Alike d x x' c c') {k : Directive} (hk : k.mustHaveValue ≠ true)
    (hv : v = v' ∨ v = x ∧ v' = x') : Alike d x x' (c.set k v) (c'.set k v') := by
  cases k with
  | maxAge | minFresh | sMaxAge => exact absurd (Eq.refl true) hk
  | maxStale => exact ⟨h.maxAge, hv, h.minFresh⟩
  | mustRevalidate | noCache | noStore | other => exact ⟨h.maxAge, h.maxStale, h.minFresh⟩

theorem getCacheControlDirective_error_or (text : Des8) :
    Malformed text ∨ 0x3d ∈ text ∨ 0x3d ∉ text ∧ (kindOf text).mustHaveValue ≠ true := by
  by_cases hmem : 0x3d ∈ text
  · exact .inr (.inl hmem)
  · by_cases hmust : (kindOf text).mustHaveValue = true
    · exact .inl ⟨hmem, hmust⟩
    · exact .inr (.inr ⟨hmem, hmust⟩)

/-- From alike states, two fields are read to the same status and alike reports. -/
def RunAlike (d : Directive) (x x' : Int) (parts parts' : List (Option Des8)) : Prop :=
  ∀ v v' c c', Alike d x x' c c' → (v = v' ∨ v = x ∧ v' = x') →
    (controlsLoop parts v c).1 = (controlsLoop parts' v' c').1 ∧
      Alike d x x' (controlsLoop parts v c).2 (controlsLoop parts' v' c').2

/-- A part that both fields start with. -/
theorem RunAlike.cons {parts parts' : List (Option Des8)} (ih : RunAlike d x x' parts parts')
    (part : Option Des8) : RunAlike d x x' (part :: parts) (part :: parts') := by
  intro v v' c c' h hv
  cases part with
  | none => exact ih v v' c c' h hv
  | some text =>
      rw [controlsLoop, controlsLoop, getCacheControlDirective_eq, getCacheControlDirective_eq]
      rcases getCacheControlDirective_error_or text with hbad | hmem | ⟨hmem, hmust⟩
      · rw [if_pos hbad, if_pos hbad]
        exact ⟨rfl, h⟩
      · have hgood : ¬ Malformed text := fun hbad => hbad.1 hmem
        rw [if_neg hgood, if_pos hmem, if_neg hgood, if_pos hmem]
        exact ih _ _ _ _ (h.set_same _ _) (.inl rfl)
      · have hgood : ¬ Malformed text := fun hbad => hmust hbad.2
        rw [if_neg hgood, if_neg hmem, if_neg hgood, if_neg hmem]
        exact ih _ _ _ _ (h.set_found hmust hv) hv

theorem runAlike_same (d : Directive) (x x' : Int) (parts : List (Option Des8)) :
    RunAlike d x x' parts parts := by
  induction parts with
  | nil => exact fun v v' c c' h hv => ⟨rfl, h⟩
  | cons part parts ih => exact ih.cons part

/-- Two fields that differ in the value of one directive. -/
theorem runAlike_value {text text' : Des8} (pre post : List (Option Des8))
    (hkind : kindOf text = d) (hkind' : kindOf text' = d) (hd : d = .maxAge ∨ d = .maxStale)
    (hmem : 0x3d ∈ text) (hmem' : 0x3d ∈ text') :
    RunAlike d (ownValue text) (ownValue text') (pre ++ some text :: post)
      (pre ++ some text' :: post) := by
  induction pre with
  | nil =>
      intro v v' c c' h hv
      have hgood : ¬ Malformed text := fun hbad => hbad.1 hmem
      have hgood' : ¬ Malformed text' := fun hbad => hbad.1 hmem'
      rw [List.nil_append, List.nil_append, controlsLoop, controlsLoop,
        getCacheControlDirective_eq, getCacheControlDirective_eq, if_neg hgood, if_neg hgood',
        if_pos hmem, if_pos hmem', hkind, hkind']
      refine runAlike_same _ _ _ post _ _ _ _ ?_ (.inr ⟨rfl, rfl⟩)
      obtain rfl | rfl := hd
      · exact ⟨.inr ⟨rfl, rfl, rfl⟩, h.maxStale, h.minFresh⟩
      · exact ⟨h.maxAge, .inr ⟨rfl, rfl⟩, h.minFresh⟩
  | cons part pre ih => exact ih.cons part

/-- The status and the `max-age` do not depend on the uninitialised variable. -/
theorem getCacheControls_maxAge (aHeaders : Except Int (List (Option Des8))) (v v' : Int) :
    (getCacheControls aHeaders v).1 = (getCacheControls aHeaders v').1 ∧
      (getCacheControls aHeaders v).2.aMaxAge = (getCacheControls aHeaders v').2.aMaxAge := by
  cases aHeaders with
  | error status => exact ⟨rfl, rfl⟩
  | ok parts =>
      have halike := runAlike_same .maxStale v v' parts v v' {} {} Alike.rfl (.inr ⟨rfl, rfl⟩)
      refine ⟨halike.1, ?_⟩
      rcases halike.2.maxAge with heq | ⟨hd, -⟩
      · exact heq
      · exact absurd hd (by decide)

end Alike

/-! ## Numbers of seconds -/

/-- A directive with a decimal number. -/
def withNumber (name : Des8) (ds : List (Fin 10)) : Des8 := name ++ 0x3d :: digitsText ds

/-- What a number of seconds is read as. -/
def asTInt (n : Nat) : Int := (min (n : Int) 4294967295).bmod 4294967296

section Numbers

variable {name : Des8} {ds : List (Fin 10)} {d : Directive} {n : Nat}

theorem asTInt_of_lt (h : n < 2147483648) : asTInt n = n := by
  rw [asTInt, Int.bmod_def]
  omega

theorem asTInt_of_ge (h : 2147483648 ≤ n) (hlt : n < 4294967295) :
    asTInt n = (n : Int) - 4294967296 := by
  rw [asTInt, Int.bmod_def]
  omega

theorem asTInt_absent (h : 4294967295 ≤ n) : asTInt n = -1 := by
  rw [asTInt, Int.bmod_def]
  omega

/-- The three ways in which a number is read. -/
theorem asTInt_cases (n : Nat) :
    asTInt n = n ∧ n < 2147483648 ∨
      asTInt n = (n : Int) - 4294967296 ∧ 2147483648 ≤ n ∧ n < 4294967295 ∨
        asTInt n = -1 ∧ 4294967295 ≤ n := by
  by_cases hsmall : n < 2147483648
  · exact .inl ⟨asTInt_of_lt hsmall, hsmall⟩
  · by_cases hlarge : n < 4294967295
    · exact .inr (.inl ⟨asTInt_of_ge (Nat.le_of_not_lt hsmall) hlarge, by omega, hlarge⟩)
    · exact .inr (.inr ⟨asTInt_absent (Nat.le_of_not_lt hlarge), by omega⟩)

theorem asTInt_lt (n : Nat) : asTInt n < 2147483648 := by
  rw [asTInt, Int.bmod_def]
  omega

theorem strToInt_digits (ds : List (Fin 10)) :
    strToInt (digitsText ds) = asTInt (digitsValue 0 ds) := by
  have hvalue : (strtoul (digitsText ds) : Int) = min (digitsValue 0 ds : Int) 4294967295 := by
    have hdigits := strtoul_digits ds
    omega
  exact congrArg (fun m : Int => m.bmod 4294967296) hvalue

theorem mem_withNumber (name : Des8) (ds : List (Fin 10)) : 0x3d ∈ withNumber name ds := by
  rw [withNumber]
  exact List.mem_append_right _ List.mem_cons_self

theorem directiveName_withNumber (h : directiveOf name ≠ .other) :
    directiveName (withNumber name ds) = name := by
  have hclean : ∀ c ∈ name, c ≠ 0x3d := by
    intro c hc heq
    have hmem : (0x3d : UInt8) ∈ (directiveOf name).text := by
      rw [← map_toLower_of_directiveOf h, List.mem_map]
      exact ⟨c, hc, by rw [heq]; decide⟩
    revert hmem
    cases directiveOf name with
    | _ => decide
  rw [directiveName, withNumber, List.takeWhile_append_of_pos (by simpa using hclean),
    List.takeWhile_cons_of_neg (by simp), List.append_nil]

theorem kindOf_withNumber (ds : List (Fin 10)) (h : directiveOf name = d) (hd : d ≠ .other) :
    kindOf (withNumber name ds) = d := by
  rw [kindOf, directiveName_withNumber (h ▸ hd), h]

theorem ownValue_withNumber (h : directiveOf name = d) (hd : d = .maxAge ∨ d = .maxStale) :
    ownValue (withNumber name ds) = asTInt (digitsValue 0 ds) := by
  have hother : d ≠ .other := by
    obtain rfl | rfl := hd
    · decide
    · decide
  have hread : d.mustHaveValue = true ∨ d = .maxStale := by
    obtain rfl | rfl := hd
    · exact .inl rfl
    · exact .inr rfl
  have hdrop : (withNumber name ds).drop (name.length + 1) = digitsText ds := by
    rw [withNumber, List.drop_append, Nat.add_sub_cancel_left,
      List.drop_eq_nil_of_le (Nat.le_succ _)]
    rfl
  rw [ownValue, directiveName_withNumber (h ▸ hother), kindOf_withNumber ds h hother,
    extractCacheControlDirectiveValue, if_pos hread, hdrop, strToInt_digits]

theorem getCacheControls_withNumber (h : directiveOf name = d) (hd : d = .maxAge ∨ d = .maxStale)
    (v : Int) :
    getCacheControls (.ok [some (withNumber name ds)]) v =
      (kErrNone, ({} : CacheControls).set d (asTInt (digitsValue 0 ds))) := by
  have hother : d ≠ .other := by
    obtain rfl | rfl := hd
    · decide
    · decide
  have hmem := mem_withNumber name ds
  have hgood : ¬ Malformed (withNumber name ds) := fun hbad => hbad.1 hmem
  have hloop := controlsLoop_cons (withNumber name ds) [] v {}
  rw [if_neg hgood, if_pos hmem, kindOf_withNumber ds h hother, ownValue_withNumber h hd] at hloop
  exact hloop

end Numbers

/-! ## A larger number of seconds -/

/-- For how long a response without `max-age` is fresh. -/
def unstatedFreshness (tenth : Int → Int) (h : CachedHeaders) (aResponseTime : Int) : Int :=
  match h.expires with
  | some expires => expires.getD 0 - h.date.getD aResponseTime
  | none =>
      match h.lastModified with
      | some lastModified =>
          if lastModified.getD 0 < aResponseTime then
            let freshness := aResponseTime - lastModified.getD 0
            freshness + tenth freshness
          else 0
      | none => 0

/-- The decision, of what the directives of the request are, with which status and which `max-age`
those of the response are read, its age, and how long it is fresh without `max-age`. -/
def FreshWith (request : Int × CacheControls) (status maxAge age unstated : Int) : Prop :=
  ¬ (status = kErrNone ∧ maxAge = 0) ∧ request.1 = kErrNone ∧
    request.2.Accepts age (request.2.extend
      (if status = kErrNone then if maxAge ≠ -1 then maxAge * 1000 * 1000 else unstated else 0))

/-- Nothing that was never written is read of the request. -/
def Determined (request : Except Int (List (Option Des8))) : Prop :=
  ∀ v v', getCacheControls request v = getCacheControls request v'

/-- A response that is fresh with the first `max-age` is fresh with the second one, whatever else
is in the fields and whenever it is asked. -/
def MonoMaxAge (ds ds' : List (Fin 10)) : Prop :=
  ∀ (tenth : Int → Int) (now : Int) (value value' : Nat → Int)
    (request : Except Int (List (Option Des8))) (h : CachedHeaders) (pre post : List (Option Des8))
    (name : Des8), directiveOf name = .maxAge → Determined request →
    cacheTimeIsFresh tenth now value request
        { h with cacheControl := .ok (pre ++ some (withNumber name ds) :: post) } = true →
      cacheTimeIsFresh tenth now value' request
        { h with cacheControl := .ok (pre ++ some (withNumber name ds') :: post) } = true

/-- A response that is fresh for the first `max-stale` of the request is fresh for the second
one. -/
def MonoMaxStale (ds ds' : List (Fin 10)) : Prop :=
  ∀ (tenth : Int → Int) (now : Int) (value value' : Nat → Int) (h : CachedHeaders)
    (pre post : List (Option Des8)) (name : Des8), directiveOf name = .maxStale →
    Determined (.ok (pre ++ some (withNumber name ds) :: post)) →
    Determined (.ok (pre ++ some (withNumber name ds') :: post)) →
    cacheTimeIsFresh tenth now value (.ok (pre ++ some (withNumber name ds) :: post)) h = true →
      cacheTimeIsFresh tenth now value' (.ok (pre ++ some (withNumber name ds') :: post)) h = true

section Mono

variable {tenth : Int → Int} {now : Int} {value : Nat → Int} {n n' : Nat}
  {r : Except Int (List (Option Des8))} {request request' : Int × CacheControls}
  {h : CachedHeaders} {status x a u : Int}

theorem freshness_eq (v v' : Int) (t : Int) :
    freshness tenth h t v =
      if (getCacheControls h.cacheControl v').1 = kErrNone then
        if (getCacheControls h.cacheControl v').2.aMaxAge ≠ -1 then
          (getCacheControls h.cacheControl v').2.aMaxAge * 1000 * 1000
        else unstatedFreshness tenth h t
      else 0 := by
  obtain ⟨hstatus, hmaxAge⟩ := getCacheControls_maxAge h.cacheControl v v'
  rw [freshness, hstatus, hmaxAge]
  rfl

theorem cacheTimeIsFresh_iff_freshWith :
    cacheTimeIsFresh tenth now value r h = true ↔
      FreshWith (getCacheControls r (value 2)) (getCacheControls h.cacheControl 0).1
        (getCacheControls h.cacheControl 0).2.aMaxAge (age now h (h.date.getD 0) (h.date.getD 0))
        (unstatedFreshness tenth h (h.date.getD 0)) := by
  obtain ⟨hstatus, hmaxAge⟩ := getCacheControls_maxAge h.cacheControl (value 0) 0
  rw [cacheTimeIsFresh_iff, hstatus, hmaxAge, freshness_eq (value 1) 0]
  exact Iff.rfl

/-- Without values that were never written, the request extends by a `TInt`. -/
theorem controlsLoop_maxStale_lt (parts : List (Option Des8)) {v : Int} {c : CacheControls}
    (hv : v < 2147483648) (hc : c.aMaxStale < 2147483648) :
    (controlsLoop parts v c).2.aMaxStale < 2147483648 := by
  have hset : ∀ (c : CacheControls) (k : Directive) (w : Int), c.aMaxStale < 2147483648 →
      w < 2147483648 → (c.set k w).aMaxStale < 2147483648 := by
    intro c k w hc hw
    cases k with
    | maxStale => exact hw
    | maxAge | minFresh | sMaxAge | mustRevalidate | noCache | noStore | other => exact hc
  induction parts generalizing v c with
  | nil => exact hc
  | cons part parts ih =>
      cases part with
      | none => exact ih hv hc
      | some text =>
          have hown : ownValue text < 2147483648 := by
            rw [ownValue, extractCacheControlDirectiveValue]
            split_ifs
            · exact Int.bmod_lt (by decide)
            · decide
          rw [controlsLoop, getCacheControlDirective_eq]
          by_cases hbad : Malformed text
          · rw [if_pos hbad]
            exact hc
          · rw [if_neg hbad]
            by_cases hmem : 0x3d ∈ text
            · rw [if_pos hmem]
              exact ih hown (hset c _ _ hc hown)
            · rw [if_neg hmem]
              exact ih hv (hset c _ _ hc hv)

theorem Determined.maxStale_lt {r : Except Int (List (Option Des8))} (hdet : Determined r)
    (v : Int) : (getCacheControls r v).2.aMaxStale < 2147483648 := by
  rw [hdet v 0]
  cases r with
  | error status => exact (by decide : (-1 : Int) < 2147483648)
  | ok parts =>
      exact controlsLoop_maxStale_lt parts (by decide) (by decide : (-1 : Int) < 2147483648)

theorem CacheControls.extend_eq {c : CacheControls} (hlt : c.aMaxStale < 2147483648) (f : Int) :
    c.extend f = f + if c.aMaxStale = -1 then 0 else c.aMaxStale * 1000 * 1000 := by
  have hforever : c.aMaxStale ≠ kMaxStaleForever := by
    rw [kMaxStaleForever]
    omega
  rw [CacheControls.extend]
  by_cases habsent : c.aMaxStale = -1
  · rw [if_neg (not_not.2 habsent), if_pos habsent, Int.add_zero]
  · rw [if_pos habsent, if_neg hforever, if_neg habsent]

/-- A larger `max-age` of the response, and a request that extends by a `TInt`. -/
theorem FreshWith.mono_maxAge (hle : n ≤ n')
    (hcond : n' < 2147483648 ∨ n = 0 ∨ n = 2147483648 ∨ n = 2147483649 ∨ 4294967295 ≤ n ∨
      2147483648 ≤ n ∧ n' < 4294967295)
    (hlt : request.2.aMaxStale < 2147483648) (ha : 0 ≤ a)
    (hfresh : FreshWith request kErrNone (asTInt n) a u) :
    FreshWith request kErrNone (asTInt n') a u := by
  obtain ⟨hzero, hstatus, hacc⟩ := hfresh
  have hne : asTInt n ≠ 0 := fun h => hzero ⟨rfl, h⟩
  rw [if_pos rfl] at hacc
  -- the second number is the same one, or a larger one that is read as a number too
  have hcases : asTInt n' = asTInt n ∨
      (asTInt n ≤ asTInt n' ∧ asTInt n ≠ -1 ∧ asTInt n' ≠ -1 ∧ asTInt n' ≠ 0) ∨
      asTInt n ≤ -2147483647 := by
    have hval := asTInt_cases n
    have hval' := asTInt_cases n'
    omega
  rcases hcases with heq | ⟨hval, habsent, habsent', hzero'⟩ | hsmall
  · rw [heq]
    exact ⟨hzero, hstatus, by rw [if_pos rfl]; exact hacc⟩
  · refine ⟨fun h => hzero' h.2, hstatus, ?_⟩
    rw [if_pos habsent] at hacc
    rw [if_pos rfl, if_pos habsent']
    exact hacc.mono ha (request.2.extend_mono (by omega))
  · -- no `max-stale` makes up for that
    have hpos := hacc.pos ha
    rw [if_pos (by omega), CacheControls.extend_eq hlt] at hpos
    split_ifs at hpos
    · omega
    · omega

theorem monoMaxAge_of {ds ds' : List (Fin 10)} (hle : digitsValue 0 ds ≤ digitsValue 0 ds')
    (hcond : digitsValue 0 ds' < 2147483648 ∨ digitsValue 0 ds = 0 ∨
      digitsValue 0 ds = 2147483648 ∨ digitsValue 0 ds = 2147483649 ∨
      4294967295 ≤ digitsValue 0 ds ∨
      2147483648 ≤ digitsValue 0 ds ∧ digitsValue 0 ds' < 4294967295) :
    MonoMaxAge ds ds' := by
  intro tenth now value value' request h pre post name hname hdet hfresh
  rw [cacheTimeIsFresh_iff_freshWith] at hfresh ⊢
  rw [hdet (value' 2) (value 2)]
  have halike := runAlike_value pre post (kindOf_withNumber ds hname (by decide))
    (kindOf_withNumber ds' hname (by decide)) (.inl rfl) (mem_withNumber name ds)
    (mem_withNumber name ds') 0 0 {} {} Alike.rfl (.inl rfl)
  rw [ownValue_withNumber hname (.inl rfl), ownValue_withNumber hname (.inl rfl)] at halike
  obtain ⟨hstatus, halike⟩ := halike
  dsimp only [getCacheControls] at hfresh ⊢
  rw [← hstatus]
  rcases halike.maxAge with heq | ⟨-, hx, hx'⟩
  · rw [← heq]
    exact hfresh
  · rw [hx] at hfresh
    rw [hx']
    by_cases hok : (controlsLoop (pre ++ some (withNumber name ds) :: post) 0 {}).1 = kErrNone
    · rw [hok] at hfresh ⊢
      exact hfresh.mono_maxAge hle hcond (hdet.maxStale_lt _) (age_nonneg _)
    · refine ⟨fun h => hok h.1, hfresh.2.1, ?_⟩
      have hacc := hfresh.2.2
      rw [if_neg hok] at hacc ⊢
      exact hacc

/-- By how much a number of seconds extends. -/
def extension (n : Nat) : Int := if asTInt n = -1 then 0 else asTInt n * 1000 * 1000

theorem extension_le (hle : n ≤ n')
    (hcond : n' < 2147483648 ∨ 2147483648 ≤ n ∨ n = 0 ∧ 4294967295 ≤ n') :
    extension n ≤ extension n' := by
  have hval := asTInt_cases n
  have hval' := asTInt_cases n'
  rw [extension, extension]
  split_ifs
  · omega
  · omega
  · omega
  · omega

theorem FreshWith.mono_maxStale (hle : extension n ≤ extension n') (ha : 0 ≤ a)
    (hstatus : request.1 = request'.1) (halike : Alike .maxStale (asTInt n) (asTInt n')
      request.2 request'.2)
    (hfresh : FreshWith request status x a u) : FreshWith request' status x a u := by
  obtain ⟨hzero, hok, hacc⟩ := hfresh
  have hmaxAge : request.2.aMaxAge = request'.2.aMaxAge := by
    rcases halike.maxAge with heq | ⟨hd, -⟩
    · exact heq
    · exact absurd hd (by decide)
  have hextend : ∀ f, request.2.extend f ≤ request'.2.extend f := by
    intro f
    rcases halike.maxStale with heq | ⟨hx, hx'⟩
    · have hsame : request.2.extend f = request'.2.extend f := by
        rw [CacheControls.extend, CacheControls.extend, heq]
      exact Int.le_of_eq hsame
    · rw [CacheControls.extend_eq (hx ▸ asTInt_lt n), CacheControls.extend_eq (hx' ▸ asTInt_lt n'),
        hx, hx']
      exact Int.add_le_add_left hle f
  have hacc' := hacc.mono ha (hextend _)
  refine ⟨hzero, hstatus ▸ hok, ?_, ?_, hacc'.ne_zero, hacc'.le⟩
  · rw [← halike.minFresh]
    exact hacc'.minFresh
  · rw [← hmaxAge]
    exact hacc'.maxAge

theorem monoMaxStale_of {ds ds' : List (Fin 10)}
    (hle : extension (digitsValue 0 ds) ≤ extension (digitsValue 0 ds')) : MonoMaxStale ds ds' := by
  intro tenth now value value' h pre post name hname hdet hdet' hfresh
  rw [cacheTimeIsFresh_iff_freshWith] at hfresh ⊢
  rw [hdet (value 2) 0] at hfresh
  rw [hdet' (value' 2) 0]
  have halike := runAlike_value pre post (kindOf_withNumber ds hname (by decide))
    (kindOf_withNumber ds' hname (by decide)) (.inr rfl) (mem_withNumber name ds)
    (mem_withNumber name ds') 0 0 {} {} Alike.rfl (.inl rfl)
  rw [ownValue_withNumber hname (.inr rfl), ownValue_withNumber hname (.inr rfl)] at halike
  exact hfresh.mono_maxStale hle (age_nonneg _) halike.1 halike.2

/-! ## Fields for which a larger number makes a fresh response stale -/

/-- A response of today that expires after some seconds. -/
def expiringIn (cacheControl : List (Option Des8)) (seconds : Int) : CachedHeaders where
  date := some 63000000000000000
  cacheControl := .ok cacheControl
  expires := some (some (63000000000000000 + seconds * 1000 * 1000))
  lastModified := none
  age := none

/-- At its own date a response is of age 0. -/
theorem expiringIn_fresh_iff {cacheControl : List (Option Des8)} {seconds e : Int}
    (hrequest : getCacheControls r (value 2) = (kErrNone, { aMaxStale := e }))
    (hcached : getCacheControls (.ok cacheControl) 0 = (kErrNone, { aMaxAge := x }))
    (he : e < 2147483648) :
    cacheTimeIsFresh tenth 63000000000000000 value r (expiringIn cacheControl seconds) = true ↔
      x ≠ 0 ∧ 0 < (if x = -1 then seconds else x) + (if e = -1 then 0 else e) := by
  have hage : age 63000000000000000 (expiringIn cacheControl seconds) 63000000000000000
      63000000000000000 = 0 := rfl
  have hunstated : unstatedFreshness tenth (expiringIn cacheControl seconds) 63000000000000000 =
      seconds * 1000 * 1000 := by
    rw [unstatedFreshness]
    change 63000000000000000 + seconds * 1000 * 1000 - 63000000000000000 = seconds * 1000 * 1000
    omega
  have hdate : (expiringIn cacheControl seconds).date.getD 0 = 63000000000000000 := rfl
  have hheader : (expiringIn cacheControl seconds).cacheControl = .ok cacheControl := rfl
  have hsum : (if x ≠ -1 then x * 1000 * 1000 else seconds * 1000 * 1000) +
      (if e = -1 then 0 else e * 1000 * 1000) =
        ((if x = -1 then seconds else x) + (if e = -1 then 0 else e)) * 1000 * 1000 := by
    by_cases hx : x = -1
    · rw [if_neg (not_not.2 hx), if_pos hx]
      split_ifs
      · omega
      · omega
    · rw [if_pos hx, if_neg hx]
      split_ifs
      · omega
      · omega
  rw [cacheTimeIsFresh_iff_freshWith, hdate, hheader, hcached, hrequest, hage, hunstated, FreshWith]
  dsimp only
  rw [if_pos rfl, CacheControls.extend_eq he]
  dsimp only
  rw [hsum]
  constructor
  · rintro ⟨hzero, -, hacc⟩
    have hpos := hacc.pos (Int.le_refl 0)
    exact ⟨fun h => hzero ⟨rfl, h⟩, by omega⟩
  · rintro ⟨hzero, hpos⟩
    exact ⟨fun h => hzero h.2, rfl, fun h => absurd rfl h, fun h => absurd rfl h, by omega,
      by omega⟩

end Mono

section Exact

variable {ds ds' : List (Fin 10)} {r : Except Int (List (Option Des8))} {e seconds : Int}

theorem determined_of_eq {c : Int × CacheControls} (h : ∀ v, getCacheControls r v = c) :
    Determined r :=
  fun v v' => (h v).trans (h v').symm

theorem MonoMaxAge.expiringIn (hmono : MonoMaxAge ds ds')
    (hrequest : ∀ v, getCacheControls r v = (kErrNone, { aMaxStale := e })) (he : e < 2147483648)
    (seconds : Int) (hzero : asTInt (digitsValue 0 ds) ≠ 0)
    (hpos : 0 < (if asTInt (digitsValue 0 ds) = -1 then seconds else asTInt (digitsValue 0 ds)) +
      (if e = -1 then 0 else e)) :
    0 < (if asTInt (digitsValue 0 ds') = -1 then seconds else asTInt (digitsValue 0 ds')) +
      (if e = -1 then 0 else e) := by
  have hcached : ∀ ds, getCacheControls (.ok [some (withNumber (ascii "max-age") ds)]) 0 =
      (kErrNone, { aMaxAge := asTInt (digitsValue 0 ds) }) :=
    fun ds => getCacheControls_withNumber (d := .maxAge) (by decide) (.inl rfl) 0
  have hfresh : cacheTimeIsFresh id 63000000000000000 (fun _ => 0) r
      (HttpCache.expiringIn [some (withNumber (ascii "max-age") ds)] seconds) = true :=
    (expiringIn_fresh_iff (hrequest 0) (hcached ds) he).2 ⟨hzero, hpos⟩
  have hstill := hmono id 63000000000000000 (fun _ => 0) (fun _ => 0) r
    (HttpCache.expiringIn [] seconds) [] [] (ascii "max-age") (by decide)
    (determined_of_eq hrequest) hfresh
  exact ((expiringIn_fresh_iff (hrequest 0) (hcached ds') he).1 hstill).2

/-- When a larger `max-age` never makes a fresh response stale. -/
theorem monoMaxAge_iff (hle : digitsValue 0 ds ≤ digitsValue 0 ds') :
    MonoMaxAge ds ds' ↔
      digitsValue 0 ds' < 2147483648 ∨ digitsValue 0 ds = 0 ∨ digitsValue 0 ds = 2147483648 ∨
        digitsValue 0 ds = 2147483649 ∨ 4294967295 ≤ digitsValue 0 ds ∨
          2147483648 ≤ digitsValue 0 ds ∧ digitsValue 0 ds' < 4294967295 := by
  constructor
  · intro hmono
    by_contra hbad
    have hval := asTInt_cases (digitsValue 0 ds)
    have hval' := asTInt_cases (digitsValue 0 ds')
    by_cases hsmall : digitsValue 0 ds < 2147483648
    · -- a request without directives, and a response that has expired
      have hpos := hmono.expiringIn (r := .ok []) (e := -1) (fun v => rfl) (by decide) (-1)
        (by omega) (by split_ifs <;> omega)
      split_ifs at hpos <;> omega
    · -- a request that takes what expired up to 2147483647 seconds ago
      have hrequest : ∀ v, getCacheControls (.ok [some (withNumber (ascii "max-stale")
          [2, 1, 4, 7, 4, 8, 3, 6, 4, 7])]) v = (kErrNone, { aMaxStale := 2147483647 }) :=
        fun v => getCacheControls_withNumber (d := .maxStale) (by decide) (.inr rfl) v
      have hne : ¬ (2147483647 : Int) = -1 := by decide
      have hpos := hmono.expiringIn hrequest (by decide) (-2147483647) (by omega) (by
        rw [if_neg hne]
        split_ifs <;> omega)
      rw [if_neg hne] at hpos
      split_ifs at hpos <;> omega
  · exact monoMaxAge_of hle

theorem MonoMaxStale.extension_le (hmono : MonoMaxStale ds ds') :
    extension (digitsValue 0 ds) ≤ extension (digitsValue 0 ds') := by
  have hrequest : ∀ ds v, getCacheControls (.ok [some (withNumber (ascii "max-stale") ds)]) v =
      (kErrNone, { aMaxStale := asTInt (digitsValue 0 ds) }) :=
    fun ds v => getCacheControls_withNumber (d := .maxStale) (by decide) (.inr rfl) v
  have hcached : getCacheControls (.ok []) 0 = (kErrNone, { aMaxAge := -1 }) := rfl
  by_contra hlt
  -- a response that expired just as long ago as the second number extends
  let seconds := - if asTInt (digitsValue 0 ds') = -1 then 0 else asTInt (digitsValue 0 ds')
  have hpos : 0 < (if (-1 : Int) = -1 then seconds else -1) +
      (if asTInt (digitsValue 0 ds) = -1 then 0 else asTInt (digitsValue 0 ds)) := by
    rw [extension, extension] at hlt
    rw [if_pos rfl]
    dsimp only [seconds]
    split_ifs at hlt ⊢ <;> omega
  have hfresh : cacheTimeIsFresh id 63000000000000000 (fun _ => 0)
      (.ok [some (withNumber (ascii "max-stale") ds)]) (HttpCache.expiringIn [] seconds) = true :=
    (expiringIn_fresh_iff (hrequest ds 0) hcached (asTInt_lt _)).2 ⟨by decide, hpos⟩
  have hstill := hmono id 63000000000000000 (fun _ => 0) (fun _ => 0)
    (HttpCache.expiringIn [] seconds) [] [] (ascii "max-stale") (by decide)
    (determined_of_eq (hrequest ds)) (determined_of_eq (hrequest ds')) hfresh
  have hpos' := ((expiringIn_fresh_iff (hrequest ds' 0) hcached (asTInt_lt _)).1 hstill).2
  rw [if_pos rfl] at hpos'
  dsimp only [seconds] at hpos'
  omega

/-- When a larger `max-stale` never makes a fresh response stale. -/
theorem monoMaxStale_iff (hle : digitsValue 0 ds ≤ digitsValue 0 ds') :
    MonoMaxStale ds ds' ↔
      digitsValue 0 ds' < 2147483648 ∨ 2147483648 ≤ digitsValue 0 ds ∨
        digitsValue 0 ds = 0 ∧ 4294967295 ≤ digitsValue 0 ds' := by
  constructor
  · intro hmono
    have hext := hmono.extension_le
    have hval := asTInt_cases (digitsValue 0 ds)
    have hval' := asTInt_cases (digitsValue 0 ds')
    rw [extension, extension] at hext
    split_ifs at hext <;> omega
  · exact fun hcond => monoMaxStale_of (HttpCache.extension_le hle hcond)

/-- Each directive is reported by its own text exactly if nothing is left to what stands before it.
A larger `max-age` or `max-stale` never makes a fresh response stale exactly if the numbers are
read in the same order, and no request makes up for the difference. -/
theorem decidedByOwnText_iff {texts : List Des8} {ds ds' : List (Fin 10)} (hnodup : NoRepeats texts)
    (hle : digitsValue 0 ds ≤ digitsValue 0 ds') :
    (ReportsOwn texts ↔ OwnOnly texts) ∧
      (MonoMaxAge ds ds' ↔
        digitsValue 0 ds' < 2147483648 ∨ digitsValue 0 ds = 0 ∨ digitsValue 0 ds = 2147483648 ∨
          digitsValue 0 ds = 2147483649 ∨ 4294967295 ≤ digitsValue 0 ds ∨
            2147483648 ≤ digitsValue 0 ds ∧ digitsValue 0 ds' < 4294967295) ∧
        (MonoMaxStale ds ds' ↔
          digitsValue 0 ds' < 2147483648 ∨ 2147483648 ≤ digitsValue 0 ds ∨
            digitsValue 0 ds = 0 ∧ 4294967295 ≤ digitsValue 0 ds') :=
  ⟨reportsOwn_iff hnodup, monoMaxAge_iff hle, monoMaxStale_iff hle⟩

/-- Two directives with what they need, and an hour instead of a minute. -/
theorem decidedByOwnText_minute :
    ReportsOwn [ascii "max-age=60", ascii "no-cache"] ∧ MonoMaxAge [6, 0] [3, 6, 0, 0] ∧
      MonoMaxStale [6, 0] [3, 6, 0, 0] := by
  have hown : OwnOnly [ascii "max-age=60", ascii "no-cache"] := by
    have hgood : ∀ text ∈ [ascii "max-age=60", ascii "no-cache"],
        ¬ BareMaxStale text ∧ ¬ Malformed text := by decide
    refine ⟨fun text htext => (hgood text htext).1, fun pre m post hsplit hm => ?_⟩
    exact absurd hm (hgood m (by simp [hsplit])).2
  have hnodup : NoRepeats [ascii "max-age=60", ascii "no-cache"] := by decide
  have hle : digitsValue 0 [6, 0] ≤ digitsValue 0 [3, 6, 0, 0] := by decide
  obtain ⟨hreports, hage, hstale⟩ := decidedByOwnText_iff hnodup hle
  exact ⟨hreports.2 hown, hage.2 (by decide), hstale.2 (by decide)⟩

/-- `max-stale` is reported with the value of `max-age`, and 2147483648 seconds are less than
2147483647. -/
theorem not_decidedByOwnText :
    NoRepeats [ascii "max-age=60", ascii "max-stale"] ∧
      ¬ ReportsOwn [ascii "max-age=60", ascii "max-stale"] ∧
        digitsValue 0 [2, 1, 4, 7, 4, 8, 3, 6, 4, 7] ≤
          digitsValue 0 [2, 1, 4, 7, 4, 8, 3, 6, 4, 8] ∧
        ¬ MonoMaxAge [2, 1, 4, 7, 4, 8, 3, 6, 4, 7] [2, 1, 4, 7, 4, 8, 3, 6, 4, 8] ∧
        ¬ MonoMaxStale [2, 1, 4, 7, 4, 8, 3, 6, 4, 7] [2, 1, 4, 7, 4, 8, 3, 6, 4, 8] := by
  refine ⟨by decide, fun h => ?_, by decide, fun h => ?_, fun h => ?_⟩
  · have hreport := h (ascii "max-stale") (by simp) 0 0
    exact absurd hreport (by decide)
  · exact absurd ((monoMaxAge_iff (by decide)).1 h) (by decide)
  · exact absurd ((monoMaxStale_iff (by decide)).1 h) (by decide)

end Exact

end SymbianWeb.HttpCache
