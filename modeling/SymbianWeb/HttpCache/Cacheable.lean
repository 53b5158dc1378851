import SymbianWeb.HttpCache.CacheControls

/-!
# Which responses are stored

`IsCacheable` decides whether the cache takes a response. The directives of the `Cache-Control`
field are only looked at if `GetCacheControls` reads all of them: one that must have a value and has
none makes the response cacheable, whatever else the field says. A `max-age` that is not there is
reported as -1, and the test for an `Expires` in the past asks for 0.

`isCacheable_eq_false_iff` says which of the responses that forbid storing are not stored.
-/

set_option autoImplicit false

namespace SymbianWeb.HttpCache

open CString Search

/-- `TCacheLoadMethod` -/
inductive LoadMethod where
  | get
  | connect
  | delete
  | head
  | options
  | put
  | post
  | trace
  deriving DecidableEq

/-- `MethodFromStr`; a method that is not in the string table is taken for `GET`. -/
def methodFromStr (aMethodStr : Des8) : LoadMethod :=
  let method := aMethodStr.map toLower
  if method = ascii "get" then .get
  else if method = ascii "connect" then .connect
  else if method = ascii "delete" then .delete
  else if method = ascii "head" then .head
  else if method = ascii "options" then .options
  else if method = ascii "put" then .put
  else if method = ascii "post" then .post
  else if method = ascii "trace" then .trace
  else .get

/-- What `IsCacheable` reads of a transaction. The parts of the `Cache-Control` field come with the
error that `FieldPartsL` leaves with, the content length is a `TInt`, and `Expires` a date. -/
structure Transaction where
  contentType : Option Des8
  contentLength : Option Int
  cacheControl : Except Int (List (Option Des8))
  expires : Option Int
  statusCode : Nat
  method : Des8
  isQuery : Bool

/-- `ProtectedEntry` -/
def protectedEntry (contType : Option Des8) : Bool :=
  match contType with
  | some fieldValStr =>
      (findSub (ascii "text/css") fieldValStr).isSome ||
        (findSub (ascii "javascript") fieldValStr).isSome
  | none => false

/-- The http status codes that are accepted, some only with explicit caching directives. -/
def statusAccepted (statusCode : Nat) (hasExplicitCache : Bool) : Bool :=
  if statusCode = 200 ∨ statusCode = 304 ∨ statusCode = 301 ∨ statusCode = 410 then true
  else if statusCode = 302 ∨ statusCode = 307 then hasExplicitCache
  else false

/-- The method specific conditions. -/
def methodAccepted (method : LoadMethod) (isQuery hasExplicitCache : Bool) : Bool :=
  match method with
  | .get => !(isQuery && !hasExplicitCache)
  | .post => hasExplicitCache
  | .connect | .delete | .head | .options | .put | .trace => false

section Cacheable

variable (applicationVndOmaDrm : Des8) (now : Int) (aTrans : Transaction) (aMaxSize : Nat)

/-- Sensitive content. -/
def Transaction.IsDrm : Prop :=
  aTrans.contentType.map (List.map toLower) = some (applicationVndOmaDrm.map toLower)

/-- Content bigger than the cache; the comparison is unsigned. -/
def Transaction.IsOversized : Prop :=
  ∃ contLen ∈ aTrans.contentLength, (aMaxSize : Int) < contLen % 4294967296

instance : Decidable (aTrans.IsDrm applicationVndOmaDrm) := inferInstanceAs (Decidable (_ = _))

instance : Decidable (aTrans.IsOversized aMaxSize) :=
  match h : aTrans.contentLength with
  | none => isFalse fun ⟨_, hmem, _⟩ => by simp [h] at hmem
  | some contLen =>
      decidable_of_iff ((aMaxSize : Int) < contLen % 4294967296)
        (by simp [Transaction.IsOversized, h])

/-- `IsCacheable`: whether the response is stored, and whether its entry is protected; `value` is
what the uninitialised variable of `GetCacheControls` holds. -/
def isCacheable (value : Int) : Bool × Bool :=
  if aTrans.IsDrm applicationVndOmaDrm then (false, false)
  else if aTrans.IsOversized aMaxSize then (false, false)
  else
    let aProtectedEntry := protectedEntry aTrans.contentType
    let controls := getCacheControls aTrans.cacheControl value
    if controls.1 = kErrNone then
      if controls.2.aNoCache || controls.2.aNoStore then (false, false)
      else
        let expires := aTrans.expires.getD now
        -- `!maxAge` holds of 0 only, not of the -1 for a `max-age` that is not there
        if controls.2.aMaxAge = 0 ∧ expires < now then (false, aProtectedEntry)
        else
          let hasExplicitCache := aTrans.expires.isSome || decide (0 < controls.2.aMaxAge)
          (statusAccepted aTrans.statusCode hasExplicitCache &&
            methodAccepted (methodFromStr aTrans.method) aTrans.isQuery hasExplicitCache,
            aProtectedEntry)
    else (true, aProtectedEntry)

end Cacheable

/-! ## What the field says -/

/-- The directives of the field. -/
def Transaction.directives (aTrans : Transaction) : List Des8 :=
  match aTrans.cacheControl with
  | .ok parts => parts.filterMap id
  | .error _ => []

/-- A directive that forbids storing. -/
def ForbidsStoring (text : Des8) : Prop := kindOf text = .noStore ∨ kindOf text = .noCache

/-- The response forbids storing by a directive, or it has expired and no `max-age` says
otherwise. -/
def Transaction.Forbids (aTrans : Transaction) (now : Int) : Prop :=
  (∃ text ∈ aTrans.directives, ForbidsStoring text) ∨
    (∃ expires ∈ aTrans.expires, expires < now) ∧
      ∀ text ∈ aTrans.directives, kindOf text ≠ .maxAge

/-- The field can be read: it is there in parts, and every directive has the value it must have. -/
def Transaction.Readable (aTrans : Transaction) : Prop :=
  (∀ status, aTrans.cacheControl = .error status → status = kErrNone) ∧
    ∀ text ∈ aTrans.directives, ¬ Malformed text

section Reading

variable {texts : List Des8} {value : Int} {c : CacheControls} {d : Directive}

theorem controlsLoop_filterMap (parts : List (Option Des8)) (value : Int) (c : CacheControls) :
    controlsLoop parts value c = controlsLoop ((parts.filterMap id).map some) value c := by
  induction parts generalizing value c with
  | nil => rfl
  | cons part parts ih =>
      cases part with
      | none => exact ih value c
      | some text =>
          have hcons : (some text :: parts).filterMap id = text :: parts.filterMap id := rfl
          rw [hcons, List.map_cons, controlsLoop, controlsLoop]
          cases getCacheControlDirective text value with
          | error status => rfl
          | ok found => exact ih _ _

/-- All directives are read exactly if none is malformed. -/
theorem controlsLoop_status_iff :
    (controlsLoop (texts.map some) value c).1 = kErrNone ↔ ∀ text ∈ texts, ¬ Malformed text := by
  induction texts generalizing value c with
  | nil => exact ⟨fun _ text h => absurd h List.not_mem_nil, fun _ => rfl⟩
  | cons text texts ih =>
      rw [controlsLoop_cons]
      by_cases hbad : Malformed text
      · rw [if_pos hbad]
        have herror : kErrGeneral ≠ kErrNone := by decide
        exact ⟨fun h => absurd h herror, fun h => absurd hbad (h text List.mem_cons_self)⟩
      · rw [if_neg hbad, ih, List.forall_mem_cons]
        exact ⟨fun h => ⟨hbad, h⟩, fun h => h.2⟩

/-- A directive without a value is reported if it is anywhere in a list that can be read. -/
theorem report_flag (hflag : ∀ v, d.reported v = 1)
    (hgood : ∀ text ∈ texts, ¬ Malformed text) :
    (controlsLoop (texts.map some) value c).2.report d = 1 ↔
      c.report d = 1 ∨ ∃ text ∈ texts, kindOf text = d := by
  induction texts generalizing value c with
  | nil => simp [controlsLoop]
  | cons text texts ih =>
      have hrest := (List.forall_mem_cons.1 hgood).2
      rw [controlsLoop_cons, if_neg (List.forall_mem_cons.1 hgood).1, ih hrest, report_set,
        List.exists_mem_cons_iff, ← or_assoc]
      by_cases hkind : kindOf text = d
      · rw [if_pos hkind, hkind, hflag]
        simp
      · rw [if_neg hkind]
        simp [hkind]

end Reading

section Decision

variable {drm : Des8} {now value : Int} {t : Transaction} {aMaxSize : Nat}

theorem getCacheControls_directives {parts : List (Option Des8)}
    (hparts : t.cacheControl = .ok parts) :
    getCacheControls t.cacheControl value = controlsLoop (t.directives.map some) value {} := by
  rw [Transaction.directives, hparts]
  exact controlsLoop_filterMap parts value {}

/-- `GetCacheControls` succeeds exactly if the field can be read. -/
theorem getCacheControls_status_iff :
    (getCacheControls t.cacheControl value).1 = kErrNone ↔ t.Readable := by
  cases hparts : t.cacheControl with
  | error status =>
      rw [Transaction.Readable, Transaction.directives, hparts]
      constructor
      · intro hstatus
        refine ⟨fun s hs => ?_, fun text h => absurd h List.not_mem_nil⟩
        exact Except.error.inj hs ▸ hstatus
      · exact fun h => h.1 status rfl
  | ok parts =>
      rw [← hparts, getCacheControls_directives hparts, controlsLoop_status_iff,
        Transaction.Readable, hparts]
      exact ⟨fun h => ⟨fun status hs => (nomatch hs), h⟩, fun h => h.2⟩

/-- In a field that can be read, `no-store` and `no-cache` are found wherever they stand. -/
theorem forbidden_iff (hread : t.Readable) :
    ((getCacheControls t.cacheControl value).2.aNoCache ||
        (getCacheControls t.cacheControl value).2.aNoStore) = true ↔
      ∃ text ∈ t.directives, ForbidsStoring text := by
  have hbool : ∀ b : Bool, b = true ↔ b.toInt = 1 := by decide
  cases hparts : t.cacheControl with
  | error status =>
      rw [Transaction.directives, hparts]
      exact ⟨fun h => absurd h Bool.false_ne_true,
        fun ⟨text, htext, _⟩ => absurd htext List.not_mem_nil⟩
  | ok parts =>
      have hcache := @report_flag t.directives value {} .noCache (fun v => rfl) hread.2
      have hstore := @report_flag t.directives value {} .noStore (fun v => rfl) hread.2
      rw [← hparts, getCacheControls_directives hparts, Bool.or_eq_true, hbool, hbool]
      refine (or_congr hcache hstore).trans ?_
      have habsent : ∀ d, d = .noCache ∨ d = .noStore → ({} : CacheControls).report d ≠ 1 := by
        rintro d (rfl | rfl)
        · decide
        · decide
      constructor
      · rintro ((h | ⟨text, htext, hkind⟩) | (h | ⟨text, htext, hkind⟩))
        · exact absurd h (habsent _ (.inl rfl))
        · exact ⟨text, htext, .inr hkind⟩
        · exact absurd h (habsent _ (.inr rfl))
        · exact ⟨text, htext, .inl hkind⟩
      · rintro ⟨text, htext, hkind | hkind⟩
        · exact .inr (.inr ⟨text, htext, hkind⟩)
        · exact .inl (.inr ⟨text, htext, hkind⟩)

/-- A `max-age` that is not there is reported as -1. -/
theorem maxAge_of_absent (h : ∀ text ∈ t.directives, kindOf text ≠ .maxAge) :
    (getCacheControls t.cacheControl value).2.aMaxAge = -1 := by
  cases hparts : t.cacheControl with
  | error status => rfl
  | ok parts =>
      rw [← hparts, getCacheControls_directives hparts]
      exact report_of_absent (d := .maxAge) fun text htext hkind => absurd hkind (h text htext)

/-- With an explicit `Expires`, the status codes and methods that are accepted. -/
theorem accepted_iff (statusCode : Nat) (method : LoadMethod) (isQuery : Bool) :
    (statusAccepted statusCode true && methodAccepted method isQuery true) = true ↔
      statusCode ∈ [200, 301, 302, 304, 307, 410] ∧ (method = .get ∨ method = .post) := by
  rw [Bool.and_eq_true]
  refine and_congr ?_ ?_
  · rw [statusAccepted]
    simp only [List.mem_cons, List.not_mem_nil, or_false]
    split_ifs with hmain hredirect
    · simp only [true_iff]
      omega
    · simp only [true_iff]
      omega
    · simp only [false_iff]
      omega
  · cases method with
    | get | connect | delete | head | options | put | post | trace => simp [methodAccepted]

/-- Which of the responses that forbid storing are not stored. -/
theorem isCacheable_eq_false_iff (hforbids : t.Forbids now) :
    (isCacheable drm now t aMaxSize value).1 = false ↔
      t.IsDrm drm ∨ t.IsOversized aMaxSize ∨
        t.Readable ∧
          ((∃ text ∈ t.directives, ForbidsStoring text) ∨
            ¬ (t.statusCode ∈ [200, 301, 302, 304, 307, 410] ∧
              (methodFromStr t.method = .get ∨ methodFromStr t.method = .post))) := by
  rw [isCacheable]
  by_cases hdrm : t.IsDrm drm
  · rw [if_pos hdrm]
    exact ⟨fun _ => .inl hdrm, fun _ => rfl⟩
  by_cases hsize : t.IsOversized aMaxSize
  · rw [if_neg hdrm, if_pos hsize]
    exact ⟨fun _ => .inr (.inl hsize), fun _ => rfl⟩
  rw [if_neg hdrm, if_neg hsize, or_iff_right hdrm, or_iff_right hsize]
  dsimp only
  by_cases hread : t.Readable
  · rw [if_pos (getCacheControls_status_iff.2 hread), and_iff_right hread]
    by_cases hdirective : ∃ text ∈ t.directives, ForbidsStoring text
    · rw [if_pos ((forbidden_iff hread).2 hdirective)]
      exact ⟨fun _ => .inl hdirective, fun _ => rfl⟩
    · -- the response has expired: -1 for `max-age`, and `Expires` counts as explicit caching
      obtain ⟨⟨expires, hexpires, hpast⟩, habsent⟩ := hforbids.resolve_left hdirective
      have hexplicit : t.expires.isSome = true := by
        rw [Option.mem_def.1 hexpires]
        rfl
      rw [if_neg (mt (forbidden_iff hread).1 hdirective), maxAge_of_absent habsent,
        if_neg (fun h => absurd h.1 (by decide)), hexplicit, Bool.true_or, or_iff_right hdirective,
        ← accepted_iff _ _ t.isQuery, Bool.not_eq_true]
  · rw [if_neg (mt getCacheControls_status_iff.1 hread)]
    exact ⟨fun h => absurd h Bool.noConfusion, fun h => absurd h.1 hread⟩

/-- A page of 1000 bytes. -/
def pageWith (directives : List Des8) (expires : Option Int) : Transaction where
  contentType := some (ascii "text/html")
  contentLength := some 1000
  cacheControl := .ok (directives.map some)
  expires := expires
  statusCode := 200
  method := ascii "GET"
  isQuery := false

theorem isCacheable_noStore :
    (isCacheable (ascii "application/vnd.oma.drm.message") 100
      (pageWith [ascii "max-age=60", ascii "no-store"] none) 500000 0).1 = false := by
  have hforbids : ForbidsStoring (ascii "no-store") := .inl (by decide)
  have hread : (pageWith [ascii "max-age=60", ascii "no-store"] none).Readable :=
    ⟨fun status h => (nomatch h), by decide⟩
  have hmem : ascii "no-store" ∈
      (pageWith [ascii "max-age=60", ascii "no-store"] none).directives := by decide
  exact (isCacheable_eq_false_iff (.inl ⟨_, hmem, hforbids⟩)).2
    (.inr (.inr ⟨hread, .inl ⟨_, hmem, hforbids⟩⟩))

/-- A `max-age` without a number hides the `no-store` before it, and a response that has expired
is stored for the -1 that `max-age` is reported with. -/
theorem not_isCacheable_false :
    ((pageWith [ascii "no-store", ascii "max-age"] none).Forbids 100 ∧
        (isCacheable (ascii "application/vnd.oma.drm.message") 100
          (pageWith [ascii "no-store", ascii "max-age"] none) 500000 0).1 = true) ∧
      (pageWith [] (some 50)).Forbids 100 ∧
        (isCacheable (ascii "application/vnd.oma.drm.message") 100 (pageWith [] (some 50))
          500000 0).1 = true := by
  refine ⟨⟨.inl ⟨ascii "no-store", by decide, .inl (by decide)⟩, by decide⟩, .inr ⟨?_, ?_⟩,
    by decide⟩
  · exact ⟨50, rfl, by decide⟩
  · exact fun text h => absurd h List.not_mem_nil

end Decision

end SymbianWeb.HttpCache
