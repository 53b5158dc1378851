import SymbianWeb.HttpCache.State
import SymbianWeb.Library.CString
import SymbianWeb.Library.Search

/-!
# Parsing cached headers

`BufferToHeadersL` and `MergeHeadersLC` of `HttpCacheUtil` take cached headers apart line by line.
Both search the next line end and the next separator in the text that is left, and move on only
when the separator comes first; otherwise they search the same text again.

`headerFields` are the fields a text holds: those of its lines that have a separator. The parsers
end, with these fields added, exactly when every line has one (`parsesHeaders_iff`).
-/

set_option autoImplicit false

namespace SymbianWeb.HttpCache

open CString Search

/-- `KErrNoMemory`. -/
def kErrNoMemory : Int := -4

/-- `KHttpNewLine`. -/
def kHttpNewLine : Des8 := [0x0d, 0x0a]

/-- `KHttpFieldSeparator`. -/
def kHttpFieldSeparator : Des8 := [0x3a, 0x20]

/-- `KHttpContentType`. -/
def kHttpContentType : Des8 := ascii "Content-Type"

/-- What is used of `RHTTPHeaders`, which is not part of this repository. `setRawFieldL` is called
in a trap and gives the error it leaves with; `fields` are the names and raw values that `Fields`
iterates over. -/
structure HttpHeaders (H : Type) where
  getField : H → Des8 → Int
  removeField : H → Des8 → H
  setRawFieldL : H → Des8 → Des8 → Int × H
  fields : H → List (Des8 × Des8)

/-- Why a parser does not return. -/
inductive HeaderError where
  | leave (err : Int)
  | panic
  deriving DecidableEq

section Parsers

variable {H : Type}

/-- `SetRawFieldL`; leave when out of memory only. -/
def HttpHeaders.setRawField (api : HttpHeaders H) (aHeaders : H) (nameStr value : Des8) :
    Except Int H :=
  let result := api.setRawFieldL aHeaders nameStr value
  if result.1 = kErrNoMemory then .error result.1 else .ok result.2

/-- What `BufferToHeadersL` does with a field: remove if exists, and add. -/
def HttpHeaders.storeField (api : HttpHeaders H) (aHttpHeaders : H) (nameStr value : Des8) :
    Except Int H :=
  if api.getField aHttpHeaders nameStr = kErrNone then
    api.setRawField (api.removeField aHttpHeaders nameStr) nameStr value
  else api.setRawField aHttpHeaders nameStr value

/-- What `MergeHeadersLC` does with a field: add it unless it already exists, except that a content
type always replaces the one there is. -/
def HttpHeaders.mergeField (api : HttpHeaders H) (aResponseHeaders : H) (nameStr value : Des8) :
    Except Int H :=
  let headers :=
    if nameStr = kHttpContentType then api.removeField aResponseHeaders nameStr
    else aResponseHeaders
  if api.getField headers nameStr = kErrNotFound then api.setRawField headers nameStr value
  else .ok headers

/-- The loop of both parsers; the first argument bounds the rounds. -/
def headerLoop (step : H → Des8 → Des8 → Except Int H) :
    Nat → Des8 → H → Option (Except HeaderError H)
  | 0, _, _ => none
  | fuel + 1, headerStr, headers =>
      match findSub kHttpNewLine headerStr with
      | none => some (.ok headers)
      | some lineEnd =>
          match findSub kHttpFieldSeparator headerStr with
          | none => headerLoop step fuel headerStr headers
          | some sepPos =>
              if sepPos < lineEnd then
                let line := headerStr.take lineEnd
                let sepEnd := sepPos + kHttpFieldSeparator.length
                if line.length < sepEnd then some (.error .panic)
                else
                  match step headers (line.take sepPos) (line.drop sepEnd) with
                  | .error err => some (.error (.leave err))
                  | .ok headers =>
                      -- move string to the end of the line
                      headerLoop step fuel (headerStr.drop (lineEnd + kHttpNewLine.length)) headers
              else headerLoop step fuel headerStr headers

/-- `BufferToHeadersL`. -/
def bufferToHeadersL (api : HttpHeaders H) (fuel : Nat) (aHeaderStr : Des8) (aHttpHeaders : H) :
    Option (Except HeaderError H) :=
  headerLoop api.storeField fuel aHeaderStr aHttpHeaders

/-- `HeadersToBufferLC`. -/
def headersToBufferLC (api : HttpHeaders H) (aHttpHeaders : H) : Des8 :=
  (api.fields aHttpHeaders).flatMap fun field =>
    field.1 ++ kHttpFieldSeparator ++ field.2 ++ kHttpNewLine

/-- `MergeHeadersLC`. -/
def mergeHeadersLC (api : HttpHeaders H) (fuel : Nat) (aCachedHeaderStr : Des8)
    (aResponseHeaders : H) : Option (Except HeaderError Des8) :=
  (headerLoop api.mergeField fuel aCachedHeaderStr aResponseHeaders).map fun result =>
    result.map (headersToBufferLC api)

/-! ## The fields of a text -/

/-- The lines of a text. -/
def headerLines (text : Des8) : List Des8 := (lines 0x0d 0x0a text).1

/-- The name and the value of a line, if it has a separator. -/
def headerField (line : Des8) : Option (Des8 × Des8) :=
  (findSub kHttpFieldSeparator line).map fun sepPos =>
    (line.take sepPos, line.drop (sepPos + kHttpFieldSeparator.length))

/-- The fields of a text; lines without a separator are skipped. -/
def headerFields (text : Des8) : List (Des8 × Des8) := (headerLines text).filterMap headerField

/-- Add fields one after the other, up to the first that leaves. -/
def contributeAll (step : H → Des8 → Des8 → Except Int H) :
    List (Des8 × Des8) → H → Except HeaderError H
  | [], headers => .ok headers
  | field :: rest, headers =>
      match step headers field.1 field.2 with
      | .error err => .error (.leave err)
      | .ok headers => contributeAll step rest headers

/-- The first separator of a line is the first one of the text, if the line has one. -/
theorem findSub_separator_line {line rest : Des8} {sepPos : Nat} :
    findSub kHttpFieldSeparator (line ++ 0x0d :: 0x0a :: rest) = some sepPos ∧ sepPos < line.length ↔
      findSub kHttpFieldSeparator line = some sepPos := by
  rw [findSub_append_line (by decide) (by decide) (by decide)]
  constructor
  · rintro ⟨hfind, hlt⟩
    cases hline : findSub kHttpFieldSeparator line with
    | some n =>
        rw [hline] at hfind
        exact hfind
    | none =>
        rw [hline, Option.none_or] at hfind
        obtain ⟨n, -, rfl⟩ := Option.map_eq_some_iff.1 hfind
        omega
  · intro hfind
    have hle := findSub_le hfind
    have hlen : kHttpFieldSeparator.length = 2 := rfl
    rw [hfind]
    exact ⟨rfl, by omega⟩

/-- A round at a line with a separator. -/
theorem headerLoop_line {step : H → Des8 → Des8 → Except Int H} {fuel : Nat} {line rest : Des8}
    {headers : H} {field : Des8 × Des8} (hline : ¬ kHttpNewLine <:+: line ++ [0x0d])
    (hfield : headerField line = some field) :
    headerLoop step (fuel + 1) (line ++ 0x0d :: 0x0a :: rest) headers =
      match step headers field.1 field.2 with
      | .error err => some (.error (.leave err))
      | .ok headers => headerLoop step fuel rest headers := by
  obtain ⟨sepPos, hsep, rfl⟩ := Option.map_eq_some_iff.1 hfield
  obtain ⟨htext, hlt⟩ := (@findSub_separator_line line rest sepPos).2 hsep
  have hle := findSub_le hsep
  have hend : findSub kHttpNewLine (line ++ 0x0d :: 0x0a :: rest) = some line.length :=
    findSub_line_end hline
  rw [headerLoop, hend]
  simp only [htext, hlt, if_true, List.take_append_of_le_length (Nat.le_refl _), List.take_length]
  rw [if_neg (by omega)]
  have hdrop : (line ++ 0x0d :: 0x0a :: rest).drop (line.length + kHttpNewLine.length) = rest := by
    rw [← List.drop_drop, List.drop_left]
    rfl
  rw [hdrop]

/-- A line without a separator is read over and over again. -/
theorem headerLoop_stuck {step : H → Des8 → Des8 → Except Int H} {line rest : Des8}
    (hline : ¬ kHttpNewLine <:+: line ++ [0x0d]) (hfield : headerField line = none) (fuel : Nat)
    (headers : H) : headerLoop step fuel (line ++ 0x0d :: 0x0a :: rest) headers = none := by
  have hsep : findSub kHttpFieldSeparator line = none := Option.map_eq_none_iff.1 hfield
  have hend : findSub kHttpNewLine (line ++ 0x0d :: 0x0a :: rest) = some line.length :=
    findSub_line_end hline
  induction fuel with
  | zero => rfl
  | succ fuel ih =>
      rw [headerLoop, hend]
      cases htext : findSub kHttpFieldSeparator (line ++ 0x0d :: 0x0a :: rest) with
      | none => exact ih
      | some sepPos =>
          have hnot : ¬ sepPos < line.length := fun hlt => by
            rw [findSub_separator_line.1 ⟨htext, hlt⟩] at hsep
            cases hsep
          simp only [hnot, if_false]
          exact ih

/-! ## Termination -/

theorem headerField_eq_none_iff {line : Des8} :
    headerField line = none ↔ ¬ kHttpFieldSeparator <:+: line := by
  rw [headerField, Option.map_eq_none_iff, findSub_eq_none_iff]

/-- When every line has a separator the loop ends after one round for each line and one more. -/
theorem headerLoop_run (step : H → Des8 → Des8 → Except Int H) {text : Des8} (headers : H)
    (hsep : ∀ line ∈ headerLines text, kHttpFieldSeparator <:+: line) :
    headerLoop step ((headerLines text).length + 1) text headers =
      some (contributeAll step (headerFields text) headers) := by
  generalize hn : (headerLines text).length = n
  unfold headerFields at *
  induction n generalizing text headers with
  | zero =>
      rcases lines_cases 0x0d 0x0a text with ⟨hnone, -⟩ | ⟨line, rest, -, -, hlines⟩
      · rw [headerLoop, kHttpNewLine, findSub_eq_none_iff.2 hnone, List.eq_nil_of_length_eq_zero hn]
        rfl
      · rw [headerLines, hlines] at hn
        cases hn
  | succ n ih =>
      rcases lines_cases 0x0d 0x0a text with ⟨-, hlines⟩ | ⟨line, rest, rfl, hfirst, hlines⟩
      · rw [headerLines, hlines] at hn
        cases hn
      · have hcons : headerLines (line ++ 0x0d :: 0x0a :: rest) = line :: headerLines rest := by
          rw [headerLines, hlines]
          rfl
        rw [hcons] at hn hsep ⊢
        obtain ⟨field, hfield⟩ : ∃ field, headerField line = some field := by
          rw [← Option.ne_none_iff_exists']
          exact fun hnone => headerField_eq_none_iff.1 hnone (hsep line List.mem_cons_self)
        rw [headerLoop_line hfirst hfield, List.filterMap_cons_some hfield, contributeAll]
        cases step headers field.1 field.2 with
        | error err => rfl
        | ok headers =>
            exact ih headers (fun l hl => hsep l (List.mem_cons_of_mem _ hl)) (Nat.succ.inj hn)

/-- A line without a separator is never passed, unless a field before it leaves. -/
theorem headerLoop_diverges {step : H → Des8 → Des8 → Except Int H}
    (hstep : ∀ headers name value, ∃ headers', step headers name value = .ok headers')
    {text line : Des8} (hline : line ∈ headerLines text)
    (hsep : ¬ kHttpFieldSeparator <:+: line) (fuel : Nat) (headers : H) :
    headerLoop step fuel text headers = none := by
  generalize hn : (headerLines text).length = n
  induction n generalizing text fuel headers with
  | zero =>
      rw [List.eq_nil_of_length_eq_zero hn] at hline
      cases hline
  | succ n ih =>
      rcases lines_cases 0x0d 0x0a text with ⟨-, hlines⟩ | ⟨first, rest, rfl, hfirst, hlines⟩
      · rw [headerLines, hlines] at hn
        cases hn
      · have hcons : headerLines (first ++ 0x0d :: 0x0a :: rest) = first :: headerLines rest := by
          rw [headerLines, hlines]
          rfl
        rw [hcons] at hn hline
        cases hfield : headerField first with
        | none => exact headerLoop_stuck hfirst hfield fuel headers
        | some field =>
            cases fuel with
            | zero => rfl
            | succ fuel =>
                obtain ⟨headers', hok⟩ := hstep headers field.1 field.2
                rw [headerLoop_line hfirst hfield, hok]
                have hrest : line ∈ headerLines rest := by
                  rcases List.mem_cons.1 hline with rfl | hrest
                  · rw [headerField_eq_none_iff.2 hsep] at hfield
                    cases hfield
                  · exact hrest
                exact ih hrest fuel headers' (Nat.succ.inj hn)

/-- Both parsers end for a text, with the fields of its lines added. -/
def ParsesHeaders (text : Des8) : Prop :=
  ∀ (H : Type) (api : HttpHeaders H) (headers : H),
    (∃ fuel, bufferToHeadersL api fuel text headers =
      some (contributeAll api.storeField (headerFields text) headers)) ∧
    ∃ fuel, mergeHeadersLC api fuel text headers =
      some ((contributeAll api.mergeField (headerFields text) headers).map
        (headersToBufferLC api))

/-- With memory for the fields, the parser of a text with a line without a separator never ends. -/
theorem bufferToHeadersL_diverges (api : HttpHeaders H)
    (hmemory : ∀ headers name value, (api.setRawFieldL headers name value).1 ≠ kErrNoMemory)
    {text line : Des8} (hline : line ∈ headerLines text)
    (hsep : ¬ kHttpFieldSeparator <:+: line) (fuel : Nat) (headers : H) :
    bufferToHeadersL api fuel text headers = none := by
  refine headerLoop_diverges (fun h name value => ?_) hline hsep fuel headers
  unfold HttpHeaders.storeField HttpHeaders.setRawField
  dsimp only
  split_ifs with hexists hmem hmem
  · exact absurd hmem (hmemory _ _ _)
  · exact ⟨_, rfl⟩
  · exact absurd hmem (hmemory _ _ _)
  · exact ⟨_, rfl⟩

end Parsers

/-- Headers that keep nothing. -/
def noHeaders : HttpHeaders Unit where
  getField _ _ := kErrNotFound
  removeField _ _ := ()
  setRawFieldL _ _ _ := (kErrNone, ())
  fields _ := []

theorem noHeaders_memory (headers : Unit) (name value : Des8) :
    (noHeaders.setRawFieldL headers name value).1 ≠ kErrNoMemory := by
  show kErrNone ≠ kErrNoMemory
  decide

/-- The parsers end, with the fields of the lines added, exactly when every line has a
separator. -/
theorem parsesHeaders_iff (text : Des8) :
    ParsesHeaders text ↔ ∀ line ∈ headerLines text, kHttpFieldSeparator <:+: line := by
  constructor
  · intro h line hline
    by_contra hsep
    obtain ⟨fuel, hrun⟩ := (h Unit noHeaders ()).1
    rw [bufferToHeadersL_diverges noHeaders noHeaders_memory hline hsep fuel ()] at hrun
    cases hrun
  · intro hsep H api headers
    refine ⟨⟨_, headerLoop_run api.storeField headers hsep⟩, (headerLines text).length + 1, ?_⟩
    rw [mergeHeadersLC, headerLoop_run api.mergeField headers hsep]
    rfl

/-- The text `foo` with a line end. -/
theorem not_parsesHeaders : ∃ text : Des8, ¬ ParsesHeaders text ∧
    ∀ fuel, bufferToHeadersL noHeaders fuel text () = none := by
  have hline : ascii "foo" ∈ headerLines (ascii "foo" ++ kHttpNewLine) := by decide
  have hsep : ¬ kHttpFieldSeparator <:+: ascii "foo" := by decide
  have hstuck := bufferToHeadersL_diverges noHeaders noHeaders_memory hline hsep
  refine ⟨_, fun h => ?_, fun fuel => hstuck fuel ()⟩
  obtain ⟨fuel, hrun⟩ := (h Unit noHeaders ()).1
  rw [hstuck fuel ()] at hrun
  cases hrun

end SymbianWeb.HttpCache
