import SymbianWeb.HttpCache.HeaderParsing
import SymbianWeb.HttpCache.Reference

/-!
# One field of a cached header block

`AddHeaderLC` changes or adds a field of a header block and `HeaderFieldFromBufferLC` reads one.
Both search the name in the whole block, and take what they find for the name of a field, wherever
it stands. `FirstHit` says in which line, and where in it, the name stands first.

`addsField_iff` and `readsField_iff` say for which blocks and names the result is the right one
all the same.
-/

set_option autoImplicit false

namespace SymbianWeb.HttpCache

open Search

/-! ## The functions -/

/-- The first occurrence of a pattern, up to a folding of the characters. -/
def findBy (fold : UInt8 → UInt8) (pat text : Des8) : Option Nat :=
  findSub (pat.map fold) (text.map fold)

/-- `TDesC8::FindF`. -/
def findF [Platform] (text pat : Des8) : Option Nat := findBy Platform.fold8 pat text

/-- `AddHeaderLC`; `Replace` panics for a negative length. -/
def addHeaderLC [Platform] (aName aValue aHeaders : Des8) : Option Des8 :=
  match findF aHeaders aName with
  | some pos =>
      -- headers are terminated by \r\n
      match findSub kHttpNewLine (aHeaders.drop pos) with
      | some endPos =>
          let valuePos := pos + aName.length + kHttpFieldSeparator.length
          if pos + endPos < valuePos then none
          else some (aHeaders.take valuePos ++ aValue ++ aHeaders.drop (pos + endPos))
      | none => some aHeaders
  | none => some (aHeaders ++ aName ++ kHttpFieldSeparator ++ aValue ++ kHttpNewLine)

/-- `HeaderFieldFromBufferLC`; a null buffer is `none`, and a buffer cannot have a negative
length. -/
def headerFieldFromBufferLC (aHeaders aKey : Des8) : Option (Option Des8) :=
  match findSub aKey aHeaders with
  | none => some none
  | some pos =>
      let linePtr := aHeaders.drop pos
      match findSub kHttpFieldSeparator linePtr with
      | none => some none
      | some sepPos =>
          let lineEnd := (findSub kHttpNewLine linePtr).getD linePtr.length
          let valuePos := sepPos + kHttpFieldSeparator.length
          if lineEnd < valuePos then none
          else some (some ((linePtr.drop valuePos).take (lineEnd - valuePos)))

/-! ## Well-formed blocks -/

/-- A line of a header block. -/
@[ext] structure FieldLine where
  name : Des8
  value : Des8
  name_ne : name ≠ []
  name_colon : 0x3a ∉ name
  name_cr : 0x0d ∉ name
  name_lf : 0x0a ∉ name
  value_cr : 0x0d ∉ value
  value_lf : 0x0a ∉ value

/-- The text of a line. -/
def FieldLine.line (f : FieldLine) : Des8 := f.name ++ (kHttpFieldSeparator ++ f.value)

/-- The text of a block. -/
def blockText (fields : List FieldLine) : Des8 :=
  fields.flatMap fun f => f.line ++ kHttpNewLine

theorem FieldLine.line_cr (f : FieldLine) : 0x0d ∉ f.line := by
  simp [FieldLine.line, kHttpFieldSeparator, f.name_cr, f.value_cr]

theorem FieldLine.length_line (f : FieldLine) :
    f.line.length = f.name.length + 2 + f.value.length := by
  simp [FieldLine.line, kHttpFieldSeparator]
  omega

theorem findSub_separator_of_line (f : FieldLine) :
    findSub kHttpFieldSeparator f.line = some f.name.length :=
  findSub_eq_length f.value (by decide) (not_infix_line f.name_colon)

theorem headerField_line (f : FieldLine) : headerField f.line = some (f.name, f.value) := by
  rw [headerField, findSub_separator_of_line]
  simp [FieldLine.line, ← List.drop_drop]

theorem line_injective : Function.Injective FieldLine.line := by
  intro f g h
  have heq := headerField_line f
  rw [h, headerField_line, Option.some.injEq, Prod.mk.injEq] at heq
  exact FieldLine.ext heq.1.symm heq.2.symm

theorem blockText_cons (f : FieldLine) (fields : List FieldLine) :
    blockText (f :: fields) = f.line ++ 0x0d :: 0x0a :: blockText fields := by
  simp [blockText, kHttpNewLine]

theorem blockText_append (fs gs : List FieldLine) :
    blockText (fs ++ gs) = blockText fs ++ blockText gs :=
  List.flatMap_append

theorem lines_blockText_append (fields : List FieldLine) (t : Des8) :
    lines 0x0d 0x0a (blockText fields ++ t) =
      (fields.map FieldLine.line ++ (lines 0x0d 0x0a t).1, (lines 0x0d 0x0a t).2) := by
  induction fields with
  | nil => rfl
  | cons f fields ih =>
      rw [blockText_cons, List.append_assoc, List.cons_append, List.cons_append,
        lines_append f.line_cr, ih]
      rfl

theorem lines_blockText (fields : List FieldLine) :
    lines 0x0d 0x0a (blockText fields) = (fields.map FieldLine.line, []) := by
  have h := lines_blockText_append fields []
  rwa [List.append_nil, lines, List.append_nil] at h

theorem blockText_injective : Function.Injective blockText := by
  intro fs gs h
  have hlines := lines_blockText fs
  rw [h, lines_blockText, Prod.mk.injEq] at hlines
  exact (List.map_injective_iff.2 line_injective hlines.1).symm

/-- A block that reads as another one but for one line has the other fields of that one. -/
theorem eq_append_of_blockText {fields pre post : List FieldLine} {l : Des8} (hcr : 0x0d ∉ l)
    (h : blockText pre ++ (l ++ 0x0d :: 0x0a :: blockText post) = blockText fields) :
    ∃ g, g.line = l ∧ fields = pre ++ g :: post := by
  have hlines := lines_blockText fields
  rw [← h, lines_blockText_append, lines_append hcr, lines_blockText, Prod.mk.injEq] at hlines
  obtain ⟨pre', rest, rfl, hpre, hrest⟩ := List.map_eq_append_iff.1 hlines.1.symm
  obtain ⟨g, post', rfl, hg, hpost⟩ := List.map_eq_cons_iff.1 hrest
  obtain rfl : pre' = pre := List.map_injective_iff.2 line_injective hpre
  obtain rfl : post' = post := List.map_injective_iff.2 line_injective hpost
  exact ⟨g, hg, rfl⟩

/-! ## Where a name stands first -/

/-- A folding that does not take other characters to those of a line end. -/
structure KeepsLineEnds (fold : UInt8 → UInt8) : Prop where
  cr : ∀ c, fold c = fold 0x0d → c = 0x0d
  lf : ∀ c, fold c = fold 0x0a → c = 0x0a

theorem keepsLineEnds_id : KeepsLineEnds id := ⟨fun _ h => h, fun _ h => h⟩

/-- The name stands first in the line of `f`, behind `o` characters. -/
structure FirstHit (fold : UInt8 → UInt8) (name : Des8) (fields pre : List FieldLine)
    (f : FieldLine) (post : List FieldLine) (o : Nat) : Prop where
  split : fields = pre ++ f :: post
  before : ∀ g ∈ pre, findBy fold name g.line = none
  here : findBy fold name f.line = some o

section Hit

variable {fold : UInt8 → UInt8}

theorem findBy_cons (hfold : KeepsLineEnds fold) (new f : FieldLine) (fields : List FieldLine) :
    findBy fold new.name (blockText (f :: fields)) =
      (findBy fold new.name f.line).or
        ((findBy fold new.name (blockText fields)).map (· + (f.line.length + 2))) := by
  have hne : new.name.map fold ≠ [] := fun h => new.name_ne (List.map_eq_nil_iff.1 h)
  have hcr : fold 0x0d ∉ new.name.map fold := by
    intro hmem
    obtain ⟨c, hc, heq⟩ := List.mem_map.1 hmem
    rw [hfold.cr c heq] at hc
    exact new.name_cr hc
  have hlf : fold 0x0a ∉ new.name.map fold := by
    intro hmem
    obtain ⟨c, hc, heq⟩ := List.mem_map.1 hmem
    rw [hfold.lf c heq] at hc
    exact new.name_lf hc
  rw [findBy, blockText_cons, List.map_append, List.map_cons, List.map_cons,
    findSub_append_line hne hcr hlf, List.length_map]
  rfl

theorem findBy_none (hfold : KeepsLineEnds fold) (new : FieldLine) {fields : List FieldLine}
    (h : ∀ f ∈ fields, findBy fold new.name f.line = none) :
    findBy fold new.name (blockText fields) = none := by
  induction fields with
  | nil => exact if_neg fun hnil => new.name_ne (List.map_eq_nil_iff.1 hnil)
  | cons f fields ih =>
      rw [findBy_cons hfold, h f List.mem_cons_self,
        ih fun g hg => h g (List.mem_cons_of_mem _ hg)]
      rfl

theorem findBy_of_firstHit (hfold : KeepsLineEnds fold) {new : FieldLine}
    {fields pre post : List FieldLine} {f : FieldLine} {o : Nat}
    (h : FirstHit fold new.name fields pre f post o) :
    findBy fold new.name (blockText fields) = some ((blockText pre).length + o) := by
  obtain ⟨rfl, hbefore, hhere⟩ := h
  induction pre with
  | nil =>
      rw [List.nil_append, findBy_cons hfold, hhere]
      simp [blockText]
  | cons g pre ih =>
      rw [List.cons_append, findBy_cons hfold, hbefore g List.mem_cons_self,
        ih fun g' hg' => hbefore g' (List.mem_cons_of_mem _ hg'), blockText_cons]
      simp
      omega

/-- A name stands nowhere in a block, or first in one of its lines. -/
theorem firstHit_or_none (fold : UInt8 → UInt8) (name : Des8) (fields : List FieldLine) :
    (∀ f ∈ fields, findBy fold name f.line = none) ∨
      ∃ pre f post o, FirstHit fold name fields pre f post o := by
  induction fields with
  | nil => exact .inl fun f hf => by cases hf
  | cons g fields ih =>
      cases hhere : findBy fold name g.line with
      | some o => exact .inr ⟨[], g, fields, o, rfl, (fun f hf => nomatch hf), hhere⟩
      | none =>
          rcases ih with hnone | ⟨pre, f, post, o, hsplit, hbefore, hhit⟩
          · left
            intro f hf
            rcases List.mem_cons.1 hf with rfl | hf
            · exact hhere
            · exact hnone f hf
          · refine .inr ⟨g :: pre, f, post, o, by rw [hsplit, List.cons_append], ?_, hhit⟩
            intro f' hf'
            rcases List.mem_cons.1 hf' with rfl | hf'
            · exact hhere
            · exact hbefore f' hf'

/-- The text of a block behind the first occurrence of a name. -/
theorem drop_of_firstHit {name : Des8} {fields pre post : List FieldLine} {f : FieldLine} {o : Nat}
    (h : FirstHit fold name fields pre f post o) :
    o + name.length ≤ f.line.length ∧
      (blockText fields).drop ((blockText pre).length + o) =
        f.line.drop o ++ 0x0d :: 0x0a :: blockText post := by
  have hle := findSub_le h.here
  rw [List.length_map, List.length_map] at hle
  refine ⟨hle, ?_⟩
  rw [h.split, blockText_append, ← List.drop_drop, List.drop_left, blockText_cons,
    List.drop_append_of_le_length (by omega)]

/-- The line ends where it ends. -/
theorem findSub_newLine_of_firstHit {name : Des8} {fields pre post : List FieldLine} {f : FieldLine}
    {o : Nat} (h : FirstHit fold name fields pre f post o) :
    findSub kHttpNewLine ((blockText fields).drop ((blockText pre).length + o)) =
      some (f.line.length - o) := by
  have hcr : 0x0d ∉ f.line.drop o := fun hmem => f.line_cr (List.mem_of_mem_drop hmem)
  rw [(drop_of_firstHit h).2, kHttpNewLine, findSub_line_end (not_infix_line hcr), List.length_drop]

end Hit

/-! ## Adding a field -/

/-- The value of the first field with such a name. -/
def fieldValue (named : Des8 → Bool) (fields : List FieldLine) : Option Des8 :=
  (fields.find? fun f => named f.name).map FieldLine.value

section Adding

variable [Platform]

/-- The fields with another name. -/
def otherFields (fields : List FieldLine) (name : Des8) : List FieldLine :=
  fields.filter fun f => !compareF f.name name

/-- `AddHeaderLC` returns a block in which the name has the value and every other field is as it
was. -/
def AddsField (fields : List FieldLine) (new : FieldLine) : Prop :=
  ∃ fields', addHeaderLC new.name new.value (blockText fields) = some (blockText fields') ∧
    fieldValue (compareF · new.name) fields' = some new.value ∧
    otherFields fields' new.name = otherFields fields new.name

/-- The name stands nowhere in the block, or first as the name of a field, or the text that would
be replaced and the value of the field are the new value already. -/
def AddsAtName (fields : List FieldLine) (new : FieldLine) : Prop :=
  (∀ f ∈ fields, findBy Platform.fold8 new.name f.line = none) ∨
    ∃ pre f post o, FirstHit Platform.fold8 new.name fields pre f post o ∧
      (o = 0 ∧ compareF f.name new.name = true ∨
        o + new.name.length + 2 ≤ f.line.length ∧
          f.line.drop (o + new.name.length + 2) = new.value ∧
          fieldValue (compareF · new.name) fields = some new.value)

variable {fields pre post : List FieldLine} {new f : FieldLine} {o : Nat}

theorem addHeaderLC_of_none (hfold : KeepsLineEnds Platform.fold8)
    (h : ∀ f ∈ fields, findBy Platform.fold8 new.name f.line = none) :
    addHeaderLC new.name new.value (blockText fields) = some (blockText (fields ++ [new])) := by
  rw [addHeaderLC, findF, findBy_none hfold new h]
  simp [blockText, FieldLine.line]

theorem addHeaderLC_of_firstHit (hfold : KeepsLineEnds Platform.fold8)
    (h : FirstHit Platform.fold8 new.name fields pre f post o) :
    addHeaderLC new.name new.value (blockText fields) =
      if f.line.length < o + new.name.length + 2 then none
      else some (blockText pre ++
        ((f.line.take (o + new.name.length + 2) ++ new.value) ++ 0x0d :: 0x0a ::
          blockText post)) := by
  have hle := (drop_of_firstHit h).1
  have hsep : kHttpFieldSeparator.length = 2 := rfl
  rw [addHeaderLC, findF, findBy_of_firstHit hfold h]
  dsimp only
  rw [findSub_newLine_of_firstHit h]
  dsimp only
  by_cases hshort : f.line.length < o + new.name.length + 2
  · rw [if_pos hshort, if_pos (by omega)]
  · rw [if_neg hshort, if_neg (by omega), h.split, blockText_append, blockText_cons]
    have htake : (blockText pre).length + o + new.name.length + kHttpFieldSeparator.length =
        (blockText pre).length + (o + new.name.length + 2) := by omega
    have hdrop : (blockText pre).length + o + (f.line.length - o) =
        (blockText pre).length + f.line.length := by omega
    rw [htake, hdrop, List.take_length_add_append, List.take_append_of_le_length (by omega),
      ← List.drop_drop, List.drop_left, List.drop_left]
    simp only [List.append_assoc]

/-- A field of this name is where the name stands first in its line. -/
theorem findBy_of_named (h : compareF f.name new.name = true) :
    findBy Platform.fold8 new.name f.line = some 0 := by
  rw [findBy, findSub_eq_some_iff]
  refine ⟨Nat.zero_le _, ?_, fun k hk => absurd hk (Nat.not_lt_zero k)⟩
  rw [List.drop_zero, FieldLine.line, List.map_append, (compareF_iff _ _).1 h]
  exact List.prefix_append _ _

theorem not_named_of_none (h : findBy Platform.fold8 new.name f.line = none) :
    compareF f.name new.name = false := by
  by_contra hnamed
  rw [Bool.not_eq_false] at hnamed
  rw [findBy_of_named hnamed] at h
  cases h

/-- The line with another value. -/
def FieldLine.withValue (f : FieldLine) (new : FieldLine) : FieldLine :=
  { f with value := new.value, value_cr := new.value_cr, value_lf := new.value_lf }

theorem addsField_of_addsAtName (hfold : KeepsLineEnds Platform.fold8)
    (h : AddsAtName fields new) : AddsField fields new := by
  rcases h with hnone | ⟨pre, f, post, o, hhit, ⟨rfl, hnamed⟩ | ⟨hlen, hvalue, hold⟩⟩
  · have hnot : ∀ f ∈ fields, compareF f.name new.name = false := fun f hf =>
      not_named_of_none (hnone f hf)
    refine ⟨_, addHeaderLC_of_none hfold hnone, ?_, ?_⟩
    · have hfirst : fields.find? (fun f => compareF f.name new.name) = none :=
        List.find?_eq_none.2 fun f hf => by simp [hnot f hf]
      rw [fieldValue, List.find?_append, hfirst, Option.none_or]
      simp
    · simp [otherFields, List.filter_append]
  · have hlen : f.name.length = new.name.length := by
      simpa using congrArg List.length ((compareF_iff _ _).1 hnamed)
    have hline := f.length_line
    refine ⟨pre ++ f.withValue new :: post, ?_, ?_, ?_⟩
    · rw [addHeaderLC_of_firstHit hfold hhit, if_neg (by omega), blockText_append, blockText_cons]
      have htake : f.line.take (0 + new.name.length + 2) = f.name ++ kHttpFieldSeparator := by
        rw [FieldLine.line, ← List.append_assoc, List.take_left']
        simp [hlen, kHttpFieldSeparator]
      rw [htake]
      simp [FieldLine.line, FieldLine.withValue]
    · have hfirst : pre.find? (fun f => compareF f.name new.name) = none :=
        List.find?_eq_none.2 fun g hg => by simp [not_named_of_none (hhit.before g hg)]
      rw [fieldValue, List.find?_append, hfirst, Option.none_or, List.find?_cons_of_pos]
      · rfl
      · exact hnamed
    · have hnamed' : compareF (f.withValue new).name new.name = true := hnamed
      simp [hhit.split, otherFields, hnamed, hnamed']
  · refine ⟨fields, ?_, hold, rfl⟩
    rw [addHeaderLC_of_firstHit hfold hhit, if_neg (by omega), ← hvalue, List.take_append_drop,
      hhit.split, blockText_append, blockText_cons]

/-- Replacing one line that stays in the block among the other fields does not change it. -/
theorem eq_of_otherFields {g : FieldLine} (hf : compareF f.name new.name = false)
    (h : otherFields (pre ++ g :: post) new.name = otherFields (pre ++ f :: post) new.name) :
    g = f := by
  unfold otherFields at h
  rw [List.filter_append, List.filter_append, List.append_cancel_left_eq,
    List.filter_cons_of_pos (a := f) (by simp [hf])] at h
  cases hg : compareF g.name new.name with
  | false =>
      rw [List.filter_cons_of_pos (by simp [hg]), List.cons.injEq] at h
      exact h.1
  | true =>
      rw [List.filter_cons_of_neg (by simp [hg])] at h
      have hlen := congrArg List.length h
      simp at hlen

theorem addsAtName_of_addsField (hfold : KeepsLineEnds Platform.fold8)
    (h : AddsField fields new) : AddsAtName fields new := by
  rcases firstHit_or_none Platform.fold8 new.name fields with hnone | ⟨pre, f, post, o, hhit⟩
  · exact .inl hnone
  · obtain ⟨fields', hrun, hvalue, hothers⟩ := h
    refine .inr ⟨pre, f, post, o, hhit, ?_⟩
    cases hnamed : compareF f.name new.name with
    | true =>
        have hzero := hhit.here
        rw [findBy_of_named hnamed, Option.some.injEq] at hzero
        exact .inl ⟨hzero.symm, rfl⟩
    | false =>
        rw [addHeaderLC_of_firstHit hfold hhit] at hrun
        by_cases hshort : f.line.length < o + new.name.length + 2
        · rw [if_pos hshort] at hrun
          cases hrun
        · rw [if_neg hshort, Option.some.injEq] at hrun
          -- the lines of the result are those of the block, but for one
          have hcr : 0x0d ∉ f.line.take (o + new.name.length + 2) ++ new.value := by
            rw [List.mem_append, not_or]
            exact ⟨fun hmem => f.line_cr (List.mem_of_mem_take hmem), new.value_cr⟩
          obtain ⟨g, hline, rfl⟩ := eq_append_of_blockText hcr hrun
          rw [hhit.split] at hothers
          obtain rfl := eq_of_otherFields hnamed hothers
          refine .inr ⟨by omega, ?_, by rwa [hhit.split]⟩
          refine (List.append_right_inj (g.line.take (o + new.name.length + 2))).1 ?_
          rw [List.take_append_drop]
          exact hline

end Adding

/-! ## Reading a field -/

section Reading

/-- `HeaderFieldFromBufferLC` returns the value of the first field with such a name, or a null
buffer when there is none. -/
def ReadsField (named : Des8 → Bool) (fields : List FieldLine) (name : Des8) : Prop :=
  headerFieldFromBufferLC (blockText fields) name = some (fieldValue named fields)

/-- The name stands nowhere in the block and there is no such field, or what the line in which it
stands first holds from there on, read as a field, has the value of the field. Where that is no
field, nothing may follow it in the block. -/
def ReadsAtName (named : Des8 → Bool) (fields : List FieldLine) (name : Des8) : Prop :=
  (∀ f ∈ fields, findBy id name f.line = none) ∧ fieldValue named fields = none ∨
    ∃ pre f post o, FirstHit id name fields pre f post o ∧
      (headerField (f.line.drop o)).map Prod.snd = fieldValue named fields ∧
      (headerField (f.line.drop o) = none → post = [])

variable {fields pre post : List FieldLine} {new f : FieldLine} {o : Nat}

theorem findBy_id (pat text : Des8) : findBy id pat text = findSub pat text := by
  rw [findBy, List.map_id, List.map_id]

theorem headerFieldFromBufferLC_of_none
    (h : ∀ f ∈ fields, findBy id new.name f.line = none) :
    headerFieldFromBufferLC (blockText fields) new.name = some none := by
  have hfind := findBy_none keepsLineEnds_id new h
  rw [findBy_id] at hfind
  rw [headerFieldFromBufferLC, hfind]

/-- The first separator of a block is that of its first line. -/
theorem findSub_separator_blockText (g : FieldLine) (fields : List FieldLine) :
    findSub kHttpFieldSeparator (blockText (g :: fields)) = some g.name.length := by
  rw [blockText_cons, findSub_append_line (by decide) (by decide) (by decide),
    findSub_separator_of_line]
  rfl

theorem headerFieldFromBufferLC_of_firstHit (h : FirstHit id new.name fields pre f post o) :
    headerFieldFromBufferLC (blockText fields) new.name =
      match headerField (f.line.drop o) with
      | some field => some (some field.2)
      | none => if post = [] then some none else none := by
  have hfind := findBy_of_firstHit keepsLineEnds_id h
  rw [findBy_id] at hfind
  have hend := findSub_newLine_of_firstHit h
  have hdrop := (drop_of_firstHit h).2
  have hsep : kHttpFieldSeparator.length = 2 := rfl
  rw [headerFieldFromBufferLC, hfind]
  dsimp only
  rw [hend, hdrop, findSub_append_line (by decide) (by decide) (by decide), headerField]
  cases hrest : findSub kHttpFieldSeparator (f.line.drop o) with
  | some p =>
      have hle := findSub_le hrest
      rw [List.length_drop] at hle
      rw [Option.some_or, Option.map_some]
      dsimp only
      rw [Option.getD_some, if_neg (by omega), List.drop_append_of_le_length (by
        rw [List.length_drop]
        omega), List.take_left']
      rw [List.length_drop, List.length_drop]
  | none =>
      rw [Option.none_or, Option.map_none]
      cases post with
      | nil => rfl
      | cons g post =>
          rw [findSub_separator_blockText]
          simp only [Option.map_some, Option.getD_some, List.length_drop]
          rw [if_pos (by omega), if_neg (by simp)]

theorem readsField_iff (named : Des8 → Bool) :
    ReadsField named fields new.name ↔ ReadsAtName named fields new.name := by
  unfold ReadsField
  constructor
  · intro hreads
    rcases firstHit_or_none id new.name fields with hnone | ⟨pre, f, post, o, hhit⟩
    · rw [headerFieldFromBufferLC_of_none hnone, Option.some.injEq] at hreads
      exact .inl ⟨hnone, hreads.symm⟩
    · rw [headerFieldFromBufferLC_of_firstHit hhit] at hreads
      refine .inr ⟨pre, f, post, o, hhit, ?_⟩
      cases hfield : headerField (f.line.drop o) with
      | some field =>
          rw [hfield, Option.some.injEq] at hreads
          exact ⟨hreads, fun hnone => nomatch hnone⟩
      | none =>
          rw [hfield] at hreads
          dsimp only at hreads
          by_cases hpost : post = []
          · rw [if_pos hpost, Option.some.injEq] at hreads
            exact ⟨hreads, fun _ => hpost⟩
          · rw [if_neg hpost] at hreads
            cases hreads
  · rintro (⟨hnone, hvalue⟩ | ⟨pre, f, post, o, hhit, hvalue, hlast⟩)
    · rw [headerFieldFromBufferLC_of_none hnone, hvalue]
    · rw [headerFieldFromBufferLC_of_firstHit hhit, ← hvalue]
      cases hfield : headerField (f.line.drop o) with
      | some field => rfl
      | none => exact if_pos (hlast hfield)

end Reading

/-- Exactly when `AddHeaderLC` changes the field it is asked to change, and
`HeaderFieldFromBufferLC` returns the field it is asked for, for every way to compare names. -/
theorem headerFields_iff [Platform] (hfold : KeepsLineEnds Platform.fold8)
    (fields : List FieldLine) (new : FieldLine) :
    (AddsField fields new ↔ AddsAtName fields new) ∧
      ∀ named, ReadsField named fields new.name ↔ ReadsAtName named fields new.name :=
  ⟨⟨addsAtName_of_addsField hfold, addsField_of_addsAtName hfold⟩, readsField_iff⟩

/-! ## Blocks with a date -/

section Dates

open CString Reference

/-- The line `Date: b`. -/
def dateLine : FieldLine where
  name := ascii "Date"
  value := ascii "b"
  name_ne := by decide
  name_colon := by decide
  name_cr := by decide
  name_lf := by decide
  value_cr := by decide
  value_lf := by decide

/-- The line `X-Date: a`. -/
def xDateLine : FieldLine where
  name := ascii "X-Date"
  value := ascii "a"
  name_ne := by decide
  name_colon := by decide
  name_cr := by decide
  name_lf := by decide
  value_cr := by decide
  value_lf := by decide

/-- The line `Vary: Date`. -/
def varyLine : FieldLine where
  name := ascii "Vary"
  value := ascii "Date"
  name_ne := by decide
  name_colon := by decide
  name_cr := by decide
  name_lf := by decide
  value_cr := by decide
  value_lf := by decide

theorem keepsLineEnds_fold8 : KeepsLineEnds Reference.fold8 := by
  have hfolded : ∀ c d : UInt8, d.toNat < 32 → Reference.fold8 c = d → c = d := by
    intro c d hd h
    rw [Reference.fold8] at h
    split_ifs at h with hupper
    · have h' := congrArg UInt8.toNat h
      have h₁ := UInt8.le_iff_toNat_le.1 hupper.1
      have h₂ := UInt8.le_iff_toNat_le.1 hupper.2
      simp only [UInt8.toNat_add, UInt8.toNat_ofNat] at h' h₁ h₂
      omega
    · exact h
  exact ⟨fun c h => hfolded c 0x0d (by decide) h, fun c h => hfolded c 0x0a (by decide) h⟩

/-- A block with the field alone. -/
theorem headerFields_dateLine : AddsField [dateLine] dateLine ∧
    ReadsField (compareF · dateLine.name) [dateLine] dateLine.name := by
  obtain ⟨hadds, hreads⟩ := headerFields_iff keepsLineEnds_fold8 [dateLine] dateLine
  refine ⟨hadds.2 (.inr ⟨[], dateLine, [], 0, ⟨rfl, ?_, by decide⟩, .inl ⟨rfl, by decide⟩⟩), ?_⟩
  · exact fun g hg => nomatch hg
  · refine (hreads _).2 (.inr ⟨[], dateLine, [], 0, ⟨rfl, ?_, by decide⟩, by decide, ?_⟩)
    · exact fun g hg => nomatch hg
    · exact fun _ => rfl

/-- Behind `X-Date: a` the field is not found, whichever way names are compared; with the name at
the end of a value in front of it, adding the field panics. -/
theorem not_headerFields :
    ¬ AddsField [xDateLine, dateLine] dateLine ∧
      addHeaderLC dateLine.name dateLine.value (blockText [varyLine, dateLine]) = none ∧
      ¬ ReadsField (compareF · dateLine.name) [xDateLine, dateLine] dateLine.name ∧
      ¬ ReadsField (· == dateLine.name) [xDateLine, dateLine] dateLine.name ∧
      headerFieldFromBufferLC (blockText [varyLine, dateLine]) dateLine.name = none := by
  refine ⟨?_, by decide, by unfold ReadsField; decide, by unfold ReadsField; decide, by decide⟩
  rintro ⟨fields', hrun, -, hothers⟩
  -- the value of the other field is replaced
  have hresult : addHeaderLC dateLine.name dateLine.value (blockText [xDateLine, dateLine]) =
      some (blockText [xDateLine.withValue dateLine, dateLine]) := by decide
  rw [hresult, Option.some.injEq] at hrun
  rw [← blockText_injective hrun] at hothers
  have hvalues := congrArg (List.map FieldLine.value) hothers
  revert hvalues
  decide

end Dates

end SymbianWeb.HttpCache
