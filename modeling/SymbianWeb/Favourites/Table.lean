import SymbianWeb.Favourites.Names

/-!
# The table of favourites

A table keeps its rows in the order of its index, which is the uid, and a cursor: the rows before
it, the row it is on if there is one, and the rows that are still ahead. A new row gets the next
number of a counter as its uid. A bookmark names a row by a number that no other row ever has.
-/

set_option autoImplicit false

namespace SymbianWeb.Favourites.Store

inductive ItemType where
  | item
  | folder
  deriving DecidableEq

inductive ApKind where
  | normal
  | null
  | default
  deriving DecidableEq

/-- An access point. -/
structure WapAp where
  apId : Nat
  kind : ApKind
  deriving DecidableEq

/-- A row of the table. -/
structure Row where
  record : Nat
  uid : Int
  parentFolder : Int
  type : ItemType
  name : Text
  url : Text
  userName : Text
  password : Text
  wapAp : WapAp
  factoryItem : Bool
  readOnly : Bool
  contextId : Int
  modified : Int
  preferredUid : Int
  hidden : Bool
  deriving DecidableEq

/-- An inserted row before anything is written to it. -/
def Row.blank (record : Nat) (uid : Int) : Row :=
  { record, uid, parentFolder := 0, type := .item, name := [], url := [], userName := []
    password := [], wapAp := ⟨0, .normal⟩, factoryItem := false, readOnly := false, contextId := 0
    modified := 0, preferredUid := 0, hidden := false }

/-- A table and its cursor. -/
structure Table where
  done : List Row
  current : Option Row
  ahead : List Row
  counter : Int
  nextRecord : Nat

namespace Table

variable (t : Table)

/-- All rows, in the order of the index. -/
def rows : List Row := t.done ++ t.current.toList ++ t.ahead

/-- Before the first row. -/
def beginning : Table := { t with done := [], current := none, ahead := t.rows }

/-- The first row ahead that is wanted; the others are passed. -/
def advance (wanted : Row → Bool) : List Row → List Row → List Row × Option Row × List Row
  | done, [] => (done, none, [])
  | done, r :: ahead =>
      if wanted r then (done, some r, ahead) else advance wanted (done ++ [r]) ahead

/-- On the next row that is wanted. -/
def next (wanted : Row → Bool) : Table :=
  let (done, current, ahead) := advance wanted (t.done ++ t.current.toList) t.ahead
  { t with done, current, ahead }

/-- On the first row that is wanted. -/
def seek (wanted : Row → Bool) : Table := t.beginning.next wanted

/-- The cursor on a row that is put among others. -/
def place (r : Row) (others : List Row) : Table :=
  { t with
    done := others.takeWhile (·.uid ≤ r.uid)
    current := some r
    ahead := others.dropWhile (·.uid ≤ r.uid) }

/-- Inserts a row with the next uid. -/
def insert (edit : Row → Row) : Table :=
  { t.place (edit (Row.blank t.nextRecord t.counter)) t.rows with
    counter := t.counter + 1
    nextRecord := t.nextRecord + 1 }

/-- Changes the row under the cursor. The row moves when its uid is changed. -/
def update (edit : Row → Row) : Table :=
  match t.current with
  | none => t
  | some r =>
      if (edit r).uid = r.uid then { t with current := some (edit r) }
      else t.place (edit r) (t.done ++ t.ahead)

/-- Deletes the row under the cursor. -/
def delete : Table := { t with current := none }

end Table

/-! ## What the operations do to the rows -/

namespace Table

variable {t : Table}

theorem rows_beginning : t.beginning.rows = t.rows := rfl

theorem advance_append (wanted : Row → Bool) (done ahead : List Row) :
    (advance wanted done ahead).1 ++ (advance wanted done ahead).2.1.toList
      ++ (advance wanted done ahead).2.2 = done ++ ahead := by
  induction ahead generalizing done with
  | nil => simp [advance]
  | cons r ahead ih =>
      rw [advance]
      split
      · simp
      · rw [ih, List.append_assoc, List.singleton_append]

@[simp] theorem rows_next (wanted : Row → Bool) : (t.next wanted).rows = t.rows :=
  advance_append wanted (t.done ++ t.current.toList) t.ahead

@[simp] theorem rows_seek (wanted : Row → Bool) : (t.seek wanted).rows = t.rows :=
  (rows_next wanted).trans rows_beginning

@[simp] theorem counter_next (wanted : Row → Bool) : (t.next wanted).counter = t.counter := rfl

@[simp] theorem nextRecord_next (wanted : Row → Bool) :
    (t.next wanted).nextRecord = t.nextRecord := rfl

/-- What `advance` passes was not wanted, and where it stops is wanted. -/
theorem advance_spec (wanted : Row → Bool) (done ahead : List Row) :
    ∃ passed, (advance wanted done ahead).1 = done ++ passed ∧
      ahead = passed ++ ((advance wanted done ahead).2.1.toList ++ (advance wanted done ahead).2.2) ∧
      (∀ r ∈ passed, wanted r = false) ∧
      (∀ r, (advance wanted done ahead).2.1 = some r → wanted r = true) ∧
      ((advance wanted done ahead).2.1 = none → (advance wanted done ahead).2.2 = []) := by
  induction ahead generalizing done with
  | nil => exact ⟨[], by simp [advance]⟩
  | cons r ahead ih =>
      rw [advance]
      split
      · rename_i hwanted
        exact ⟨[], by simp [hwanted]⟩
      · rename_i hwanted
        obtain ⟨passed, hdone, hahead, hnot, hsome, hnone⟩ := ih (done ++ [r])
        refine ⟨r :: passed, ?_, ?_, ?_, hsome, hnone⟩
        · rw [hdone, List.append_assoc, List.singleton_append]
        · exact congrArg (r :: ·) hahead
        · intro r' hmem
          rcases List.mem_cons.mp hmem with rfl | hmem
          · exact Bool.eq_false_iff.mpr hwanted
          · exact hnot r' hmem

/-- The rows that a step to the next row passes were not wanted. -/
theorem next_spec (t : Table) (wanted : Row → Bool) :
    ∃ passed, (t.next wanted).done = t.done ++ t.current.toList ++ passed ∧
      t.ahead = passed ++ ((t.next wanted).current.toList ++ (t.next wanted).ahead) ∧
      (∀ r ∈ passed, wanted r = false) ∧
      (∀ r, (t.next wanted).current = some r → wanted r = true) ∧
      ((t.next wanted).current = none → (t.next wanted).ahead = []) :=
  advance_spec wanted (t.done ++ t.current.toList) t.ahead

theorem current_seek {wanted : Row → Bool} {r : Row} (h : (t.seek wanted).current = some r) :
    r ∈ t.rows ∧ wanted r = true := by
  obtain ⟨passed, -, hahead, -, hsome, -⟩ := t.beginning.next_spec wanted
  refine ⟨?_, hsome r h⟩
  have hmem : r ∈ t.beginning.ahead := by
    rw [hahead, List.mem_append, List.mem_append]
    exact .inr (.inl (by rw [show (t.beginning.next wanted).current = some r from h]; simp))
  exact hmem

theorem not_wanted_of_seek {wanted : Row → Bool} (h : (t.seek wanted).current = none) :
    ∀ r ∈ t.rows, wanted r = false := by
  obtain ⟨passed, -, hahead, hnot, -, hnone⟩ := t.beginning.next_spec wanted
  have hcurrent : (t.beginning.next wanted).current = none := h
  rw [hnone hcurrent, hcurrent, Option.toList_none, List.append_nil, List.append_nil] at hahead
  intro r hmem
  apply hnot
  rw [← hahead]
  exact hmem

theorem rows_of_current {r : Row} (h : t.current = some r) :
    t.rows.Perm (r :: (t.done ++ t.ahead)) := by
  rw [rows, h, Option.toList_some, List.append_assoc, List.singleton_append]
  exact List.perm_middle

theorem mem_rows_of_current {r : Row} (h : t.current = some r) : r ∈ t.rows :=
  (rows_of_current h).mem_iff.mpr List.mem_cons_self

theorem rows_place (r : Row) (others : List Row) : (t.place r others).rows.Perm (r :: others) := by
  have h := rows_of_current (t := t.place r others) rfl
  rwa [place, List.takeWhile_append_dropWhile] at h

theorem rows_insert (edit : Row → Row) :
    (t.insert edit).rows.Perm (edit (Row.blank t.nextRecord t.counter) :: t.rows) :=
  rows_place (t := t) _ _

theorem rows_update (edit : Row → Row) {r : Row} (h : t.current = some r) :
    (t.update edit).rows.Perm (edit r :: (t.done ++ t.ahead)) ∧
      (t.update edit).current = some (edit r) := by
  rw [update, h]
  dsimp only
  split
  · exact ⟨rows_of_current (t := { t with current := some (edit r) }) rfl, rfl⟩
  · exact ⟨rows_place _ _, rfl⟩

theorem rows_delete : t.delete.rows = t.done ++ t.ahead := by
  rw [rows, delete, Option.toList_none, List.append_nil]

@[simp] theorem counter_update (edit : Row → Row) : (t.update edit).counter = t.counter := by
  rw [update]
  split
  · rfl
  · split <;> rfl

@[simp] theorem nextRecord_update (edit : Row → Row) :
    (t.update edit).nextRecord = t.nextRecord := by
  rw [update]
  split
  · rfl
  · split <;> rfl

end Table

end SymbianWeb.Favourites.Store
