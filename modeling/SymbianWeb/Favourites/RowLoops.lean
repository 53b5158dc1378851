import SymbianWeb.Favourites.DatabaseSpec

/-!
# Loops over the rows

The loops of the database that collect something of each row that the filter lets pass have one
form. What is collected is what the rows give that are still to come (`collectL_ok`), and if no call
leaves, a loop returns (`collectL_of_none`).
-/

set_option autoImplicit false

namespace SymbianWeb.Favourites.Store

open ErrorState

section

variable {α β : Type} (rules : CharRules) {db db' : Db}

/-- Goes on to the next row, and collects what is selected of it. -/
def collectL (select : Row → Option β) : Nat → List β → Op (List β)
  | 0, _ => throw .hang
  | rounds + 1, acc => do
      let found ← nextL rules
      if found then do
        let r ← getL
        match select r with
        | some b => do
            mayLeave
            collectL select rounds (acc ++ [b])
        | none => collectL select rounds acc
      else pure acc

/-- What is collected is what the rows ahead give that the filter lets pass. -/
theorem collectL_ok (select : Row → Option β) (rounds : Nat) :
    ∀ {db db' : Db} {acc bs : List β}, collectL rules select rounds acc db = .ok bs db' →
      bs = acc ++ (db.table.ahead.filter (db.passes rules)).filterMap select := by
  induction rounds with
  | zero =>
      intro db db' acc bs h
      cases h
  | succ rounds ih =>
      intro db db' acc bs h
      obtain ⟨found, db₁, hnext, hrest⟩ := bind_eq_ok.mp h
      obtain ⟨htable, hfilter, hfound⟩ := nextL_ok hnext
      obtain ⟨passed, -, hahead, hnot, hpass, hend⟩ := db.table.next_spec (db.passes rules)
      rw [← htable] at hahead hpass hend
      have hpassed : passed.filter (db.passes rules) = [] := by
        rw [List.filter_eq_nil_iff]
        intro r hmem
        rw [hnot r hmem]
        exact Bool.false_ne_true
      have hpasses : ∀ db₂ : Db, db₂.filter = db₁.filter →
          db₂.passes rules = db.passes rules := by
        intro db₂ h₂
        funext r
        rw [Db.passes, Db.passes, h₂, hfilter]
      rw [hahead, List.filter_append, hpassed, List.nil_append]
      cases found with
      | false =>
          cases hrest
          have hnone := Option.isNone_iff_eq_none.mp (Option.isSome_eq_false_iff.mp hfound.symm)
          rw [hend hnone, hnone]
          exact (List.append_nil _).symm
      | true =>
          obtain ⟨r, db₂, hget, hrest⟩ := bind_eq_ok.mp hrest
          obtain ⟨hr, htable₂, hfilter₂⟩ := getL_ok hget
          rw [hr, Option.toList_some, List.singleton_append, List.filter_cons_of_pos (hpass r hr)]
          cases hselect : select r with
          | some b =>
              rw [hselect] at hrest
              obtain ⟨db₃, htable₃, hfilter₃, hrest⟩ := of_mayLeave hrest
              rw [ih hrest, htable₃, htable₂, hpasses db₃ (hfilter₃.trans hfilter₂),
                List.filterMap_cons_some hselect, List.append_assoc]
              rfl
          | none =>
              rw [hselect] at hrest
              rw [ih hrest, htable₂, hpasses db₂ hfilter₂, List.filterMap_cons_none hselect]

/-- A loop over all rows that match a filter. -/
def collectAllL (aFilter : Filter) (select : Row → Option β) : Op (List β) := do
  setFiltersL aFilter
  beginningL
  let db ← get
  collectL rules select (db.table.ahead.length + 1) []

theorem collectAllL_ok {aFilter : Filter} {select : Row → Option β} {bs : List β}
    (h : collectAllL rules aFilter select db = .ok bs db') :
    bs = (db.table.rows.filter (aFilter.matchRow rules)).filterMap select := by
  obtain ⟨_, db₁, hfilter, hrest⟩ := bind_eq_ok.mp h
  obtain ⟨htable, hpasses⟩ := setFiltersL_ok hfilter
  obtain ⟨_, db₂, hbegin, hrest⟩ := bind_eq_ok.mp hrest
  obtain ⟨hstart, hfilter₂⟩ := beginningL_ok hbegin
  obtain ⟨_, _, hget, hcollect⟩ := bind_eq_ok.mp hrest
  cases hget
  have hahead : db₂.table.ahead = db.table.rows := by
    rw [hstart, htable]
    rfl
  have hpass : db₂.passes rules = aFilter.matchRow rules := by
    rw [← hpasses rules]
    funext r
    rw [Db.passes, Db.passes, hfilter₂]
  rw [collectL_ok rules select _ hcollect, hahead, hpass, List.nil_append]

/-! ## Runs in which no call leaves -/

theorem mayLeave_bind {x : Op α} (h : db.leaveAt = none) :
    (mayLeave >>= fun _ => x) db = x db := by
  have hturn : mayLeave db = .ok () db := by
    rw [mayLeave, h]
  exact bind_of_ok hturn

theorem setFiltersL_of_none (aFilter : Filter) (h : db.leaveAt = none) :
    ∃ filter, setFiltersL aFilter db = .ok () { db with filter := filter } := by
  rw [setFiltersL, mayLeave_bind h, clearFilters, modify_bind]
  split
  · exact ⟨none, rfl⟩
  · refine ⟨some aFilter, ?_⟩
    rw [mayLeave_bind (by exact h)]
    rfl

theorem beginningL_of_none (h : db.leaveAt = none) :
    beginningL db = .ok () { db with table := db.table.beginning } := by
  rw [beginningL, mayLeave_bind h]
  rfl

theorem nextL_of_none (h : db.leaveAt = none) :
    nextL rules db = .ok (db.table.next (db.passes rules)).current.isSome
      { db with table := db.table.next (db.passes rules) } := by
  rw [nextL, mayLeave_bind h]
  rfl

theorem getL_of_none {r : Row} (h : db.leaveAt = none) (hcurrent : db.table.current = some r) :
    getL db = .ok r db := by
  rw [getL, mayLeave_bind h, currentRow, get_bind, hcurrent]
  rfl

/-- Each round passes a row, and there are rounds for all of them. -/
theorem collectL_of_none (select : Row → Option β) (rounds : Nat) :
    ∀ {db : Db} {acc : List β}, db.leaveAt = none → db.table.ahead.length < rounds →
      ∃ bs db', collectL rules select rounds acc db = .ok bs db' ∧ db'.leaveAt = none := by
  induction rounds with
  | zero => exact fun _ hlt => absurd hlt (Nat.not_lt_zero _)
  | succ rounds ih =>
      intro db acc hnone hlt
      obtain ⟨passed, -, hahead, -, -, -⟩ := db.table.next_spec (db.passes rules)
      rw [collectL, bind_of_ok (nextL_of_none rules hnone)]
      cases hcurrent : (db.table.next (db.passes rules)).current with
      | none => exact ⟨acc, _, rfl, hnone⟩
      | some r =>
          have hlength : (db.table.next (db.passes rules)).ahead.length < rounds := by
            rw [hahead, hcurrent, Option.toList_some, List.length_append, List.length_append,
              List.length_singleton] at hlt
            omega
          have hget : getL { db with table := db.table.next (db.passes rules) } = .ok r _ :=
            getL_of_none hnone hcurrent
          rw [Option.isSome_some, if_pos rfl, bind_of_ok hget]
          cases select r with
          | some b =>
              dsimp only
              rw [mayLeave_bind (by exact hnone)]
              exact ih hnone hlength
          | none => exact ih hnone hlength

theorem collectAllL_of_none (aFilter : Filter) (select : Row → Option β) (h : db.leaveAt = none) :
    ∃ bs db', collectAllL rules aFilter select db = .ok bs db' ∧ db'.leaveAt = none := by
  obtain ⟨filter, hfilter⟩ := setFiltersL_of_none aFilter h
  have hbegin : beginningL { db with filter := filter } = .ok () _ := beginningL_of_none h
  rw [collectAllL, bind_of_ok hfilter, bind_of_ok hbegin, get_bind]
  exact collectL_of_none rules select _ h (Nat.lt_succ_self _)

end

end SymbianWeb.Favourites.Store
