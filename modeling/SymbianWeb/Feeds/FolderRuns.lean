import SymbianWeb.Feeds.FolderRemovals

/-!
# Runs of calls on the folder table

Each call keeps what the calls are meant to keep, if it is as the code takes it to be; so a run of
such calls does (`tablesRight_of_reached`). A call that adds an item without a title makes room for
it and leaves the room empty.
-/

set_option autoImplicit false

namespace SymbianWeb.Feeds

open Numbering
open XmlContent (lit)
open Favourites.Store (CharRules)

section

variable {rules : CharRules} {tables tables' : FolderTables}

/-- One call. -/
theorem Placed.call (h : Placed tables) (hnumbered : Numbered tables.folderList) {call : Call}
    (hallowed : call.Allowed tables) (hkeeps : call.Keeps tables.folderList)
    (hreturns : call.Returns rules tables tables') :
    Placed tables' ∧ Numbered tables'.folderList := by
  cases call with
  | add item => exact h.add hnumbered hallowed hkeeps hreturns
  | move ids aNewIndex =>
    obtain rfl := hreturns
    exact ⟨h.move aNewIndex, numbered_move h.tree hnumbered hallowed.1 hallowed.2 hkeeps⟩
  | moveTo ids aNewParent =>
    obtain ⟨fuel, rows, hrows, rfl⟩ := hreturns
    exact h.moveTo hnumbered hallowed hkeeps hrows
  | delete ids =>
    obtain ⟨fuel, hdelete⟩ := hreturns
    exact h.delete hnumbered hallowed hkeeps hdelete

/-- A whole run. -/
theorem placed_of_reached (h : Reached rules (fun rows call => call.Keeps rows) tables) :
    Placed tables ∧ Numbered tables.folderList := by
  induction h with
  | empty =>
    have htree : FolderTree ([] : List FolderListRow) :=
      ⟨List.nodup_nil, fun row hrow => absurd hrow List.not_mem_nil,
        fun row hrow => absurd hrow List.not_mem_nil, fun row hrow => absurd hrow List.not_mem_nil⟩
    exact ⟨⟨htree, fun feed hfeed => absurd hfeed List.not_mem_nil,
      fun row hrow => absurd hrow List.not_mem_nil,
      fun feed hfeed => absurd hfeed List.not_mem_nil⟩, fun _ _ => numbers_nil⟩
  | call call _ hallowed hkeeps hreturns ih => exact ih.1.call ih.2 hallowed hkeeps hreturns

/-- In every run whose calls are as the code takes them to be, the tables are right. -/
theorem tablesRight_of_reached (h : Reached rules (fun rows call => call.Keeps rows) tables) :
    TablesRight tables :=
  (placed_of_reached h).1.tablesRight (placed_of_reached h).2

end

/-- A first folder can be added. -/
theorem allowed_first : (Call.add (newFolder (lit "Foo (1)") 1)).Allowed ⟨[], []⟩ :=
  ⟨fun hne => absurd rfl hne, by decide, fun row hrow => absurd hrow List.not_mem_nil, by decide,
    fun feed hfeed => absurd hfeed List.not_mem_nil⟩

theorem returns_first : (Call.add (newFolder (lit "Foo (1)") 1)).Returns .ascii ⟨[], []⟩
    tablesFooOne := by
  have hadd : folderItemAddL .ascii ⟨[], []⟩ (newFolder (lit "Foo (1)") 1) = some tablesFooOne := by
    decide
  exact hadd

/-- The tables with one folder are right. -/
theorem tablesRight_tablesFooOne : TablesRight tablesFooOne :=
  tablesRight_of_reached (.call _ .empty allowed_first
    (fun _ hrow => absurd hrow List.not_mem_nil) returns_first)

/-- A folder without a title is not added, and the other one does not come back to the front. -/
theorem not_tablesRight_untitled :
    ¬ ∀ tables, Reached .ascii (fun _ _ => True) tables → TablesRight tables := by
  intro hall
  have hfirst : Reached .ascii (fun _ _ => True) tablesFooOne :=
    .call _ .empty allowed_first trivial returns_first
  have hallowed : (Call.add (newFolder [] 2)).Allowed tablesFooOne :=
    ⟨fun hne => absurd rfl hne, by decide, by decide, by decide,
      fun feed hfeed => absurd hfeed List.not_mem_nil⟩
  have hreturns : (Call.add (newFolder [] 2)).Returns .ascii tablesFooOne { tablesFooOne with
      folderList := createSiblingIndexHoleL tablesFooOne.folderList kRootFolderId 0 1 } := by
    have hadd : folderItemAddL .ascii tablesFooOne (newFolder [] 2) = some { tablesFooOne with
        folderList := createSiblingIndexHoleL tablesFooOne.folderList kRootFolderId 0 1 } := rfl
    exact hadd
  have hnumbers := (hall _ (.call _ hfirst hallowed trivial hreturns)).numbered 1 kRootFolderId
  have hsiblings : siblings tablesFooOne.folderList kRootFolderId = [1] := by
    have hrows : rowsOfParent tablesFooOne.folderList kRootFolderId = tablesFooOne.folderList := rfl
    rw [siblings, hrows, tablesFooOne, List.mergeSort_singleton]
    rfl
  have horders : (childrenIn (createSiblingIndexHoleL tablesFooOne.folderList kRootFolderId 0 1) 1
      kRootFolderId).map (·.siblingOrder) = [1] := by
    rw [createSiblingIndexHoleL, hsiblings]
    decide
  dsimp only at hnumbers
  rw [horders] at hnumbers
  exact absurd (hnumbers.mem_iff.mp List.mem_cons_self) (by decide)

end SymbianWeb.Feeds
