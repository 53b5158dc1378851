import Mathlib.Data.List.Sort
import SymbianWeb.Favourites.GeneratedNames
import SymbianWeb.Favourites.Transactions
import SymbianWeb.Library.Bisection
import SymbianWeb.Library.MachineInt

/-!
# Files of saved items

A saved item has a file, with its uid as the name in hexadecimal digits. The clean-up deletes the
files whose names are not those of rows. It works on what the first read of the directory gives, and
if that is not all, it leaves without an error and deletes nothing (`cleansUp_iff`). What it
deletes is in no run the file of a row.
-/

set_option autoImplicit false

namespace SymbianWeb.Favourites.Store

open ErrorState Bisection MachineInt

/-! ## Names of files -/

def kFnameLength : Nat := 8

/-- The digit of a hexadecimal number, with small letters. -/
def hexDigit (d : Nat) : UInt16 := UInt16.ofNat (if d < 10 then 48 + d else 87 + d)

/-- `NumFixedWidth` to the base 16: the last digits of a number, as many as are wanted. -/
def numFixedWidth : Nat → Nat → Text
  | 0, _ => []
  | width + 1, v => numFixedWidth width (v / 16) ++ [hexDigit (v % 16)]

def filenameForUid (aUid : Int) : Text := numFixedWidth kFnameLength (aUid % 2 ^ 32).toNat

/-- The value of a digit in either case. -/
def hexValue (c : UInt16) : Option Nat :=
  if 48 ≤ c.toNat ∧ c.toNat ≤ 57 then some (c.toNat - 48)
  else if 97 ≤ c.toNat ∧ c.toNat ≤ 102 then some (c.toNat - 87)
  else if 65 ≤ c.toNat ∧ c.toNat ≤ 70 then some (c.toNat - 55)
  else none

def isHexDigit (c : UInt16) : Bool := (hexValue c).isSome

def hexNumber (t : Text) : Nat := t.foldl (fun acc c => acc * 16 + (hexValue c).getD 0) 0

/-- `TLex::Val` to the base 16: the number at the beginning, if it has 32 bits, and what is behind. -/
def lexHex (t : Text) : Option (Nat × Text) :=
  if t.takeWhile isHexDigit = [] ∨ 2 ^ 32 ≤ hexNumber (t.takeWhile isHexDigit) then none
  else some (hexNumber (t.takeWhile isHexDigit), t.dropWhile isHexDigit)

def uidForFilename (aName : Text) : Int :=
  if aName.length = kFnameLength then
    match lexHex aName with
    | some (val, []) => int32 val
    | _ => kFavouritesNullUid
  else kFavouritesNullUid

/-! ## The clean-up -/

/-- The uids of the rows that match the filter. -/
def getUidsL (rules : CharRules) (aFilter : Filter) : Op (List Int) :=
  transaction false do
    let uids ← collectAllL rules aFilter fun r => some r.uid
    clearFilters
    pure uids

/-- A directory: the entries that the first `RDir::Read` gives and the others, and whether the read
says with `KErrEof` that it has given all. -/
structure Directory where
  first : List Text
  rest : List Text
  eof : Bool
  eof_rest : eof = true → rest = []

def Directory.files (dir : Directory) : List Text := dir.first ++ dir.rest

/-- No criterion. -/
def noFilter : Filter where
  parentFolder := kFavouritesNullUid
  type := none
  name := none
  contextId := kFavouritesNullContextId

/-- Whether the name is that of no uid in the sorted list. -/
def isOrphaned (uids : List Int) (name : Text) : Bool :=
  let uid := uidForFilename name
  uid = kFavouritesNullUid || !bisect uid uids.length uids

/-- How the clean-up ends. `User::Leave( KErrNone )` leaves too. -/
inductive CleanUp where
  | done
  | leaves (e : Leave)
  | leavesNone
  deriving DecidableEq

/-- The uids, sorted, before the directory is opened. -/
def sortedUidsL (rules : CharRules) : Op (List Int) := do
  let uids ← getUidsL rules noFilter
  mayLeave
  pure (uids.insertionSort (· ≤ ·))

/-- How the clean-up ends, and the files that are left. -/
def deleteOrphanedFilesL (rules : CharRules) (dir : Directory) (db : Db) : CleanUp × List Text :=
  match sortedUidsL rules db with
  | .error e _ => (.leaves e, dir.files)
  | .ok uids _ =>
      if dir.eof then (.done, dir.first.filter (fun name => !isOrphaned uids name) ++ dir.rest)
      else (.leavesNone, dir.files)

/-! ## Hexadecimal numbers -/

/-- The ASCII letters as small ones. -/
def lower (c : UInt16) : UInt16 := if 65 ≤ c.toNat ∧ c.toNat ≤ 90 then c + 32 else c

/-- The name of the file of a uid, in either case. -/
def HexName (name : Text) (uid : Int) : Prop := name.map lower = filenameForUid uid

theorem toNat_lower (c : UInt16) :
    (lower c).toNat = if 65 ≤ c.toNat ∧ c.toNat ≤ 90 then c.toNat + 32 else c.toNat := by
  rw [lower]
  split
  · rw [UInt16.toNat_add]
    have h32 : (32 : UInt16).toNat = 32 := rfl
    omega
  · rfl

theorem hexValue_lower (c : UInt16) : hexValue (lower c) = hexValue c := by
  rw [hexValue, hexValue, toNat_lower]
  split <;> grind

theorem hexValue_hexDigit {d : Nat} (h : d < 16) : hexValue (hexDigit d) = some d := by
  have htoNat : (hexDigit d).toNat = if d < 10 then 48 + d else 87 + d := by
    rw [hexDigit, UInt16.toNat_ofNat']
    split <;> omega
  rw [hexValue, htoNat]
  grind

theorem hexDigit_hexValue {c : UInt16} {d : Nat} (h : hexValue c = some d) :
    d < 16 ∧ hexDigit d = lower c := by
  rw [hexValue] at h
  have hd : d < 16 ∧ (lower c).toNat = if d < 10 then 48 + d else 87 + d := by
    rw [toNat_lower]
    grind
  refine ⟨hd.1, ?_⟩
  rw [hexDigit, ← hd.2]
  exact UInt16.ofNat_toNat

theorem hexNumber_append (t : Text) (c : UInt16) :
    hexNumber (t ++ [c]) = hexNumber t * 16 + (hexValue c).getD 0 := by
  rw [hexNumber, List.foldl_append]
  rfl

@[simp] theorem length_numFixedWidth (width v : Nat) : (numFixedWidth width v).length = width := by
  induction width generalizing v with
  | zero => rfl
  | succ width ih => rw [numFixedWidth, List.length_append, ih, List.length_singleton]

/-- The digits that are written have the value of the number, as far as there is room for it. -/
theorem hexNumber_numFixedWidth (width v : Nat) :
    hexNumber (numFixedWidth width v) = v % 16 ^ width := by
  induction width generalizing v with
  | zero => rw [Nat.pow_zero, Nat.mod_one]; rfl
  | succ width ih =>
      rw [numFixedWidth, hexNumber_append, ih, hexValue_hexDigit (Nat.mod_lt v (by decide)),
        Option.getD_some, Nat.pow_succ', Nat.mod_mul]
      omega

theorem isHexDigit_numFixedWidth (width v : Nat) : ∀ c ∈ numFixedWidth width v, isHexDigit c := by
  induction width generalizing v with
  | zero => exact fun c h => (List.not_mem_nil h).elim
  | succ width ih =>
      intro c h
      rcases List.mem_append.mp h with h | h
      · exact ih _ c h
      · rw [List.mem_singleton.mp h, isHexDigit, hexValue_hexDigit (Nat.mod_lt v (by decide))]
        rfl

theorem hexNumber_filenameForUid (uid : Int) :
    hexNumber (filenameForUid uid) = (uid % 2 ^ 32).toNat := by
  have hlt : (uid % 2 ^ 32).toNat < 16 ^ kFnameLength := by
    rw [kFnameLength]
    omega
  rw [filenameForUid, hexNumber_numFixedWidth, Nat.mod_eq_of_lt hlt]

theorem length_filenameForUid (uid : Int) : (filenameForUid uid).length = kFnameLength :=
  length_numFixedWidth _ _

theorem isHexDigit_filenameForUid (uid : Int) : ∀ c ∈ filenameForUid uid, isHexDigit c :=
  isHexDigit_numFixedWidth _ _

/-- A text of digits is what is written for its value, but for the case of its letters. -/
theorem map_lower_eq {t : Text} (h : ∀ c ∈ t, isHexDigit c) :
    hexNumber t < 16 ^ t.length ∧ t.map lower = numFixedWidth t.length (hexNumber t) := by
  induction t using List.reverseRecOn with
  | nil => exact ⟨by decide, rfl⟩
  | append_singleton t c ih =>
      obtain ⟨hlt, hmap⟩ := ih fun d hmem => h d (List.mem_append_left _ hmem)
      obtain ⟨d, hd⟩ := Option.isSome_iff_exists.mp
        (h c (List.mem_append_right _ List.mem_cons_self))
      obtain ⟨hd16, hdigit⟩ := hexDigit_hexValue hd
      have hvalue : hexNumber (t ++ [c]) = hexNumber t * 16 + d := by
        rw [hexNumber_append, hd, Option.getD_some]
      rw [hvalue, List.length_append, List.length_singleton]
      refine ⟨?_, ?_⟩
      · rw [Nat.pow_succ]
        omega
      · have hdiv : (hexNumber t * 16 + d) / 16 = hexNumber t := by omega
        have hmod : (hexNumber t * 16 + d) % 16 = d := by omega
        rw [numFixedWidth, hdiv, hmod, List.map_append, hmap, hdigit]
        rfl

theorem hexNumber_map_lower (t : Text) : hexNumber (t.map lower) = hexNumber t := by
  rw [hexNumber, hexNumber, List.foldl_map]
  simp only [hexValue_lower]

/-! ## Uids and names -/

/-- The integers of a `TInt`. -/
def IsTInt (v : Int) : Prop := -2 ^ 31 ≤ v ∧ v < 2 ^ 31

theorem lexHex_of_digits {t : Text} (hne : t ≠ []) (hdigits : ∀ c ∈ t, isHexDigit c)
    (hlt : hexNumber t < 2 ^ 32) : lexHex t = some (hexNumber t, []) := by
  have htake : t.takeWhile isHexDigit = t := List.takeWhile_eq_self_iff.mpr hdigits
  have hdrop : t.dropWhile isHexDigit = [] := List.dropWhile_eq_nil_iff.mpr hdigits
  rw [lexHex, htake, hdrop, if_neg]
  rintro (h | h)
  · exact hne h
  · omega

/-- The uid is read back from the name of its file, in either case. -/
theorem uidForFilename_of_hexName {name : Text} {uid : Int} (huid : IsTInt uid)
    (h : HexName name uid) : uidForFilename name = uid := by
  have hlength : name.length = kFnameLength := by
    rw [← List.length_map lower, h, length_filenameForUid]
  have hdigits : ∀ c ∈ name, isHexDigit c := by
    intro c hmem
    have hmem' : lower c ∈ filenameForUid uid := by
      rw [← show name.map lower = filenameForUid uid from h]
      exact List.mem_map_of_mem hmem
    have hdigit := isHexDigit_filenameForUid uid _ hmem'
    rw [isHexDigit, hexValue_lower] at hdigit
    exact hdigit
  have hvalue : hexNumber name = (uid % 2 ^ 32).toNat := by
    rw [← hexNumber_map_lower, h, hexNumber_filenameForUid]
  have hne : name ≠ [] := by
    rintro rfl
    exact absurd hlength (by decide)
  have hback : int32 (hexNumber name) = uid := by
    obtain ⟨hlow, hhigh⟩ := huid
    rw [hvalue, int32]
    omega
  rw [uidForFilename, if_pos hlength, lexHex_of_digits hne hdigits (by omega)]
  exact hback

theorem map_lower_filenameForUid (uid : Int) :
    (filenameForUid uid).map lower = filenameForUid uid := by
  obtain ⟨-, hmap⟩ := map_lower_eq (isHexDigit_filenameForUid uid)
  rw [hexNumber_filenameForUid, length_filenameForUid] at hmap
  exact hmap

/-- The uid is read back from the name that is made for it. -/
theorem uidForFilename_filenameForUid {uid : Int} (h : IsTInt uid) :
    uidForFilename (filenameForUid uid) = uid :=
  uidForFilename_of_hexName h (map_lower_filenameForUid uid)

/-- A name of which a uid is read is the name of its file. -/
theorem hexName_of_uidForFilename {name : Text} {uid : Int} (h : uidForFilename name = uid)
    (hne : uid ≠ kFavouritesNullUid) : HexName name uid := by
  rw [uidForFilename] at h
  split at h
  · rename_i hlength
    split at h
    · rename_i val hlex
      rw [lexHex] at hlex
      split at hlex
      · cases hlex
      · rename_i hok
        have hdrop : name.dropWhile isHexDigit = [] := (Prod.mk.inj (Option.some.inj hlex)).2
        have hdigits := List.dropWhile_eq_nil_iff.mp hdrop
        have htake : name.takeWhile isHexDigit = name := List.takeWhile_eq_self_iff.mpr hdigits
        rw [htake] at hlex hok
        have hval : hexNumber name = val := (Prod.mk.inj (Option.some.inj hlex)).1
        have hlt : val < 2 ^ 32 := by
          rw [hval] at hok
          omega
        obtain ⟨-, hmap⟩ := map_lower_eq hdigits
        have hback : (uid % 2 ^ 32).toNat = val := by
          rw [← h, int32]
          omega
        rw [HexName, filenameForUid, hback, hmap, hlength, hval]
    · exact (hne h.symm).elim
  · exact (hne h.symm).elim

/-- What the loop keeps: the files of the uids in the list. -/
theorem isOrphaned_eq_false {uids : List Int} (hsorted : uids.Pairwise (· ≤ ·))
    (huids : ∀ uid ∈ uids, IsTInt uid ∧ uid ≠ kFavouritesNullUid) {name : Text} :
    isOrphaned uids name = false ↔ ∃ uid ∈ uids, HexName name uid := by
  rw [isOrphaned, Bool.or_eq_false_iff, decide_eq_false_iff_not, Bool.not_eq_false',
    bisect_iff _ hsorted le_rfl]
  constructor
  · rintro ⟨hne, hmem⟩
    exact ⟨_, hmem, hexName_of_uidForFilename rfl hne⟩
  · rintro ⟨uid, hmem, hname⟩
    obtain ⟨hrange, hne⟩ := huids uid hmem
    rw [uidForFilename_of_hexName hrange hname]
    exact ⟨hne, hmem⟩

/-! ## What is deleted -/

/-- The rows that there are: those of the open transaction, or those of the file. -/
def Db.existing (db : Db) : List Row := if db.iInTransaction then db.table.rows else db.stored.rows

section

variable {α : Type} (rules : CharRules) {db db' : Db} {uids : List Int}

theorem getUidsL_ok {aFilter : Filter} (h : getUidsL rules aFilter db = .ok uids db') :
    uids = (db.existing.filter (aFilter.matchRow rules)).map (·.uid) := by
  have hbody : ∀ {db₁ db₂ : Db}, (do
      let uids ← collectAllL rules aFilter fun r => some r.uid
      clearFilters
      pure uids : Op (List Int)) db₁ = .ok uids db₂ →
        uids = (db₁.table.rows.filter (aFilter.matchRow rules)).map (·.uid) := by
    intro db₁ db₂ hrun
    obtain ⟨uids', db₃, hcollect, hrest⟩ := bind_eq_ok.mp hrun
    obtain ⟨_, db₄, -, hpure⟩ := bind_eq_ok.mp hrest
    cases hpure
    rw [collectAllL_ok rules hcollect, List.filterMap_eq_map']
  cases htrans : db.iInTransaction with
  | true =>
      rw [getUidsL, transaction_of_iInTransaction htrans] at h
      rw [Db.existing, if_pos htrans]
      exact hbody h
  | false =>
      obtain ⟨db₁, db₂, hbegun, -, hrun, -⟩ := transaction_ok htrans h
      rw [Db.existing, if_neg (by rw [htrans]; exact Bool.false_ne_true), ← hbegun.rows]
      exact hbody hrun

/-- A transaction returns if what is done in it does. -/
theorem transaction_of_none (aWrite : Bool) {x : Op α}
    (hx : ∀ db : Db, db.leaveAt = none → ∃ a db', x db = .ok a db' ∧ db'.leaveAt = none)
    (h : db.leaveAt = none) :
    ∃ a db', transaction aWrite x db = .ok a db' ∧ db'.leaveAt = none := by
  cases htrans : db.iInTransaction with
  | true =>
      rw [transaction_of_iInTransaction htrans]
      exact hx db h
  | false =>
      have hlock : (do mayLeave; mayLeave; if aWrite then putWriteLockL else pure () : Op Unit) db =
          .ok () db := by
        rw [mayLeave_bind h, mayLeave_bind h]
        cases aWrite with
        | true =>
            show mayLeave db = .ok () db
            rw [mayLeave, h]
        | false => rfl
      obtain ⟨db₁, hbegin, hnone⟩ : ∃ db₁, beginL aWrite db = .ok () db₁ ∧ db₁.leaveAt = none := by
        rw [beginL, hlock]
        exact ⟨_, rfl, h⟩
      obtain ⟨a, db₂, hrun, hnone₂⟩ := hx db₁ hnone
      obtain ⟨db₃, hcommit, hnone₃⟩ : ∃ db₃, commitL db₂ = .ok () db₃ ∧ db₃.leaveAt = none := by
        rw [commitL, mayLeave_bind hnone₂]
        exact ⟨_, rfl, hnone₂⟩
      refine ⟨a, db₃, ?_, hnone₃⟩
      have hbody : (do let a ← x; commitL; pure a : Op α) db₁ = .ok a db₃ := by
        rw [bind_of_ok hrun, bind_of_ok hcommit]
        rfl
      rw [transaction, if_neg (by rw [htrans]; exact Bool.false_ne_true), hbegin]
      dsimp only
      rw [hbody]

theorem sortedUidsL_of_none (h : db.leaveAt = none) :
    ∃ uids db', sortedUidsL rules db = .ok uids db' := by
  have hbody : ∀ db : Db, db.leaveAt = none → ∃ a db', (do
      let uids ← collectAllL rules noFilter fun r => some r.uid
      clearFilters
      pure uids : Op (List Int)) db = .ok a db' ∧ db'.leaveAt = none := by
    intro db h
    obtain ⟨uids, db', hcollect, hnone⟩ := collectAllL_of_none rules noFilter (fun r => some r.uid) h
    exact ⟨uids, { db' with filter := none }, by rw [bind_of_ok hcollect]; rfl, hnone⟩
  obtain ⟨uids, db', huids, hnone⟩ := transaction_of_none false hbody h
  exact ⟨_, db', by rw [sortedUidsL, getUidsL, bind_of_ok huids, mayLeave_bind hnone]; rfl⟩

/-- The list for the search has the uids of the rows, in their order. -/
theorem sortedUidsL_ok (h : sortedUidsL rules db = .ok uids db') :
    uids.Pairwise (· ≤ ·) ∧ ∀ uid, uid ∈ uids ↔ ∃ r ∈ db.existing, r.uid = uid := by
  obtain ⟨found, db₁, hget, hrest⟩ := bind_eq_ok.mp h
  obtain ⟨_, db₂, -, hpure⟩ := bind_eq_ok.mp hrest
  cases hpure
  refine ⟨List.pairwise_insertionSort _ _, fun uid => ?_⟩
  have hall : db.existing.filter (noFilter.matchRow rules) = db.existing :=
    List.filter_eq_self.mpr fun r _ => Filter.matchRow_of_isEmpty rules rfl r
  rw [List.mem_insertionSort, getUidsL_ok rules hget, hall, List.mem_map]

end

/-- The clean-up deletes what is not the file of a row if no call leaves, and never what is; and the
uid is read back from the name of its file. -/
structure CleansUp (rules : CharRules) (db : Db) (dir : Directory) : Prop where
  deletes : ∀ name ∈ dir.files,
    name ∈ (deleteOrphanedFilesL rules dir { db with leaveAt := none }).2 ↔
      ∃ r ∈ db.existing, HexName name r.uid
  keeps : ∀ leaveAt, ∀ name ∈ dir.files, (∃ r ∈ db.existing, HexName name r.uid) →
    name ∈ (deleteOrphanedFilesL rules dir { db with leaveAt := leaveAt }).2
  read_back : ∀ uid, IsTInt uid → uidForFilename (filenameForUid uid) = uid

/-- What is left when the list has been made. -/
theorem mem_deleteOrphanedFilesL {rules : CharRules} (db : Db) {db' : Db} {dir : Directory}
    (huids : ∀ r ∈ db.existing, IsTInt r.uid ∧ r.uid ≠ kFavouritesNullUid) {uids : List Int}
    (h : sortedUidsL rules db = .ok uids db') (heof : dir.eof = true) {name : Text}
    (hmem : name ∈ dir.files) :
    name ∈ (deleteOrphanedFilesL rules dir db).2 ↔ ∃ r ∈ db.existing, HexName name r.uid := by
  obtain ⟨hsorted, hiff⟩ := sortedUidsL_ok rules h
  have hrest := dir.eof_rest heof
  rw [Directory.files, hrest, List.append_nil] at hmem
  have hgood : ∀ uid ∈ uids, IsTInt uid ∧ uid ≠ kFavouritesNullUid := by
    intro uid hu
    obtain ⟨r, hr, rfl⟩ := (hiff uid).mp hu
    exact huids r hr
  rw [deleteOrphanedFilesL, h]
  dsimp only
  rw [if_pos heof, hrest, List.append_nil, List.mem_filter, Bool.not_eq_true',
    isOrphaned_eq_false hsorted hgood]
  constructor
  · rintro ⟨-, uid, hu, hname⟩
    obtain ⟨r, hr, rfl⟩ := (hiff uid).mp hu
    exact ⟨r, hr, hname⟩
  · rintro ⟨r, hr, hname⟩
    exact ⟨hmem, r.uid, (hiff _).mpr ⟨r, hr, rfl⟩, hname⟩

/-- No run deletes the file of a row. -/
theorem keeps_existing {rules : CharRules} (db : Db) {dir : Directory}
    (huids : ∀ r ∈ db.existing, IsTInt r.uid ∧ r.uid ≠ kFavouritesNullUid) {name : Text}
    (hmem : name ∈ dir.files) (hrow : ∃ r ∈ db.existing, HexName name r.uid) :
    name ∈ (deleteOrphanedFilesL rules dir db).2 := by
  cases hrun : sortedUidsL rules db with
  | error e db' =>
      rw [deleteOrphanedFilesL, hrun]
      exact hmem
  | ok uids db' =>
      by_cases heof : dir.eof = true
      · exact (mem_deleteOrphanedFilesL db huids hrun heof hmem).mpr hrow
      · rw [deleteOrphanedFilesL, hrun]
        dsimp only
        rw [if_neg heof]
        exact hmem

/-- The clean-up does what it is for if the first read gives all entries of the directory, or if
there is nothing to delete, and only then. -/
theorem cleansUp_iff (rules : CharRules) (db : Db) (dir : Directory)
    (huids : ∀ r ∈ db.existing, IsTInt r.uid ∧ r.uid ≠ kFavouritesNullUid) :
    CleansUp rules db dir ↔
      dir.eof = true ∨ ∀ name ∈ dir.files, ∃ r ∈ db.existing, HexName name r.uid := by
  obtain ⟨uids, db', hrun⟩ := sortedUidsL_of_none rules
    (show ({ db with leaveAt := none } : Db).leaveAt = none from rfl)
  constructor
  · intro hclean
    rw [or_iff_not_imp_left]
    intro heof name hmem
    apply (hclean.deletes name hmem).mp
    rw [deleteOrphanedFilesL, hrun]
    dsimp only
    rw [if_neg heof]
    exact hmem
  · intro hcases
    refine ⟨fun name hmem => ?_, fun leaveAt name hmem hrow => ?_, fun uid huid => ?_⟩
    · rcases hcases with heof | hnone
      · exact mem_deleteOrphanedFilesL { db with leaveAt := none } huids hrun heof hmem
      · have hrow := hnone name hmem
        exact iff_of_true
          (keeps_existing { db with leaveAt := none } huids hmem hrow) hrow
    · exact keeps_existing { db with leaveAt := leaveAt } huids hmem hrow
    · exact uidForFilename_filenameForUid huid

/-- A file with one row, closed. -/
def oneRowFile (uid : Int) : Db where
  stored := ⟨[Row.blank 1 uid], 2, 2⟩
  table := { done := [], current := none, ahead := [], counter := 2, nextRecord := 2 }
  tableOpen := false
  begun := false
  iInTransaction := false
  filter := none
  keepsCounter := true
  clock := fun _ => 0
  leaveAt := none

/-- A directory that is read at once, and one that is not. -/
def directoryAtOnce (files : List Text) : Directory := ⟨files, [], true, fun _ => rfl⟩

def directoryInParts (first rest : List Text) : Directory :=
  ⟨first, rest, false, fun h => Bool.noConfusion h⟩

/-- The row with the uid -1 has the file `ffffffff`, and another file is deleted. -/
theorem cleansUp_iff_negative :
    CleansUp .ascii (oneRowFile (-1))
      (directoryAtOnce [filenameForUid (-1), filenameForUid 5]) := by
  refine (cleansUp_iff .ascii (oneRowFile (-1)) (directoryAtOnce _) ?_).mpr (.inl rfl)
  intro r hr
  rw [show (oneRowFile (-1)).existing = [Row.blank 1 (-1)] from rfl, List.mem_singleton] at hr
  rw [hr]
  exact ⟨⟨by decide, by decide⟩, by decide⟩

/-- With two files that are not read at once, none is deleted. -/
theorem not_cleansUp_parts : ¬ ∀ (rules : CharRules) (db : Db) (dir : Directory),
    (∀ r ∈ db.existing, IsTInt r.uid ∧ r.uid ≠ kFavouritesNullUid) → CleansUp rules db dir := by
  intro h
  have hclean := h .ascii { oneRowFile 1 with stored := ⟨[], 2, 2⟩ }
    (directoryInParts [filenameForUid 5] [filenameForUid 6]) fun r hr => (List.not_mem_nil hr).elim
  obtain ⟨r, hr, -⟩ := (hclean.deletes (filenameForUid 5) List.mem_cons_self).mp
    (by decide +kernel)
  exact List.not_mem_nil hr

end SymbianWeb.Favourites.Store
