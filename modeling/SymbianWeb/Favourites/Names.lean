import Mathlib.Data.List.DropRight
import Mathlib.Data.List.Sort
import Mathlib.Data.UInt

/-!
# Names of favourites

A name is trimmed and limited to 50 units when it is set in an item (`makeName`). The database
looks for a name with a `like` query, in which `*` and `?` are wildcards and case does not count.
A conflicting name is replaced: its prefix is what stands before a number in parentheses
(`getPrefix`), the numbers that are taken are those of the names that go on behind the prefix
(`getPostfix`), and the new name is the prefix with the first number that is free.

What a letter is, and which characters are white space, is a matter of the character tables of the
platform (`CharRules`); of these it is only used that digits, parentheses and the wildcards are
neither.
-/

set_option autoImplicit false

namespace SymbianWeb.Favourites.Store

/-- 16-bit text. -/
abbrev Text := List UInt16

/-- Case folding and white space of the platform. What is below `A` in the tables is not a letter,
and no letter is folded to it; what prints between the blank and `A` is not white space. -/
structure CharRules where
  fold : UInt16 → UInt16
  isSpace : UInt16 → Bool
  fold_eq_self : ∀ c, c.toNat < 65 → fold c = c
  eq_of_fold : ∀ c, (fold c).toNat < 65 → fold c = c
  isSpace_blank : isSpace 32 = true
  not_isSpace : ∀ c, 32 < c.toNat → c.toNat < 65 → isSpace c = false

namespace CharRules

/-- The basic Latin letters and white space. -/
def ascii : CharRules where
  fold c := if 65 ≤ c.toNat ∧ c.toNat ≤ 90 then UInt16.ofNat (c.toNat + 32) else c
  isSpace c := c.toNat = 32 ∨ 9 ≤ c.toNat ∧ c.toNat ≤ 13
  fold_eq_self c h := if_neg (by omega)
  eq_of_fold c h := by
    split at h
    · rename_i hletter
      rw [UInt16.toNat_ofNat', Nat.mod_eq_of_lt (by omega)] at h
      omega
    · rename_i hletter
      rw [if_neg hletter]
  isSpace_blank := by decide
  not_isSpace c hlo hhi := by
    rw [decide_eq_false_iff_not]
    omega

variable (rules : CharRules)

/-- Text with its case folded. -/
def foldText (t : Text) : Text := t.map rules.fold

end CharRules

/-! ## Characters -/

def openPar : UInt16 := 40

def closePar : UInt16 := 41

def star : UInt16 := 42

def question : UInt16 := 63

/-- The mark that switches to writing from the right to the left. -/
def rightToLeftMark : UInt16 := 0x200F

def isDigit (c : UInt16) : Bool := 48 ≤ c.toNat && c.toNat ≤ 57

/-! ## Setting a name -/

def kFavouritesMaxName : Nat := 50

def kFavouritesMaxPostfix : Nat := 13

section

variable (rules : CharRules)

/-- Without the white space at both ends. -/
def trim (t : Text) : Text := (t.dropWhile rules.isSpace).rdropWhile rules.isSpace

/-- The name that is made from a text, and whether it had to be cut. A mark at an end is taken away
before the text is trimmed, and one more if there is one after that. -/
def makeName (aSource : Text) : Text × Bool :=
  let rightRemove := aSource.getLast? = some rightToLeftMark
  let aTarget := if rightRemove then aSource.dropLast else aSource
  let leftRemove := aTarget.head? = some rightToLeftMark
  let aTarget := if leftRemove then aTarget.tail else aTarget
  let aTarget := trim rules aTarget
  let aTarget :=
    if rightRemove ∧ aTarget.getLast? = some rightToLeftMark then aTarget.dropLast else aTarget
  let aTarget :=
    if leftRemove ∧ aTarget.head? = some rightToLeftMark then aTarget.tail else aTarget
  if kFavouritesMaxName < aTarget.length then (aTarget.take kFavouritesMaxName, true)
  else (aTarget, false)

end

/-- The name that an item gets; a text that would have to be cut is refused. -/
def setName (rules : CharRules) (aName : Text) : Option Text :=
  match makeName rules aName with
  | (_, true) => none
  | (name, false) => some name

def isValidName (aName : Text) : Bool := 0 < aName.length

/-! ## Numbers in names -/

/-- The value of the digits at the beginning, behind those that gave `acc`. -/
def digitsValue (acc : Nat) : Text → Nat
  | [] => acc
  | c :: t => if isDigit c then digitsValue (acc * 10 + (c.toNat - 48)) t else acc

/-- The integer at the beginning of a text; what stands behind it does not matter. -/
def lexVal (t : Text) : Option Int :=
  let neg := t.head? = some 45
  let digits := if neg ∨ t.head? = some 43 then t.tail else t
  if (digits.head?.map isDigit).getD false then
    let v : Int := if neg then - (digitsValue 0 digits : Int) else digitsValue 0 digits
    if -2147483648 ≤ v ∧ v < 2147483648 then some v else none
  else none

/-- The position of the last occurrence of a character. -/
def locateReverse (c : UInt16) : Text → Option Nat
  | [] => none
  | d :: t =>
      match locateReverse c t with
      | some i => some (i + 1)
      | none => if d = c then some 0 else none

/-- What stands before a number in parentheses at the end of a name. -/
def getPrefix (aName : Text) : Text :=
  if 3 ≤ aName.length ∧ aName.getLast? = some closePar then
    match locateReverse openPar aName with
    | none => aName
    | some i =>
        match lexVal ((aName.drop (i + 1)).take (aName.length - i - 2)) with
        | none => aName
        | some _ => aName.take i
  else aName

/-- The positive number in parentheses behind the prefix, 0 if there is nothing behind it, and -1
for all other names. -/
def getPostfix (rules : CharRules) (aName aPrefix : Text) : Int :=
  if aPrefix.length ≤ aName.length ∧
      (rules.foldText aPrefix).isPrefixOf (rules.foldText aName) then
    if aName.length = aPrefix.length then 0
    else if 3 ≤ aName.length - aPrefix.length ∧ aName[aPrefix.length]? = some openPar ∧
        aName.getLast? = some closePar then
      match lexVal ((aName.drop (aPrefix.length + 1)).take (aName.length - aPrefix.length - 2)) with
      | some val => if 0 < val then val else -1
      | none => -1
    else -1
  else -1

/-- The decimal digits of a number, in at most `fuel + 1` places. -/
def decimalDigits : Nat → Nat → Text
  | 0, n => [UInt16.ofNat (48 + n % 10)]
  | fuel + 1, n =>
      if n < 10 then [UInt16.ofNat (48 + n)]
      else decimalDigits fuel (n / 10) ++ [UInt16.ofNat (48 + n % 10)]

def decimal (n : Nat) : Text := decimalDigits n n

/-! ## Queries by name -/

/-- Matching with wildcards. -/
def matchPattern : Text → Text → Bool
  | [], t => t.isEmpty
  | p :: ps, t =>
      if p = star then t.tails.any (matchPattern ps)
      else
        match t with
        | [] => false
        | c :: t => (p = question || p = c) && matchPattern ps t

/-- The `like` of a query that compares folded. -/
def like (rules : CharRules) (pattern t : Text) : Bool :=
  matchPattern (rules.foldText pattern) (rules.foldText t)

/-! ## A name that is not taken -/

/-- Goes through the postfixes in ascending order, and ends with the first number from the
candidate on that is not one of them. -/
def holeSearch (candidate : Int) : List Int → Int
  | [] => candidate
  | v :: vs =>
      if v < candidate then holeSearch candidate vs
      else if v = candidate then holeSearch (candidate + 1) vs
      else candidate

/-- The prefix that is used for a name, and whether a postfix is wanted in any case: the prefix is
cut where the longest postfix might not fit behind it. -/
def renamePrefix (aName : Text) : Text × Bool :=
  let pre := getPrefix aName
  if kFavouritesMaxName < pre.length + kFavouritesMaxPostfix then
    (pre.take (kFavouritesMaxName - kFavouritesMaxPostfix), true)
  else (pre, false)

/-- The name with a number. -/
def formatName (aPrefix : Text) (number : Int) : Text :=
  if number = 0 then aPrefix
  else if number < 10 then aPrefix ++ [openPar, 48] ++ decimal number.toNat ++ [closePar]
  else aPrefix ++ [openPar] ++ decimal number.toNat ++ [closePar]

/-- The first number that is free, given those that the search has found. -/
def freePostfix (forcePostfix : Bool) (postfixes : List Int) : Int :=
  holeSearch (if forcePostfix then 1 else 0) (postfixes.insertionSort (· ≤ ·))

end SymbianWeb.Favourites.Store
