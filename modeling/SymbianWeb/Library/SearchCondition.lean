import Mathlib.Data.List.Basic
import Mathlib.Data.UInt

/-!
# Search conditions

The part of a query language that selects rows: predicates `column like 'pattern'` and
`column = number`, joined by `and`. A quote inside a literal is doubled. `compile` reads a text
with a scanner that has one state for each kind of token, and `scan_append` says that texts which
follow each other are scanned one after the other. A literal that has been escaped is read back
whatever it is (`scan_escape`).
-/

set_option autoImplicit false

namespace SymbianWeb.SearchCondition

abbrev Text := List UInt16

def blank : UInt16 := 32

def quote : UInt16 := 39

def minus : UInt16 := 45

def equalsSign : UInt16 := 61

def isDigit (c : UInt16) : Bool := 48 ≤ c.toNat && c.toNat ≤ 57

/-! ## Tokens -/

inductive Token where
  | word (t : Text)
  | number (t : Text)
  | literal (t : Text)
  | equals
  deriving DecidableEq

/-- What the scanner is in. A literal is closed by a quote that no other one follows. -/
inductive Scan where
  | between
  | word (t : Text)
  | number (t : Text)
  | literal (t : Text)
  | closed (t : Text)
  deriving DecidableEq

/-- The token that ends with the text; a literal does not end without a quote. -/
def Scan.flush : Scan → Option (List Token)
  | .between => some []
  | .word t => some [.word t]
  | .number t => some [.number t]
  | .literal _ => none
  | .closed t => some [.literal t]

/-- The characters that end words and numbers. -/
def isDelimiter (c : UInt16) : Bool := c = blank || c = quote || c = equalsSign

/-- The scanner behind a character that no token goes on with. -/
def begin (c : UInt16) : Scan × List Token :=
  if c = blank then (.between, [])
  else if c = quote then (.literal [], [])
  else if c = equalsSign then (.between, [.equals])
  else if isDigit c || c = minus then (.number [c], [])
  else (.word [c], [])

def step : Scan → UInt16 → Scan × List Token
  | .between, c => begin c
  | .word t, c =>
      if isDelimiter c then ((begin c).1, .word t :: (begin c).2) else (.word (t ++ [c]), [])
  | .number t, c =>
      if isDelimiter c then ((begin c).1, .number t :: (begin c).2) else (.number (t ++ [c]), [])
  | .literal t, c => if c = quote then (.closed t, []) else (.literal (t ++ [c]), [])
  | .closed t, c =>
      if c = quote then (.literal (t ++ [quote]), [])
      else ((begin c).1, .literal t :: (begin c).2)

/-- The scanner behind a text, and the tokens that have ended in it. -/
def scan : Scan → Text → Scan × List Token
  | s, [] => (s, [])
  | s, c :: t => ((scan (step s c).1 t).1, (step s c).2 ++ (scan (step s c).1 t).2)

def tokens (t : Text) : Option (List Token) :=
  (scan .between t).1.flush.map ((scan .between t).2 ++ ·)

/-! ## Conditions -/

/-- The value of the digits that come behind a number. -/
def digit (acc : Nat) (c : UInt16) : Nat := acc * 10 + (c.toNat - 48)

def digitsValue (acc : Nat) (t : Text) : Nat := t.foldl digit acc

/-- The value of a number with or without a sign. -/
def numeral : Text → Int
  | [] => 0
  | c :: t => if c = minus then - (digitsValue 0 t : Int) else digitsValue 0 (c :: t)

inductive Predicate where
  | like (column pattern : Text)
  | equals (column : Text) (value : Int)
  deriving DecidableEq

/-- The words `like` and `and`. -/
def likeWord : Text := [108, 105, 107, 101]

def andWord : Text := [97, 110, 100]

/-- Predicates that are joined. -/
def search : List Token → Option (List Predicate)
  | [.word column, .word keyword, .literal pattern] =>
      if keyword = likeWord then some [.like column pattern] else none
  | [.word column, .equals, .number t] => some [.equals column (numeral t)]
  | .word column :: .word keyword :: .literal pattern :: .word conj :: rest =>
      if keyword = likeWord ∧ conj = andWord then
        (search rest).map (.like column pattern :: ·)
      else none
  | .word column :: .equals :: .number t :: .word conj :: rest =>
      if conj = andWord then (search rest).map (.equals column (numeral t) :: ·) else none
  | _ => none

/-- The condition that a text states. -/
def compile (t : Text) : Option (List Predicate) := (tokens t).bind search

/-! ## Scanning -/

section

variable {s : Scan} {t u : Text}

theorem scan_append (s : Scan) (t u : Text) :
    scan s (t ++ u) = ((scan (scan s t).1 u).1, (scan s t).2 ++ (scan (scan s t).1 u).2) := by
  induction t generalizing s with
  | nil => rfl
  | cons c t ih =>
      rw [List.cons_append, scan, scan, ih]
      simp only [List.append_assoc]

/-- With all quotes doubled. -/
def escape (t : Text) : Text := t.flatMap fun c => if c = quote then [quote, quote] else [c]

/-- An escaped literal is read back. -/
theorem scan_escape (front t : Text) :
    scan (.literal front) (escape t) = (.literal (front ++ t), []) := by
  induction t generalizing front with
  | nil =>
      rw [List.append_nil]
      rfl
  | cons c t ih =>
      rw [escape, List.flatMap_cons, scan_append]
      rw [escape] at ih
      by_cases hc : c = quote
      · subst hc
        have hquotes : scan (.literal front) [quote, quote] = (.literal (front ++ [quote]), []) := by
          simp [scan, step]
        rw [if_pos rfl, hquotes, ih, List.append_assoc]
        rfl
      · have hchar : scan (.literal front) [c] = (.literal (front ++ [c]), []) := by
          simp [scan, step, hc]
        rw [if_neg hc, hchar, ih, List.append_assoc]
        rfl

theorem scan_number_digits {front : Text} (h : ∀ c ∈ t, isDelimiter c = false) :
    scan (.number front) t = (.number (front ++ t), []) := by
  induction t generalizing front with
  | nil =>
      rw [List.append_nil]
      rfl
  | cons c t ih =>
      have hc := h c List.mem_cons_self
      have hstep : step (.number front) c = (.number (front ++ [c]), []) := by
        simp [step, hc]
      rw [scan, hstep, ih fun d hmem => h d (List.mem_cons_of_mem c hmem), List.append_assoc]
      rfl

/-- A number that begins with a digit or a sign. -/
theorem scan_number {c : UInt16} (hfirst : begin c = (.number [c], []))
    (h : ∀ d ∈ t, isDelimiter d = false) : scan .between (c :: t) = (.number (c :: t), []) := by
  rw [scan, show step .between c = _ from hfirst, scan_number_digits h]
  rfl

/-- A blank ends a token. -/
theorem step_blank {ts : List Token} (h : s.flush = some ts) : step s blank = (.between, ts) := by
  cases s with
  | between =>
      cases h
      rfl
  | word t =>
      cases h
      rfl
  | number t =>
      cases h
      rfl
  | literal t => cases h
  | closed t =>
      cases h
      rfl

theorem scan_blank {ts : List Token} (h : s.flush = some ts) :
    scan s (blank :: t) = ((scan .between t).1, ts ++ (scan .between t).2) := by
  rw [scan, step_blank h]

theorem tokens_eq {ts ts' : List Token} (hscan : scan .between t = (s, ts))
    (hflush : s.flush = some ts') : tokens t = some (ts ++ ts') := by
  rw [tokens, hscan, hflush]
  rfl

end

/-! ## Reading conditions -/

/-- The tokens of a predicate, with its number as it is written. -/
inductive Written : List Token → Predicate → Prop
  | like (column pattern : Text) :
      Written [.word column, .word likeWord, .literal pattern] (.like column pattern)
  | equals (column t : Text) :
      Written [.word column, .equals, .number t] (.equals column (numeral t))

theorem search_one {ts : List Token} {p : Predicate} (h : Written ts p) :
    search ts = some [p] := by
  cases h with
  | like column pattern => exact if_pos rfl
  | equals column t => rfl

theorem search_and {ts rest : List Token} {p : Predicate} (h : Written ts p) :
    search (ts ++ .word andWord :: rest) = (search rest).map (p :: ·) := by
  cases h with
  | like column pattern => exact if_pos ⟨rfl, rfl⟩
  | equals column t => exact if_pos rfl

/-- The tokens of predicates that are joined by `and`. -/
inductive Joined : List Token → List Predicate → Prop
  | one {ts : List Token} {p : Predicate} (h : Written ts p) : Joined ts [p]
  | snoc {ts ts' : List Token} {ps : List Predicate} {p : Predicate} (h : Joined ts ps)
      (h' : Written ts' p) : Joined (ts ++ .word andWord :: ts') (ps ++ [p])

theorem Joined.ne_nil {ts : List Token} {ps : List Predicate} (h : Joined ts ps) : ts ≠ [] := by
  cases h with
  | one h => cases h <;> exact List.cons_ne_nil _ _
  | snoc => exact fun hnil => List.cons_ne_nil _ _ (List.append_eq_nil_iff.mp hnil).2

theorem Joined.search_append {ts : List Token} {ps : List Predicate} (h : Joined ts ps) :
    ∀ rest, search (ts ++ .word andWord :: rest) = (search rest).map (ps ++ ·) := by
  induction h with
  | one h =>
      intro rest
      exact search_and h
  | snoc h h' ih =>
      intro rest
      rw [List.append_assoc, List.cons_append, ih, search_and h', Option.map_map]
      congr 1
      funext qs
      rw [Function.comp_apply, List.append_assoc, List.singleton_append]

theorem Joined.search_eq {ts : List Token} {ps : List Predicate} (h : Joined ts ps) :
    search ts = some ps := by
  cases h with
  | one h => exact search_one h
  | snoc h h' => rw [h.search_append, search_one h', Option.map_some]

end SymbianWeb.SearchCondition
