import Mathlib.Data.List.Infix

/-!
# Pairs of brackets

A scan that deletes each closing bracket with the last opening one in front of it, and has only one
opening bracket in mind, leaves a pair where one was around others (`infix_deletePairs_iff`).
-/

set_option autoImplicit false

namespace SymbianWeb.BracketPairs

section

variable {α : Type} {opens closes : α}

/-- Pairs next to each other. -/
def pairs (opens closes : α) : Nat → List α
  | 0 => []
  | k + 1 => opens :: closes :: pairs opens closes k

/-- A pair around one pair or more, among brackets. -/
def NestedIn (opens closes : α) (w : List α) : Prop :=
  ∃ k, opens :: (pairs opens closes (k + 1) ++ [closes]) <:+: w

theorem nestedIn_cons (c : α) (w : List α) :
    NestedIn opens closes (c :: w) ↔
      (∃ k, opens :: (pairs opens closes (k + 1) ++ [closes]) <+: c :: w) ∨
        NestedIn opens closes w := by
  simp only [NestedIn, List.infix_cons_iff, exists_or]

theorem nestedIn_closes (hne : opens ≠ closes) (w : List α) :
    NestedIn opens closes (closes :: w) ↔ NestedIn opens closes w := by
  rw [nestedIn_cons, or_iff_right]
  rintro ⟨k, h⟩
  exact hne (List.cons_prefix_cons.mp h).1

theorem nestedIn_pair (hne : opens ≠ closes) (w : List α) :
    NestedIn opens closes (opens :: closes :: w) ↔ NestedIn opens closes w := by
  rw [nestedIn_cons, or_iff_right, nestedIn_closes hne]
  rintro ⟨k, h⟩
  exact hne (List.cons_prefix_cons.mp (List.cons_prefix_cons.mp h).2).1

/-- Behind two opening brackets a third takes the place of the first. -/
theorem nestedIn_opens (hne : opens ≠ closes) (w : List α) :
    NestedIn opens closes (opens :: opens :: opens :: w) ↔
      NestedIn opens closes (opens :: opens :: w) := by
  rw [nestedIn_cons, or_iff_right]
  rintro ⟨k, h⟩
  have h := (List.cons_prefix_cons.mp (List.cons_prefix_cons.mp h).2).2
  exact hne (List.cons_prefix_cons.mp h).1.symm

/-- Behind a pair in an open one, more pairs and a closing bracket make it nested. -/
theorem nestedIn_open_pair (hne : opens ≠ closes) (w : List α) :
    NestedIn opens closes (opens :: opens :: closes :: w) ↔
      (∃ k, pairs opens closes k ++ [closes] <+: w) ∨ NestedIn opens closes w := by
  rw [nestedIn_cons, nestedIn_pair hne]
  simp only [pairs, List.cons_append, List.cons_prefix_cons, true_and]

theorem nestedIn_two (w : List α) :
    NestedIn opens closes (opens :: opens :: w) ↔
      (∃ k, closes :: (pairs opens closes k ++ [closes]) <+: w) ∨
        NestedIn opens closes (opens :: w) := by
  rw [nestedIn_cons]
  simp only [pairs, List.cons_append, List.cons_prefix_cons, true_and]

theorem exists_pairs_opens (hne : opens ≠ closes) (w : List α) :
    (∃ k, pairs opens closes k ++ [closes] <+: opens :: w) ↔
      ∃ k, closes :: (pairs opens closes k ++ [closes]) <+: w := by
  constructor
  · rintro ⟨k, h⟩
    cases k with
    | zero => exact absurd (List.cons_prefix_cons.mp h).1.symm hne
    | succ k => exact ⟨k, (List.cons_prefix_cons.mp h).2⟩
  · rintro ⟨k, h⟩
    exact ⟨k + 1, List.cons_prefix_cons.mpr ⟨rfl, h⟩⟩

theorem infix_two (hne : opens ≠ closes) (w : List α) :
    [opens, closes] <:+: opens :: opens :: w ↔ [opens, closes] <:+: opens :: w := by
  rw [List.infix_cons_iff, or_iff_right]
  intro h
  exact hne (List.cons_prefix_cons.mp (List.cons_prefix_cons.mp h).2).1.symm

end

variable {α : Type} [DecidableEq α] (opens closes : α)

/-- The brackets of a text. -/
def brackets (t : List α) : List α := t.filter fun c => c = opens ∨ c = closes

/-- The brackets that are left of a text; `pending` says whether an opening one is in mind. -/
def deletePairs : Bool → List α → List α
  | pending, [] => if pending then [opens] else []
  | pending, c :: rest =>
    if c = opens then
      if pending then opens :: deletePairs true rest else deletePairs true rest
    else if c = closes then
      if pending then deletePairs false rest else closes :: deletePairs false rest
    else deletePairs pending rest

/-- An opening bracket, other characters, and a closing one. -/
def HasPair (t : List α) : Prop :=
  ∃ front inner back, t = front ++ opens :: (inner ++ closes :: back) ∧
    ∀ c ∈ inner, c ≠ opens ∧ c ≠ closes

/-- A pair around one pair or more. -/
def Nested (t : List α) : Prop := NestedIn opens closes (brackets opens closes t)

section

variable {opens closes}

@[simp] theorem brackets_nil : brackets opens closes [] = [] := rfl

@[simp] theorem brackets_opens (rest : List α) :
    brackets opens closes (opens :: rest) = opens :: brackets opens closes rest := by
  simp [brackets]

@[simp] theorem brackets_closes (rest : List α) :
    brackets opens closes (closes :: rest) = closes :: brackets opens closes rest := by
  simp [brackets]

theorem brackets_cons_of_ne {c : α} (ho : c ≠ opens) (hc : c ≠ closes) (rest : List α) :
    brackets opens closes (c :: rest) = brackets opens closes rest := by
  simp [brackets, ho, hc]

@[simp] theorem brackets_append (a b : List α) :
    brackets opens closes (a ++ b) = brackets opens closes a ++ brackets opens closes b :=
  List.filter_append a b

theorem brackets_eq_nil {t : List α} (h : ∀ c ∈ t, c ≠ opens ∧ c ≠ closes) :
    brackets opens closes t = [] := by
  rw [brackets, List.filter_eq_nil_iff]
  intro c hc
  simp [h c hc]

/-! ## Pairs of a text are pairs of its brackets -/

theorem exists_of_closes_prefix {t : List α} (h : [closes] <+: brackets opens closes t)
    (hne : opens ≠ closes) :
    ∃ inner back, t = inner ++ closes :: back ∧ ∀ c ∈ inner, c ≠ opens ∧ c ≠ closes := by
  induction t with
  | nil => simp at h
  | cons c rest ih =>
    by_cases ho : c = opens
    · rw [ho, brackets_opens, List.cons_prefix_cons] at h
      exact absurd h.1.symm hne
    · by_cases hc : c = closes
      · exact ⟨[], rest, by rw [hc]; rfl, nofun⟩
      · rw [brackets_cons_of_ne ho hc] at h
        obtain ⟨inner, back, rfl, hinner⟩ := ih h
        exact ⟨c :: inner, back, rfl, List.forall_mem_cons.mpr ⟨⟨ho, hc⟩, hinner⟩⟩

theorem hasPair_iff (hne : opens ≠ closes) (t : List α) :
    HasPair opens closes t ↔ [opens, closes] <:+: brackets opens closes t := by
  constructor
  · rintro ⟨front, inner, back, rfl, hinner⟩
    refine ⟨brackets opens closes front, brackets opens closes back, ?_⟩
    simp [brackets_eq_nil hinner]
  · intro h
    induction t with
    | nil => simp at h
    | cons c rest ih =>
      by_cases ho : c = opens
      · rw [ho, brackets_opens, List.infix_cons_iff, List.cons_prefix_cons] at h
        rcases h with ⟨-, hcloses⟩ | hinfix
        · obtain ⟨inner, back, rfl, hinner⟩ := exists_of_closes_prefix hcloses hne
          exact ⟨[], inner, back, by rw [ho]; rfl, hinner⟩
        · obtain ⟨front, inner, back, rfl, hinner⟩ := ih hinfix
          exact ⟨c :: front, inner, back, rfl, hinner⟩
      · have hrest : [opens, closes] <:+: brackets opens closes rest := by
          by_cases hc : c = closes
          · rw [hc, brackets_closes, List.infix_cons_iff, List.cons_prefix_cons] at h
            rcases h with ⟨heq, -⟩ | hinfix
            · exact absurd heq hne
            · exact hinfix
          · rwa [brackets_cons_of_ne ho hc] at h
        obtain ⟨front, inner, back, rfl, hinner⟩ := ih hrest
        exact ⟨c :: front, inner, back, rfl, hinner⟩

/-! ## What a scan leaves -/

/-- The four states of a scan: whether an opening bracket is in mind, and whether the bracket that
was left last is an opening one. Brackets that lead to a state stand for it. -/
structure Agrees (opens closes : α) (t : List α) : Prop where
  clear : [opens, closes] <:+: deletePairs opens closes false t ↔
    NestedIn opens closes (brackets opens closes t)
  pending : [opens, closes] <:+: deletePairs opens closes true t ↔
    NestedIn opens closes (opens :: brackets opens closes t)
  pendingBehind : [opens, closes] <:+: opens :: deletePairs opens closes true t ↔
    NestedIn opens closes (opens :: opens :: brackets opens closes t)
  behind : [opens, closes] <:+: opens :: deletePairs opens closes false t ↔
    NestedIn opens closes (opens :: opens :: closes :: brackets opens closes t)

theorem Agrees.nil (hne : opens ≠ closes) : Agrees opens closes [] where
  clear := by simp [deletePairs, NestedIn]
  pending := by simp [deletePairs, NestedIn, pairs, List.infix_cons_iff]
  pendingBehind := by
    simp [deletePairs, NestedIn, pairs, List.infix_cons_iff, hne.symm]
  behind := by
    rw [nestedIn_open_pair hne]
    simp [deletePairs, NestedIn, pairs, List.infix_cons_iff]

theorem Agrees.cons_opens {t : List α} (hne : opens ≠ closes) (h : Agrees opens closes t) :
    Agrees opens closes (opens :: t) where
  clear := by
    rw [deletePairs, if_pos rfl, if_neg Bool.false_ne_true, brackets_opens]
    exact h.pending
  pending := by
    rw [deletePairs, if_pos rfl, if_pos rfl, brackets_opens]
    exact h.pendingBehind
  pendingBehind := by
    rw [deletePairs, if_pos rfl, if_pos rfl, brackets_opens, infix_two hne, nestedIn_opens hne]
    exact h.pendingBehind
  behind := by
    rw [deletePairs, if_pos rfl, if_neg Bool.false_ne_true, brackets_opens,
      nestedIn_open_pair hne, exists_pairs_opens hne, ← nestedIn_two]
    exact h.pendingBehind

theorem Agrees.cons_closes {t : List α} (hne : opens ≠ closes) (h : Agrees opens closes t) :
    Agrees opens closes (closes :: t) where
  clear := by
    rw [deletePairs, if_neg hne.symm, if_pos rfl, if_neg Bool.false_ne_true, brackets_closes,
      nestedIn_closes hne, List.infix_cons_iff, or_iff_right]
    · exact h.clear
    · exact fun hfirst => hne (List.cons_prefix_cons.mp hfirst).1
  pending := by
    rw [deletePairs, if_neg hne.symm, if_pos rfl, if_pos rfl, brackets_closes, nestedIn_pair hne]
    exact h.clear
  pendingBehind := by
    rw [deletePairs, if_neg hne.symm, if_pos rfl, if_pos rfl, brackets_closes]
    exact h.behind
  behind := by
    rw [deletePairs, if_neg hne.symm, if_pos rfl, if_neg Bool.false_ne_true, brackets_closes,
      nestedIn_open_pair hne]
    refine iff_of_true ⟨[], deletePairs opens closes false t, rfl⟩ (.inl ⟨0, ?_⟩)
    exact ⟨brackets opens closes t, rfl⟩

theorem Agrees.cons_other {t : List α} {c : α} (ho : c ≠ opens) (hc : c ≠ closes)
    (h : Agrees opens closes t) : Agrees opens closes (c :: t) := by
  have hskip : ∀ pending, deletePairs opens closes pending (c :: t) =
      deletePairs opens closes pending t := by
    intro pending
    rw [deletePairs, if_neg ho, if_neg hc]
  constructor
  · rw [hskip, brackets_cons_of_ne ho hc]
    exact h.clear
  · rw [hskip, brackets_cons_of_ne ho hc]
    exact h.pending
  · rw [hskip, brackets_cons_of_ne ho hc]
    exact h.pendingBehind
  · rw [hskip, brackets_cons_of_ne ho hc]
    exact h.behind

theorem agrees (hne : opens ≠ closes) (t : List α) : Agrees opens closes t := by
  induction t with
  | nil => exact .nil hne
  | cons c rest ih =>
    by_cases ho : c = opens
    · rw [ho]
      exact ih.cons_opens hne
    · by_cases hc : c = closes
      · rw [hc]
        exact ih.cons_closes hne
      · exact ih.cons_other ho hc

/-- A scan leaves a pair if and only if one is nested. -/
theorem infix_deletePairs_iff (hne : opens ≠ closes) (t : List α) :
    [opens, closes] <:+: deletePairs opens closes false t ↔ Nested opens closes t :=
  (agrees hne t).clear

end

end SymbianWeb.BracketPairs
