import Mathlib.Data.List.Basic
import Mathlib.Data.List.Infix

/-!
# Searching a text

`findSub` returns the position of the first occurrence of a pattern. `findSub_eq_some_iff` and
`findSub_eq_none_iff` characterise it by prefixes and infixes, and `findSub_append` says that what
follows an occurrence does not matter.

`lines a b` cuts a text behind every `a` that is followed by `b`, which is how texts with
two-character line ends are read. The first line ends where `findSub [a, b]` points
(`lines_cases`).
-/

set_option autoImplicit false

namespace SymbianWeb.Search

universe u

variable {α : Type u} [DecidableEq α]

omit [DecidableEq α] in
/-- The last occurrence of an element splits a text. -/
theorem exists_last {c : α} {s : List α} (h : c ∈ s) :
    ∃ a rest, s = a ++ c :: rest ∧ c ∉ rest := by
  obtain ⟨rest, a, heq, hno⟩ := List.eq_append_cons_of_mem (List.mem_reverse.2 h)
  refine ⟨a.reverse, rest.reverse, ?_, by simpa using hno⟩
  have hreverse := congrArg List.reverse heq
  simpa using hreverse

/-- The position of the first occurrence of a pattern. -/
def findSub (pat : List α) : List α → Option Nat
  | [] => if pat = [] then some 0 else none
  | a :: s => if pat <+: a :: s then some 0 else (findSub pat s).map (· + 1)

theorem findSub_eq_some_iff {pat s : List α} {n : Nat} :
    findSub pat s = some n ↔ n ≤ s.length ∧ pat <+: s.drop n ∧ ∀ k < n, ¬ pat <+: s.drop k := by
  induction s generalizing n with
  | nil =>
      by_cases hpat : pat = []
      · rw [findSub, if_pos hpat, hpat, Option.some.injEq]
        constructor
        · rintro rfl
          exact ⟨Nat.le_refl _, List.nil_prefix, fun k hk => absurd hk (Nat.not_lt_zero k)⟩
        · rintro ⟨hn, -, -⟩
          exact (Nat.le_zero.1 hn).symm
      · rw [findSub, if_neg hpat]
        simp [hpat]
  | cons a s ih =>
      by_cases hpre : pat <+: a :: s
      · rw [findSub, if_pos hpre, Option.some.injEq]
        constructor
        · rintro rfl
          exact ⟨Nat.zero_le _, hpre, fun k hk => absurd hk (Nat.not_lt_zero k)⟩
        · rintro ⟨-, -, hfirst⟩
          by_contra hne
          exact hfirst 0 (Nat.pos_of_ne_zero fun h => hne h.symm) hpre
      · rw [findSub, if_neg hpre, Option.map_eq_some_iff]
        constructor
        · rintro ⟨m, hm, rfl⟩
          obtain ⟨hle, hat, hfirst⟩ := ih.1 hm
          refine ⟨Nat.succ_le_succ hle, hat, fun k hk => ?_⟩
          cases k with
          | zero => exact hpre
          | succ k => exact hfirst k (Nat.lt_of_succ_lt_succ hk)
        · rintro ⟨hle, hat, hfirst⟩
          cases n with
          | zero => exact absurd hat hpre
          | succ n =>
              refine ⟨n, ih.2 ⟨Nat.le_of_succ_le_succ hle, hat, fun k hk => ?_⟩, rfl⟩
              exact hfirst (k + 1) (Nat.succ_lt_succ hk)

theorem findSub_eq_none_iff {pat s : List α} : findSub pat s = none ↔ ¬ pat <:+: s := by
  induction s with
  | nil =>
      by_cases hpat : pat = []
      · rw [findSub, if_pos hpat]
        simp [hpat]
      · rw [findSub, if_neg hpat]
        simp [hpat]
  | cons a s ih =>
      rw [List.infix_cons_iff, not_or, ← ih]
      by_cases hpre : pat <+: a :: s
      · rw [findSub, if_pos hpre]
        simp [hpre]
      · rw [findSub, if_neg hpre]
        simp [hpre]

/-- An occurrence ends within the text. -/
theorem findSub_le {pat s : List α} {n : Nat} (h : findSub pat s = some n) :
    n + pat.length ≤ s.length := by
  obtain ⟨hle, hat, -⟩ := findSub_eq_some_iff.1 h
  have hlen := hat.length_le
  rw [List.length_drop] at hlen
  omega

omit [DecidableEq α] in
/-- What begins within the first part of a text and fits into it is a prefix there. -/
theorem prefix_drop_append {pat l t : List α} {k : Nat} (hk : k + pat.length ≤ l.length) :
    pat <+: (l ++ t).drop k ↔ pat <+: l.drop k := by
  rw [List.drop_append_of_le_length (by omega)]
  constructor
  · intro h
    exact List.prefix_of_prefix_length_le h (List.prefix_append _ _) (by
      rw [List.length_drop]
      omega)
  · exact fun h => h.trans (List.prefix_append _ _)

/-- The first occurrence, where no other begins before it. -/
theorem findSub_eq_length {pat l : List α} (t : List α) (hpat : pat ≠ [])
    (h : ¬ pat <:+: l ++ pat.dropLast) : findSub pat (l ++ (pat ++ t)) = some l.length := by
  rw [findSub_eq_some_iff]
  refine ⟨by simp, ?_, fun k hk hat => h ?_⟩
  · rw [List.drop_left]
    exact List.prefix_append _ _
  · have hlen : 0 < pat.length := List.length_pos_of_ne_nil hpat
    -- the occurrence at `k` ends before the last character of the one at `l.length`
    have hsplit : l ++ (pat ++ t) = (l ++ pat.dropLast) ++ ([pat.getLast hpat] ++ t) := by
      rw [List.append_assoc, ← List.append_assoc pat.dropLast, List.dropLast_append_getLast]
    rw [hsplit] at hat
    have hin := (prefix_drop_append (by rw [List.length_append, List.length_dropLast]; omega)).1 hat
    exact hin.isInfix.trans (List.drop_suffix k _).isInfix

omit [DecidableEq α] in
/-- A pattern without `c` does not reach across a `c`. -/
theorem prefix_append_cons {pat l t : List α} {c : α} (hc : c ∉ pat) :
    pat <+: l ++ c :: t ↔ pat <+: l := by
  constructor
  · intro h
    rcases List.prefix_or_prefix_of_prefix h (List.prefix_append l _) with hpre | ⟨u, rfl⟩
    · exact hpre
    · cases u with
      | nil => rw [List.append_nil]
      | cons d u =>
          rw [List.prefix_append_right_inj, List.cons_prefix_cons] at h
          exact absurd (List.mem_append_right l (h.1 ▸ List.mem_cons_self)) hc
  · exact fun h => h.trans (List.prefix_append l _)

/-- A pattern without `c` is found before the `c` or behind it. -/
theorem findSub_append_cons {pat l t : List α} {c : α} (hpat : pat ≠ []) (hc : c ∉ pat) :
    findSub pat (l ++ c :: t) = (findSub pat l).or ((findSub pat t).map (· + (l.length + 1))) := by
  induction l with
  | nil =>
      have hnot : ¬ pat <+: c :: t := fun h => by
        have hnil := (prefix_append_cons (l := []) hc).1 h
        exact hpat (List.prefix_nil.1 hnil)
      have hnil : findSub pat ([] : List α) = none := if_neg hpat
      rw [List.nil_append, hnil, findSub, if_neg hnot]
      rfl
  | cons a l ih =>
      by_cases hpre : pat <+: a :: l
      · have hpos : pat <+: a :: (l ++ c :: t) := (prefix_append_cons (l := a :: l) hc).2 hpre
        rw [List.cons_append, findSub, if_pos hpos, findSub, if_pos hpre]
        rfl
      · have hnot : ¬ pat <+: a :: (l ++ c :: t) := fun h =>
          hpre ((prefix_append_cons (l := a :: l) hc).1 h)
        rw [List.cons_append, findSub, if_neg hnot, findSub, if_neg hpre, ih]
        cases findSub pat l with
        | some n => rfl
        | none =>
            cases findSub pat t with
            | none => rfl
            | some n => simp [Nat.add_assoc]

omit [DecidableEq α] in
/-- Two texts without the mark, each followed by the mark or by nothing. -/
theorem append_inj_of_not_mem {c : α} {a b x y : List α} (ha : c ∉ a) (hb : c ∉ b)
    (hx : x = [] ∨ x.head? = some c) (hy : y = [] ∨ y.head? = some c) (h : a ++ x = b ++ y) :
    a = b ∧ x = y := by
  have hmark : ∀ {z : List α} {d : α} {rest : List α}, z = d :: rest →
      z = [] ∨ z.head? = some c → d = c := by
    rintro z d rest rfl (h | h)
    · cases h
    · exact Option.some.inj h
  induction a generalizing b with
  | nil =>
    cases b with
    | nil => exact ⟨rfl, h⟩
    | cons d rest => exact absurd (hmark h hx ▸ List.mem_cons_self) hb
  | cons d rest ih =>
    cases b with
    | nil => exact absurd (hmark h.symm hy ▸ List.mem_cons_self) ha
    | cons d' rest' =>
      obtain ⟨rfl, htail⟩ := List.cons.inj h
      obtain ⟨rfl, rfl⟩ := ih (fun hmem => ha (List.mem_cons_of_mem _ hmem))
        (fun hmem => hb (List.mem_cons_of_mem _ hmem)) htail
      exact ⟨rfl, rfl⟩

/-- What stands behind the first occurrence of a pattern. -/
def behind (pat s : List α) : Option (List α) :=
  (findSub pat s).map fun n => s.drop (n + pat.length)

/-- A pattern without `c`, in a text with a `c`. -/
theorem behind_append_cons {pat l t : List α} {c : α} (hpat : pat ≠ []) (hc : c ∉ pat) :
    behind pat (l ++ c :: t) = ((behind pat l).map (· ++ c :: t)).or (behind pat t) := by
  rw [behind, behind, behind, findSub_append_cons hpat hc]
  cases hl : findSub pat l with
  | some n =>
      have hle := findSub_le hl
      show some ((l ++ c :: t).drop (n + pat.length)) = _
      rw [List.drop_append_of_le_length hle]
      rfl
  | none =>
      cases findSub pat t with
      | none => rfl
      | some n =>
          show some ((l ++ c :: t).drop (n + (l.length + 1) + pat.length)) =
            some (t.drop (n + pat.length))
          have hskip : n + (l.length + 1) + pat.length = l.length + (n + pat.length + 1) := by omega
          rw [hskip, ← List.drop_drop, List.drop_left]
          rfl

/-- A key and a closing character `e` that is in none of the two texts before it: the key stands
there, or the pattern is looked for behind. -/
theorem behind_key {key l t : List α} {e : α} (hkey : e ∉ key) (hl : e ∉ l) :
    behind (key ++ [e]) (l ++ e :: t) =
      if key <:+ l then some t else behind (key ++ [e]) t := by
  induction l with
  | nil =>
      by_cases hnil : key = []
      · subst hnil
        have hpre : [e] <+: e :: t := ⟨t, rfl⟩
        rw [List.nil_append, List.nil_append, if_pos (List.suffix_refl _), behind, findSub,
          if_pos hpre]
        rfl
      · have hsuffix : ¬ key <:+ [] := fun h => hnil (List.suffix_nil.1 h)
        have hpre : ¬ key ++ [e] <+: e :: t := by
          intro h
          obtain ⟨c, key', rfl⟩ := List.exists_cons_of_ne_nil hnil
          rw [List.cons_append, List.cons_prefix_cons] at h
          exact hkey (h.1 ▸ List.mem_cons_self)
        rw [List.nil_append, if_neg hsuffix, behind, findSub, if_neg hpre, Option.map_map, behind]
        congr 1
        funext n
        show (e :: t).drop (n + 1 + _) = _
        rw [Nat.add_right_comm]
        rfl
  | cons a l ih =>
      have hl' : e ∉ l := fun h => hl (List.mem_cons_of_mem _ h)
      -- an occurrence at the front ends at the first `e`, which is the one behind `a :: l`
      have hfront : key ++ [e] <+: a :: (l ++ e :: t) ↔ key = a :: l := by
        constructor
        · rintro ⟨u, hu⟩
          have hu' : key ++ e :: u = (a :: l) ++ e :: t := by
            rw [← List.append_cons] at hu
            exact hu
          exact (append_inj_of_not_mem hkey hl (.inr rfl) (.inr rfl) hu').1
        · rintro rfl
          exact ⟨t, by simp⟩
      by_cases heq : key = a :: l
      · rw [if_pos (heq ▸ List.suffix_refl _), List.cons_append, behind, findSub,
          if_pos (hfront.2 heq), heq]
        simp
      · have hsuffix : key <:+ a :: l ↔ key <:+ l := by
          rw [List.suffix_cons_iff]
          exact or_iff_right heq
        have hrest : behind (key ++ [e]) (a :: (l ++ e :: t)) =
            behind (key ++ [e]) (l ++ e :: t) := by
          rw [behind, findSub, if_neg fun h => heq (hfront.1 h), Option.map_map, behind]
          congr 1
          funext n
          show (a :: (l ++ e :: t)).drop (n + 1 + _) = _
          rw [Nat.add_right_comm]
          rfl
        rw [List.cons_append, hrest, ih hl']
        simp only [hsuffix]

/-- A pattern without the characters of a line end is found before the line end or behind it. -/
theorem findSub_append_line {pat l t : List α} {a b : α} (hpat : pat ≠ []) (ha : a ∉ pat)
    (hb : b ∉ pat) : findSub pat (l ++ a :: b :: t) =
      (findSub pat l).or ((findSub pat t).map (· + (l.length + 2))) := by
  have hbehind := findSub_append_cons (l := []) (t := t) hpat hb
  have hnil : findSub pat ([] : List α) = none := if_neg hpat
  rw [hnil, Option.none_or, List.nil_append] at hbehind
  rw [findSub_append_cons hpat ha, hbehind, Option.map_map]
  congr 2
  funext n
  simp only [Function.comp, List.length_nil]
  omega

/-! ## Lines -/

/-- The lines of a text that end with `a` and `b`, without these, and what follows the last one. -/
def lines (a b : α) : List α → List (List α) × List α
  | [] => ([], [])
  | [c] => ([], [c])
  | c :: d :: s =>
      if c = a ∧ d = b then ([] :: (lines a b s).1, (lines a b s).2)
      else
        match lines a b (d :: s) with
        | ([], rest) => ([], c :: rest)
        | (l :: ls, rest) => ((c :: l) :: ls, rest)

/-- A text without a line end is no line; otherwise its first line ends at the first line end. -/
theorem lines_cases (a b : α) (s : List α) :
    (¬ [a, b] <:+: s ∧ lines a b s = ([], s)) ∨
      ∃ l t, s = l ++ a :: b :: t ∧ ¬ [a, b] <:+: l ++ [a] ∧
        lines a b s = (l :: (lines a b t).1, (lines a b t).2) := by
  induction s with
  | nil => exact .inl ⟨by simp, rfl⟩
  | cons c s ih =>
      cases s with
      | nil =>
          refine .inl ⟨fun h => ?_, rfl⟩
          have hlen := h.length_le
          simp at hlen
      | cons d s =>
          by_cases hend : c = a ∧ d = b
          · obtain ⟨rfl, rfl⟩ := hend
            refine .inr ⟨[], s, rfl, fun h => ?_, ?_⟩
            · have hlen := h.length_le
              simp at hlen
            · rw [lines, if_pos ⟨rfl, rfl⟩]
          · have hhead : ¬ [a, b] <+: c :: d :: s := by
              simpa [List.cons_prefix_cons, eq_comm] using hend
            rw [lines, if_neg hend]
            rcases ih with ⟨hnone, hlines⟩ | ⟨l, t, heq, hfirst, hlines⟩
            · refine .inl ⟨?_, by rw [hlines]⟩
              rw [List.infix_cons_iff, not_or]
              exact ⟨hhead, hnone⟩
            · refine .inr ⟨c :: l, t, by rw [heq, List.cons_append], ?_, by rw [hlines]⟩
              rw [List.cons_append, List.infix_cons_iff, not_or]
              refine ⟨fun hpre => hhead ?_, hfirst⟩
              rw [heq]
              refine hpre.trans ?_
              rw [List.cons_prefix_cons]
              exact ⟨rfl, ⟨b :: t, by simp⟩⟩

/-- Where the first line ends. -/
theorem findSub_line_end {a b : α} {l t : List α} (h : ¬ [a, b] <:+: l ++ [a]) :
    findSub [a, b] (l ++ a :: b :: t) = some l.length :=
  @findSub_eq_length α _ [a, b] l t (by simp) h

omit [DecidableEq α] in
/-- A line end does not begin in a line without its first character. -/
theorem not_infix_line {a b : α} {l : List α} (ha : a ∉ l) : ¬ [a, b] <:+: l ++ [a] := by
  rintro ⟨u, v, heq⟩
  have hlen := congrArg List.length heq
  simp only [List.length_append, List.length_cons, List.length_nil] at hlen
  have hget : (l ++ [a])[u.length]? = some a := by
    rw [← heq, List.append_assoc, List.getElem?_append_right (Nat.le_refl _), Nat.sub_self]
    rfl
  rw [List.getElem?_append_left (by omega)] at hget
  exact ha (List.mem_of_getElem? hget)

/-- The first line of a text that begins with one. -/
theorem lines_append {a b : α} {l t : List α} (ha : a ∉ l) :
    lines a b (l ++ a :: b :: t) = (l :: (lines a b t).1, (lines a b t).2) := by
  have hfind : findSub [a, b] (l ++ a :: b :: t) = some l.length :=
    findSub_line_end (not_infix_line ha)
  rcases lines_cases a b (l ++ a :: b :: t) with ⟨hnone, -⟩ | ⟨l', t', heq, hfirst, hlines⟩
  · rw [findSub_eq_none_iff.2 hnone] at hfind
    cases hfind
  · rw [heq, findSub_line_end hfirst, Option.some.injEq] at hfind
    obtain ⟨rfl, htail⟩ := List.append_inj heq hfind.symm
    rw [List.cons.injEq, List.cons.injEq] at htail
    rw [hlines, htail.2.2]

end SymbianWeb.Search
