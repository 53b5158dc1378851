import SymbianWeb.Multipart.Parser
import SymbianWeb.Library.ExceptRuns

/-!
# What `ParseBodyPartL` reads

The header fields of a body part and its first blank line, as functions of the bytes from the part
on: a field begins where one of the header names is, at any offset that is not inside of another
field. `scanLoop_ok_iff` says when the scan of a part does not fault, and what it finds then.
-/

set_option autoImplicit false

namespace SymbianWeb.Multipart

open CString ExceptRuns

/-! ## Searches -/

/-- The first position from `i` on and below the bound that has the property. -/
def searchFrom (p : Nat → Prop) [DecidablePred p] (bound i : Nat) : Option Nat :=
  (List.range bound).find? fun j => decide (i ≤ j ∧ p j)

section Search

variable {p : Nat → Prop} [DecidablePred p] {bound i j : Nat}

theorem searchFrom_eq_some : searchFrom p bound i = some j ↔
    i ≤ j ∧ j < bound ∧ p j ∧ ∀ k, i ≤ k → k < j → ¬ p k := by
  rw [searchFrom, List.find?_range_eq_some]
  simp only [decide_eq_true_eq, List.mem_range, Bool.not_eq_true', decide_eq_false_iff_not, not_and]
  constructor
  · rintro ⟨⟨hij, hj⟩, hlt, hfirst⟩
    exact ⟨hij, hlt, hj, fun k hik hk => hfirst k hk hik⟩
  · rintro ⟨hij, hlt, hj, hfirst⟩
    exact ⟨⟨hij, hj⟩, hlt, fun k hk hik => hfirst k hik hk⟩

theorem searchFrom_eq_none : searchFrom p bound i = none ↔ ∀ k, i ≤ k → k < bound → ¬ p k := by
  rw [searchFrom, List.find?_range_eq_none]
  simp only [Bool.not_eq_true', decide_eq_false_iff_not, not_and]
  exact ⟨fun h k hik hk => h k hk hik, fun h k hk hik => h k hik hk⟩

theorem searchFrom_here (hi : i < bound) (hp : p i) : searchFrom p bound i = some i :=
  searchFrom_eq_some.2 ⟨Nat.le_refl _, hi, hp, fun k hik hk => by omega⟩

/-- Positions without the property are passed over. -/
theorem searchFrom_skip (hij : i ≤ j) (hno : ∀ k, i ≤ k → k < j → ¬ p k) :
    searchFrom p bound i = searchFrom p bound j := by
  cases hs : searchFrom p bound j with
  | none =>
      rw [searchFrom_eq_none] at hs ⊢
      intro k hik hk
      rcases Nat.lt_or_ge k j with hlt | hge
      · exact hno k hik hlt
      · exact hs k hge hk
  | some m =>
      rw [searchFrom_eq_some] at hs ⊢
      obtain ⟨hjm, hm, hp, hfirst⟩ := hs
      refine ⟨by omega, hm, hp, fun k hik hk => ?_⟩
      rcases Nat.lt_or_ge k j with hlt | hge
      · exact hno k hik hlt
      · exact hfirst k hge hk

end Search

/-! ## Fields and blank lines -/

/-- A line end is at `i`. -/
def LineEnd (t : Bytes) (e : Eol) (i : Nat) : Prop :=
  e.single <+: t.drop i ∨ Eol.lf.single <+: t.drop i

/-- A blank line is at `i`: the line end twice, or LF twice. -/
def BlankLine (t : Bytes) (e : Eol) (i : Nat) : Prop :=
  e.double <+: t.drop i ∨ Eol.lf.double <+: t.drop i

instance (t : Bytes) (e : Eol) (i : Nat) : Decidable (LineEnd t e i) :=
  inferInstanceAs (Decidable (_ ∨ _))

instance (t : Bytes) (e : Eol) (i : Nat) : Decidable (BlankLine t e i) :=
  inferInstanceAs (Decidable (_ ∨ _))

/-- The length of the blank line at `i`. -/
def blankLength (t : Bytes) (e : Eol) (i : Nat) : Nat :=
  if e.double <+: t.drop i then e.double.length else Eol.lf.double.length

/-- A header name is at the pointer, in any letter case. -/
def NameAt (s name : Bytes) : Prop := name.map toLower <+: s.map toLower

instance (s name : Bytes) : Decidable (NameAt s name) :=
  inferInstanceAs (Decidable (_ <+: _))

/-- The header whose name is at the pointer, and the length of its name. -/
def nameAt (s : Bytes) : Option (Header × Nat) :=
  (headerNames.find? fun name => decide (NameAt s name.1)).map fun name => (name.2, name.1.length)

/-- The number of spaces at the pointer. -/
def leadingSpaces (s : Bytes) : Nat := (s.takeWhile (· = 0x20)).length

/-- The first line end from `start` on in the part. -/
def lineEndFrom (t : Bytes) (n : Nat) (e : Eol) (start : Nat) : Option Nat :=
  searchFrom (LineEnd t e) (n + 1 - e.single.length) start

/-- A header field: where its value starts, and the line end behind it. -/
structure Field where
  header : Header
  startPos : Nat
  lineEnd : Option Nat
  deriving DecidableEq

def fieldAt (t : Bytes) (n : Nat) (e : Eol) (i : Nat) : Option Field :=
  (nameAt (t.drop i)).map fun (header, nameLength) =>
    let startPos := i + nameLength + leadingSpaces (t.drop (i + nameLength))
    ⟨header, startPos, lineEndFrom t n e startPos⟩

/-- The fields from `i` on, up to the first blank line. Without a line end behind it, a field is
also searched for further names. -/
def readFields (t : Bytes) (n : Nat) (e : Eol) : Nat → Nat → List Field
  | 0, _ => []
  | fuel + 1, i =>
      if i < n then
        match fieldAt t n e i with
        | some field => field :: readFields t n e fuel (field.lineEnd.getD (i + 1))
        | none => if BlankLine t e i then [] else readFields t n e fuel (i + 1)
      else
        []

/-- The fields of a part of length `n`. -/
def fields (t : Bytes) (n : Nat) (e : Eol) : List Field := readFields t n e (n + 1) 0

/-- The first blank line of the part from `i` on. -/
def blankFrom (t : Bytes) (n : Nat) (e : Eol) (i : Nat) : Option Nat :=
  searchFrom (BlankLine t e) n i

/-- The value of a field, when `value` is the one before. -/
def fieldValue (base : Nat) (t : Bytes) (value : Ptr8) (field : Field) : Ptr8 :=
  match field.lineEnd with
  | none => value
  | some j =>
      if field.header = .contentID then
        if t[field.startPos]? = some 0x3C then
          .view (base + field.startPos + 1) (j - field.startPos - 2)
        else
          value
      else
        .view (base + field.startPos) (j - field.startPos)

/-- The body part with the values of the fields. -/
def setFields (base : Nat) (t : Bytes) : Ptr8 → CBodyPart → List Field → CBodyPart
  | _, aBodyPart, [] => aBodyPart
  | value, aBodyPart, field :: fields =>
      let value := fieldValue base t value field
      setFields base t value (setHeader aBodyPart field.header value) fields

/-- The body part with the body behind its first blank line, and the headers before it. -/
def setBody (base : Nat) (t : Bytes) (n : Nat) (e : Eol) (aBodyPart : CBodyPart) :
    Option Nat → CBodyPart
  | none => aBodyPart
  | some i =>
      let aBodyPart :=
        { aBodyPart with
          iBody := .view (base + i + blankLength t e i) (n - (i + blankLength t e i)) }
      if i = 0 then
        aBodyPart
      else
        { aBodyPart with iHeaders := .view (base + e.single.length) (i - e.single.length) }

/-! ## What a scan needs -/

/-- The buffer ends in an unfinished header name, in a name with only spaces behind it, or in an
unfinished blank line. -/
def Unfinished (e : Eol) (s : Bytes) : Prop :=
  (∃ name ∈ headerNames, s.length < name.1.length ∧ s.map toLower <+: name.1.map toLower) ∨
    (∃ name ∈ headerNames, NameAt s name.1 ∧ ∀ c ∈ s.drop name.1.length, c = 0x20) ∨
    (s.length < e.double.length ∧ s <+: e.double) ∨
    (s.length < Eol.lf.double.length ∧ s <+: Eol.lf.double)

/-- No blank line is in `[i, j)`. -/
def NoBlankLine (t : Bytes) (e : Eol) (i j : Nat) : Prop :=
  ∀ k, i ≤ k → k < j → ¬ BlankLine t e k

/-- A content id that is an angle bracket alone: its length without brackets is negative. -/
def Field.Alone (t : Bytes) (f : Field) : Prop :=
  f.header = .contentID ∧ t[f.startPos]? = some 0x3C ∧ f.lineEnd = some (f.startPos + 1)

instance (t : Bytes) (f : Field) : Decidable (f.Alone t) :=
  inferInstanceAs (Decidable (_ ∧ _ ∧ _))

/-- The buffer does not end in the headers of the part, and the lengths of its body and headers are
not negative. -/
structure RoomFrom (t : Bytes) (n : Nat) (e : Eol) (i : Nat) : Prop where
  ends : ∀ j, i ≤ j → j < n → NoBlankLine t e i j → ¬ Unfinished e (t.drop j)
  /-- The first blank line is in the part, and behind the line end that the part begins with. -/
  blank : ∀ j, blankFrom t n e i = some j →
    j + blankLength t e j ≤ n ∧ (j = 0 ∨ e.single.length ≤ j)

/-! ## The steps of the scan -/

section Steps

variable {s t : Bytes} {e : Eol} {n i j : Nat}

theorem readM_some {α : Type} {o : Option α} {a : α} (h : o = some a) : readM o = .ok a := by
  rw [h]
  rfl

theorem zero_notMem_names : ∀ name ∈ headerNames, 0 ∉ name.1 := by decide

theorem names_apart : ∀ name ∈ headerNames, ∀ name' ∈ headerNames,
    name.1.map toLower <+: name'.1.map toLower → name = name' := by decide

theorem findHeader_fault {names : List (Bytes × Header)} (h0 : ∀ name ∈ names, 0 ∉ name.1)
    (hapart : ∀ name ∈ names, ∀ name' ∈ names,
      name.1.map toLower <+: name'.1.map toLower → name = name')
    (h : ∃ name ∈ names, s.length < name.1.length ∧ s.map toLower <+: name.1.map toLower) :
    findHeader s names = .error .fault := by
  induction names with
  | nil =>
      obtain ⟨name, hname, -⟩ := h
      cases hname
  | cons name names ih =>
      obtain ⟨text, header⟩ := name
      rw [findHeader]
      have htext := h0 _ List.mem_cons_self
      cases hcmp : strncasecmp s text with
      | none => rfl
      | some yes =>
          cases yes with
          | true =>
              -- a name that is there is no beginning of an unfinished one
              obtain ⟨name', hname', hlt, hprefix⟩ := h
              have heq := hapart _ List.mem_cons_self _ hname'
                (((strncasecmp_true_iff htext).1 hcmp).trans hprefix)
              have hle := ((strncasecmp_true_iff htext).1 hcmp).length_le
              rw [← heq] at hlt
              simp only [List.length_map] at hle hlt
              omega
          | false =>
              refine ih (fun name' hname' => h0 _ (List.mem_cons_of_mem _ hname'))
                (fun a ha b hb => hapart a (List.mem_cons_of_mem _ ha) b (List.mem_cons_of_mem _ hb))
                ?_
              obtain ⟨name', hname', hlt, hprefix⟩ := h
              rcases List.mem_cons.1 hname' with rfl | hmem
              · rw [(strncasecmp_none_iff htext).2 ⟨hlt, hprefix⟩] at hcmp
                cases hcmp
              · exact ⟨name', hmem, hlt, hprefix⟩

theorem findHeader_ok {names : List (Bytes × Header)} (h0 : ∀ name ∈ names, 0 ∉ name.1)
    (h : ¬ ∃ name ∈ names, s.length < name.1.length ∧ s.map toLower <+: name.1.map toLower) :
    findHeader s names = .ok ((names.find? fun name => decide (NameAt s name.1)).map
      fun name => (name.2, name.1.length)) := by
  induction names with
  | nil => rfl
  | cons name names ih =>
      obtain ⟨text, header⟩ := name
      have htext := h0 _ List.mem_cons_self
      have hrest := ih (fun name' hname' => h0 _ (List.mem_cons_of_mem _ hname'))
        fun ⟨name', hname', hshort⟩ => h ⟨name', List.mem_cons_of_mem _ hname', hshort⟩
      rw [findHeader]
      cases hcmp : strncasecmp s text with
      | none => exact absurd ⟨_, List.mem_cons_self, (strncasecmp_none_iff htext).1 hcmp⟩ h
      | some yes =>
          cases yes with
          | true =>
              have hat : NameAt s text := (strncasecmp_true_iff htext).1 hcmp
              rw [List.find?_cons_of_pos (by simpa using hat)]
              rfl
          | false =>
              have hnot : ¬ NameAt s text := by
                intro hat
                rw [(strncasecmp_true_iff htext).2 hat] at hcmp
                cases hcmp
              rw [List.find?_cons_of_neg (by simpa using hnot)]
              exact hrest

theorem zero_notMem_double (e : Eol) : 0 ∉ e.double := by cases e <;> decide

theorem zero_notMem_single (e : Eol) : 0 ∉ e.single := by cases e <;> decide

theorem blankLine_fault (h : (s.length < e.double.length ∧ s <+: e.double) ∨
    (s.length < Eol.lf.double.length ∧ s <+: Eol.lf.double)) :
    blankLine s e = .error .fault := by
  rw [blankLine]
  cases hcmp : strncmp s e.double with
  | none => rfl
  | some yes =>
      rcases h with hshort | hshort
      · rw [(strncmp_none_iff (zero_notMem_double e)).2 hshort] at hcmp
        cases hcmp
      · cases yes with
        | true =>
            have hle := ((strncmp_true_iff (zero_notMem_double e)).1 hcmp).length_le
            have h2 : Eol.lf.double.length ≤ e.double.length := by cases e <;> decide
            omega
        | false =>
            rw [(strncmp_none_iff (zero_notMem_double .lf)).2 hshort]
            rfl

theorem blankLine_ok (h : ¬ ((t.drop i).length < e.double.length ∧ t.drop i <+: e.double))
    (h' : ¬ ((t.drop i).length < Eol.lf.double.length ∧ t.drop i <+: Eol.lf.double)) :
    blankLine (t.drop i) e =
      .ok (if BlankLine t e i then some (blankLength t e i) else none) := by
  rw [blankLine, blankLength]
  cases hcmp : strncmp (t.drop i) e.double with
  | none => exact absurd ((strncmp_none_iff (zero_notMem_double e)).1 hcmp) h
  | some yes =>
      cases yes with
      | true =>
          have hat := (strncmp_true_iff (zero_notMem_double e)).1 hcmp
          rw [if_pos hat, if_pos (.inl hat)]
          rfl
      | false =>
          have hnot : ¬ e.double <+: t.drop i := by
            intro hat
            rw [(strncmp_true_iff (zero_notMem_double e)).2 hat] at hcmp
            cases hcmp
          cases hcmp' : strncmp (t.drop i) Eol.lf.double with
          | none => exact absurd ((strncmp_none_iff (zero_notMem_double .lf)).1 hcmp') h'
          | some yes' =>
              cases yes' with
              | true =>
                  have hat := (strncmp_true_iff (zero_notMem_double .lf)).1 hcmp'
                  rw [if_pos (.inr hat), if_neg hnot]
                  rfl
              | false =>
                  have hnot' : ¬ Eol.lf.double <+: t.drop i := by
                    intro hat
                    rw [(strncmp_true_iff (zero_notMem_double .lf)).2 hat] at hcmp'
                    cases hcmp'
                  rw [if_neg fun hblank => hblank.elim hnot hnot']
                  rfl

theorem skipSpaces_fault (h : ∀ c ∈ s, c = 0x20) : skipSpaces s = .error .fault := by
  induction s with
  | nil => rfl
  | cons c s ih =>
      rw [skipSpaces, if_pos (h c List.mem_cons_self),
        ih fun c' hc' => h c' (List.mem_cons_of_mem _ hc')]
      rfl

theorem skipSpaces_ok (h : ¬ ∀ c ∈ s, c = 0x20) :
    skipSpaces s = .ok (leadingSpaces s) ∧ ∃ c, s[leadingSpaces s]? = some c := by
  induction s with
  | nil => exact absurd (fun c hc => by cases hc) h
  | cons c s ih =>
      by_cases hc : c = 0x20
      · subst hc
        have hrest : ¬ ∀ c ∈ s, c = 0x20 := by
          intro hall
          refine h fun c' hc' => ?_
          rcases List.mem_cons.1 hc' with rfl | hmem
          · rfl
          · exact hall c' hmem
        obtain ⟨hskip, c', hc'⟩ := ih hrest
        have hlead : leadingSpaces (0x20 :: s) = leadingSpaces s + 1 := by
          simp [leadingSpaces]
        rw [hlead, skipSpaces, if_pos rfl, hskip]
        exact ⟨rfl, c', by simpa using hc'⟩
      · have hlead : leadingSpaces (c :: s) = 0 := by simp [leadingSpaces, hc]
        rw [hlead, skipSpaces, if_neg hc]
        exact ⟨rfl, c, rfl⟩

theorem single_length_le (e : Eol) : e.single.length ≤ 2 := by cases e <;> decide

theorem single_length_pos (e : Eol) : 1 ≤ e.single.length := by cases e <;> decide

theorem valueEnd_eq {fuel : Nat} (hn : n ≤ t.length) (hpos : 0 < fuel) (hfuel : n < j + fuel) :
    valueEnd t n e fuel j = .ok (lineEndFrom t n e j) := by
  induction fuel generalizing j with
  | zero => cases hpos
  | succ fuel ih =>
      have h1 := single_length_pos e
      rw [valueEnd]
      by_cases hj : j < n + 1 - e.single.length
      · have hroom : e.single.length ≤ (t.drop j).length := by
          rw [List.length_drop]
          omega
        have hroom' : Eol.lf.single.length ≤ (t.drop j).length := Nat.le_trans h1 hroom
        rw [if_pos hj]
        by_cases hend : LineEnd t e j
        · rw [lineEndFrom, searchFrom_here hj hend]
          rcases strncmp_cases hroom with hyes | hno
          · rw [hyes]
            rfl
          · have hnot : ¬ e.single <+: t.drop j := by
              intro hat
              rw [(strncmp_true_iff (zero_notMem_single e)).2 hat] at hno
              cases hno
            rw [hno, (strncmp_true_iff (zero_notMem_single .lf)).2 (hend.resolve_left hnot)]
            rfl
        · have hskip : lineEndFrom t n e j = lineEndFrom t n e (j + 1) :=
            searchFrom_skip (Nat.le_succ j) fun k hjk hk => by
              obtain rfl : k = j := by omega
              exact hend
          have hno : strncmp (t.drop j) e.single = some false :=
            (strncmp_cases hroom).resolve_left fun hyes =>
              hend (.inl ((strncmp_true_iff (zero_notMem_single e)).1 hyes))
          have hno' : strncmp (t.drop j) Eol.lf.single = some false :=
            (strncmp_cases hroom').resolve_left fun hyes =>
              hend (.inr ((strncmp_true_iff (zero_notMem_single .lf)).1 hyes))
          rw [hno, hno', hskip]
          exact ih (by omega) (by omega)
      · have hnone : lineEndFrom t n e j = none :=
          searchFrom_eq_none.2 fun k hjk hk => absurd hk (by omega)
        rw [if_neg hj, hnone]
        rfl

end Steps

/-! ## Line ends and fields -/

section Fields

variable {t : Bytes} {e : Eol} {n i j m : Nat} {f : Field}

/-- A line end begins with CR or LF. -/
theorem LineEnd.char (h : LineEnd t e i) : t[i]? = some 0x0D ∨ t[i]? = some 0x0A := by
  have hhead : ∀ {c : UInt8} {s : Bytes}, c :: s <+: t.drop i → t[i]? = some c := by
    intro c s hprefix
    obtain ⟨rest, hrest⟩ := hprefix
    rw [← Nat.add_zero i, ← List.getElem?_drop, ← hrest]
    rfl
  rcases h with h | h
  · cases e with
    | crlf => exact .inl (hhead h)
    | lf => exact .inr (hhead h)
  · exact .inr (hhead h)

theorem BlankLine.lineEnd (h : BlankLine t e i) : LineEnd t e i := by
  have hsingle : ∀ e' : Eol, e'.single <+: e'.double := fun e' => List.prefix_append _ _
  rcases h with h | h
  · exact .inl ((hsingle e).trans h)
  · exact .inr ((hsingle .lf).trans h)

/-- The characters of header names are no line ends. -/
theorem names_char : ∀ name ∈ headerNames, ∀ c ∈ name.1.map toLower, c ≠ 0x0D ∧ c ≠ 0x0A := by
  have hall : headerNames.all (fun name =>
      (name.1.map toLower).all fun c => c != 0x0D && c != 0x0A) = true := by decide
  intro name hname c hc
  have hchar := List.all_eq_true.1 (List.all_eq_true.1 hall name hname) c hc
  rw [Bool.and_eq_true, bne_iff_ne, bne_iff_ne] at hchar
  exact hchar

theorem toLower_cr : toLower 0x0D = 0x0D := by decide

theorem toLower_lf : toLower 0x0A = 0x0A := by decide

/-- A text in any letter case that is at `i` has no line end in it. -/
theorem not_lineEnd_of_text {text : Bytes} (htext : ∀ c ∈ text.map toLower, c ≠ 0x0D ∧ c ≠ 0x0A)
    (hat : ∀ k, i ≤ k → k < j → ∃ c, t[k]? = some c ∧ toLower c ∈ text.map toLower)
    (him : i ≤ m) (hmj : m < j) : ¬ LineEnd t e m := by
  intro hend
  obtain ⟨c, hc, hmem⟩ := hat m him hmj
  rcases hend.char with hcr | hlf
  · rw [hc, Option.some.injEq] at hcr
    rw [hcr, toLower_cr] at hmem
    exact (htext _ hmem).1 rfl
  · rw [hc, Option.some.injEq] at hlf
    rw [hlf, toLower_lf] at hmem
    exact (htext _ hmem).2 rfl

/-- The characters of a text whose beginning is at the pointer. -/
theorem chars_of_prefix {text s : Bytes} (h : s.map toLower <+: text.map toLower) {k : Nat}
    {c : UInt8} (hc : s[k]? = some c) : toLower c ∈ text.map toLower := by
  refine h.subset ?_
  rw [List.mem_map]
  exact ⟨c, List.mem_of_getElem? hc, rfl⟩

theorem NameAt.char {name : Bytes} (h : NameAt (t.drop i) name) {k : Nat} (hik : i ≤ k)
    (hk : k < i + name.length) : ∃ c, t[k]? = some c ∧ toLower c ∈ name.map toLower := by
  have hle := h.length_le
  simp only [List.length_map, List.length_drop] at hle
  obtain ⟨d, rfl⟩ := Nat.exists_eq_add_of_le hik
  obtain ⟨c, hc⟩ : ∃ c, t[i + d]? = some c :=
    ⟨_, List.getElem?_eq_getElem (show i + d < t.length by omega)⟩
  refine ⟨c, hc, ?_⟩
  obtain ⟨rest, hrest⟩ := h
  have hmap : (name.map toLower)[d]? = some (toLower c) := by
    have hget : (name.map toLower ++ rest)[d]? = some (toLower c) := by
      rw [hrest, List.getElem?_map, List.getElem?_drop, hc]
      rfl
    rwa [List.getElem?_append_left (by simp; omega)] at hget
  exact List.mem_of_getElem? hmap

theorem exists_name_of_nameAt {s : Bytes} {h : Header} {nameLength : Nat}
    (hname : nameAt s = some (h, nameLength)) :
    ∃ name ∈ headerNames, NameAt s name.1 ∧ name.2 = h ∧ name.1.length = nameLength := by
  rw [nameAt, Option.map_eq_some_iff] at hname
  obtain ⟨name, hfind, heq⟩ := hname
  obtain ⟨rfl, rfl⟩ := Prod.mk.inj heq
  exact ⟨name, List.mem_of_find?_eq_some hfind, by simpa using List.find?_some hfind, rfl, rfl⟩

/-- The names that are at the pointer are one name. -/
theorem nameAt_of_mem {s : Bytes} {name : Bytes × Header} (hmem : name ∈ headerNames)
    (hat : NameAt s name.1) : nameAt s = some (name.2, name.1.length) := by
  cases hname : nameAt s with
  | none =>
      rw [nameAt, Option.map_eq_none_iff, List.find?_eq_none] at hname
      exact absurd hat (by simpa using hname name hmem)
  | some found =>
      obtain ⟨name', hmem', hat', hheader, hlength⟩ := exists_name_of_nameAt hname
      have heq : name' = name := by
        rcases List.prefix_or_prefix_of_prefix hat' hat with hprefix | hprefix
        · exact names_apart _ hmem' _ hmem hprefix
        · exact (names_apart _ hmem _ hmem' hprefix).symm
      rw [← heq, hheader, hlength]

/-- What a field is made of. -/
theorem exists_of_fieldAt (hf : fieldAt t n e i = some f) :
    ∃ name ∈ headerNames, NameAt (t.drop i) name.1 ∧ f.header = name.2 ∧
      f.startPos = i + name.1.length + leadingSpaces (t.drop (i + name.1.length)) ∧
      f.lineEnd = lineEndFrom t n e f.startPos := by
  rw [fieldAt, Option.map_eq_some_iff] at hf
  obtain ⟨⟨header, nameLength⟩, hname, rfl⟩ := hf
  obtain ⟨name, hmem, hat, hheader, rfl⟩ := exists_name_of_nameAt hname
  exact ⟨name, hmem, hat, hheader.symm, rfl, rfl⟩

theorem leadingSpaces_char {s : Bytes} {k : Nat} (hk : k < leadingSpaces s) :
    s[k]? = some 0x20 := by
  induction s generalizing k with
  | nil => cases hk
  | cons c s ih =>
      by_cases hc : c = 0x20
      · subst hc
        cases k with
        | zero => rfl
        | succ k =>
            have hk' : k < leadingSpaces s := by
              simpa [leadingSpaces] using hk
            rw [List.getElem?_cons_succ]
            exact ih hk'
      · simp [leadingSpaces, hc] at hk

theorem lt_startPos (hf : fieldAt t n e i = some f) : i < f.startPos := by
  obtain ⟨name, hmem, -, -, hstart, -⟩ := exists_of_fieldAt hf
  have hpos : ∀ name ∈ headerNames, 0 < name.1.length := by decide
  have h := hpos name hmem
  omega

/-- No line end is in the name of a field and the spaces behind it. -/
theorem not_lineEnd_before_value (hf : fieldAt t n e i = some f) (him : i ≤ m)
    (hm : m < f.startPos) : ¬ LineEnd t e m := by
  obtain ⟨name, hmem, hat, -, hstart, -⟩ := exists_of_fieldAt hf
  rcases Nat.lt_or_ge m (i + name.1.length) with hlt | hge
  · exact not_lineEnd_of_text (names_char name hmem) (fun k hik hk => hat.char hik hk) him hlt
  · intro hend
    obtain ⟨d, rfl⟩ := Nat.exists_eq_add_of_le hge
    have hspace := leadingSpaces_char (s := t.drop (i + name.1.length)) (k := d) (by omega)
    rw [List.getElem?_drop] at hspace
    rcases hend.char with hcr | hlf
    · rw [hspace] at hcr
      exact absurd hcr (by decide)
    · rw [hspace] at hlf
      exact absurd hlf (by decide)

/-- A field with a line end goes up to the first line end behind its beginning. -/
theorem lineEnd_of_field (hf : fieldAt t n e i = some f) (hj : f.lineEnd = some j) :
    f.startPos ≤ j ∧ j + e.single.length ≤ n ∧ LineEnd t e j ∧
      ∀ m, i ≤ m → m < j → ¬ LineEnd t e m := by
  obtain ⟨-, -, -, -, -, hend⟩ := exists_of_fieldAt hf
  rw [hend] at hj
  obtain ⟨hstart, hlt, hline, hfirst⟩ := searchFrom_eq_some.1 hj
  refine ⟨hstart, by omega, hline, fun m him hm => ?_⟩
  rcases Nat.lt_or_ge m f.startPos with hlt' | hge
  · exact not_lineEnd_before_value hf him hlt'
  · exact hfirst m hge hm

/-- What a line end follows does not end the buffer. -/
theorem not_unfinished_of_lineEnd (hmj : m < j) (hj : LineEnd t e j) (hm : ¬ LineEnd t e m) :
    ¬ Unfinished e (t.drop m) := by
  obtain ⟨d, rfl⟩ := Nat.exists_eq_add_of_lt hmj
  have hlen : m + d + 1 < t.length := by
    rcases hj.char with h | h <;> exact (List.getElem?_eq_some_iff.1 h).1
  have hchar : (t.drop m)[d + 1]? = some 0x0D ∨ (t.drop m)[d + 1]? = some 0x0A := by
    rw [List.getElem?_drop]
    exact hj.char
  rintro (⟨name, hmem, -, hprefix⟩ | ⟨name, hmem, hat, hspaces⟩ | ⟨-, hprefix⟩ | ⟨hshort, hprefix⟩)
  · rcases hchar with h | h
    · have hc := chars_of_prefix hprefix h
      rw [toLower_cr] at hc
      exact (names_char name hmem _ hc).1 rfl
    · have hc := chars_of_prefix hprefix h
      rw [toLower_lf] at hc
      exact (names_char name hmem _ hc).2 rfl
  · rcases Nat.lt_or_ge (d + 1) name.1.length with hlt | hge
    · exact not_lineEnd_of_text (names_char name hmem) (fun k hik hk => hat.char hik hk)
        (show m ≤ m + d + 1 by omega) (by omega) hj
    · obtain ⟨k, hk⟩ := Nat.exists_eq_add_of_le hge
      have hspace : ∀ {c : UInt8}, (t.drop m)[d + 1]? = some c → c = 0x20 := by
        intro c hc
        refine hspaces c (List.mem_of_getElem? (i := k) ?_)
        rw [List.getElem?_drop, ← hk]
        exact hc
      rcases hchar with h | h
      · exact absurd (hspace h) (by decide)
      · exact absurd (hspace h) (by decide)
  · -- with two characters of a blank line there is a line end
    refine hm (.inl ?_)
    refine List.prefix_of_prefix_length_le (List.prefix_append e.single e.single) hprefix ?_
    have h2 := single_length_le e
    rw [List.length_drop]
    omega
  · simp only [List.length_drop] at hshort
    have h2 : Eol.lf.double.length = 2 := rfl
    omega

end Fields

/-! ## The scan -/

section Scan

variable {base n fuel : Nat} {t : Bytes} {e : Eol} {s : Scan} {f : Field}

/-- No blank line is where a field begins. -/
theorem blankLine_of_field (hf : fieldAt t n e s.i = some f) :
    blankLine (t.drop s.i) e = .ok none := by
  obtain ⟨name, hmem, hat, -⟩ := exists_of_fieldAt hf
  have hno := not_lineEnd_before_value hf (Nat.le_refl _) (lt_startPos hf)
  have hpos : ∀ name ∈ headerNames, 0 < name.1.length := by decide
  obtain ⟨c, hc, hc'⟩ := hat.char (Nat.le_refl _) (Nat.lt_add_of_pos_right (hpos name hmem))
  have hchar := names_char name hmem _ hc'
  have hhead : (t.drop s.i)[0]? = some c := by
    rw [List.getElem?_drop]
    exact hc
  -- the beginning of a name is no beginning of a blank line
  have hprefix : ∀ e' : Eol, (t.drop s.i).length < e'.double.length →
      ¬ t.drop s.i <+: e'.double := by
    rintro e' - ⟨rest, hrest⟩
    have hget : e'.double[0]? = some c := by
      rw [← hrest, List.getElem?_append_left (by
        rw [List.getElem?_eq_some_iff] at hhead
        exact hhead.1)]
      exact hhead
    cases e' with
    | crlf =>
        obtain rfl : (0x0D : UInt8) = c := Option.some.inj hget
        exact hchar.1 toLower_cr
    | lf =>
        obtain rfl : (0x0A : UInt8) = c := Option.some.inj hget
        exact hchar.2 toLower_lf
  rw [blankLine_ok (fun h => hprefix e h.1 h.2) (fun h => hprefix .lf h.1 h.2),
    if_neg fun hblank => hno hblank.lineEnd]

theorem scanLoop_end (hi : n ≤ s.i) : scanLoop base t n e (fuel + 1) s = .ok s.aBodyPart := by
  rw [scanLoop, if_neg (Nat.not_lt.2 hi)]
  rfl

theorem findHeader_of_finished (hunfinished : ¬ Unfinished e (t.drop s.i)) :
    findHeader (t.drop s.i) headerNames = .ok (nameAt (t.drop s.i)) :=
  findHeader_ok zero_notMem_names fun h => hunfinished (.inl h)

/-- A buffer that ends in the middle of the headers is read over its end. -/
theorem scanLoop_unfinished (hi : s.i < n) (hunfinished : Unfinished e (t.drop s.i)) :
    scanLoop base t n e (fuel + 1) s = .error .fault := by
  rw [scanLoop, if_pos hi]
  by_cases hname : ∃ name ∈ headerNames, (t.drop s.i).length < name.1.length ∧
      (t.drop s.i).map toLower <+: name.1.map toLower
  · rw [bind_of_error (findHeader_fault zero_notMem_names names_apart hname)]
  · have hfind : findHeader (t.drop s.i) headerNames = .ok (nameAt (t.drop s.i)) :=
      findHeader_ok zero_notMem_names hname
    rcases hunfinished with h | ⟨name, hmem, hat, hspaces⟩ | hblank
    · exact absurd h hname
    · rw [List.drop_drop] at hspaces
      rw [bind_of_ok hfind, nameAt_of_mem hmem hat]
      simp only [scanHeader]
      rw [bind_of_error (skipSpaces_fault hspaces)]
      rfl
    · rw [bind_of_ok hfind]
      cases hn : nameAt (t.drop s.i) with
      | none =>
          simp only
          rw [pure_bind, bind_of_error (blankLine_fault hblank)]
      | some found =>
          obtain ⟨f, hf⟩ : ∃ f, fieldAt t n e s.i = some f := by
            rw [fieldAt, hn]
            exact ⟨_, rfl⟩
          have hok := blankLine_of_field hf
          rw [blankLine_fault hblank] at hok
          cases hok

/-- Where no field begins and no blank line is, the scan goes on. -/
theorem scanLoop_plain (hi : s.i < n) (hunfinished : ¬ Unfinished e (t.drop s.i))
    (hf : fieldAt t n e s.i = none) (hblank : ¬ BlankLine t e s.i) :
    scanLoop base t n e (fuel + 1) s = scanLoop base t n e fuel { s with i := s.i + 1 } := by
  rw [fieldAt, Option.map_eq_none_iff] at hf
  rw [scanLoop, if_pos hi, bind_of_ok (findHeader_of_finished hunfinished), hf]
  simp only
  rw [pure_bind, bind_of_ok (blankLine_ok
    (fun h => hunfinished (.inr (.inr (.inl h)))) (fun h => hunfinished (.inr (.inr (.inr h))))),
    if_neg hblank]

/-- At a blank line the scan ends with what is behind and before it. -/
theorem scanLoop_blank (hi : s.i < n) (hunfinished : ¬ Unfinished e (t.drop s.i))
    (hf : fieldAt t n e s.i = none) (hblank : BlankLine t e s.i) :
    scanLoop base t n e (fuel + 1) s =
      setBodyAndHeaders base n e s.i (blankLength t e s.i) s := by
  rw [fieldAt, Option.map_eq_none_iff] at hf
  rw [scanLoop, if_pos hi, bind_of_ok (findHeader_of_finished hunfinished), hf]
  simp only
  rw [pure_bind, bind_of_ok (blankLine_ok
    (fun h => hunfinished (.inr (.inr (.inl h)))) (fun h => hunfinished (.inr (.inr (.inr h))))),
    if_pos hblank]

theorem makePtr_of_nonneg {pos : Nat} {length : Int} (h : 0 ≤ length) :
    makePtr pos length = .ok (.view pos length.toNat) :=
  if_neg (Int.not_lt.2 h)

theorem makePtr_of_neg {pos : Nat} {length : Int} (h : length < 0) :
    makePtr pos length = .error .fault :=
  if_pos h

theorem readValue (base : Nat) (value : Ptr8) {c : UInt8} {j : Nat} (hfirst : t[f.startPos]? = some c)
    (hline : f.lineEnd = some j) (hstart : f.startPos ≤ j) (hne : c = 0x3C → j ≠ f.startPos) :
    (if f.header = .contentID then
      if c = 0x3C then makePtr (base + f.startPos + 1) ((j : Int) - f.startPos - 2) else .ok value
    else makePtr (base + f.startPos) ((j : Int) - f.startPos)) =
      if f.Alone t then .error .fault else .ok (fieldValue base t value f) := by
  have halone : f.Alone t ↔ f.header = .contentID ∧ c = 0x3C ∧ j = f.startPos + 1 := by
    rw [Field.Alone, hfirst, hline, Option.some.injEq, Option.some.injEq]
  rw [fieldValue, hline]
  simp only [hfirst, Option.some.injEq]
  by_cases hid : f.header = .contentID
  · by_cases hangle : c = 0x3C
    · have hlt := hne hangle
      rw [if_pos hid, if_pos hangle]
      by_cases hj : j = f.startPos + 1
      · rw [if_pos (halone.2 ⟨hid, hangle, hj⟩), makePtr_of_neg (by omega)]
      · rw [if_neg fun h => hj (halone.1 h).2.2, makePtr_of_nonneg (by omega), if_pos hid,
          if_pos hangle]
        congr 2
        omega
    · rw [if_pos hid, if_neg hangle, if_neg fun h => hangle (halone.1 h).2.1, if_pos hid,
        if_neg hangle]
  · rw [if_neg hid, if_neg fun h => hid (halone.1 h).1, makePtr_of_nonneg (by omega), if_neg hid]
    congr 2
    omega

theorem scanHeader_of_field (base : Nat) (hn : n ≤ t.length) (hunfinished : ¬ Unfinished e (t.drop s.i))
    {name : Bytes × Header} (hmem : name ∈ headerNames) (hat : NameAt (t.drop s.i) name.1)
    (hf : fieldAt t n e s.i = some f)
    (hstart : f.startPos = s.i + name.1.length + leadingSpaces (t.drop (s.i + name.1.length)))
    (hend : f.lineEnd = lineEndFrom t n e f.startPos) :
    scanHeader base t n e s f.header name.1.length =
      if f.Alone t then .error .fault else
        let value := fieldValue base t s.contentHeaderValuePtr f
        .ok ⟨f.lineEnd.elim s.i (· - 1), value, setHeader s.aBodyPart f.header value⟩ := by
  have hspaces : ¬ ∀ c ∈ t.drop (s.i + name.1.length), c = 0x20 := by
    intro hall
    refine hunfinished (.inr (.inl ⟨name, hmem, hat, ?_⟩))
    rwa [List.drop_drop]
  obtain ⟨hskip, c, hc⟩ := skipSpaces_ok hspaces
  have hfirst : t[f.startPos]? = some c := by
    rw [hstart, ← hc, List.getElem?_drop]
  have hvalue : valueEnd t n e (n + 1) f.startPos = .ok f.lineEnd := by
    rw [hend]
    exact valueEnd_eq hn (Nat.succ_pos n) (by omega)
  rw [scanHeader, bind_of_ok hskip]
  simp only
  rw [← hstart, bind_of_ok (readM_some hfirst), bind_of_ok hvalue]
  cases hline : f.lineEnd with
  | none =>
      have hvalue' : fieldValue base t s.contentHeaderValuePtr f = s.contentHeaderValuePtr := by
        rw [fieldValue, hline]
      rw [if_neg fun h : f.Alone t => absurd (hline.symm.trans h.2.2) (by simp), hvalue']
      rfl
  | some j =>
      obtain ⟨hstartj, -, hlineEnd, -⟩ := lineEnd_of_field hf hline
      have hread := readValue base s.contentHeaderValuePtr hfirst hline hstartj
        fun hangle hj => by
          -- the angle bracket is no line end
          subst hj
          rcases hlineEnd.char with h | h
          · rw [hfirst, hangle] at h
            exact absurd h (by decide)
          · rw [hfirst, hangle] at h
            exact absurd h (by decide)
      simp only
      by_cases hid : f.header = .contentID
      · rw [if_pos hid] at hread ⊢
        by_cases hangle : c = 0x3C
        · rw [if_pos hangle] at hread ⊢
          rw [hread]
          split <;> rfl
        · rw [if_neg hangle] at hread ⊢
          by_cases halone : f.Alone t
          · rw [if_pos halone] at hread
            cases hread
          · rw [if_neg halone, Except.ok.injEq] at hread
            rw [if_neg halone, ← hread]
            rfl
      · rw [if_neg hid] at hread ⊢
        rw [hread]
        split <;> rfl

/-- A field is taken, unless it is a content id that is an angle bracket alone. -/
theorem scanLoop_field (hn : n ≤ t.length) (hi : s.i < n)
    (hunfinished : ¬ Unfinished e (t.drop s.i)) (hf : fieldAt t n e s.i = some f) :
    scanLoop base t n e (fuel + 1) s =
      if f.Alone t then .error .fault else
        let value := fieldValue base t s.contentHeaderValuePtr f
        scanLoop base t n e fuel
          ⟨f.lineEnd.getD (s.i + 1), value, setHeader s.aBodyPart f.header value⟩ := by
  have hblank := blankLine_of_field hf
  have hlt := lt_startPos hf
  obtain ⟨name, hmem, hat, hheader, hstart, hend⟩ := exists_of_fieldAt hf
  have hscan := scanHeader_of_field base hn hunfinished hmem hat hf hstart hend
  rw [scanLoop, if_pos hi, bind_of_ok (findHeader_of_finished hunfinished),
    nameAt_of_mem hmem hat, ← hheader]
  simp only
  rw [hscan]
  by_cases halone : f.Alone t
  · rw [if_pos halone, if_pos halone]
    rfl
  · rw [if_neg halone, if_neg halone, bind_of_ok rfl, bind_of_ok hblank]
    simp only
    cases hline : f.lineEnd with
    | none => rfl
    | some j =>
        obtain ⟨hstartj, -⟩ := lineEnd_of_field hf hline
        have hback : j - 1 + 1 = j := by omega
        rw [Option.elim_some, Option.getD_some, hback]

theorem RoomFrom.skip_iff {i j : Nat} (hij : i ≤ j)
    (hno : ∀ m, i ≤ m → m < j → ¬ BlankLine t e m ∧ ¬ Unfinished e (t.drop m)) :
    RoomFrom t n e i ↔ RoomFrom t n e j := by
  have hblank : blankFrom t n e i = blankFrom t n e j :=
    searchFrom_skip hij fun m him hm => (hno m him hm).1
  constructor
  · intro h
    refine ⟨fun m hjm hm hfirst => h.ends m (by omega) hm fun k hik hk => ?_, hblank ▸ h.blank⟩
    rcases Nat.lt_or_ge k j with hlt | hge
    · exact (hno k hik hlt).1
    · exact hfirst k hge hk
  · intro h
    refine ⟨fun m him hm hfirst => ?_, hblank.symm ▸ h.blank⟩
    rcases Nat.lt_or_ge m j with hlt | hge
    · exact (hno m him hlt).2
    · exact h.ends m hge hm fun k hjk hk => hfirst k (by omega) hk

theorem readFields_field (hi : s.i < n) (hf : fieldAt t n e s.i = some f) :
    readFields t n e (fuel + 1) s.i =
      f :: readFields t n e fuel (f.lineEnd.getD (s.i + 1)) := by
  rw [readFields, if_pos hi, hf]

theorem readFields_none (hi : s.i < n) (hf : fieldAt t n e s.i = none) :
    readFields t n e (fuel + 1) s.i =
      if BlankLine t e s.i then [] else readFields t n e fuel (s.i + 1) := by
  rw [readFields, if_pos hi, hf]

theorem setBodyAndHeaders_ok_iff {k : Nat} {aBodyPart : CBodyPart} :
    setBodyAndHeaders base n e s.i k s = .ok aBodyPart ↔
      (s.i + k ≤ n ∧ (s.i = 0 ∨ e.single.length ≤ s.i)) ∧
        aBodyPart =
          let body := { s.aBodyPart with iBody := .view (base + s.i + k) (n - (s.i + k)) }
          if s.i = 0 then body
          else { body with iHeaders := .view (base + e.single.length) (s.i - e.single.length) } := by
  rw [setBodyAndHeaders]
  by_cases hroom : s.i + k ≤ n
  · have hlen : ((n : Int) - (s.i + k : Nat)).toNat = n - (s.i + k) := by omega
    simp only
    rw [makePtr_of_nonneg (by omega), bind_of_ok rfl, hlen]
    by_cases hzero : s.i = 0
    · rw [if_neg (by simp [hzero]), if_pos hzero, pure_eq_ok]
      exact ⟨fun h => ⟨⟨hroom, .inl hzero⟩, h.symm⟩, fun h => h.2.symm⟩
    · rw [if_pos hzero, if_neg hzero]
      by_cases hstart : e.single.length ≤ s.i
      · rw [makePtr_of_nonneg (by omega), bind_of_ok rfl, pure_eq_ok]
        have hlen' : ((n : Int) - (n - (s.i + k : Nat)) - e.single.length - k).toNat =
            s.i - e.single.length := by omega
        rw [hlen']
        exact ⟨fun h => ⟨⟨hroom, .inr hstart⟩, h.symm⟩, fun h => h.2.symm⟩
      · rw [makePtr_of_neg (by omega)]
        constructor
        · intro h
          cases h
        · rintro ⟨⟨-, h | h⟩, -⟩
          · exact absurd h hzero
          · exact absurd h hstart
  · simp only
    rw [makePtr_of_neg (by omega)]
    constructor
    · intro h
      cases h
    · rintro ⟨⟨h, -⟩, -⟩
      exact absurd h hroom

/-- When the scan of a part does not fault, and what it finds. -/
theorem scanLoop_ok_iff (hn : n ≤ t.length) (hi : s.i ≤ n) (hfuel : n < s.i + fuel)
    {aBodyPart : CBodyPart} :
    scanLoop base t n e fuel s = .ok aBodyPart ↔
      (RoomFrom t n e s.i ∧ ∀ f ∈ readFields t n e fuel s.i, ¬ f.Alone t) ∧
        aBodyPart = setBody base t n e (setFields base t s.contentHeaderValuePtr s.aBodyPart
          (readFields t n e fuel s.i)) (blankFrom t n e s.i) := by
  induction fuel generalizing s with
  | zero => omega
  | succ fuel ih =>
      rcases Nat.lt_or_ge s.i n with hlt | hge
      · by_cases hunfinished : Unfinished e (t.drop s.i)
        · rw [scanLoop_unfinished hlt hunfinished]
          constructor
          · intro h
            cases h
          · rintro ⟨⟨hroom, -⟩, -⟩
            exact absurd hunfinished
              (hroom.ends s.i (Nat.le_refl _) hlt fun k hik hk => by omega)
        cases hf : fieldAt t n e s.i with
        | some f =>
            have hnext : s.i < f.lineEnd.getD (s.i + 1) ∧ f.lineEnd.getD (s.i + 1) ≤ n ∧
                ∀ m, s.i ≤ m → m < f.lineEnd.getD (s.i + 1) →
                  ¬ BlankLine t e m ∧ ¬ Unfinished e (t.drop m) := by
              cases hline : f.lineEnd with
              | none =>
                  rw [Option.getD_none]
                  refine ⟨by omega, by omega, fun m him hm => ?_⟩
                  obtain rfl : m = s.i := by omega
                  exact ⟨fun hblank => not_lineEnd_before_value hf him (lt_startPos hf)
                    hblank.lineEnd, hunfinished⟩
              | some j =>
                  obtain ⟨hstart, hroom, hend, hno⟩ := lineEnd_of_field hf hline
                  have hpos := lt_startPos hf
                  rw [Option.getD_some]
                  exact ⟨by omega, by omega, fun m him hm =>
                    ⟨fun hblank => hno m him hm hblank.lineEnd,
                      not_unfinished_of_lineEnd hm hend (hno m him hm)⟩⟩
            obtain ⟨hbehind, hle, hno⟩ := hnext
            rw [scanLoop_field hn hlt hunfinished hf, readFields_field hlt hf,
              RoomFrom.skip_iff (Nat.le_of_lt hbehind) hno, List.forall_mem_cons, setFields,
              show blankFrom t n e s.i = blankFrom t n e (f.lineEnd.getD (s.i + 1)) from
                searchFrom_skip (Nat.le_of_lt hbehind) fun m him hm => (hno m him hm).1]
            by_cases halone : f.Alone t
            · rw [if_pos halone]
              constructor
              · intro h
                cases h
              · rintro ⟨⟨-, h, -⟩, -⟩
                exact absurd halone h
            · rw [if_neg halone]
              simp only
              rw [ih (by simpa using hle) (by simp only; omega)]
              simp only [halone, not_false_eq_true, true_and]
        | none =>
            rw [readFields_none hlt hf]
            by_cases hblank : BlankLine t e s.i
            · have hhere : blankFrom t n e s.i = some s.i := searchFrom_here hlt hblank
              have hroom : RoomFrom t n e s.i ↔
                  s.i + blankLength t e s.i ≤ n ∧ (s.i = 0 ∨ e.single.length ≤ s.i) := by
                constructor
                · intro h
                  exact h.blank s.i hhere
                · intro h
                  refine ⟨fun j hij hj hfirst => ?_, fun j hj => ?_⟩
                  · rcases Nat.eq_or_lt_of_le hij with rfl | hlt'
                    · exact hunfinished
                    · exact absurd hblank (hfirst s.i (Nat.le_refl _) hlt')
                  · rw [hhere, Option.some.injEq] at hj
                    subst hj
                    exact h
              rw [scanLoop_blank hlt hunfinished hf hblank, setBodyAndHeaders_ok_iff, if_pos hblank,
                hhere, hroom]
              simp [setFields, setBody]
            · have hno : ∀ m, s.i ≤ m → m < s.i + 1 →
                  ¬ BlankLine t e m ∧ ¬ Unfinished e (t.drop m) := by
                intro m him hm
                obtain rfl : m = s.i := by omega
                exact ⟨hblank, hunfinished⟩
              rw [scanLoop_plain hlt hunfinished hf hblank, if_neg hblank,
                RoomFrom.skip_iff (Nat.le_succ _) hno,
                show blankFrom t n e s.i = blankFrom t n e (s.i + 1) from
                  searchFrom_skip (Nat.le_succ _) fun m him hm => (hno m him hm).1]
              exact ih (by simp only; omega) (by simp only; omega)
      · have hnone : blankFrom t n e s.i = none :=
          searchFrom_eq_none.2 fun k hik hk => absurd hk (by omega)
        have hfields : readFields t n e (fuel + 1) s.i = [] := by
          rw [readFields, if_neg (Nat.not_lt.2 hge)]
        rw [scanLoop_end hge, hfields, hnone, Except.ok.injEq, setFields, setBody]
        constructor
        · rintro rfl
          refine ⟨⟨⟨fun j hij hj => by omega, fun j hj => ?_⟩, by simp⟩, rfl⟩
          rw [hnone] at hj
          cases hj
        · rintro ⟨-, rfl⟩
          rfl

/-- A scan stops with nothing but a fault. -/
theorem scanLoop_error {stop : Stop} (hn : n ≤ t.length)
    (h : scanLoop base t n e fuel s = .error stop) : stop = .fault := by
  induction fuel generalizing s with
  | zero =>
      cases h
      rfl
  | succ fuel ih =>
      rcases Nat.lt_or_ge s.i n with hlt | hge
      · by_cases hunfinished : Unfinished e (t.drop s.i)
        · rw [scanLoop_unfinished hlt hunfinished] at h
          cases h
          rfl
        cases hf : fieldAt t n e s.i with
        | some f =>
            rw [scanLoop_field hn hlt hunfinished hf] at h
            split at h
            · cases h
              rfl
            · exact ih h
        | none =>
            by_cases hblank : BlankLine t e s.i
            · rw [scanLoop_blank hlt hunfinished hf hblank, setBodyAndHeaders] at h
              have hptr : ∀ {pos length stop}, makePtr pos length = .error stop → stop = .fault := by
                intro pos length stop h
                rw [makePtr] at h
                split at h <;> cases h
                rfl
              rcases bind_eq_error.1 h with h | ⟨body, -, h⟩
              · exact hptr h
              · split at h
                · rcases bind_eq_error.1 h with h | ⟨headers, -, h⟩
                  · exact hptr h
                  · cases h
                · cases h
            · rw [scanLoop_plain hlt hunfinished hf hblank] at h
              exact ih h
      · rw [scanLoop_end hge] at h
        cases h

end Scan

end SymbianWeb.Multipart
