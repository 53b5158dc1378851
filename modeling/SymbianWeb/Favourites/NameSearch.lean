import SymbianWeb.Favourites.NameChecks

/-!
# Names that are made

A query by a name finds the names that are equal to it up to case. A generated name is not the name
of any other item that the search for its number has looked at, as far as setting it in the item
does not change it.
-/

set_option autoImplicit false

namespace SymbianWeb.Favourites.Store

/-- A name that an item may have: neither empty nor too long, and with no blank at an end. -/
structure GoodName (rules : CharRules) (name : Text) : Prop where
  ne_nil : name ≠ []
  length_le : name.length ≤ kFavouritesMaxName
  head : ∀ c, name.head? = some c → rules.isSpace c = false
  last : ∀ c, name.getLast? = some c → rules.isSpace c = false

/-! ## Setting a name -/

section

variable (rules : CharRules) {t name : Text}

/-- A text that is not cut. -/
theorem of_uncut {c : Prop} [Decidable c] {cut whole : Text}
    (h : (if c then (cut, true) else (whole, false)) = (name, false)) : ¬ c ∧ whole = name := by
  split at h
  · cases h
  · rename_i hc
    cases h
    exact ⟨hc, rfl⟩

theorem makeName_of_setName (h : setName rules t = some name) :
    makeName rules t = (name, false) := by
  rw [setName] at h
  split at h
  · cases h
  · rename_i made heq
    cases h
    exact heq

theorem trim_eq_self (hhead : ∀ c, t.head? = some c → rules.isSpace c = false)
    (hlast : ∀ c, t.getLast? = some c → rules.isSpace c = false) : trim rules t = t := by
  have hleft : t.dropWhile rules.isSpace = t := by
    cases t with
    | nil => rfl
    | cons c t => rw [List.dropWhile_cons_of_neg (by rw [hhead c rfl]; exact Bool.false_ne_true)]
  rw [trim, hleft, List.rdropWhile_eq_self_iff]
  intro hne
  rw [hlast _ (List.getLast?_eq_some_getLast hne)]
  exact Bool.false_ne_true

/-- A name that begins and ends with what prints stays as it is. -/
theorem setName_eq_self (hhead : ∀ c, t.head? = some c → rules.isSpace c = false)
    (hlast : ∀ c, t.getLast? = some c → rules.isSpace c = false)
    (hleft : t.head? ≠ some rightToLeftMark) (hright : t.getLast? ≠ some rightToLeftMark)
    (h : setName rules t = some name) : name = t := by
  have hmake := makeName_of_setName rules h
  simp only [makeName, hleft, hright, trim_eq_self rules hhead hlast, and_false, if_false] at hmake
  exact (of_uncut hmake).2.symm

end

/-! ## Case folding -/

namespace CharRules

variable (rules : CharRules) {t pre low : Text}

theorem foldText_append (t t' : Text) :
    rules.foldText (t ++ t') = rules.foldText t ++ rules.foldText t' := List.map_append

theorem length_foldText (t : Text) : (rules.foldText t).length = t.length := List.length_map _

/-- What is below the letters is not folded. -/
theorem foldText_low (h : ∀ c ∈ low, c.toNat < 65) : rules.foldText low = low := by
  rw [foldText, List.map_congr_left fun c hmem => rules.fold_eq_self c (h c hmem), List.map_id']

theorem exists_append_of_foldText (hlow : ∀ c ∈ low, c.toNat < 65)
    (h : rules.foldText t = rules.foldText pre ++ low) :
    ∃ t', t = t' ++ low ∧ rules.foldText t' = rules.foldText pre := by
  obtain ⟨t', low', rfl, hpre, hfolded⟩ := List.map_eq_append_iff.mp h
  have hsame : low'.map rules.fold = low' := by
    have hsame : ∀ c ∈ low', rules.fold c = c := by
      intro c hmem
      apply rules.eq_of_fold
      apply hlow
      rw [← hfolded]
      exact List.mem_map_of_mem hmem
    rw [List.map_congr_left hsame, List.map_id']
  rw [hsame] at hfolded
  exact ⟨t', by rw [hfolded], hpre⟩

end CharRules

/-! ## Queries -/

theorem matchPattern_self (p : Text) : matchPattern p p = true := by
  induction p with
  | nil => rfl
  | cons c p ih =>
      rw [matchPattern]
      split
      · exact List.any_eq_true.mpr ⟨p, (List.mem_tails p _).mpr (List.suffix_cons c p), ih⟩
      · simp [ih]

theorem matchPattern_append_star (p t : Text) : matchPattern (p ++ [star]) (p ++ t) = true := by
  induction p with
  | nil =>
      rw [List.nil_append, List.nil_append]
      show t.tails.any (matchPattern []) = true
      rw [List.any_eq_true]
      exact ⟨[], (List.mem_tails [] t).mpr (List.nil_suffix), rfl⟩
  | cons c p ih =>
      rw [List.cons_append, List.cons_append, matchPattern]
      split
      · refine List.any_eq_true.mpr ⟨p ++ t, ?_, ih⟩
        exact (List.mem_tails _ _).mpr (List.suffix_cons c (p ++ t))
      · simp [ih]

section

variable (rules : CharRules) {name pre rest : Text}

theorem like_of_foldText_eq {t : Text} (h : rules.foldText t = rules.foldText pre) :
    like rules pre t = true := by
  rw [like, h]
  exact matchPattern_self _

theorem like_star_of_append (h : rules.foldText name = rules.foldText pre ++ rest) :
    like rules (pre ++ [star]) name = true := by
  have hstar : rules.foldText [star] = [star] := by
    apply rules.foldText_low
    intro c hmem
    rw [List.mem_singleton.mp hmem]
    decide
  rw [like, h, rules.foldText_append, hstar]
  exact matchPattern_append_star _ _

end

/-! ## Numbers -/

theorem toNat_digit {d : Nat} (h : d < 10) : (UInt16.ofNat (48 + d)).toNat = 48 + d := by
  rw [UInt16.toNat_ofNat', Nat.mod_eq_of_lt (by omega)]

theorem isDigit_digit {d : Nat} (h : d < 10) : isDigit (UInt16.ofNat (48 + d)) = true := by
  rw [isDigit, toNat_digit h, Bool.and_eq_true, decide_eq_true_eq, decide_eq_true_eq]
  omega

theorem toNat_lt_of_isDigit {c : UInt16} (h : isDigit c = true) : 48 ≤ c.toNat ∧ c.toNat < 58 := by
  rw [isDigit, Bool.and_eq_true, decide_eq_true_eq, decide_eq_true_eq] at h
  omega

theorem isDigit_decimalDigits (fuel : Nat) :
    ∀ {n : Nat}, ∀ c ∈ decimalDigits fuel n, isDigit c = true := by
  induction fuel with
  | zero =>
      intro n c hmem
      rw [List.mem_singleton.mp hmem]
      exact isDigit_digit (Nat.mod_lt n (by decide))
  | succ fuel ih =>
      intro n c hmem
      rw [decimalDigits] at hmem
      split at hmem
      · rename_i hlt
        rw [List.mem_singleton.mp hmem]
        exact isDigit_digit hlt
      · rcases List.mem_append.mp hmem with hmem | hmem
        · exact ih c hmem
        · rw [List.mem_singleton.mp hmem]
          exact isDigit_digit (Nat.mod_lt n (by decide))

theorem digitsValue_append {t : Text} (t' : Text) (h : ∀ c ∈ t, isDigit c = true) :
    ∀ acc, digitsValue acc (t ++ t') = digitsValue (digitsValue acc t) t' := by
  induction t with
  | nil => exact fun acc => rfl
  | cons c t ih =>
      intro acc
      have hdigit := h c List.mem_cons_self
      rw [List.cons_append, digitsValue, digitsValue, if_pos hdigit, if_pos hdigit]
      exact ih (fun c hmem => h c (List.mem_cons_of_mem _ hmem)) _

theorem digitsValue_digit {d : Nat} (h : d < 10) (acc : Nat) :
    digitsValue acc [UInt16.ofNat (48 + d)] = acc * 10 + d := by
  rw [digitsValue, if_pos (isDigit_digit h), toNat_digit h, digitsValue]
  omega

theorem digitsValue_decimalDigits (fuel : Nat) :
    ∀ {n : Nat}, n ≤ fuel → digitsValue 0 (decimalDigits fuel n) = n := by
  induction fuel with
  | zero =>
      intro n hle
      rw [decimalDigits, digitsValue_digit (Nat.mod_lt n (by decide))]
      omega
  | succ fuel ih =>
      intro n hle
      rw [decimalDigits]
      split
      · rename_i hlt
        rw [digitsValue_digit hlt]
        omega
      · rename_i hge
        rw [digitsValue_append _ (isDigit_decimalDigits fuel), ih (by omega),
          digitsValue_digit (Nat.mod_lt n (by decide))]
        omega

theorem decimalDigits_ne_nil (fuel n : Nat) : decimalDigits fuel n ≠ [] := by
  cases fuel with
  | zero => exact List.cons_ne_nil _ _
  | succ fuel =>
      rw [decimalDigits]
      split
      · exact List.cons_ne_nil _ _
      · simp

/-- A name with a number ends with digits in parentheses that have its value. -/
theorem formatName_eq (pre : Text) {number : Int} (hpos : 0 < number) :
    ∃ digits : Text, digits ≠ [] ∧ (∀ c ∈ digits, isDigit c = true) ∧
      (digitsValue 0 digits : Int) = number ∧
      formatName pre number = pre ++ (openPar :: digits ++ [closePar]) := by
  have hvalue : digitsValue 0 (decimal number.toNat) = number.toNat :=
    digitsValue_decimalDigits _ le_rfl
  have hdigits : ∀ c ∈ decimal number.toNat, isDigit c = true := isDigit_decimalDigits _
  rw [formatName, if_neg hpos.ne']
  split
  · refine ⟨48 :: decimal number.toNat, List.cons_ne_nil _ _, ?_, ?_, by simp⟩
    · intro c hmem
      rcases List.mem_cons.mp hmem with rfl | hmem
      · decide
      · exact hdigits c hmem
    · have hzero : digitsValue 0 (48 :: decimal number.toNat) =
          digitsValue 0 (decimal number.toNat) := rfl
      rw [hzero, hvalue]
      omega
  · refine ⟨decimal number.toNat, decimalDigits_ne_nil _ _, hdigits, ?_, by simp⟩
    rw [hvalue]
    omega

/-- Digits are read back. -/
theorem lexVal_digits {digits : Text} (hne : digits ≠ []) (hdigits : ∀ c ∈ digits, isDigit c = true)
    (hlt : digitsValue 0 digits < 2147483648) :
    lexVal digits = some (digitsValue 0 digits : Int) := by
  cases digits with
  | nil => exact (hne rfl).elim
  | cons c digits =>
      have hdigit := hdigits c List.mem_cons_self
      have hrange := toNat_lt_of_isDigit hdigit
      have hminus : c ≠ 45 := by
        rintro rfl
        exact absurd hrange.1 (by decide)
      have hplus : c ≠ 43 := by
        rintro rfl
        exact absurd hrange.1 (by decide)
      simp only [lexVal, List.head?_cons, Option.some.injEq, hminus, hplus, or_self, if_false,
        Option.map_some, Option.getD_some, hdigit, if_true]
      rw [if_pos (by omega)]

/-! ## The number of a name -/

section

variable (rules : CharRules) {name pre : Text} {number : Int}

/-- The postfix of a name that is the prefix with a number, up to case. -/
theorem getPostfix_formatName (hnonneg : 0 ≤ number) (hlt : number < 2147483648)
    (h : rules.foldText name = rules.foldText (formatName pre number)) :
    getPostfix rules name pre = number ∧ like rules (pre ++ [star]) name = true := by
  rcases hnonneg.eq_or_lt with rfl | hpos
  · have hpre : rules.foldText name = rules.foldText pre := h
    have hlength : name.length = pre.length := by
      rw [← rules.length_foldText name, hpre, rules.length_foldText]
    constructor
    · rw [getPostfix, hpre, if_pos ⟨hlength.ge, List.isPrefixOf_iff_prefix.mpr List.prefix_rfl⟩,
        if_pos hlength]
    · apply like_star_of_append rules
      rw [hpre]
      exact (List.append_nil _).symm
  · obtain ⟨digits, hne, hdigits, hvalue, hformat⟩ := formatName_eq pre hpos
    have hlow : ∀ c ∈ openPar :: digits ++ [closePar], c.toNat < 65 := by
      intro c hmem
      rw [List.cons_append, List.mem_cons, List.mem_append, List.mem_singleton] at hmem
      rcases hmem with rfl | hmem | rfl
      · decide
      · exact (toNat_lt_of_isDigit (hdigits c hmem)).2.trans (by decide)
      · decide
    rw [hformat, rules.foldText_append, rules.foldText_low hlow] at h
    refine ⟨?_, like_star_of_append rules h⟩
    obtain ⟨pre', rfl, hpre⟩ := rules.exists_append_of_foldText hlow h
    have hlength : pre'.length = pre.length := by
      rw [← rules.length_foldText pre', hpre, rules.length_foldText]
    have hdigitsLength := List.length_pos_iff.mpr hne
    have hall : (pre' ++ (openPar :: digits ++ [closePar])).length =
        pre.length + (digits.length + 2) := by
      simp [hlength]
    have hlast : (pre' ++ (openPar :: digits ++ [closePar])).getLast? = some closePar := by
      rw [← List.append_assoc, List.getLast?_append, List.getLast?_singleton]
      rfl
    have hopen : (pre' ++ (openPar :: digits ++ [closePar]))[pre.length]? = some openPar := by
      rw [← hlength, List.getElem?_append_right le_rfl, Nat.sub_self]
      rfl
    have hprefix : (rules.foldText pre).isPrefixOf
        (rules.foldText (pre' ++ (openPar :: digits ++ [closePar]))) = true := by
      rw [List.isPrefixOf_iff_prefix, rules.foldText_append, hpre]
      exact List.prefix_append _ _
    have hdrop : ((pre' ++ (openPar :: digits ++ [closePar])).drop (pre.length + 1)).take
        (pre.length + (digits.length + 2) - pre.length - 2) = digits := by
      rw [← hlength, ← List.drop_drop, List.drop_left, List.cons_append, List.drop_succ_cons,
        List.drop_zero]
      exact List.take_left' (by omega)
    rw [getPostfix, if_pos ⟨by omega, hprefix⟩, if_neg (by omega), hall,
      if_pos ⟨by omega, hopen, hlast⟩, hdrop, lexVal_digits hne hdigits (by omega)]
    simp only [hvalue, if_pos hpos]

end

/-! ## A number that is free -/

/-- The search in ascending numbers ends with one that is not among them. -/
theorem holeSearch_spec {vs : List Int} (hsorted : vs.Pairwise (· ≤ ·)) (candidate : Int) :
    holeSearch candidate vs ∉ vs ∧ candidate ≤ holeSearch candidate vs ∧
      holeSearch candidate vs ≤ candidate + vs.length := by
  induction vs generalizing candidate with
  | nil => simp [holeSearch]
  | cons v vs ih =>
      obtain ⟨hle, hsorted⟩ := List.pairwise_cons.mp hsorted
      rw [holeSearch, List.length_cons]
      push_cast
      split
      · obtain ⟨hnot, hge, hlt⟩ := ih hsorted candidate
        refine ⟨List.not_mem_cons_of_ne_of_not_mem (by omega) hnot, hge, by omega⟩
      · split
        · obtain ⟨hnot, hge, hlt⟩ := ih hsorted (candidate + 1)
          refine ⟨List.not_mem_cons_of_ne_of_not_mem (by omega) hnot, by omega, by omega⟩
        · refine ⟨fun hmem => ?_, le_rfl, by omega⟩
          rcases List.mem_cons.mp hmem with heq | hmem
          · omega
          · have := hle candidate hmem
            omega

theorem freePostfix_spec (forcePostfix : Bool) (postfixes : List Int) :
    freePostfix forcePostfix postfixes ∉ postfixes ∧
      (if forcePostfix then 1 else 0) ≤ freePostfix forcePostfix postfixes ∧
      freePostfix forcePostfix postfixes ≤ 1 + postfixes.length := by
  obtain ⟨hnot, hge, hle⟩ := holeSearch_spec
    (List.pairwise_insertionSort (· ≤ ·) postfixes) (if forcePostfix then 1 else 0)
  rw [List.mem_insertionSort] at hnot
  rw [List.length_insertionSort] at hle
  refine ⟨hnot, hge, hle.trans ?_⟩
  split <;> omega

end SymbianWeb.Favourites.Store
