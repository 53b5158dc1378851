import Mathlib.Data.List.Basic

/-!
# C strings

`strncmp` and `strncasecmp` as they are called on a pointer into a buffer: the first argument is
what the buffer holds from the pointer on, the second one the text that is compared with, whose
length is the number of characters compared. A comparison reads up to the first difference or the
first NUL, and faults (`none`) where it would read past the end of the buffer.

`strtoul` reads a decimal number into 32 bits. Of a text of digits it returns the number they
stand for, or the largest one there is (`strtoul_digits`).
-/

set_option autoImplicit false

namespace SymbianWeb.CString

abbrev Bytes := List UInt8

/-- A text of ASCII characters. -/
def ascii (s : String) : Bytes := s.toList.map fun c => UInt8.ofNat c.toNat

/-- `tolower` of the C locale. -/
def toLower (c : UInt8) : UInt8 := if 0x41 ≤ c ∧ c ≤ 0x5A then c + 0x20 else c

/-- Whether the text matches, comparing characters by `f`. -/
def compareN (f : UInt8 → UInt8) : Bytes → Bytes → Option Bool
  | _, [] => some true
  | [], _ :: _ => none
  | a :: s, b :: t =>
      if f a = f b then
        if a = 0 then some true else compareN f s t
      else
        some false

/-- `strncmp( s, t, n ) == 0` -/
def strncmp : Bytes → Bytes → Option Bool := compareN id

/-- `strncasecmp( s, t, n ) == 0` -/
def strncasecmp : Bytes → Bytes → Option Bool := compareN toLower

section

variable {f : UInt8 → UInt8}

/-- A comparison that stays inside the buffer does not fault. -/
theorem compareN_isSome {s t : Bytes} (h : t.length ≤ s.length) : (compareN f s t).isSome := by
  induction t generalizing s with
  | nil => rw [compareN]; rfl
  | cons b t ih =>
      cases s with
      | nil => cases h
      | cons a s =>
          rw [compareN]
          split
          · split
            · rfl
            · exact ih (Nat.le_of_succ_le_succ h)
          · rfl

/-- With room for the whole text a comparison says yes or no. -/
theorem compareN_cases {s t : Bytes} (h : t.length ≤ s.length) :
    compareN f s t = some true ∨ compareN f s t = some false := by
  obtain ⟨r, hr⟩ := Option.isSome_iff_exists.1 (compareN_isSome (f := f) h)
  cases r with
  | true => exact .inl hr
  | false => exact .inr hr

theorem strncmp_cases {s t : Bytes} (h : t.length ≤ s.length) :
    strncmp s t = some true ∨ strncmp s t = some false :=
  compareN_cases h

theorem strncasecmp_cases {s t : Bytes} (h : t.length ≤ s.length) :
    strncasecmp s t = some true ∨ strncasecmp s t = some false :=
  compareN_cases h

/-- The text matches itself, whatever is behind it. -/
theorem compareN_append (t s : Bytes) : compareN f (t ++ s) t = some true := by
  induction t with
  | nil => cases s <;> rfl
  | cons b t ih =>
      rw [List.cons_append, compareN, if_pos rfl]
      split
      · rfl
      · exact ih

/-- A text without NUL matches exactly when it is there, up to `f`. -/
theorem compareN_true_iff {s t : Bytes} (hf : ∀ c, f c = f 0 → c = 0) (ht : 0 ∉ t) :
    compareN f s t = some true ↔ t.map f <+: s.map f := by
  induction t generalizing s with
  | nil => simp [compareN]
  | cons b t ih =>
      cases s with
      | nil => simp [compareN]
      | cons a s =>
          simp only [List.mem_cons, not_or] at ht
          rw [compareN, List.map_cons, List.map_cons, List.cons_prefix_cons]
          by_cases hab : f a = f b
          · have ha : a ≠ 0 := by
              rintro rfl
              exact ht.1 (hf b hab.symm).symm
            rw [if_pos hab, if_neg ha, ih ht.2]
            exact ⟨fun h => ⟨hab.symm, h⟩, fun h => h.2⟩
          · rw [if_neg hab]
            constructor
            · intro h
              cases h
            · rintro ⟨hba, -⟩
              exact absurd hba.symm hab

/-- The comparison runs off exactly when the buffer ends inside the text. -/
theorem compareN_none_iff {s t : Bytes} (hf : ∀ c, f c = f 0 → c = 0) (ht : 0 ∉ t) :
    compareN f s t = none ↔ s.length < t.length ∧ s.map f <+: t.map f := by
  induction t generalizing s with
  | nil => simp [compareN]
  | cons b t ih =>
      cases s with
      | nil => simp [compareN]
      | cons a s =>
          simp only [List.mem_cons, not_or] at ht
          rw [compareN, List.map_cons, List.map_cons, List.cons_prefix_cons]
          by_cases hab : f a = f b
          · have ha : a ≠ 0 := by
              rintro rfl
              exact ht.1 (hf b hab.symm).symm
            rw [if_pos hab, if_neg ha, ih ht.2]
            simp [hab]
          · rw [if_neg hab]
            simp [hab]

theorem toLower_eq_toLower_zero (c : UInt8) (h : toLower c = toLower 0) : c = 0 := by
  rw [toLower, toLower] at h
  split at h
  · rename_i hc
    have h' : (c + 0x20).toNat = 0 := congrArg UInt8.toNat h
    have h1 := UInt8.le_iff_toNat_le.1 hc.1
    have h2 := UInt8.le_iff_toNat_le.1 hc.2
    simp only [UInt8.toNat_add, UInt8.toNat_ofNat] at h' h1 h2
    omega
  · exact h

/-- Whether the text is at the pointer, in any letter case. -/
theorem strncasecmp_true_iff {s t : Bytes} (ht : 0 ∉ t) :
    strncasecmp s t = some true ↔ t.map toLower <+: s.map toLower :=
  compareN_true_iff toLower_eq_toLower_zero ht

theorem strncasecmp_none_iff {s t : Bytes} (ht : 0 ∉ t) :
    strncasecmp s t = none ↔ s.length < t.length ∧ s.map toLower <+: t.map toLower :=
  compareN_none_iff toLower_eq_toLower_zero ht

theorem strncmp_true_iff {s t : Bytes} (ht : 0 ∉ t) : strncmp s t = some true ↔ t <+: s := by
  have h := compareN_true_iff (f := id) (s := s) (fun c hc => hc) ht
  rwa [List.map_id, List.map_id] at h

theorem strncmp_none_iff {s t : Bytes} (ht : 0 ∉ t) :
    strncmp s t = none ↔ s.length < t.length ∧ s <+: t := by
  have h := compareN_none_iff (f := id) (s := s) (fun c hc => hc) ht
  rwa [List.map_id, List.map_id] at h

end

/-! ## Numbers -/

/-- `isspace` of the C locale. -/
def isSpace (c : UInt8) : Bool := c = 0x20 || (0x09 ≤ c && c ≤ 0x0d)

/-- The number that the digits at the start of a text stand for, behind those read so far. -/
def readDigits : Nat → Bytes → Nat
  | acc, [] => acc
  | acc, c :: s => if 0x30 ≤ c ∧ c ≤ 0x39 then readDigits (acc * 10 + (c.toNat - 48)) s else acc

/-- `strtoul( s, &end, 10 )` with a 32-bit result: blanks, a sign, and digits. -/
def strtoul (s : Bytes) : Nat :=
  let s := s.dropWhile isSpace
  let negative := s.head? = some 0x2d
  let value := readDigits 0 (if negative ∨ s.head? = some 0x2b then s.tail else s)
  if 4294967296 ≤ value then 4294967295
  else if negative then (4294967296 - value) % 4294967296 else value

/-- Digits as text. -/
def digitsText (ds : List (Fin 10)) : Bytes := ds.map fun d => UInt8.ofNat (48 + d)

/-- The number that digits stand for, behind those read so far. -/
def digitsValue : Nat → List (Fin 10) → Nat
  | acc, [] => acc
  | acc, d :: ds => digitsValue (acc * 10 + d) ds

theorem toNat_digit (d : Fin 10) : (UInt8.ofNat (48 + d)).toNat = 48 + d := by
  rw [UInt8.toNat_ofNat', Nat.mod_eq_of_lt]
  omega

theorem readDigits_digitsText (acc : Nat) (ds : List (Fin 10)) :
    readDigits acc (digitsText ds) = digitsValue acc ds := by
  induction ds generalizing acc with
  | nil => rfl
  | cons d ds ih =>
      have hdigit : (0x30 : UInt8) ≤ UInt8.ofNat (48 + d) ∧ UInt8.ofNat (48 + d) ≤ 0x39 := by
        rw [UInt8.le_iff_toNat_le, UInt8.le_iff_toNat_le, toNat_digit]
        have hlt := d.isLt
        exact ⟨Nat.le_add_right _ _, Nat.add_le_add_left (Nat.le_of_lt_succ hlt) 48⟩
      have hcons : digitsText (d :: ds) = UInt8.ofNat (48 + d) :: digitsText ds := rfl
      rw [hcons, readDigits, if_pos hdigit, toNat_digit, Nat.add_sub_cancel_left, ih, digitsValue]

/-- Of digits `strtoul` reads the number, up to the largest one. -/
theorem strtoul_digits (ds : List (Fin 10)) :
    strtoul (digitsText ds) = min (digitsValue 0 ds) 4294967295 := by
  have hdigit : ∀ d : Fin 10, isSpace (UInt8.ofNat (48 + d)) = false ∧
      UInt8.ofNat (48 + d) ≠ 0x2d ∧ UInt8.ofNat (48 + d) ≠ 0x2b := by
    decide
  -- no blank and no sign comes before the digits
  have hclean : (digitsText ds).dropWhile isSpace = digitsText ds ∧
      (digitsText ds).head? ≠ some 0x2d ∧ (digitsText ds).head? ≠ some 0x2b := by
    cases ds with
    | nil => exact ⟨rfl, by simp [digitsText], by simp [digitsText]⟩
    | cons d ds =>
        obtain ⟨hspace, hminus, hplus⟩ := hdigit d
        have hcons : digitsText (d :: ds) = UInt8.ofNat (48 + d) :: digitsText ds := rfl
        rw [hcons, List.dropWhile_cons_of_neg (by rw [hspace]; decide), List.head?_cons]
        exact ⟨rfl, fun h => hminus (Option.some.inj h), fun h => hplus (Option.some.inj h)⟩
  obtain ⟨hdrop, hminus, hplus⟩ := hclean
  rw [strtoul, hdrop]
  simp only [hminus, hplus, or_self, if_false, readDigits_digitsText]
  split_ifs with hlarge
  · omega
  · omega

end SymbianWeb.CString
