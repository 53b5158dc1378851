import Mathlib
import SymbianWeb.Cxml.EncodedText

/-!
# Selecting a dictionary by its document type

`NW_WBXML_Dictionary_getByDocType` and `NW_WBXML_Dictionary_getIndexByDocType` compare the document
type of one dictionary after the other with the string of the caller.
`NW_WBXML_Dictionary_CmpDictDocType` walks the storage pointer of this string over the characters
that agree and does not put it back, and it is content with a prefix of the string
(`cmpDictDocType_string`).

So the string is left alone only if no dictionary agrees with it in a single character. The
selection does what it is meant to do exactly for the empty string, and for strings whose first
character begins no document type (`selects_iff`).
-/

set_option autoImplicit false

namespace SymbianWeb.Wbxml

/-- `NW_String_t`: a pointer into memory, and the length that is noted with it. -/
structure NwString where
  storage : Bytes
  length : UInt32
  deriving DecidableEq

/-- The part of `NW_WBXML_Dictionary_t` that a selection reads: the units of `doc_type` before its
terminator. -/
structure Dictionary where
  docType : List UInt16
  nonzero : 0 ∉ docType
  deriving DecidableEq

/-! ## The source -/

/-- `NW_WBXML_Dictionary_CmpDictDocType`, before the next unit of the document type. A character
that cannot be read leaves `c` without a value. -/
def cmpDictDocType (encoding : Charset) : List UInt16 → NwString → Option (Bool × NwString)
  | [], string => some (true, string)
  | unit :: docType, string =>
      match readChar encoding string.storage with
      | some (.char c bytesRead) =>
          if c ≠ unit then some (false, string)
          else cmpDictDocType encoding docType
            ⟨string.storage.drop bytesRead, string.length - .ofNat bytesRead⟩
      | _ => none

section Scan

variable {α : Type} (encoding : Charset) (found : Nat → Dictionary → α) (missing : α)

/-- The loop over the dictionaries, before dictionary `i`. -/
def scanDictionaries : Nat → List Dictionary → NwString → Option (α × NwString)
  | _, [], docType => some (missing, docType)
  | i, dictionary :: dictionaries, docType =>
      match cmpDictDocType encoding dictionary.docType docType with
      | none => none
      | some (true, docType) => some (found i dictionary, docType)
      | some (false, docType) => scanDictionaries (i + 1) dictionaries docType

/-- The loop behind the check for a null pointer, with the string as the caller finds it after. -/
def scanDocType (dictionaries : List Dictionary) :
    Option NwString → Option (α × Option NwString)
  | none => some (missing, none)
  | some docType =>
      (scanDictionaries encoding found missing 0 dictionaries docType).map fun r => (r.1, some r.2)

end Scan

/-- `NW_WBXML_Dictionary_getByDocType` -/
def getByDocType (dictionaries : List Dictionary) (docType : Option NwString)
    (encoding : Charset) : Option (Option Dictionary × Option NwString) :=
  scanDocType encoding (fun _ dictionary => some dictionary) none dictionaries docType

/-- `NW_WBXML_Dictionary_getIndexByDocType` -/
def getIndexByDocType (dictionaries : List Dictionary) (docType : Option NwString)
    (encoding : Charset) : Option (Nat × Option NwString) :=
  scanDocType encoding (fun i _ => i + 1) 0 dictionaries docType

/-! ## What a selection is meant to do -/

/-- The document type of the dictionary is the string. -/
def Dictionary.hasDocType {encoding : Charset} (s : List (EncodedChar encoding))
    (dictionary : Dictionary) : Bool :=
  dictionary.docType.map UInt16.toNat = s.map (·.codePoint)

/-- Both functions give the dictionary with this document type, and leave the string alone. -/
def Selects {encoding : Charset} (dictionaries : List Dictionary)
    (s : List (EncodedChar encoding)) (docType : NwString) : Prop :=
  getByDocType dictionaries (some docType) encoding =
      some (dictionaries.find? (·.hasDocType s), some docType) ∧
    getIndexByDocType dictionaries (some docType) encoding =
      some ((dictionaries.findIdx? (·.hasDocType s)).elim 0 (· + 1), some docType)

/-- The string `s` with its terminator, in front of other bytes. -/
def stringAt {encoding : Charset} (s : List (EncodedChar encoding)) (rest : Bytes)
    (length : UInt32) : NwString :=
  ⟨stringBytes s ++ rest, length⟩

/-- A character as the reader gives it. -/
def EncodedChar.unit {encoding : Charset} (c : EncodedChar encoding) : UInt16 := .ofNat c.codePoint

/-! ## One comparison -/

/-- The number of units in which two strings agree. -/
def agreement : List UInt16 → List UInt16 → Nat
  | u :: us, v :: vs => if u = v then agreement us vs + 1 else 0
  | _, _ => 0

/-- Two strings agree in no unit exactly when one is empty or their first units differ. -/
theorem agreement_eq_zero_iff (us : List UInt16) (v : UInt16) (vs : List UInt16) :
    agreement us (v :: vs) = 0 ↔ us.head? ≠ some v := by
  cases us with
  | nil => simp [agreement]
  | cons u us =>
      rw [agreement]
      split <;> simp_all

theorem readChar_terminator (encoding : Charset) (rest : Bytes) :
    readChar encoding (terminator encoding ++ rest) =
      some (.char 0 (terminator encoding).length) := by
  cases encoding <;> rfl

/-- A comparison walks over the units that agree, and says whether these are the whole document
type. -/
theorem cmpDictDocType_string {encoding : Charset} {docType : List UInt16} (hzero : 0 ∉ docType)
    (s : List (EncodedChar encoding)) (rest : Bytes) (length : UInt32) :
    ∃ length', cmpDictDocType encoding docType (stringAt s rest length) =
        some (decide (docType <+: s.map (·.unit)),
          stringAt (s.drop (agreement docType (s.map (·.unit)))) rest length') ∧
      (agreement docType (s.map (·.unit)) = 0 → length' = length) := by
  induction docType generalizing s length with
  | nil => exact ⟨length, by simp [cmpDictDocType, agreement], fun _ => rfl⟩
  | cons unit docType ih =>
      have hunit : (0 : UInt16) ≠ unit := fun h => hzero (h ▸ List.mem_cons_self ..)
      have hrest : 0 ∉ docType := fun h => hzero (List.mem_cons_of_mem unit h)
      cases s with
      | nil =>
          -- the terminator is none of the units
          have hread : readChar encoding (stringAt ([] : List (EncodedChar encoding)) rest
              length).storage = _ := readChar_terminator encoding rest
          refine ⟨length, ?_, fun _ => rfl⟩
          rw [cmpDictDocType, hread]
          simp [hunit, agreement]
      | cons c s =>
          have hread : readChar encoding (stringAt (c :: s) rest length).storage =
              some (.char c.unit c.bytes.length) := by
            rw [stringAt, stringBytes_cons, List.append_assoc]
            exact readChar_encodes c.encodes _
          have hnext : (stringAt (c :: s) rest length).storage.drop c.bytes.length =
              stringBytes s ++ rest := by
            rw [stringAt, stringBytes_cons, List.append_assoc]
            exact List.drop_left
          rw [cmpDictDocType, hread, List.map_cons, agreement]
          by_cases hc : unit = c.unit
          · obtain ⟨length', hcmp, -⟩ := ih hrest s (length - .ofNat c.bytes.length)
            refine ⟨length', ?_, ?_⟩
            · simp only [hc, ne_eq, not_true_eq_false, if_false, if_true, hnext,
                List.drop_succ_cons, List.cons_prefix_cons, true_and]
              exact hcmp
            · rw [if_pos hc]
              intro h
              cases h
          · refine ⟨length, ?_, fun _ => rfl⟩
            simp [hc, Ne.symm hc, List.cons_prefix_cons]

/-! ## A whole selection -/

/-- The dictionary that a scan is meant to find, by what it makes of it. -/
def selectFrom {α : Type} (found : Nat → Dictionary → α) (missing : α)
    (wanted : Dictionary → Bool) : Nat → List Dictionary → α
  | _, [] => missing
  | i, dictionary :: dictionaries =>
      if wanted dictionary then found i dictionary
      else selectFrom found missing wanted (i + 1) dictionaries

theorem selectFrom_find (wanted : Dictionary → Bool) (i : Nat) (dictionaries : List Dictionary) :
    selectFrom (fun _ dictionary => some dictionary) none wanted i dictionaries =
      dictionaries.find? wanted := by
  induction dictionaries generalizing i with
  | nil => rfl
  | cons dictionary dictionaries ih =>
      rw [selectFrom, ih, List.find?_cons]
      cases wanted dictionary <;> rfl

theorem selectFrom_findIdx (wanted : Dictionary → Bool) (i : Nat)
    (dictionaries : List Dictionary) :
    selectFrom (fun i _ => i + 1) 0 wanted i dictionaries =
      (dictionaries.findIdx? wanted).elim 0 (fun j => i + j + 1) := by
  induction dictionaries generalizing i with
  | nil => rfl
  | cons dictionary dictionaries ih =>
      rw [selectFrom, ih, List.findIdx?_cons]
      cases wanted dictionary with
      | true => simp
      | false =>
          cases dictionaries.findIdx? wanted with
          | none => rfl
          | some j =>
              simp only [Bool.false_eq_true, if_false, Option.map_some, Option.elim_some]
              omega

/-- The dictionary agrees with the string in no character, and does not take it for its own. -/
def Passes {encoding : Charset} (s : List (EncodedChar encoding)) (dictionary : Dictionary) :
    Prop :=
  dictionary.docType ≠ [] ∧ dictionary.docType.head? ≠ s.head?.map (·.unit)

section Scan

variable {α : Type} {encoding : Charset} {found : Nat → Dictionary → α} {missing : α}

theorem hasDocType_of_passes {s : List (EncodedChar encoding)} {dictionary : Dictionary}
    (h : Passes s dictionary) : dictionary.hasDocType s = false := by
  obtain ⟨docType, hzero⟩ := dictionary
  obtain ⟨hne, hhead⟩ := h
  cases docType with
  | nil => exact absurd rfl hne
  | cons unit docType =>
      cases s with
      | nil => simp [Dictionary.hasDocType]
      | cons c s =>
          -- equal code points would be equal units
          simp only [Dictionary.hasDocType, List.map_cons, decide_eq_false_iff_not,
            List.cons.injEq, not_and]
          intro hcode
          refine absurd ?_ hhead
          show some unit = some (UInt16.ofNat c.codePoint)
          rw [← hcode, UInt16.ofNat_toNat]

/-- A dictionary that agrees in no character leaves the string alone. -/
theorem cmpDictDocType_of_passes {s : List (EncodedChar encoding)} {dictionary : Dictionary}
    (h : Passes s dictionary) (rest : Bytes) (length : UInt32) :
    cmpDictDocType encoding dictionary.docType (stringAt s rest length) =
      some (false, stringAt s rest length) := by
  obtain ⟨hne, hhead⟩ := h
  have hagree : agreement dictionary.docType (s.map (·.unit)) = 0 := by
    cases s with
    | nil => cases dictionary.docType <;> rfl
    | cons c s => exact (agreement_eq_zero_iff _ _ _).2 hhead
  have hprefix : ¬ dictionary.docType <+: s.map (·.unit) := by
    cases hdoc : dictionary.docType with
    | nil => exact absurd hdoc hne
    | cons unit docType =>
        cases s with
        | nil => simp
        | cons c s =>
            rw [hdoc] at hhead
            intro h
            exact hhead (congrArg some (List.cons_prefix_cons.1 h).1)
  obtain ⟨length', hcmp, hlength⟩ :=
    cmpDictDocType_string dictionary.nonzero s rest length
  rw [hcmp, hagree, hlength hagree, decide_eq_false hprefix]
  rfl

/-- A scan never lengthens the string, and finds it in front of the same bytes. -/
theorem scanDictionaries_string (i : Nat) (dictionaries : List Dictionary)
    (s : List (EncodedChar encoding)) (rest : Bytes) (length : UInt32) :
    ∃ r n length', scanDictionaries encoding found missing i dictionaries
      (stringAt s rest length) = some (r, stringAt (s.drop n) rest length') := by
  induction dictionaries generalizing i s length with
  | nil => exact ⟨missing, 0, length, rfl⟩
  | cons dictionary dictionaries ih =>
      obtain ⟨length', hcmp, -⟩ := cmpDictDocType_string dictionary.nonzero s rest length
      rw [scanDictionaries, hcmp]
      cases decide (dictionary.docType <+: s.map (·.unit)) with
      | true => exact ⟨_, _, _, rfl⟩
      | false =>
          obtain ⟨r, n, length'', hscan⟩ := ih (i + 1) (s.drop _) length'
          exact ⟨r, _ + n, length'', by rw [← List.drop_drop]; exact hscan⟩

theorem length_stringBytes_drop_lt {s : List (EncodedChar encoding)} {n : Nat} (hn : 0 < n)
    (hs : s ≠ []) : (stringBytes (s.drop n)).length < (stringBytes s).length := by
  induction n generalizing s with
  | zero => exact absurd hn (Nat.lt_irrefl 0)
  | succ n ih =>
      cases s with
      | nil => exact absurd rfl hs
      | cons c s =>
          have hpos := length_encodes_pos c.encodes
          rw [List.drop_succ_cons, stringBytes_cons, List.length_append]
          rcases Nat.eq_zero_or_pos n with rfl | hn
          · rw [List.drop_zero]
            omega
          · cases s with
            | nil =>
                rw [List.drop_nil]
                omega
            | cons d s =>
                have hlt := ih hn (List.cons_ne_nil d s)
                omega

/-- Where all dictionaries pass, the scan finds nothing and changes nothing. -/
theorem scanDictionaries_of_passes {dictionaries : List Dictionary}
    {s : List (EncodedChar encoding)} (h : ∀ d ∈ dictionaries, Passes s d) (i : Nat)
    (rest : Bytes) (length : UInt32) :
    scanDictionaries encoding found missing i dictionaries (stringAt s rest length) =
      some (selectFrom found missing (·.hasDocType s) i dictionaries,
        stringAt s rest length) := by
  induction dictionaries generalizing i with
  | nil => rfl
  | cons dictionary dictionaries ih =>
      obtain ⟨hpasses, hrest⟩ := List.forall_mem_cons.1 h
      rw [scanDictionaries, cmpDictDocType_of_passes hpasses, selectFrom,
        hasDocType_of_passes hpasses]
      exact ih hrest (i + 1)

/-- The empty string is compared without a step: it has the empty document type alone. -/
theorem scanDictionaries_nil (i : Nat) (dictionaries : List Dictionary) (rest : Bytes)
    (length : UInt32) :
    scanDictionaries encoding found missing i dictionaries
        (stringAt ([] : List (EncodedChar encoding)) rest length) =
      some (selectFrom found missing (·.hasDocType ([] : List (EncodedChar encoding))) i
        dictionaries, stringAt ([] : List (EncodedChar encoding)) rest length) := by
  induction dictionaries generalizing i with
  | nil => rfl
  | cons dictionary dictionaries ih =>
      rw [scanDictionaries, selectFrom]
      by_cases hempty : dictionary.docType = []
      · simp [hempty, cmpDictDocType, Dictionary.hasDocType]
      · have hpasses : Passes ([] : List (EncodedChar encoding)) dictionary :=
          ⟨hempty, by simpa using hempty⟩
        rw [cmpDictDocType_of_passes hpasses, hasDocType_of_passes hpasses]
        exact ih (i + 1)

/-- A scan that leaves a string alone has met no dictionary that agrees with it in a character,
but for one with an empty document type, which it has then taken. -/
theorem passes_of_scanDictionaries {dictionaries : List Dictionary}
    {c : EncodedChar encoding} {s : List (EncodedChar encoding)} {i : Nat} {rest : Bytes}
    {length : UInt32} {r : α}
    (h : scanDictionaries encoding found missing i dictionaries (stringAt (c :: s) rest length) =
      some (r, stringAt (c :: s) rest length)) :
    (∀ d ∈ dictionaries, Passes (c :: s) d) ∨
      ∃ j, ∃ d ∈ dictionaries, d.docType = [] ∧ r = found j d := by
  induction dictionaries generalizing i with
  | nil => exact .inl fun d hd => by cases hd
  | cons dictionary dictionaries ih =>
      by_cases hempty : dictionary.docType = []
      · right
        rw [scanDictionaries, hempty, cmpDictDocType, Option.some.injEq, Prod.mk.injEq] at h
        exact ⟨i, dictionary, List.mem_cons_self .., hempty, h.1.symm⟩
      by_cases hhead : dictionary.docType.head? = some c.unit
      · -- the storage pointer has moved, and no later dictionary puts it back
        exfalso
        obtain ⟨length', hcmp, -⟩ := cmpDictDocType_string dictionary.nonzero (c :: s) rest length
        have hagree : 0 < agreement dictionary.docType ((c :: s).map (·.unit)) := by
          rw [Nat.pos_iff_ne_zero, List.map_cons, ne_eq, agreement_eq_zero_iff, not_not]
          exact hhead
        have hmoved : ∃ r n length'', 0 < n ∧ scanDictionaries encoding found missing i
            (dictionary :: dictionaries) (stringAt (c :: s) rest length) =
              some (r, stringAt ((c :: s).drop n) rest length'') := by
          rw [scanDictionaries, hcmp]
          cases decide (dictionary.docType <+: (c :: s).map (·.unit)) with
          | true => exact ⟨_, _, _, hagree, rfl⟩
          | false =>
              obtain ⟨r, n, length'', hscan⟩ := @scanDictionaries_string _ _ found missing
                (i + 1) dictionaries ((c :: s).drop _) rest length'
              exact ⟨r, agreement dictionary.docType ((c :: s).map (·.unit)) + n, length'',
                by omega, by rw [← List.drop_drop]; exact hscan⟩
        obtain ⟨r', n, length'', hn, hscan⟩ := hmoved
        rw [hscan, Option.some.injEq, Prod.mk.injEq] at h
        have hstorage := congrArg (fun string => string.storage.length) h.2
        have hlt := length_stringBytes_drop_lt hn (List.cons_ne_nil c s)
        simp only [stringAt, List.length_append] at hstorage
        omega
      · have hpasses : Passes (c :: s) dictionary := ⟨hempty, hhead⟩
        rw [scanDictionaries, cmpDictDocType_of_passes hpasses] at h
        rcases ih h with hall | ⟨j, d, hd, hfound⟩
        · exact .inl (List.forall_mem_cons.2 ⟨hpasses, hall⟩)
        · exact .inr ⟨j, d, List.mem_cons_of_mem _ hd, hfound⟩

end Scan

/-- A selection gives the dictionary with the document type, or none, and leaves the string alone
exactly if the string is empty, or no dictionary has an empty document type or one that begins
with the first character of the string. -/
theorem selects_iff {encoding : Charset} (dictionaries : List Dictionary)
    (s : List (EncodedChar encoding)) (rest : Bytes) (length : UInt32) :
    Selects dictionaries s (stringAt s rest length) ↔
      s = [] ∨ ∀ d ∈ dictionaries, d.docType ≠ [] ∧ d.docType.head? ≠ s.head?.map (·.unit) := by
  have hselects : ∀ h : ∀ {α : Type} (found : Nat → Dictionary → α) (missing : α),
      scanDictionaries encoding found missing 0 dictionaries (stringAt s rest length) =
        some (selectFrom found missing (·.hasDocType s) 0 dictionaries, stringAt s rest length),
      Selects dictionaries s (stringAt s rest length) := by
    intro h
    constructor
    · rw [getByDocType, scanDocType, h, selectFrom_find]
      rfl
    · rw [getIndexByDocType, scanDocType, h, selectFrom_findIdx]
      simp
  constructor
  · rintro ⟨hget, -⟩
    cases s with
    | nil => exact .inl rfl
    | cons c s =>
        right
        rw [getByDocType, scanDocType, Option.map_eq_some_iff] at hget
        obtain ⟨⟨r, string⟩, hscan, hr⟩ := hget
        simp only [Prod.mk.injEq, Option.some.injEq] at hr
        obtain ⟨hr, rfl⟩ := hr
        rcases passes_of_scanDictionaries hscan with hall | ⟨j, d, hd, hempty, hfound⟩
        · exact hall
        · -- what was taken has not the document type that was asked for
          exfalso
          rw [hr] at hfound
          have hwanted := List.find?_some hfound
          rw [Dictionary.hasDocType, hempty] at hwanted
          simp at hwanted
  · rintro (rfl | hall)
    · exact hselects fun found missing => scanDictionaries_nil 0 dictionaries rest length
    · exact hselects fun found missing => scanDictionaries_of_passes hall 0 rest length

/-- The string `wap`, and the dictionaries for `wml` and `wap`. -/
def wapString : List (EncodedChar .usAscii) :=
  [⟨0x77, [0x77], .usAscii 0x77 (by decide), by decide⟩,
    ⟨0x61, [0x61], .usAscii 0x61 (by decide), letterA_ne_zero⟩,
    ⟨0x70, [0x70], .usAscii 0x70 (by decide), by decide⟩]

def wmlDictionary : Dictionary := ⟨[0x77, 0x6D, 0x6C], by decide⟩

def wapDictionary : Dictionary := ⟨[0x77, 0x61, 0x70], by decide⟩

/-- The `w` of the first dictionary is taken off the string before the second one is compared. -/
theorem not_selects_wap :
    getByDocType [wmlDictionary, wapDictionary] (some (stringAt wapString [] 4)) .usAscii =
        some (none, some (stringAt wapString.tail [] 3)) ∧
      ¬ Selects [wmlDictionary, wapDictionary] wapString (stringAt wapString [] 4) := by
  have hget : getByDocType [wmlDictionary, wapDictionary] (some (stringAt wapString [] 4))
      .usAscii = some (none, some (stringAt wapString.tail [] 3)) := by decide
  refine ⟨hget, ?_⟩
  rintro ⟨hselect, -⟩
  rw [hget] at hselect
  exact absurd hselect (by decide)

end SymbianWeb.Wbxml
