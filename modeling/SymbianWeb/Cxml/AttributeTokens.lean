import SymbianWeb.Cxml.EncodedText
import SymbianWeb.Library.Bisection

/-!
# Tokens of attributes by their names

`NW_WBXML_Dictionary_getAttributeToken2` looks for a name on one attribute page after the other. On
a page it bisects the name index, which may end at either of two entries with this name; one of
them stands for an attribute, the other one for a value. If it is the wrong one, it goes through the
whole page again.

The two searches of a page find exactly what is there (`lookupOnPage_answers`). The lookup as a
whole has two limits (`looksUp_iff`): the names are compared in units of 16 bits, to which a
character of UTF-8 with four bytes is cut, and the pages are counted in a byte, so that with 256
pages or more it does not come to an end unless it finds something.
-/

set_option autoImplicit false

namespace SymbianWeb.Wbxml

open Bisection

/-! ## The source -/

/-- `NW_WBXML_DictEntry_t`, with the units of the name before its terminator. -/
structure DictEntry where
  token : UInt8
  name : List UInt16
  nonzero : 0 ∉ name

/-- The name as code points. -/
def DictEntry.text (entry : DictEntry) : List Nat := entry.name.map UInt16.toNat

/-- `tokens[names[m]]` -/
def entryAt (tokens : List DictEntry) (names : List UInt8) (m : Nat) : Option DictEntry :=
  names[m]?.bind fun k => tokens[k.toNat]?

/-- `NW_WBXML_Codepage_t`, with a name index that lists the entries in ascending order of their
names. The count is the length of the tables, and is a byte. -/
structure Codepage where
  tokens : List DictEntry
  names : List UInt8
  count_lt : tokens.length < 0x100
  lists : (names.map UInt8.toNat).Perm (List.range tokens.length)
  ascending : names.Pairwise fun k k' =>
    ∀ entry ∈ tokens[k.toNat]?, ∀ entry' ∈ tokens[k'.toNat]?, entry.text ≤ entry'.text

/-- The loop of `NW_String_CmpToNativeAlignedUCS2`, with the characters that are left of
`charCount`. The units of `s2` end at its terminator. Before the first character, `r` has no
value. -/
def cmpToNativeAlignedUCS2From (encoding : Charset) :
    Nat → Bytes → List UInt16 → Option Int → Option (Option Int)
  | 0, _, [], r => r.map some
  | 0, _, unit :: _, _ => some (some (-unit.toNat))
  | charsLeft + 1, s1, s2, _ =>
      match readChar encoding s1 with
      | none => none
      | some .bad => some none
      | some (.char c₁ byteCount) =>
          let unit := s2.headD 0
          let r : Int := c₁.toNat - unit.toNat
          if r ≠ 0 ∨ unit = 0 then some (some r)
          else cmpToNativeAlignedUCS2From encoding charsLeft (s1.drop byteCount) s2.tail (some r)

/-- `NW_String_CmpToNativeAlignedUCS2`: the sign of the comparison, or a failure. -/
def cmpToNativeAlignedUCS2 (encoding : Charset) (charCount : Nat) (s1 : Bytes)
    (s2 : List UInt16) : Option (Option Int) :=
  cmpToNativeAlignedUCS2From encoding charCount s1 s2 none

section Lookup

variable (encoding : Charset) (charCount : Nat) (name : Bytes)

/-- The loop of `getTokenByTag2`. `stop` is the position behind `r`. -/
def getTokenByTag2From (page : Codepage) (l stop : Nat) : Option (Option UInt16) :=
  if l < stop then
    match entryAt page.tokens page.names ((l + (stop - 1)) / 2) with
    | none => none
    | some entry =>
        match cmpToNativeAlignedUCS2 encoding charCount name entry.name with
        | none => none
        | some none => some none
        | some (some c) =>
            if c = 0 then some (some entry.token.toUInt16)
            else if c < 0 then getTokenByTag2From page l ((l + (stop - 1)) / 2)
            else getTokenByTag2From page ((l + (stop - 1)) / 2 + 1) stop
  else some none
termination_by stop - l
decreasing_by all_goals omega

/-- `getTokenByTag2`: the token of an entry with this name, or a failure. -/
def getTokenByTag2 (page : Codepage) : Option (Option UInt16) :=
  getTokenByTag2From encoding charCount name page 0 page.tokens.length

/-- The loop of `getTokenByTag_HandleDuplicates`, before the rest of the name index. -/
def handleDuplicatesFrom (tokens : List DictEntry) (isName : Bool) :
    List UInt8 → Option (Option UInt16)
  | [] => some none
  | k :: names =>
      match tokens[k.toNat]? with
      | none => none
      | some entry =>
          let tmpToken := entry.token.toUInt16
          if (isName ∧ tmpToken &&& 0x80 = 0) ∨ (¬ isName ∧ tmpToken &&& 0x80 ≠ 0) then
            match cmpToNativeAlignedUCS2 encoding charCount name entry.name with
            | none => none
            | some none => some none
            | some (some c) =>
                if c = 0 then some (some tmpToken)
                else handleDuplicatesFrom tokens isName names
          else handleDuplicatesFrom tokens isName names

/-- `getTokenByTag_HandleDuplicates` -/
def getTokenByTagHandleDuplicates (page : Codepage) (isName : Bool) : Option (Option UInt16) :=
  handleDuplicatesFrom encoding charCount name page.tokens isName page.names

/-- What `NW_WBXML_Dictionary_getAttributeToken2` does with a page: a token, or on to the next
page. -/
def lookupOnPage (page : Codepage) (isName : Bool) : Option (Option UInt16) :=
  match getTokenByTag2 encoding charCount name page with
  | none => none
  | some none => some none
  | some (some pageToken) =>
      if isName then
        if 128 ≤ pageToken then getTokenByTagHandleDuplicates encoding charCount name page isName
        else some (some pageToken)
      else if pageToken < 128 then
        getTokenByTagHandleDuplicates encoding charCount name page isName
      else some (some pageToken)

/-- The loop over the pages. Its counter is a byte, and it may need more steps than there are
(`none`). -/
def getAttributeTokenFrom (attrPages : List Codepage) (isName : Bool) :
    Nat → UInt8 → Option (Option UInt16)
  | 0, _ => none
  | fuel + 1, i =>
      match attrPages[i.toNat]? with
      | none => some none
      | some page =>
          match lookupOnPage encoding charCount name page isName with
          | none => none
          | some none => getAttributeTokenFrom attrPages isName fuel (i + 1)
          | some (some pageToken) => some (some (pageToken ||| (i.toUInt16 <<< 8)))

end Lookup

/-- `NW_WBXML_Dictionary_getAttributeToken2`, within so many steps of its loop. A failure is
`some none`. -/
def getAttributeToken2 (attrPages : Option (List Codepage)) (encoding : Charset)
    (charCount : Nat) (name : Option Bytes) (isName : Bool) (fuel : Nat) :
    Option (Option UInt16) :=
  match attrPages, name with
  | some attrPages, some name =>
      getAttributeTokenFrom encoding charCount name attrPages isName fuel 0
  | _, _ => some none

/-! ## What a lookup is meant to give -/

/-- A character of a name. It may be zero, since the characters of a name are counted. -/
structure NameChar (charset : Charset) where
  codePoint : Nat
  bytes : Bytes
  encodes : Encodes charset codePoint bytes

def nameBytes {charset : Charset} (name : List (NameChar charset)) : Bytes :=
  name.flatMap (·.bytes)

/-- The entry has the name `text`, and is one of a name or of a value. -/
def DictEntry.StandsFor (text : List Nat) (isName : Bool) (entry : DictEntry) : Prop :=
  entry.text = text ∧ (entry.token < 128 ↔ isName = true)

def Codepage.Has (text : List Nat) (isName : Bool) (page : Codepage) : Prop :=
  ∃ entry ∈ page.tokens, entry.StandsFor text isName

/-- The entry is on page `i`, and no page before it has one. -/
def FirstEntry (attrPages : List Codepage) (text : List Nat) (isName : Bool) (i : Nat)
    (entry : DictEntry) : Prop :=
  (∃ page, attrPages[i]? = some page ∧ entry ∈ page.tokens ∧ entry.StandsFor text isName) ∧
    ∀ j < i, ∀ page, attrPages[j]? = some page → ¬ page.Has text isName

/-- The lookup comes to an end. It succeeds if and only if a page has an entry, with the token of an
entry on the first such page and the index of this page. -/
def LooksUp {encoding : Charset} (attrPages : List Codepage) (name : List (NameChar encoding))
    (rest : Bytes) (isName : Bool) : Prop :=
  ∃ fuel result,
    getAttributeToken2 (some attrPages) encoding name.length (some (nameBytes name ++ rest))
        isName fuel = some result ∧
      (result ≠ none ↔ ∃ page ∈ attrPages, page.Has (name.map (·.codePoint)) isName) ∧
      ∀ token, result = some token → ∃ i entry,
        FirstEntry attrPages (name.map (·.codePoint)) isName i entry ∧
          token.toNat = entry.token.toNat + 256 * i

/-! ## One comparison -/

/-- The name as the comparison sees it: in 16 bits, and up to the first zero. -/
def textRead {encoding : Charset} (name : List (NameChar encoding)) : List Nat :=
  (name.map fun c => c.codePoint % 0x10000).takeWhile (· ≠ 0)

theorem textRead_nil {encoding : Charset} : textRead ([] : List (NameChar encoding)) = [] := rfl

theorem textRead_zero {encoding : Charset} {c : NameChar encoding}
    {name : List (NameChar encoding)} (hzero : c.codePoint % 0x10000 = 0) :
    textRead (c :: name) = [] := by
  rw [textRead, List.map_cons, List.takeWhile_cons, if_neg (by simp [hzero])]

theorem textRead_cons {encoding : Charset} {c : NameChar encoding}
    {name : List (NameChar encoding)} (hzero : c.codePoint % 0x10000 ≠ 0) :
    textRead (c :: name) = c.codePoint % 0x10000 :: textRead name := by
  rw [textRead, List.map_cons, List.takeWhile_cons, if_pos (by simpa using hzero)]
  rfl

/-- The comparison reads every character of the name, and has the order of the texts for its
sign. -/
theorem cmpToNativeAlignedUCS2From_name {encoding : Charset} (name : List (NameChar encoding))
    (rest : Bytes) {units : List UInt16} (hzero : 0 ∉ units) {r : Option Int}
    (hr : name = [] → r = some 0) :
    ∃ c, cmpToNativeAlignedUCS2From encoding name.length (nameBytes name ++ rest) units r =
        some (some c) ∧
      (c = 0 ↔ textRead name = units.map UInt16.toNat) ∧
      (c < 0 ↔ textRead name < units.map UInt16.toNat) := by
  induction name generalizing units r with
  | nil =>
      rw [hr rfl, textRead_nil]
      cases units with
      | nil => exact ⟨0, rfl, by simp, by simp⟩
      | cons unit units =>
          have hunit : unit.toNat ≠ 0 := by
            intro h
            apply hzero
            rw [show (0 : UInt16) = unit from UInt16.toNat_inj.mp h.symm]
            exact List.mem_cons_self
          refine ⟨-unit.toNat, rfl, ?_, ?_⟩
          · simpa using hunit
          · simpa using Nat.pos_of_ne_zero hunit
  | cons c name ih =>
      have hread := readChar_encodes c.encodes (nameBytes name ++ rest)
      have hbytes : nameBytes (c :: name) ++ rest = c.bytes ++ (nameBytes name ++ rest) := by
        rw [nameBytes, List.flatMap_cons, List.append_assoc]
        rfl
      have hunit : (UInt16.ofNat c.codePoint).toNat = c.codePoint % 0x10000 := UInt16.toNat_ofNat'
      rw [List.length_cons, cmpToNativeAlignedUCS2From, hbytes, hread]
      dsimp only
      rw [hunit, List.drop_left]
      generalize hv : c.codePoint % 0x10000 = v
      cases units with
      | nil =>
          refine ⟨v, ?_, ?_, ?_⟩
          · simp
          · by_cases hv0 : v = 0
            · simp [textRead_zero (hv.trans hv0), hv0]
            · simp [textRead_cons (hv.symm ▸ hv0), hv0]
          · simp
      | cons unit units =>
          have hne : unit ≠ 0 := fun h => hzero (h ▸ List.mem_cons_self)
          have hpos : 0 < unit.toNat := by
            apply Nat.pos_of_ne_zero
            exact fun h => hne (UInt16.toNat_inj.mp h)
          rw [List.headD_cons, List.tail_cons, List.map_cons]
          by_cases heq : v = unit.toNat
          · -- The same unit: what follows decides.
            have hv0 : c.codePoint % 0x10000 ≠ 0 := by omega
            rw [if_neg (by simp [heq, hne]), textRead_cons hv0, hv, heq]
            have hrest : 0 ∉ units := fun h => hzero (List.mem_cons_of_mem unit h)
            have hr' : name = [] → some ((unit.toNat : Int) - unit.toNat) = some 0 :=
              fun _ => by rw [Int.sub_self]
            obtain ⟨d, hd, hzero', hneg⟩ := ih hrest hr'
            refine ⟨d, hd, ?_, ?_⟩
            · simpa using hzero'
            · simpa [List.cons_lt_cons_iff] using hneg
          · refine ⟨(v : Int) - unit.toNat, if_pos (.inl (by omega)), ?_, ?_⟩
            · by_cases hv0 : v = 0
              · rw [textRead_zero (hv.trans hv0)]
                exact iff_of_false (by omega) (List.cons_ne_nil _ _).symm
              · rw [textRead_cons (hv.symm ▸ hv0), hv]
                exact iff_of_false (by omega) fun h => heq (List.cons.inj h).1
            · by_cases hv0 : v = 0
              · rw [textRead_zero (hv.trans hv0)]
                exact iff_of_true (by omega) (List.nil_lt_cons _ _)
              · rw [textRead_cons (hv.symm ▸ hv0), hv]
                simp [List.cons_lt_cons_iff, heq]

theorem cmpToNativeAlignedUCS2_name {encoding : Charset} {name : List (NameChar encoding)}
    (hname : name ≠ []) (rest : Bytes) (entry : DictEntry) :
    ∃ c, cmpToNativeAlignedUCS2 encoding name.length (nameBytes name ++ rest) entry.name =
        some (some c) ∧
      (c = 0 ↔ textRead name = entry.text) ∧ (c < 0 ↔ textRead name < entry.text) :=
  cmpToNativeAlignedUCS2From_name name rest entry.nonzero fun h => absurd h hname

/-! ## One page -/

theorem Codepage.length_names (page : Codepage) : page.names.length = page.tokens.length := by
  have hlength := page.lists.length_eq
  rwa [List.length_map, List.length_range] at hlength

theorem Codepage.exists_entry (page : Codepage) {k : UInt8} (hk : k ∈ page.names) :
    ∃ entry, page.tokens[k.toNat]? = some entry ∧ entry ∈ page.tokens := by
  have hlt : k.toNat < page.tokens.length := by
    rw [← List.mem_range]
    exact page.lists.mem_iff.mp (List.mem_map_of_mem hk)
  exact ⟨_, List.getElem?_eq_getElem hlt, List.getElem_mem hlt⟩

/-- Every entry is listed. -/
theorem Codepage.exists_index (page : Codepage) {entry : DictEntry} (h : entry ∈ page.tokens) :
    ∃ k ∈ page.names, page.tokens[k.toNat]? = some entry := by
  obtain ⟨i, hi⟩ := List.getElem?_of_mem h
  obtain ⟨hlt, -⟩ := List.getElem?_eq_some_iff.mp hi
  obtain ⟨k, hk, rfl⟩ := List.mem_map.mp (page.lists.mem_iff.mpr (List.mem_range.mpr hlt))
  exact ⟨k, hk, hi⟩

theorem Codepage.exists_entryAt (page : Codepage) {m : Nat} (hm : m < page.tokens.length) :
    ∃ entry, entryAt page.tokens page.names m = some entry ∧ entry ∈ page.tokens := by
  have hlt : m < page.names.length := by rwa [page.length_names]
  obtain ⟨entry, hentry, hmem⟩ := page.exists_entry (List.getElem_mem hlt)
  exact ⟨entry, by rw [entryAt, List.getElem?_eq_getElem hlt, Option.bind_some, hentry], hmem⟩

/-- The name at a position of the name index. -/
def Codepage.textAt (page : Codepage) (m : Nat) : List Nat :=
  (entryAt page.tokens page.names m).elim [] DictEntry.text

theorem Codepage.textAt_le (page : Codepage) (i j : Nat) (hij : i ≤ j)
    (hj : j < page.tokens.length) : page.textAt i ≤ page.textAt j := by
  rcases Nat.eq_or_lt_of_le hij with rfl | hlt
  · exact le_rfl
  · have hj' : j < page.names.length := by rwa [page.length_names]
    have hi' : i < page.names.length := hlt.trans hj'
    have hascending := List.pairwise_iff_getElem.mp page.ascending i j hi' hj' hlt
    obtain ⟨entry, hentry, -⟩ := page.exists_entry (List.getElem_mem hi')
    obtain ⟨entry', hentry', -⟩ := page.exists_entry (List.getElem_mem hj')
    rw [textAt, textAt, entryAt, entryAt, List.getElem?_eq_getElem hi',
      List.getElem?_eq_getElem hj', Option.bind_some, Option.bind_some, hentry, hentry']
    exact hascending entry hentry entry' hentry'

section Name

variable {encoding : Charset} {name : List (NameChar encoding)} (hname : name ≠ []) (rest : Bytes)
include hname

/-- The comparison with the entry at a position of the name index. -/
theorem compare_entryAt (page : Codepage) {m : Nat} (hm : m < page.tokens.length) :
    ∃ entry c, entryAt page.tokens page.names m = some entry ∧
      cmpToNativeAlignedUCS2 encoding name.length (nameBytes name ++ rest) entry.name =
        some (some c) ∧
      (c = 0 ↔ textRead name = page.textAt m) ∧ (c < 0 ↔ textRead name < page.textAt m) := by
  obtain ⟨entry, hentry, -⟩ := page.exists_entryAt hm
  obtain ⟨c, hc, hsign⟩ := cmpToNativeAlignedUCS2_name hname rest entry
  have htext : page.textAt m = entry.text := by
    rw [Codepage.textAt, hentry]
    rfl
  exact ⟨entry, c, hentry, hc, htext ▸ hsign⟩

/-- The loop bisects the names of the page. -/
theorem getTokenByTag2From_eq (page : Codepage) (l stop : Nat)
    (hstop : stop ≤ page.tokens.length) :
    getTokenByTag2From encoding name.length (nameBytes name ++ rest) page l stop =
      some ((bisectAt (textRead name) page.textAt l stop).bind fun m =>
        (entryAt page.tokens page.names m).map (·.token.toUInt16)) := by
  induction l, stop using bisectAt.induct (textRead name) page.textAt with
  | case1 l stop hlt heq =>
      obtain ⟨entry, c, hentry, hc, hzero, -⟩ :=
        compare_entryAt hname rest page (m := (l + (stop - 1)) / 2) (by omega)
      rw [getTokenByTag2From, if_pos hlt, bisectAt, if_pos hlt, if_pos heq, Option.bind_some,
        hentry]
      dsimp only
      rw [hc]
      exact if_pos (hzero.mpr heq)
  | case2 l stop hlt hne hleft ih =>
      obtain ⟨entry, c, hentry, hc, hzero, hneg⟩ :=
        compare_entryAt hname rest page (m := (l + (stop - 1)) / 2) (by omega)
      rw [getTokenByTag2From, if_pos hlt, hentry, bisectAt, if_pos hlt, if_neg hne, if_pos hleft]
      dsimp only
      rw [hc]
      dsimp only
      rw [if_neg (fun h => hne (hzero.mp h)), if_pos (hneg.mpr hleft)]
      exact ih (by omega)
  | case3 l stop hlt hne hright ih =>
      obtain ⟨entry, c, hentry, hc, hzero, hneg⟩ :=
        compare_entryAt hname rest page (m := (l + (stop - 1)) / 2) (by omega)
      rw [getTokenByTag2From, if_pos hlt, hentry, bisectAt, if_pos hlt, if_neg hne, if_neg hright]
      dsimp only
      rw [hc]
      dsimp only
      rw [if_neg (fun h => hne (hzero.mp h)), if_neg (fun h => hright (hneg.mp h))]
      exact ih hstop
  | case4 l stop hdone =>
      rw [getTokenByTag2From, if_neg hdone, bisectAt, if_neg hdone]
      rfl

/-- The bisection finds an entry with the name, of either kind. -/
theorem getTokenByTag2_spec (page : Codepage) :
    ∃ result, getTokenByTag2 encoding name.length (nameBytes name ++ rest) page = some result ∧
      (∀ token, result = some token →
        ∃ entry ∈ page.tokens, entry.text = textRead name ∧ token = entry.token.toUInt16) ∧
      (result = none → ∀ entry ∈ page.tokens, entry.text ≠ textRead name) := by
  refine ⟨_, getTokenByTag2From_eq hname rest page 0 _ le_rfl, ?_, ?_⟩
  · intro token htoken
    obtain ⟨m, hm, hmap⟩ := Option.bind_eq_some_iff.mp htoken
    obtain ⟨-, hlt, htext⟩ := eq_of_bisectAt hm
    obtain ⟨entry, hentry, hmem⟩ := page.exists_entryAt hlt
    rw [hentry, Option.map_some, Option.some.injEq] at hmap
    rw [Codepage.textAt, hentry] at htext
    exact ⟨entry, hmem, htext, hmap.symm⟩
  · intro hnone entry hmem
    obtain ⟨k, hk, hentry⟩ := page.exists_index hmem
    obtain ⟨m, hm, rfl⟩ := List.getElem_of_mem hk
    have hlt : m < page.tokens.length := by rwa [← page.length_names]
    have htext : page.textAt m = entry.text := by
      rw [Codepage.textAt, entryAt, List.getElem?_eq_getElem hm, Option.bind_some, hentry]
      rfl
    rw [← htext]
    cases hfound : bisectAt (textRead name) page.textAt 0 page.tokens.length with
    | none => exact ne_of_bisectAt_eq_none page.textAt_le le_rfl hfound (Nat.zero_le m) hlt
    | some m' =>
        -- What is found has a token.
        obtain ⟨entry', hentry', -⟩ := page.exists_entryAt (eq_of_bisectAt hfound).2.1
        rw [hfound, Option.bind_some, hentry'] at hnone
        cases hnone

end Name

/-! ## Names and values -/

/-- Bit 7 of a token says whether it is one of a value. -/
theorem token_and_eq_zero_iff (token : UInt8) : token.toUInt16 &&& 0x80 = 0 ↔ token < 128 := by
  have hlt := token.toNat_lt
  rw [← UInt16.toNat_inj, UInt16.toNat_and, UInt8.toNat_toUInt16, UInt8.lt_iff_toNat_lt]
  show token.toNat &&& 2 ^ 7 = 0 ↔ token.toNat < 128
  have hbit : token.toNat / 128 % 2 = 0 ↔ token.toNat < 128 := by omega
  rw [Nat.and_two_pow, Nat.testBit_eq_decide_div_mod_eq]
  simp [hbit]

theorem token_lt_iff (token : UInt8) : token.toUInt16 < 128 ↔ token < 128 := by
  rw [UInt16.lt_iff_toNat_lt, UInt8.lt_iff_toNat_lt, UInt8.toNat_toUInt16]
  rfl

theorem toNat_add_one {i : UInt8} (h : i.toNat + 1 < 0x100) : (i + 1).toNat = i.toNat + 1 := by
  rw [UInt8.toNat_add]
  exact Nat.mod_eq_of_lt h

theorem toNat_pageToken (token i : UInt8) :
    (token.toUInt16 ||| (i.toUInt16 <<< 8)).toNat = token.toNat + 256 * i.toNat := by
  have htoken := token.toNat_lt
  have hi := i.toNat_lt
  have hor := Nat.two_pow_add_eq_or_of_lt (i := 8) htoken i.toNat
  rw [UInt16.toNat_or, UInt16.toNat_shiftLeft, UInt8.toNat_toUInt16, UInt8.toNat_toUInt16,
    Nat.or_comm]
  show i.toNat <<< 8 % 2 ^ 16 ||| token.toNat = _
  rw [Nat.shiftLeft_eq, Nat.mod_eq_of_lt (by omega), Nat.mul_comm, ← hor]
  omega

/-- A lookup on a page is answered by an entry of the right kind if there is one. -/
def Answers (page : Codepage) (text : List Nat) (isName : Bool) (result : Option UInt16) : Prop :=
  (∀ token, result = some token →
    ∃ entry ∈ page.tokens, entry.StandsFor text isName ∧ token = entry.token.toUInt16) ∧
  (result = none → ¬ page.Has text isName)

/-- The first page with an entry, if one of the first 256 pages has any. -/
theorem exists_first {attrPages : List Codepage} {text : List Nat} {isName : Bool}
    (h : ∃ page ∈ attrPages.take 0x100, page.Has text isName) :
    ∃ i page, i < 0x100 ∧ attrPages[i]? = some page ∧ page.Has text isName ∧
      ∀ j < i, ∀ page', attrPages[j]? = some page' → ¬ page'.Has text isName := by
  classical
  have hexists : ∃ i, i < 0x100 ∧ ∃ page, attrPages[i]? = some page ∧ page.Has text isName := by
    obtain ⟨page, hmem, hhas⟩ := h
    obtain ⟨i, hi, rfl⟩ := List.mem_take_iff_getElem.mp hmem
    exact ⟨i, by omega, _, List.getElem?_eq_getElem _, hhas⟩
  obtain ⟨hlt, page, hpage, hhas⟩ := Nat.find_spec hexists
  refine ⟨Nat.find hexists, page, hlt, hpage, hhas, fun j hj page' hpage' hhas' => ?_⟩
  exact Nat.find_min hexists hj ⟨hj.trans hlt, page', hpage', hhas'⟩

section Name

variable {encoding : Charset} {name : List (NameChar encoding)} (hname : name ≠ []) (rest : Bytes)
include hname

/-- The second search goes through the name index, and compares the entries of the right kind. -/
theorem handleDuplicatesFrom_spec (page : Codepage) (isName : Bool) (names : List UInt8)
    (hnames : ∀ k ∈ names, k ∈ page.names) :
    ∃ result, handleDuplicatesFrom encoding name.length (nameBytes name ++ rest) page.tokens
        isName names = some result ∧
      (∀ token, result = some token → ∃ entry ∈ page.tokens,
        entry.StandsFor (textRead name) isName ∧ token = entry.token.toUInt16) ∧
      (result = none → ∀ k ∈ names, ∀ entry, page.tokens[k.toNat]? = some entry →
        ¬ entry.StandsFor (textRead name) isName) := by
  induction names with
  | nil => exact ⟨none, rfl, by simp, by simp⟩
  | cons k names ih =>
      obtain ⟨result, hresult, hsome, hnone⟩ := ih fun k' h => hnames k' (List.mem_cons_of_mem k h)
      obtain ⟨entry, hentry, hmem⟩ := page.exists_entry (hnames k List.mem_cons_self)
      obtain ⟨c, hc, hzero, -⟩ := cmpToNativeAlignedUCS2_name hname rest entry
      have hkind : (isName = true ∧ entry.token.toUInt16 &&& 0x80 = 0) ∨
          (¬ isName = true ∧ entry.token.toUInt16 &&& 0x80 ≠ 0) ↔
            (entry.token < 128 ↔ isName = true) := by
        rw [ne_eq, token_and_eq_zero_iff]
        tauto
      rw [handleDuplicatesFrom, hentry]
      dsimp only
      rw [hc]
      by_cases hstands : entry.StandsFor (textRead name) isName
      · rw [if_pos (hkind.mpr hstands.2)]
        dsimp only
        rw [if_pos (hzero.mpr hstands.1.symm)]
        refine ⟨_, rfl, ?_, nofun⟩
        intro token htoken
        exact ⟨entry, hmem, hstands, (Option.some.inj htoken).symm⟩
      · -- Either way, the loop goes on.
        refine ⟨result, ?_, hsome, ?_⟩
        · split
          next hright =>
            dsimp only
            rw [if_neg fun h => hstands ⟨(hzero.mp h).symm, hkind.mp hright⟩]
            exact hresult
          next => exact hresult
        · intro h k' hk' entry' hentry'
          rcases List.mem_cons.mp hk' with rfl | hk'
          · rw [hentry, Option.some.injEq] at hentry'
            exact hentry' ▸ hstands
          · exact hnone h k' hk' entry' hentry'

theorem handleDuplicates_answers (page : Codepage) (isName : Bool) :
    ∃ result, getTokenByTagHandleDuplicates encoding name.length (nameBytes name ++ rest) page
        isName = some result ∧ Answers page (textRead name) isName result := by
  obtain ⟨result, hresult, hsome, hnone⟩ :=
    handleDuplicatesFrom_spec hname rest page isName page.names fun _ h => h
  refine ⟨result, hresult, hsome, ?_⟩
  rintro h ⟨entry, hmem, hstands⟩
  obtain ⟨k, hk, hentry⟩ := page.exists_index hmem
  exact hnone h k hk entry hentry hstands

/-- The two searches together find what there is on the page. -/
theorem lookupOnPage_answers (page : Codepage) (isName : Bool) :
    ∃ result, lookupOnPage encoding name.length (nameBytes name ++ rest) page isName =
        some result ∧ Answers page (textRead name) isName result := by
  obtain ⟨result, hresult, hsome, hnone⟩ := getTokenByTag2_spec hname rest page
  obtain ⟨duplicate, hduplicate, hanswers⟩ := handleDuplicates_answers hname rest page isName
  rw [lookupOnPage, hresult]
  cases result with
  | none =>
      refine ⟨none, rfl, nofun, ?_⟩
      rintro - ⟨entry, hmem, htext, -⟩
      exact hnone rfl entry hmem htext
  | some token =>
      obtain ⟨entry, hmem, htext, rfl⟩ := hsome token rfl
      have hfound (hkind : entry.token < 128 ↔ isName = true) :
          Answers page (textRead name) isName (some entry.token.toUInt16) := by
        refine ⟨fun token h => ?_, nofun⟩
        exact ⟨entry, hmem, ⟨htext, hkind⟩, (Option.some.inj h).symm⟩
      have hkind := token_lt_iff entry.token
      dsimp only
      -- The kind of what the bisection has found decides whether there is a second search.
      cases isName with
      | true =>
          rw [if_pos rfl]
          by_cases hvalue : 128 ≤ entry.token.toUInt16
          · rw [if_pos hvalue]
            exact ⟨duplicate, hduplicate, hanswers⟩
          · rw [if_neg hvalue]
            have hlt : entry.token < 128 := hkind.mp (UInt16.not_le.mp hvalue)
            exact ⟨_, rfl, hfound (iff_of_true hlt rfl)⟩
      | false =>
          rw [if_neg Bool.false_ne_true]
          by_cases hvalue : entry.token.toUInt16 < 128
          · rw [if_pos hvalue]
            exact ⟨duplicate, hduplicate, hanswers⟩
          · rw [if_neg hvalue]
            exact ⟨_, rfl, hfound (iff_of_false (fun h => hvalue (hkind.mpr h)) Bool.false_ne_true)⟩

/-! ## The pages -/

/-- A page without an entry is passed over. -/
theorem getAttributeTokenFrom_absent {attrPages : List Codepage} {isName : Bool} {i : UInt8}
    {page : Codepage} (hpage : attrPages[i.toNat]? = some page)
    (habsent : ¬ page.Has (textRead name) isName) (fuel : Nat) :
    getAttributeTokenFrom encoding name.length (nameBytes name ++ rest) attrPages isName
        (fuel + 1) i =
      getAttributeTokenFrom encoding name.length (nameBytes name ++ rest) attrPages isName
        fuel (i + 1) := by
  obtain ⟨result, hresult, hsome, -⟩ := lookupOnPage_answers hname rest page isName
  rw [getAttributeTokenFrom, hpage]
  dsimp only
  rw [hresult]
  cases result with
  | none => rfl
  | some token =>
      obtain ⟨entry, hmem, hstands, -⟩ := hsome token rfl
      exact (habsent ⟨entry, hmem, hstands⟩).elim

/-- A page with an entry ends the loop. -/
theorem getAttributeTokenFrom_present {attrPages : List Codepage} {isName : Bool} {i : UInt8}
    {page : Codepage} (hpage : attrPages[i.toNat]? = some page)
    (hpresent : page.Has (textRead name) isName) :
    ∃ entry ∈ page.tokens, entry.StandsFor (textRead name) isName ∧ ∀ fuel,
      getAttributeTokenFrom encoding name.length (nameBytes name ++ rest) attrPages isName
        (fuel + 1) i = some (some (entry.token.toUInt16 ||| (i.toUInt16 <<< 8))) := by
  obtain ⟨result, hresult, hsome, hnone⟩ := lookupOnPage_answers hname rest page isName
  cases result with
  | none => exact (hnone rfl hpresent).elim
  | some token =>
      obtain ⟨entry, hmem, hstands, rfl⟩ := hsome token rfl
      refine ⟨entry, hmem, hstands, fun fuel => ?_⟩
      rw [getAttributeTokenFrom, hpage]
      dsimp only
      rw [hresult]

/-- The loop gives the token of an entry on the first page that has one, if its counter gets
there. -/
theorem getAttributeTokenFrom_first {attrPages : List Codepage} {isName : Bool} {page : Codepage}
    (hpresent : page.Has (textRead name) isName) (d : Nat) (i : UInt8) (hi : i.toNat + d < 0x100)
    (hpage : attrPages[i.toNat + d]? = some page)
    (hbefore : ∀ j < d, ∀ page', attrPages[i.toNat + j]? = some page' →
      ¬ page'.Has (textRead name) isName) :
    ∃ entry ∈ page.tokens, entry.StandsFor (textRead name) isName ∧
      ∃ token : UInt16, token.toNat = entry.token.toNat + 256 * (i.toNat + d) ∧ ∀ fuel, d < fuel →
        getAttributeTokenFrom encoding name.length (nameBytes name ++ rest) attrPages isName
          fuel i = some (some token) := by
  induction d generalizing i with
  | zero =>
      obtain ⟨entry, hmem, hstands, hrun⟩ := getAttributeTokenFrom_present hname rest hpage hpresent
      refine ⟨entry, hmem, hstands, _, toNat_pageToken entry.token i, fun fuel hfuel => ?_⟩
      obtain ⟨fuel, rfl⟩ := Nat.exists_eq_add_of_lt hfuel
      rw [Nat.zero_add]
      exact hrun fuel
  | succ d ih =>
      have hnext : (i + 1).toNat = i.toNat + 1 := toNat_add_one (by omega)
      have hlt : i.toNat < attrPages.length := by
        obtain ⟨h, -⟩ := List.getElem?_eq_some_iff.mp hpage
        omega
      have hhere := List.getElem?_eq_getElem hlt
      obtain ⟨entry, hmem, hstands, token, htoken, hrun⟩ := ih (i + 1) (by omega)
        (by rw [hnext, ← hpage, Nat.add_assoc, Nat.add_comm 1])
        (fun j hj page' hpage' => hbefore (j + 1) (Nat.succ_lt_succ hj) page'
          (by rw [← hpage', hnext, Nat.add_assoc, Nat.add_comm 1]))
      refine ⟨entry, hmem, hstands, token, by omega, fun fuel hfuel => ?_⟩
      obtain ⟨fuel, rfl⟩ := Nat.exists_eq_add_of_lt (Nat.zero_lt_of_lt hfuel)
      rw [Nat.zero_add, getAttributeTokenFrom_absent hname rest hhere
        (hbefore 0 (Nat.zero_lt_succ d) _ hhere)]
      exact hrun fuel (by omega)

/-- With fewer than 256 pages, a loop that finds nothing ends with a failure. -/
theorem getAttributeTokenFrom_none {attrPages : List Codepage} {isName : Bool}
    (hpages : attrPages.length < 0x100)
    (hnone : ∀ page ∈ attrPages, ¬ page.Has (textRead name) isName) (d : Nat) (i : UInt8)
    (hd : i.toNat + d = attrPages.length) (fuel : Nat) (hfuel : d < fuel) :
    getAttributeTokenFrom encoding name.length (nameBytes name ++ rest) attrPages isName
      fuel i = some none := by
  induction d generalizing i fuel with
  | zero =>
      obtain ⟨fuel, rfl⟩ := Nat.exists_eq_add_of_lt hfuel
      have hend : attrPages[i.toNat]? = none := List.getElem?_eq_none (by omega)
      rw [getAttributeTokenFrom, hend]
  | succ d ih =>
      obtain ⟨fuel, rfl⟩ := Nat.exists_eq_add_of_lt (Nat.zero_lt_of_lt hfuel)
      have hnext : (i + 1).toNat = i.toNat + 1 := toNat_add_one (by omega)
      have hlt : i.toNat < attrPages.length := by omega
      rw [Nat.zero_add, getAttributeTokenFrom_absent hname rest (List.getElem?_eq_getElem hlt)
        (hnone _ (List.getElem_mem hlt))]
      exact ih (i + 1) (by omega) fuel (by omega)

/-- With 256 pages or more, a loop that finds nothing on the first 256 goes round for ever. -/
theorem getAttributeTokenFrom_forever {attrPages : List Codepage} {isName : Bool}
    (hpages : 0x100 ≤ attrPages.length)
    (hnone : ∀ page ∈ attrPages.take 0x100, ¬ page.Has (textRead name) isName) (fuel : Nat)
    (i : UInt8) :
    getAttributeTokenFrom encoding name.length (nameBytes name ++ rest) attrPages isName
      fuel i = none := by
  induction fuel generalizing i with
  | zero => rfl
  | succ fuel ih =>
      have hlt := i.toNat_lt
      have hhere : attrPages[i.toNat]? = some attrPages[i.toNat] := List.getElem?_eq_getElem _
      have hmem : attrPages[i.toNat] ∈ attrPages.take 0x100 := by
        rw [List.mem_take_iff_getElem]
        exact ⟨i.toNat, by omega, rfl⟩
      rw [getAttributeTokenFrom_absent hname rest hhere (hnone _ hmem)]
      exact ih (i + 1)

/-- How a lookup runs: it finds the first entry with the text that it reads, or finds nothing, or
goes round for ever. -/
theorem getAttributeToken2_cases (attrPages : List Codepage) (isName : Bool) :
    (∃ i entry token, i < 0x100 ∧ FirstEntry attrPages (textRead name) isName i entry ∧
        token.toNat = entry.token.toNat + 256 * i ∧
        ∃ n, ∀ fuel, n < fuel → getAttributeToken2 (some attrPages) encoding name.length
          (some (nameBytes name ++ rest)) isName fuel = some (some token)) ∨
      (attrPages.length < 0x100 ∧ (∀ page ∈ attrPages, ¬ page.Has (textRead name) isName) ∧
        ∃ n, ∀ fuel, n < fuel → getAttributeToken2 (some attrPages) encoding name.length
          (some (nameBytes name ++ rest)) isName fuel = some none) ∨
      (0x100 ≤ attrPages.length ∧
        (∀ page ∈ attrPages.take 0x100, ¬ page.Has (textRead name) isName) ∧
        ∀ fuel, getAttributeToken2 (some attrPages) encoding name.length
          (some (nameBytes name ++ rest)) isName fuel = none) := by
  by_cases hexists : ∃ page ∈ attrPages.take 0x100, page.Has (textRead name) isName
  · obtain ⟨i, page, hlt, hpage, hhas, hbefore⟩ := exists_first hexists
    have hzero : (0 : UInt8).toNat + i = i := Nat.zero_add i
    obtain ⟨entry, hmem, hstands, token, htoken, hrun⟩ :=
      getAttributeTokenFrom_first hname rest hhas i 0 (by omega) (by rw [hzero]; exact hpage)
        (fun j hj page' hpage' => hbefore j hj page' (by rwa [← Nat.zero_add j]))
    rw [hzero] at htoken
    exact .inl ⟨i, entry, token, hlt, ⟨⟨page, hpage, hmem, hstands⟩, hbefore⟩, htoken, i, hrun⟩
  · have hnone : ∀ page ∈ attrPages.take 0x100, ¬ page.Has (textRead name) isName :=
      fun page hmem hhas => hexists ⟨page, hmem, hhas⟩
    by_cases hpages : attrPages.length < 0x100
    · rw [List.take_of_length_le hpages.le] at hnone
      exact .inr (.inl ⟨hpages, hnone, attrPages.length, fun fuel hfuel =>
        getAttributeTokenFrom_none hname rest hpages hnone _ 0 (Nat.zero_add _) fuel hfuel⟩)
    · exact .inr (.inr ⟨Nat.le_of_not_lt hpages, hnone, fun fuel =>
        getAttributeTokenFrom_forever hname rest (Nat.le_of_not_lt hpages) hnone fuel 0⟩)

end Name

/-- A lookup that has come to an end stays there. -/
theorem getAttributeTokenFrom_mono {encoding : Charset} {charCount : Nat} {name : Bytes}
    {attrPages : List Codepage} {isName : Bool} {fuel fuel' : Nat} (hle : fuel ≤ fuel') {i : UInt8}
    {result : Option UInt16}
    (h : getAttributeTokenFrom encoding charCount name attrPages isName fuel i = some result) :
    getAttributeTokenFrom encoding charCount name attrPages isName fuel' i = some result := by
  induction fuel generalizing fuel' i with
  | zero => cases h
  | succ fuel ih =>
      obtain ⟨fuel', rfl⟩ : ∃ n, fuel' = n + 1 := ⟨fuel' - 1, by omega⟩
      rw [getAttributeTokenFrom] at h ⊢
      cases hpage : attrPages[i.toNat]? with
      | none =>
          rw [hpage] at h
          exact h
      | some page =>
          rw [hpage] at h
          dsimp only at h ⊢
          cases hlookup : lookupOnPage encoding charCount name page isName with
          | none =>
              rw [hlookup] at h
              cases h
          | some found =>
              rw [hlookup] at h
              cases found with
              | none => exact ih (Nat.le_of_succ_le_succ hle) h
              | some token => exact h

/-! ## The names that are found -/

/-- The characters of the name are units of 16 bits that are not zero. -/
def FitsUnits {encoding : Charset} (name : List (NameChar encoding)) : Prop :=
  ∀ c ∈ name, c.codePoint ≠ 0 ∧ c.codePoint < 0x10000

theorem textRead_of_fitsUnits {encoding : Charset} {name : List (NameChar encoding)}
    (h : FitsUnits name) : textRead name = name.map (·.codePoint) := by
  induction name with
  | nil => rfl
  | cons c name ih =>
      obtain ⟨hzero, hlt⟩ := h c List.mem_cons_self
      have hmod : c.codePoint % 0x10000 = c.codePoint := Nat.mod_eq_of_lt hlt
      rw [textRead_cons (hmod.symm ▸ hzero), hmod, List.map_cons,
        ih fun c' hc' => h c' (List.mem_cons_of_mem c hc')]

/-- A name that is in a dictionary fits. -/
theorem fitsUnits_of_has {encoding : Charset} {name : List (NameChar encoding)} {page : Codepage}
    {isName : Bool} (h : page.Has (name.map (·.codePoint)) isName) : FitsUnits name := by
  obtain ⟨entry, -, htext, -⟩ := h
  intro c hc
  obtain ⟨unit, hunit, hcode⟩ : ∃ unit ∈ entry.name, unit.toNat = c.codePoint := by
    rw [← List.mem_map, ← DictEntry.text, htext]
    exact List.mem_map_of_mem hc
  rw [← hcode]
  refine ⟨fun h => entry.nonzero ?_, unit.toNat_lt⟩
  rwa [show (0 : UInt16) = unit from UInt16.toNat_inj.mp h.symm]

/-- The lookup does what it is meant to do exactly if it does not go round for ever, and its name
is not taken for another one. -/
theorem looksUp_iff {encoding : Charset} (attrPages : List Codepage)
    (name : List (NameChar encoding)) (hname : name ≠ []) (rest : Bytes) (isName : Bool) :
    LooksUp attrPages name rest isName ↔
      (attrPages.length < 0x100 ∨
          ∃ page ∈ attrPages.take 0x100, page.Has (name.map (·.codePoint)) isName) ∧
        (FitsUnits name ∨ ∀ page ∈ attrPages, ¬ page.Has (textRead name) isName) := by
  have hread {page : Codepage} (h : page.Has (name.map (·.codePoint)) isName) :
      page.Has (textRead name) isName := by
    rwa [textRead_of_fitsUnits (fitsUnits_of_has h)]
  rcases getAttributeToken2_cases hname rest attrPages isName with
    ⟨i, entry, token, hi, hfirst, htoken, n, hrun⟩ | ⟨hpages, hnone, n, hrun⟩ |
    ⟨hpages, hnone, hrun⟩
  · -- An entry has the text that is read: the name has to be this text.
    obtain ⟨⟨page, hpage, hmem, hstands⟩, -⟩ := id hfirst
    have hhas : page.Has (textRead name) isName := ⟨entry, hmem, hstands⟩
    have hpageMem : page ∈ attrPages := List.mem_of_getElem? hpage
    constructor
    · rintro ⟨fuel, result, hend, hiff, -⟩
      have hsame := getAttributeTokenFrom_mono (Nat.le_add_left fuel (n + 1)) hend
      obtain rfl : some token = result :=
        Option.some.inj ((hrun (n + 1 + fuel) (by omega)).symm.trans hsame)
      obtain ⟨page', -, hhas'⟩ := hiff.mp (by simp)
      have hfits := fitsUnits_of_has hhas'
      rw [textRead_of_fitsUnits hfits] at hhas
      refine ⟨.inr ⟨page, ?_, hhas⟩, .inl hfits⟩
      obtain ⟨hlt, rfl⟩ := List.getElem?_eq_some_iff.mp hpage
      exact List.mem_take_iff_getElem.mpr ⟨i, by omega, rfl⟩
    · rintro ⟨-, hfits | hnot⟩
      · rw [textRead_of_fitsUnits hfits] at hfirst hhas
        refine ⟨n + 1, some token, hrun _ (Nat.lt_succ_self n), ?_, ?_⟩
        · exact iff_of_true (by simp) ⟨page, hpageMem, hhas⟩
        · rintro _ ⟨⟩
          exact ⟨i, entry, hfirst, htoken⟩
      · exact (hnot page hpageMem hhas).elim
  · -- Nothing is found, and there is nothing.
    refine iff_of_true ⟨n + 1, none, hrun _ (Nat.lt_succ_self n), ?_, nofun⟩
      ⟨.inl hpages, .inr hnone⟩
    refine iff_of_false (fun h => h rfl) ?_
    rintro ⟨page, hmem, hhas⟩
    exact hnone page hmem (hread hhas)
  · -- The loop does not end.
    apply iff_of_false
    · rintro ⟨fuel, result, hend, -⟩
      rw [hrun fuel] at hend
      cases hend
    · rintro ⟨hshort | ⟨page, hmem, hhas⟩, -⟩
      · omega
      · exact hnone page hmem (hread hhas)

/-- A page with one entry, `a` as the name of an attribute. -/
def pageA : Codepage where
  tokens := [⟨5, [0x61], by decide⟩]
  names := [0]
  count_lt := by decide
  lists := by decide
  ascending := by decide

theorem looksUp_iff_letterA :
    ([⟨0x61, [0x61], .utf8One (by decide)⟩] : List (NameChar .utf8)) ≠ [] ∧
      LooksUp [pageA] ([⟨0x61, [0x61], .utf8One (by decide)⟩] : List (NameChar .utf8)) [] true :=
  ⟨by simp, (looksUp_iff [pageA] _ (by simp) [] true).mpr ⟨.inl (by decide),
    .inl (by simp [FitsUnits])⟩⟩

/-- U+10061, which is cut to `a`. -/
def linearBName : List (NameChar .utf8) :=
  [⟨0x10061, [0xF0, 0x90, 0x81, 0xA1], .utf8Four (by decide)⟩]

def emptyPage : Codepage where
  tokens := []
  names := []
  count_lt := by decide
  lists := by decide
  ascending := by decide

/-- A name is taken for another one, and a name that is on none of 256 pages is looked for without
an end. -/
theorem not_looksUp :
    ¬ LooksUp [pageA] linearBName [] true ∧
      ¬ LooksUp (List.replicate 0x100 emptyPage) linearBName [] true := by
  have hname : linearBName ≠ [] := by simp [linearBName]
  constructor
  · rintro ⟨fuel, result, hrun, hiff, -⟩
    have hfound : pageA.Has (textRead linearBName) true :=
      ⟨⟨5, [0x61], by decide⟩, List.mem_singleton.mpr rfl, by decide, by decide⟩
    have hpage : [pageA][(0 : UInt8).toNat]? = some pageA := rfl
    obtain ⟨entry, -, -, hpresent⟩ := getAttributeTokenFrom_present hname [] hpage hfound
    have hsame := getAttributeTokenFrom_mono (Nat.le_add_right fuel 1) hrun
    obtain rfl := Option.some.inj (hsame.symm.trans (hpresent fuel))
    obtain ⟨page, -, hhas⟩ := hiff.mp (by simp)
    have hfits := fitsUnits_of_has hhas _ (List.mem_singleton.mpr rfl)
    exact absurd hfits.2 (by decide)
  · rintro ⟨fuel, result, hrun, -⟩
    have hnone : ∀ page ∈ (List.replicate 0x100 emptyPage).take 0x100,
        ¬ page.Has (textRead linearBName) true := by
      intro page hmem
      rw [List.eq_of_mem_replicate (List.mem_of_mem_take hmem)]
      rintro ⟨entry, hentry, -⟩
      cases hentry
    have hforever := getAttributeTokenFrom_forever hname [] List.length_replicate.ge hnone fuel 0
    cases hrun.symm.trans hforever

end SymbianWeb.Wbxml
