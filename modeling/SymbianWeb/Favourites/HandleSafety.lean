import Mathlib
import SymbianWeb.Favourites.SessionHandles

/-!
# Which requests get only what the client was given

A request meets its handles (`Meets`) when it carries no word that `EntryL` lets through by
mistake: the index is not the length of the table, the check number is not one that a free slot
keeps, the object in the slot is of the type that is used, and the table does not move under the
request. In every run of such requests nothing is read or used that must not be, each entry that
is found belongs to a handle that is alive, and every handle given out is positive
(`handles_sound`).
-/

set_option autoImplicit false

namespace SymbianWeb.Favourites

open TFavouritesHandle FaultState

/-! ## Words -/

theorem toNat_field (w : Word) (n m : Nat) (h : n + m ≤ 32) :
    (w.sshiftRight n &&& BitVec.ofNat 32 (2 ^ m - 1)).toNat = w.toNat / 2 ^ n % 2 ^ m := by
  -- the mask takes away the bits that the sign is shifted into
  have hlogic : w.sshiftRight n &&& BitVec.ofNat 32 (2 ^ m - 1) =
      w >>> n &&& BitVec.ofNat 32 (2 ^ m - 1) := by
    ext i hi
    simp only [BitVec.getElem_and, BitVec.getElem_sshiftRight, BitVec.getElem_ushiftRight]
    by_cases him : i < m
    · have hin : n + i < 32 := by omega
      simp [hin]
    · have hbit : (BitVec.ofNat 32 (2 ^ m - 1))[i] = false := by
        rw [BitVec.getElem_eq_testBit_toNat, BitVec.toNat_ofNat, Nat.testBit_mod_two_pow]
        simp [Nat.testBit_two_pow_sub_one, him]
      simp [hbit]
  have hfits : 2 ^ m - 1 < 2 ^ 32 := by
    have hle : 2 ^ m ≤ 2 ^ 32 := Nat.pow_le_pow_right (by omega) (by omega)
    have hpos : 0 < 2 ^ m := Nat.two_pow_pos m
    omega
  rw [hlogic, BitVec.toNat_and, BitVec.toNat_ushiftRight, BitVec.toNat_ofNat,
    Nat.mod_eq_of_lt hfits, Nat.and_two_pow_sub_one_eq_mod, Nat.shiftRight_eq_div_pow]

theorem index_eq (w : Word) : index w = w.toNat / 256 % 256 := toNat_field w 8 8 (by decide)

theorem chkNum_eq (w : Word) : chkNum w = w.toNat / 65536 % 32768 :=
  toNat_field w 16 15 (by decide)

theorem toTInt_toNat (w : Word) : (toTInt w).toNat = w.toNat / 256 % 8388608 * 256 := by
  have hshift : toTInt w = (w >>> 8 &&& BitVec.ofNat 32 (2 ^ 23 - 1)) <<< 8 := by
    show w &&& (BitVec.ofNat 32 (2 ^ 23 - 1) <<< 8) = _
    ext i hi
    rw [BitVec.getElem_and, BitVec.getElem_shiftLeft, BitVec.getElem_shiftLeft]
    by_cases hlow : i < 8
    · simp [hlow]
    · have hback : 8 + (i - 8) = i := by omega
      simp [hlow, hback, BitVec.getLsbD_eq_getElem hi]
  have hmask : (2 ^ 23 - 1) % 2 ^ 32 = 2 ^ 23 - 1 := by decide
  rw [hshift, BitVec.toNat_shiftLeft, BitVec.toNat_and, BitVec.toNat_ushiftRight,
    BitVec.toNat_ofNat, hmask, Nat.and_two_pow_sub_one_eq_mod, Nat.shiftRight_eq_div_pow,
    Nat.shiftLeft_eq]
  omega

theorem ofParts_toNat {i n : Nat} (hi : i < 256) (hn : n < 32768) :
    (ofParts i n).toNat = (n * 256 + i) * 256 := by
  have hor : (BitVec.ofNat 32 n <<< 8) ||| BitVec.ofNat 32 i = BitVec.ofNat 32 (n * 256 + i) := by
    apply BitVec.eq_of_toNat_eq
    rw [BitVec.toNat_or, BitVec.toNat_shiftLeft, BitVec.toNat_ofNat, BitVec.toNat_ofNat,
      BitVec.toNat_ofNat, Nat.mod_eq_of_lt (show n < 2 ^ 32 by omega),
      Nat.mod_eq_of_lt (show i < 2 ^ 32 by omega), Nat.shiftLeft_eq,
      Nat.mod_eq_of_lt (show n * 2 ^ 8 < 2 ^ 32 by omega),
      Nat.mod_eq_of_lt (show n * 256 + i < 2 ^ 32 by omega)]
    have hdisjoint := Nat.two_pow_add_eq_or_of_lt (show i < 2 ^ 8 by omega) n
    calc n * 2 ^ 8 ||| i = 2 ^ 8 * n ||| i := by rw [Nat.mul_comm]
      _ = 2 ^ 8 * n + i := hdisjoint.symm
      _ = n * 256 + i := by omega
  show (((BitVec.ofNat 32 n <<< 8) ||| BitVec.ofNat 32 i) <<< 8).toNat = _
  rw [hor, BitVec.toNat_shiftLeft, BitVec.toNat_ofNat, Nat.shiftLeft_eq]
  omega

/-- A handle has the index and the check number that it was made of. -/
theorem index_ofParts {i n : Nat} (hi : i < 256) (hn : n < 32768) : index (ofParts i n) = i := by
  rw [index_eq, ofParts_toNat hi hn]
  omega

theorem chkNum_ofParts {i n : Nat} (hi : i < 256) (hn : n < 32768) : chkNum (ofParts i n) = n := by
  rw [chkNum_eq, ofParts_toNat hi hn]
  omega

theorem index_lt (w : Word) : index w < 256 := by
  rw [index_eq]
  omega

theorem chkNum_lt (w : Word) : chkNum w < 32768 := by
  rw [chkNum_eq]
  omega

/-- The handle of a word is made of the index and the check number of the word. -/
theorem toTInt_eq_ofParts (w : Word) : toTInt w = ofParts (index w) (chkNum w) := by
  apply BitVec.eq_of_toNat_eq
  rw [toTInt_toNat, ofParts_toNat (index_lt w) (chkNum_lt w), index_eq, chkNum_eq]
  omega

/-- A handle with a check number is positive. -/
theorem ofParts_pos {i n : Nat} (hi : i < 256) (hn : 0 < n) (hlt : n < 32768) :
    0 < (ofParts i n).toInt := by
  have hnat := ofParts_toNat hi hlt
  rw [BitVec.toInt_eq_toNat_cond, if_pos (by omega)]
  omega

/-! ## Good requests -/

/-- The entry in the slot at `i`. -/
def CFavouritesSession.At (sess : CFavouritesSession) (i : Nat)
    (entry : TFavouritesSessionEntry) : Prop :=
  sess.iEntries[i]? = some entry

/-- `EntryL` does not read behind the table, and does not return a free slot. -/
def WordOk (sess : CFavouritesSession) (w : Word) : Prop :=
  index w ≠ sess.iNumEntries ∧
    ∀ entry, sess.At (index w) entry → entry.iChkNum = chkNum w → entry.iObject ≠ none

/-- An object that `EntryL` returns is of the type. -/
def TypeOk (sess : CFavouritesSession) (w : Word) (type : TType) : Prop :=
  ∀ entry object, sess.At (index w) entry → entry.iChkNum = chkNum w →
    entry.iObject = some object → object.type = type

/-- Whether the reference to the request's entry is used. -/
def usesEntry (steps : List Step) : Bool :=
  steps.any fun
    | .use _ => true
    | .release => true
    | _ => false

/-- Whether the reference to the request's entry is used behind `NewHandleL`. -/
def usesAfterHandle : List Step → Bool
  | [] => false
  | .newHandle :: steps => usesEntry steps
  | _ :: steps => usesAfterHandle steps

/-- `NewHandleL` moves the table to another block of memory. -/
def Moves (r : Request) (sess : CFavouritesSession) : Prop :=
  sess.Grows ∧ r.allocated = true ∧ r.moved = true

/-- The words of the request name objects of the types that its function uses, as far as `EntryL`
lets them through, and the table does not move while the request holds a reference into it. -/
structure Meets (r : Request) (sess : CFavouritesSession) : Prop where
  word : isNull r.word = false → WordOk sess r.word
  type : isNull r.word = false → ∀ type, Step.use type ∈ objectScript (function r.word) →
    TypeOk sess r.word type
  int0 : isNull r.word = false → Step.useStream ∈ objectScript (function r.word) →
    WordOk sess r.int0 ∧ TypeOk sess r.int0 .EStream
  still : isNull r.word = false → usesAfterHandle (objectScript (function r.word)) = true →
    ¬ Moves r sess

/-! ## What must hold -/

/-- What a request has seen is what the client may have: an entry found for a word is that of a
handle that is alive, the one in the word, and a handle that is sent is positive. -/
def Observation.Sound : Observation → Prop
  | .entry word found live =>
      ∃ grant ∈ live, grant.handle = toTInt word ∧ found = some grant.object
  | .reply handle => 0 < handle.toInt

/-- The invariant of the session: each object in the table is alive under the handle of its slot,
and in one slot only. -/
structure SessionInv (sess : CFavouritesSession) : Prop where
  bound : sess.iEntries.length ≤ 256
  next : 0 < sess.iChkNum
  numbers : ∀ i entry, sess.At i entry → entry.iChkNum < 32768
  granted : ∀ i entry object, sess.At i entry → entry.iObject = some object →
    ⟨ofParts i entry.iChkNum, object⟩ ∈ sess.live ∧ object.id < sess.next
  distinct : ∀ i j e e' object, sess.At i e → sess.At j e' → e.iObject = some object →
    e'.iObject = some object → i = j
  seen : ∀ o ∈ sess.trace, o.Sound

theorem sessionInv_start : SessionInv .start where
  bound := Nat.zero_le _
  next := Nat.one_pos
  numbers := by
    intro i entry h
    cases h
  granted := by
    intro i entry object h
    cases h
  distinct := by
    intro i j e e' object h
    cases h
  seen := by
    intro o h
    cases h

theorem SessionInv.see {sess : CFavouritesSession} (h : SessionInv sess) {o : Observation}
    (ho : o.Sound) : SessionInv (sess.see o) where
  bound := h.bound
  next := h.next
  numbers := h.numbers
  granted := h.granted
  distinct := h.distinct
  seen := by
    intro o' hmem
    rcases List.mem_cons.1 hmem with rfl | hmem
    · exact ho
    · exact h.seen o' hmem

/-- What changes a free slot to an entry without an object keeps the invariant. -/
theorem SessionInv.of_objects {sess sess' : CFavouritesSession} (h : SessionInv sess)
    (hbound : sess'.iEntries.length ≤ 256) (hnext : 0 < sess'.iChkNum)
    (hid : sess.next ≤ sess'.next) (htrace : sess'.trace = sess.trace)
    (hold : ∀ i entry, sess'.At i entry → entry.iChkNum < 32768 ∧
      ∀ object, entry.iObject = some object →
        sess.At i entry ∧ (⟨ofParts i entry.iChkNum, object⟩ ∈ sess.live →
          ⟨ofParts i entry.iChkNum, object⟩ ∈ sess'.live)) :
    SessionInv sess' where
  bound := hbound
  next := hnext
  numbers := fun i entry hat => (hold i entry hat).1
  granted := by
    intro i entry object hat hobject
    obtain ⟨hat', hlive⟩ := (hold i entry hat).2 object hobject
    obtain ⟨hmem, hlt⟩ := h.granted i entry object hat' hobject
    exact ⟨hlive hmem, Nat.lt_of_lt_of_le hlt hid⟩
  distinct := by
    intro i j e e' object he he' ho ho'
    exact h.distinct i j e e' object ((hold i e he).2 object ho).1
      ((hold j e' he').2 object ho').1 ho ho'
  seen := by
    rw [htrace]
    exact h.seen

/-- The check numbers that `NextChkNum` gives are positive and fit their field. -/
theorem nextChkNum_bounds {n : Nat} (h : 0 < n) :
    0 < (nextChkNum n).1 ∧ (nextChkNum n).1 < 32768 ∧ 0 < (nextChkNum n).2 := by
  have hbound : 1 <<< (KChkNumBits - 1) = 16384 := rfl
  rw [nextChkNum, hbound]
  dsimp only
  split <;> omega

theorem at_modify {sess sess' : CFavouritesSession} {i j : Nat}
    {f : TFavouritesSessionEntry → TFavouritesSessionEntry} {entry : TFavouritesSessionEntry}
    (hentries : sess'.iEntries = sess.iEntries.modify i f) (hat : sess'.At j entry) :
    (i = j ∧ ∃ old, sess.At j old ∧ entry = f old) ∨ (i ≠ j ∧ sess.At j entry) := by
  rw [CFavouritesSession.At, hentries, List.getElem?_modify] at hat
  cases hj : sess.iEntries[j]? with
  | none => simp [hj] at hat
  | some old =>
      simp only [hj, Option.map_eq_map, Option.map_some, Option.some.injEq] at hat
      by_cases hij : i = j
      · rw [if_pos hij] at hat
        exact .inl ⟨hij, old, hj, hat.symm⟩
      · rw [if_neg hij] at hat
        subst hat
        exact .inr ⟨hij, hj⟩

/-- Only the check number of a free slot changes. -/
theorem SessionInv.takeSlot {sess : CFavouritesSession} (h : SessionInv sess) {i : Nat}
    {free : TFavouritesSessionEntry} (hfree : sess.At i free) (hnone : free.iObject = none) :
    SessionInv (sess.takeSlot i).2 := by
  obtain ⟨-, hlt, hpos⟩ := nextChkNum_bounds h.next
  apply h.of_objects
  · show (List.modify _ _ _).length ≤ 256
    rw [List.length_modify]
    exact h.bound
  · exact hpos
  · exact Nat.le_refl _
  · rfl
  · intro j entry hat
    rcases at_modify rfl hat with ⟨rfl, old, hold, rfl⟩ | ⟨-, hat'⟩
    · have hsame : old = free := Option.some.inj (hold.symm.trans hfree)
      refine ⟨hlt, ?_⟩
      intro object hobject
      rw [hsame] at hobject
      cases hnone.symm.trans hobject
    · exact ⟨h.numbers j entry hat', fun _ _ => ⟨hat', id⟩⟩

theorem SessionInv.grow {sess : CFavouritesSession} (h : SessionInv sess) (moved : Bool)
    (hroom : sess.iNumEntries + 4 ≤ 256) : SessionInv (sess.grow moved) := by
  apply h.of_objects
  · show (sess.iEntries ++ List.replicate 4 _).length ≤ 256
    rw [List.length_append, List.length_replicate]
    exact hroom
  · exact h.next
  · exact Nat.le_refl _
  · rfl
  · intro j entry hat
    have hat' : (sess.iEntries ++ List.replicate 4 TFavouritesSessionEntry.null)[j]?
        = some entry := hat
    by_cases hj : j < sess.iEntries.length
    · rw [List.getElem?_append_left hj] at hat'
      exact ⟨h.numbers j entry hat', fun _ _ => ⟨hat', id⟩⟩
    · rw [List.getElem?_append_right (by omega), List.getElem?_replicate] at hat'
      split at hat'
      · cases hat'
        refine ⟨by decide, ?_⟩
        intro object hobject
        cases hobject
      · cases hat'

/-- A free slot gets an object that is in no other slot. -/
theorem SessionInv.assign {sess : CFavouritesSession} (h : SessionInv sess) {w : Word}
    {free : TFavouritesSessionEntry} (hfree : sess.At (index w) free)
    (hnum : free.iChkNum = chkNum w) (type : TType) : SessionInv (sess.assign w type) := by
  -- an entry with an object is the new one, or was there before
  have hcases : ∀ i entry object, (sess.assign w type).At i entry → entry.iObject = some object →
      (i = index w ∧ entry.iChkNum = chkNum w ∧ object = ⟨type, sess.next⟩) ∨
        (sess.At i entry ∧ object.id < sess.next) := by
    intro i entry object hat hobject
    rcases at_modify rfl hat with ⟨rfl, old, hold, rfl⟩ | ⟨-, hat'⟩
    · have hsame : old = free := Option.some.inj (hold.symm.trans hfree)
      exact .inl ⟨rfl, by rw [hsame]; exact hnum, (Option.some.inj hobject).symm⟩
    · exact .inr ⟨hat', (h.granted i entry object hat' hobject).2⟩
  refine ⟨?_, h.next, ?_, ?_, ?_, h.seen⟩
  · show (List.modify _ _ _).length ≤ 256
    rw [List.length_modify]
    exact h.bound
  · intro i entry hat
    rcases at_modify rfl hat with ⟨rfl, old, hold, rfl⟩ | ⟨-, hat'⟩
    · exact h.numbers _ old hold
    · exact h.numbers i entry hat'
  · intro i entry object hat hobject
    rcases hcases i entry object hat hobject with ⟨rfl, hchk, rfl⟩ | ⟨hat', hlt⟩
    · refine ⟨?_, Nat.lt_succ_self _⟩
      rw [hchk, ← toTInt_eq_ofParts]
      exact List.mem_cons_self
    · exact ⟨List.mem_cons_of_mem _ (h.granted i entry object hat' hobject).1,
        Nat.lt_succ_of_lt hlt⟩
  · intro i j e e' object he he' ho ho'
    rcases hcases i e object he ho with ⟨rfl, -, rfl⟩ | ⟨hold, hlt⟩
    · rcases hcases j e' _ he' ho' with ⟨rfl, -, -⟩ | ⟨-, hlt⟩
      · rfl
      · exact absurd hlt (Nat.lt_irrefl _)
    · rcases hcases j e' object he' ho' with ⟨rfl, -, rfl⟩ | ⟨hold', -⟩
      · exact absurd hlt (Nat.lt_irrefl _)
      · exact h.distinct i j e e' object hold hold' ho ho'

/-- The handles of the other slots stay alive. -/
theorem SessionInv.release {sess : CFavouritesSession} (h : SessionInv sess) (i : Nat) :
    SessionInv (sess.release i) := by
  have hset : ∀ (sess' : CFavouritesSession) j entry, sess'.iEntries = sess.iEntries.set i .null →
      sess'.At j entry → (entry = .null ∨ i ≠ j ∧ sess.At j entry) := by
    intro sess' j entry hentries hat
    rw [CFavouritesSession.At, hentries, List.getElem?_set] at hat
    split at hat
    · split at hat
      · cases hat
        exact .inl rfl
      · cases hat
    · exact .inr ⟨‹_›, hat⟩
  unfold CFavouritesSession.release
  split
  · next object n hat₀ =>
    apply h.of_objects
    · show (List.set _ _ _).length ≤ 256
      rw [List.length_set]
      exact h.bound
    · exact h.next
    · exact Nat.le_refl _
    · rfl
    · intro j entry hat
      rcases hset _ j entry rfl hat with rfl | ⟨hne, hat'⟩
      · exact ⟨by decide, fun _ hobject => by cases hobject⟩
      · refine ⟨h.numbers j entry hat', fun object' hobject' => ⟨hat', fun hmem => ?_⟩⟩
        apply List.mem_filter.2
        refine ⟨hmem, decide_eq_true ?_⟩
        -- another slot has another object
        rintro rfl
        exact hne (h.distinct i j _ entry _ hat₀ hat' rfl hobject')
  · apply h.of_objects
    · show (List.set _ _ _).length ≤ 256
      rw [List.length_set]
      exact h.bound
    · exact h.next
    · exact Nat.le_refl _
    · rfl
    · intro j entry hat
      rcases hset _ j entry rfl hat with rfl | ⟨-, hat'⟩
      · exact ⟨by decide, fun _ hobject => by cases hobject⟩
      · exact ⟨h.numbers j entry hat', fun _ _ => ⟨hat', id⟩⟩

/-! ## Lookups and new handles -/

/-- A word that `EntryL` lets through is that of a handle that is alive. -/
theorem entryL_cases {sess : CFavouritesSession} (h : SessionInv sess) {w : Word}
    (hok : WordOk sess w) :
    sess.entryL w = .badHandle ∨ ∃ entry object, sess.At (index w) entry ∧
      entry.iChkNum = chkNum w ∧ entry.iObject = some object ∧
      sess.entryL w = .found (index w) entry ∧
      (Observation.entry w entry.iObject sess.live).Sound := by
  unfold CFavouritesSession.entryL
  by_cases hbound : index w > sess.iNumEntries
  · exact .inl (if_pos hbound)
  have hlt : index w < sess.iEntries.length := Nat.lt_of_le_of_ne (Nat.le_of_not_lt hbound) hok.1
  obtain ⟨entry, hat⟩ : ∃ entry, sess.iEntries[index w]? = some entry :=
    ⟨_, List.getElem?_eq_getElem hlt⟩
  rw [if_neg hbound, hat]
  dsimp only
  by_cases hnum : chkNum w = entry.iChkNum
  · right
    obtain ⟨object, hobject⟩ := Option.ne_none_iff_exists'.1 (hok.2 entry hat hnum.symm)
    refine ⟨entry, object, hat, hnum.symm, hobject, if_neg (not_not_intro hnum), ?_⟩
    refine ⟨_, (h.granted _ entry object hat hobject).1, ?_, hobject⟩
    rw [toTInt_eq_ofParts, hnum]
  · exact .inl (if_pos hnum)

theorem entryL_of_at {sess : CFavouritesSession} {w : Word} {entry : TFavouritesSessionEntry}
    (hat : sess.At (index w) entry) (hnum : entry.iChkNum = chkNum w) :
    sess.entryL w = .found (index w) entry := by
  have hlt : index w < sess.iEntries.length := (List.getElem?_eq_some_iff.1 hat).1
  unfold CFavouritesSession.entryL
  rw [if_neg (by unfold CFavouritesSession.iNumEntries; omega), show sess.iEntries[index w]? = _
    from hat]
  dsimp only
  rw [if_neg (not_not_intro hnum.symm)]

/-- The object in the slot of a reference is used as what it is. -/
theorem useEntry_of_at {sess : CFavouritesSession} {e : Ref} {entry : TFavouritesSessionEntry}
    {object : Object} (hblock : e.block = sess.block) (hat : sess.At e.i entry)
    (hobject : entry.iObject = some object) : useEntry sess e object.type = none := by
  obtain ⟨_, n⟩ := entry
  cases hobject
  unfold useEntry
  rw [if_neg (not_not_intro hblock), show sess.iEntries[e.i]? = _ from hat]
  exact if_pos rfl

/-- A handle that is given out for a free slot, and has the check number of the slot. -/
def Pending (sess : CFavouritesSession) (h : Word) : Prop :=
  ∃ free, sess.At (index h) free ∧ free.iObject = none ∧ free.iChkNum = chkNum h ∧
    0 < (toTInt h).toInt

/-- The entries that have objects stay where they are. -/
def Keeps (sess sess' : CFavouritesSession) : Prop :=
  ∀ i entry, sess.At i entry → entry.iObject ≠ none → sess'.At i entry

theorem takeSlot_pending {sess : CFavouritesSession} (h : SessionInv sess) {i : Nat}
    {free : TFavouritesSessionEntry} (hfree : sess.At i free) (hnone : free.iObject = none) :
    Pending (sess.takeSlot i).2 (sess.takeSlot i).1 := by
  obtain ⟨hpos, hlt, -⟩ := nextChkNum_bounds h.next
  have hi : i < 256 := Nat.lt_of_lt_of_le (List.getElem?_eq_some_iff.1 hfree).1 h.bound
  have hindex : index (sess.takeSlot i).1 = i := index_ofParts hi hlt
  refine ⟨{ free with iChkNum := (nextChkNum sess.iChkNum).1 }, ?_, hnone, ?_, ?_⟩
  · rw [hindex, CFavouritesSession.At]
    show (List.modify _ _ _)[i]? = _
    rw [List.getElem?_modify, show sess.iEntries[i]? = _ from hfree]
    simp only [Option.map_eq_map, Option.map_some, if_true]
    rfl
  · exact (chkNum_ofParts hi hlt).symm
  · rw [toTInt_eq_ofParts, hindex]
    show 0 < (ofParts i (chkNum (ofParts i (nextChkNum sess.iChkNum).1))).toInt
    rw [chkNum_ofParts hi hlt]
    exact ofParts_pos hi hpos hlt

theorem takeSlot_keeps {sess : CFavouritesSession} {i : Nat} {free : TFavouritesSessionEntry}
    (hfree : sess.At i free) (hnone : free.iObject = none) : Keeps sess (sess.takeSlot i).2 := by
  intro j entry hat hobject
  have hne : i ≠ j := by
    rintro rfl
    rw [show entry = free from Option.some.inj (hat.symm.trans hfree)] at hobject
    exact hobject hnone
  show (List.modify _ _ _)[j]? = some entry
  rw [List.getElem?_modify, show sess.iEntries[j]? = _ from hat]
  simp only [Option.map_eq_map, Option.map_some, if_neg hne]

theorem freeSlot_some {sess : CFavouritesSession} {i : Nat} (h : sess.freeSlot = some i) :
    ∃ free, sess.At i free ∧ free.iObject = none := by
  obtain ⟨hlt, hnone, -⟩ := List.findIdx?_eq_some_iff_getElem.1 h
  exact ⟨_, List.getElem?_eq_getElem hlt, Option.isNone_iff_eq_none.1 hnone⟩

/-- `NewHandleL` gives out a handle of a free slot. The table stays in its block unless it moves. -/
theorem newHandleL_spec {r : Request} {sess sess' : CFavouritesSession} {w : Word}
    (h : SessionInv sess) (hrun : newHandleL sess r.allocated r.moved = some (w, sess')) :
    SessionInv sess' ∧ Pending sess' w ∧ Keeps sess sess' ∧
      (¬ Moves r sess → sess'.block = sess.block) := by
  unfold newHandleL at hrun
  cases hslot : sess.freeSlot with
  | some i =>
      simp only [hslot, Option.some.injEq] at hrun
      obtain ⟨free, hfree, hnone⟩ := freeSlot_some hslot
      have hw : (sess.takeSlot i).1 = w := congrArg Prod.fst hrun
      have hsess : (sess.takeSlot i).2 = sess' := congrArg Prod.snd hrun
      subst hw hsess
      exact ⟨h.takeSlot hfree hnone, takeSlot_pending h hfree hnone, takeSlot_keeps hfree hnone,
        fun _ => rfl⟩
  | none =>
      simp only [hslot] at hrun
      have hbits : 1 <<< KIndexBits = 256 := rfl
      split at hrun
      · cases hrun
      · next hroom =>
        split at hrun
        · next halloc =>
          have hroom' : sess.iNumEntries + 4 ≤ 256 := by
            rw [hbits] at hroom
            exact Nat.le_of_not_lt hroom
          have hgrow := h.grow r.moved hroom'
          -- the first of the new slots
          have hfree : (sess.grow r.moved).At sess.iNumEntries .null := by
            show (sess.iEntries ++ List.replicate 4 _)[sess.iEntries.length]? = _
            rw [List.getElem?_append_right (Nat.le_refl _), Nat.sub_self]
            rfl
          have hkeeps : Keeps sess (sess.grow r.moved) := by
            intro i entry hat _
            show (sess.iEntries ++ _)[i]? = _
            rw [List.getElem?_append_left (List.getElem?_eq_some_iff.1 hat).1]
            exact hat
          have hw := congrArg Prod.fst (Option.some.inj hrun)
          have hsess := congrArg Prod.snd (Option.some.inj hrun)
          dsimp only at hw hsess
          subst hw hsess
          refine ⟨hgrow.takeSlot hfree rfl, takeSlot_pending hgrow hfree rfl, ?_, ?_⟩
          · intro i entry hat hobject
            exact takeSlot_keeps hfree rfl i entry (hkeeps i entry hat hobject) hobject
          · intro hstill
            have hmoved : r.moved = false := by
              apply Bool.eq_false_iff.2
              intro hmoved
              exact hstill ⟨⟨hslot, by rw [hbits]; exact hroom'⟩, halloc, hmoved⟩
            show (sess.grow r.moved).block = sess.block
            rw [hmoved]
            rfl
        · cases hrun

/-! ## Scripts -/

/-- The order that scripts keep to: a handle is made once, its object is assigned before the handle
is sent, streams are looked up before, and a release is the last step. The stages are those of
`Made`. -/
def orderly : Nat → List Step → Bool
  | _, [] => true
  | stage, .mayLeave :: steps => orderly stage steps
  | stage, .use _ :: steps => orderly stage steps
  | 0, .useStream :: steps => orderly 0 steps
  | 0, .newHandle :: steps => orderly 1 steps
  | 0, .release :: steps => steps.isEmpty
  | 1, .assign _ :: steps => orderly 2 steps
  | 2, .reply :: steps => orderly 2 steps
  | _, _ => false

theorem orderly_sessionScript (f : TFavouritesFunction) : orderly 0 (sessionScript f) = true := by
  cases f <;> rfl

theorem orderly_objectScript (f : TFavouritesFunction) : orderly 0 (objectScript f) = true := by
  cases f <;> rfl

/-- Behind `NewHandleL` there is no other one, and no stream is looked up. -/
theorem orderly_later {stage : Nat} {steps : List Step} (h : orderly (stage + 1) steps = true) :
    usesAfterHandle steps = false ∧ Step.useStream ∉ steps := by
  induction steps generalizing stage with
  | nil => exact ⟨rfl, List.not_mem_nil⟩
  | cons step steps ih =>
      have hrest : ∃ stage', orderly (stage' + 1) steps = true := by
        cases step with
        | mayLeave => exact ⟨stage, h⟩
        | use type => exact ⟨stage, h⟩
        | useStream => cases stage <;> cases h
        | newHandle => cases stage <;> cases h
        | release => cases stage <;> cases h
        | assign type =>
            cases stage with
            | zero => exact ⟨1, h⟩
            | succ n => cases h
        | reply =>
            match stage, h with
            | 1, h => exact ⟨1, h⟩
      obtain ⟨stage', hstage⟩ := hrest
      obtain ⟨hlater, hstream⟩ := ih hstage
      cases step with
      | useStream => cases stage <;> cases h
      | newHandle => cases stage <;> cases h
      | mayLeave => exact ⟨hlater, by simp [hstream]⟩
      | use type => exact ⟨hlater, by simp [hstream]⟩
      | release => exact ⟨hlater, by simp [hstream]⟩
      | assign type => exact ⟨hlater, by simp [hstream]⟩
      | reply => exact ⟨hlater, by simp [hstream]⟩

/-- The handle of a request is in the stage that it is in. -/
def MadeOk (sess : CFavouritesSession) : Made → Prop
  | .nothing => True
  | .handle h => Pending sess h
  | .object h => 0 < (toTInt h).toInt

def Made.stage : Made → Nat
  | .nothing => 0
  | .handle _ => 1
  | .object _ => 2

/-- What the rest of a script needs of the session and of the request's entry. -/
structure Ready (r : Request) (e : Ref) (sess : CFavouritesSession) (steps : List Step) :
    Prop where
  uses : ∀ type, Step.use type ∈ steps →
    ∃ entry object, sess.At e.i entry ∧ entry.iObject = some object ∧ object.type = type
  block : usesEntry steps = true → e.block = sess.block
  stream : Step.useStream ∈ steps → WordOk sess r.int0 ∧ TypeOk sess r.int0 .EStream
  still : usesAfterHandle steps = true → ¬ Moves r sess

section

variable {r : Request} {e : Ref} {sess : CFavouritesSession}

/-- The rest of a script is ready behind a step other than `NewHandleL`, in any session that has
the same table. -/
theorem Ready.rest {sess' : CFavouritesSession} {step : Step} {steps : List Step}
    (h : Ready r e sess (step :: steps)) (hne : step ≠ .newHandle)
    (hentries : sess'.iEntries = sess.iEntries) (hblock : sess'.block = sess.block) :
    Ready r e sess' steps where
  uses := by
    intro type hmem
    obtain ⟨entry, object, hat, hobject, htype⟩ := h.uses type (List.mem_cons_of_mem _ hmem)
    refine ⟨entry, object, ?_, hobject, htype⟩
    rw [CFavouritesSession.At, hentries]
    exact hat
  block := by
    intro huses
    rw [hblock]
    exact h.block (by rw [usesEntry, List.any_cons]; exact Bool.or_eq_true_iff.2 (.inr huses))
  stream := by
    intro hmem
    obtain ⟨hword, htype⟩ := h.stream (List.mem_cons_of_mem _ hmem)
    refine ⟨?_, ?_⟩
    · unfold WordOk CFavouritesSession.iNumEntries CFavouritesSession.At
      rw [hentries]
      exact hword
    · unfold TypeOk CFavouritesSession.At
      rw [hentries]
      exact htype
  still := by
    intro hlater
    have hfirst : usesAfterHandle (step :: steps) = true := by
      cases step with
      | newHandle => exact absurd rfl hne
      | mayLeave => exact hlater
      | use type => exact hlater
      | useStream => exact hlater
      | assign type => exact hlater
      | release => exact hlater
      | reply => exact hlater
    have hstill := h.still hfirst
    unfold Moves CFavouritesSession.Grows CFavouritesSession.freeSlot
      CFavouritesSession.iNumEntries at hstill ⊢
    rwa [hentries]

/-- The rest of a script is ready in a session that keeps the entries, when there is no other
`NewHandleL` and no lookup left in it. -/
theorem Ready.later {sess' : CFavouritesSession} {step : Step} {steps : List Step} {stage : Nat}
    (h : Ready r e sess (step :: steps)) (horder : orderly (stage + 1) steps = true)
    (hkeeps : Keeps sess sess') (hblock : usesEntry steps = true → sess'.block = sess.block) :
    Ready r e sess' steps := by
  obtain ⟨hlater, hstream⟩ := orderly_later horder
  refine ⟨?_, ?_, fun hmem => absurd hmem hstream, fun h' => ?_⟩
  · intro type hmem
    obtain ⟨entry, object, hat, hobject, htype⟩ := h.uses type (List.mem_cons_of_mem _ hmem)
    refine ⟨entry, object, hkeeps _ entry hat ?_, hobject, htype⟩
    rw [hobject]
    exact Option.some_ne_none object
  · intro huses
    rw [hblock huses]
    exact h.block (by rw [usesEntry, List.any_cons]; exact Bool.or_eq_true_iff.2 (.inr huses))
  · rw [hlater] at h'
    cases h'

theorem assign_keeps {w : Word} {free : TFavouritesSessionEntry}
    (hfree : sess.At (index w) free) (hnone : free.iObject = none) (type : TType) :
    Keeps sess (sess.assign w type) := by
  intro j entry hat hobject
  have hne : index w ≠ j := by
    rintro rfl
    rw [show entry = free from Option.some.inj (hat.symm.trans hfree)] at hobject
    exact hobject hnone
  show (List.modify _ _ _)[j]? = some entry
  rw [List.getElem?_modify, show sess.iEntries[j]? = _ from hat]
  simp only [Option.map_eq_map, Option.map_some, if_neg hne]

/-- A script that is ready runs to its end, or leaves, and keeps the invariant. -/
theorem runScript_ok {steps : List Step} {k : Nat} {made : Made} (h : SessionInv sess)
    (hmade : MadeOk sess made) (horder : orderly made.stage steps = true)
    (hready : Ready r e sess steps) :
    ∃ sess', runScript r e k made sess steps = .ok sess' ∧ SessionInv sess' := by
  induction steps generalizing k made sess with
  | nil => exact ⟨sess, rfl, h⟩
  | cons step steps ih =>
      rw [runScript]
      cases step with
      | mayLeave =>
          have horder' : orderly made.stage steps = true := by
            cases made <;> exact horder
          cases hleaves : r.leaves k with
          | true =>
              simp only [runStep, hleaves, if_true]
              exact ⟨sess, rfl, h⟩
          | false =>
              simp only [runStep, hleaves]
              exact ih h hmade horder' (hready.rest (by decide) rfl rfl)
      | use type =>
          have horder' : orderly made.stage steps = true := by
            cases made <;> exact horder
          obtain ⟨entry, object, hat, hobject, rfl⟩ := hready.uses type List.mem_cons_self
          have hblock := hready.block rfl
          simp only [runStep, useEntry_of_at hblock hat hobject]
          exact ih h hmade horder' (hready.rest (by intro hstep; cases hstep) rfl rfl)
      | useStream =>
          have hnothing : made = .nothing := by
            cases made with
            | nothing => rfl
            | handle w => cases horder
            | object w => cases horder
          subst hnothing
          obtain ⟨hword, htype⟩ := hready.stream List.mem_cons_self
          rcases entryL_cases h hword with hbad | ⟨entry, object, hat, hnum, hobject, hfound, hseen⟩
          · simp only [runStep, hbad]
            exact ⟨sess, rfl, h⟩
          · have hstream : object.type = .EStream := htype entry object hat hnum hobject
            have huse : useEntry sess ⟨index r.int0, sess.block⟩ .EStream = none := by
              rw [← hstream]
              exact useEntry_of_at rfl hat hobject
            simp only [runStep, hfound, huse]
            exact ih (h.see hseen) trivial horder (hready.rest (by decide) rfl rfl)
      | newHandle =>
          have hnothing : made = .nothing := by
            cases made with
            | nothing => rfl
            | handle w => cases horder
            | object w => cases horder
          subst hnothing
          cases hnew : newHandleL sess r.allocated r.moved with
          | none =>
              simp only [runStep, hnew]
              exact ⟨sess, rfl, h⟩
          | some out =>
              obtain ⟨w, sess₁⟩ := out
              obtain ⟨hinv, hpending, hkeeps, hblock⟩ := newHandleL_spec h hnew
              simp only [runStep, hnew]
              exact ih hinv hpending horder
                (hready.later horder hkeeps fun huses => hblock (hready.still huses))
      | assign type =>
          cases made with
          | nothing => cases horder
          | object w => cases horder
          | handle w =>
              obtain ⟨free, hfree, hnone, hnum, hpos⟩ := hmade
              simp only [runStep, entryL_of_at hfree hnum]
              exact ih (h.assign hfree hnum type) hpos horder
                (hready.later horder (assign_keeps hfree hnone type) fun _ => rfl)
      | release =>
          have hlast : steps = [] := by
            cases made with
            | nothing => exact List.isEmpty_iff.1 horder
            | handle w => cases horder
            | object w => cases horder
          subst hlast
          have hblock := hready.block rfl
          simp only [runStep, hblock, ne_eq, not_true_eq_false, if_false]
          exact ⟨_, rfl, h.release e.i⟩
      | reply =>
          cases made with
          | nothing => cases horder
          | handle w => cases horder
          | object w =>
              simp only [runStep]
              exact ih (h.see hmade) hmade horder (hready.rest (by decide) rfl rfl)

theorem sessionScript_unused (f : TFavouritesFunction) :
    (∀ type, Step.use type ∉ sessionScript f) ∧ usesEntry (sessionScript f) = false ∧
      Step.useStream ∉ sessionScript f ∧ usesAfterHandle (sessionScript f) = false := by
  cases f <;> refine ⟨fun type => ?_, rfl, by decide, rfl⟩ <;> cases type <;> decide

/-- A good request is served without a fault, and keeps the invariant. -/
theorem serviceL_ok (h : SessionInv sess) (hmeets : Meets r sess) :
    ∃ sess', serviceL r sess = .ok sess' ∧ SessionInv sess' := by
  unfold serviceL
  cases hnull : isNull r.word with
  | true =>
      rw [if_pos rfl]
      obtain ⟨huse, hentry, hstream, hlater⟩ := sessionScript_unused (function r.word)
      have hmade : MadeOk sess .nothing := trivial
      apply runScript_ok h hmade (orderly_sessionScript _)
      refine ⟨fun type hmem => absurd hmem (huse type), fun h' => ?_, fun hmem => absurd hmem hstream,
        fun h' => ?_⟩
      · rw [hentry] at h'
        cases h'
      · rw [hlater] at h'
        cases h'
  | false =>
      rw [if_neg Bool.false_ne_true]
      rcases entryL_cases h (hmeets.word hnull) with
        hbad | ⟨entry, object, hat, hnum, hobject, hfound, hseen⟩
      · rw [hbad]
        exact ⟨sess, rfl, h⟩
      · rw [hfound]
        have hmade : MadeOk (sess.see (.entry r.word entry.iObject sess.live)) .nothing := trivial
        apply runScript_ok (h.see hseen) hmade (orderly_objectScript _)
        refine ⟨?_, fun _ => rfl, hmeets.int0 hnull, hmeets.still hnull⟩
        intro type hmem
        exact ⟨entry, object, hat, hobject,
          hmeets.type hnull type hmem entry object hat hnum hobject⟩

end

/-! ## Runs -/

/-- A request, as a call that a fault ends. -/
def serve (r : Request) : FaultM CFavouritesSession PUnit := fun sess =>
  match serviceL r sess with
  | .ok sess' => some (PUnit.unit, sess')
  | .error _ => none

theorem sessionInv_of_reaches {sess : CFavouritesSession}
    (h : Reaches serve (· = .start) Meets sess) : SessionInv sess := by
  refine h.invariant ?_ ?_
  · rintro _ rfl
    exact sessionInv_start
  · intro r sess hmeets hinv a sess' hrun
    obtain ⟨sess₁, hok, hinv'⟩ := serviceL_ok hinv hmeets
    simp only [serve, hok, Option.some.injEq, Prod.mk.injEq] at hrun
    rw [← hrun.2]
    exact hinv'

/-- After any run of good requests, a good request is served without a fault, and all that the
requests have seen is what the client may have. -/
theorem handles_sound {sess : CFavouritesSession} (h : Reaches serve (· = .start) Meets sess)
    {r : Request} (hmeets : Meets r sess) :
    ∃ sess', serviceL r sess = .ok sess' ∧ ∀ o ∈ sess'.trace, o.Sound := by
  obtain ⟨sess', hok, hinv⟩ := serviceL_ok (sessionInv_of_reaches h) hmeets
  exact ⟨sess', hok, hinv.seen⟩

/-- A request with no leaves, whose table moves when it grows. -/
def Request.of (word : Word) : Request := ⟨word, 0, fun _ => false, true, true⟩

/-- A database is opened, and an item is got from it. -/
theorem handles_sound_get :
    ∃ sess', serviceL (.of 0x1000E#32) ⟨[⟨some ⟨.EDatabase, 0⟩, 1⟩, .null, .null, .null], 2, 1, 1,
      [⟨0x10000#32, ⟨.EDatabase, 0⟩⟩], [.reply 0x10000#32]⟩ = .ok sess' ∧
      ∀ o ∈ sess'.trace, o.Sound := by
  have hopen : Meets (.of 8#32) .start := by
    constructor <;> (intro hnull; exact absurd hnull (by decide))
  refine handles_sound (.call (.of 8#32) (.start rfl) hopen rfl) ?_
  refine ⟨fun _ => ⟨by decide, ?_⟩, fun _ type hmem => ?_, fun _ hmem => ?_, fun _ hlater => ?_⟩
  · intro entry hat _
    cases hat
    decide
  · intro entry object hat _ hobject
    cases hat
    cases hobject
    cases type
    · rfl
    all_goals exact absurd hmem (by decide)
  · exact absurd hmem (by decide)
  · exact absurd hlater (by decide)

/-- Not so for all requests: the first one of a session, with the index 0, already reads behind the
table. -/
theorem not_handles_sound :
    ¬ ∀ sess, Reaches serve (· = .start) (fun _ _ => True) sess → ∀ r : Request,
      ∃ sess', serviceL r sess = .ok sess' ∧ ∀ o ∈ sess'.trace, o.Sound := by
  intro h
  obtain ⟨sess', hok, -⟩ := h .start (.start rfl) (.of 0x1000D#32)
  cases hok

-- a word with the check number that a free slot has from the start
example : (serviceL (.of 10#32) .start >>= serviceL (.of 0x10D#32)).toOption.map
    (fun sess => sess.trace.head?) = some (some (.entry 0x10D#32 none
      [⟨0x10000#32, ⟨.EStream, 0⟩⟩])) := by decide

-- the handle of a database that could not be opened
example : (serviceL { Request.of 8#32 with leaves := fun k => k = 2 } .start >>=
    serviceL (.of 0x1000D#32)).toOption.map (fun sess => sess.trace) =
      some [.entry 0x1000D#32 none []] := by decide

-- a stream that is used as a database
example : (serviceL (.of 10#32) .start >>= serviceL (.of 0x1000E#32)) = .error .wrongType := by
  decide

-- a notifier for a database whose table is full, and moves
example : (serviceL (.of 8#32) .start >>= serviceL (.of 10#32) >>= serviceL (.of 10#32) >>=
    serviceL (.of 10#32) >>= serviceL (.of 0x10009#32)) = .error .dangling := by
  decide

/-! ## The words that go wrong -/

theorem newHandleL_trace {sess sess' : CFavouritesSession} {allocated moved : Bool} {w : Word}
    (h : newHandleL sess allocated moved = some (w, sess')) : sess'.trace = sess.trace := by
  unfold newHandleL at h
  cases hslot : sess.freeSlot with
  | some i =>
      simp only [hslot, Option.some.injEq] at h
      have hsess : (sess.takeSlot i).2 = sess' := congrArg Prod.snd h
      rw [← hsess]
      rfl
  | none =>
      simp only [hslot] at h
      split at h
      · cases h
      · split at h
        · have hsess : ((sess.grow moved).takeSlot sess.iNumEntries).2 = sess' :=
            congrArg Prod.snd (Option.some.inj h)
          rw [← hsess]
          rfl
        · cases h

theorem release_trace (sess : CFavouritesSession) (i : Nat) :
    (sess.release i).trace = sess.trace := by
  unfold CFavouritesSession.release
  split <;> rfl

/-- What was seen stays seen, over a step. -/
theorem runStep_trace {r : Request} {e : Ref} {k : Nat} {made : Made}
    {sess sess' : CFavouritesSession} {step : Step}
    (hrun : (∃ made', runStep r e k made sess step = .next made' sess') ∨
      runStep r e k made sess step = .leave sess')
    {o : Observation} (hmem : o ∈ sess.trace) : o ∈ sess'.trace := by
  cases step with
  | mayLeave =>
      simp only [runStep] at hrun
      split at hrun <;> simp_all
  | use type =>
      simp only [runStep] at hrun
      split at hrun <;> simp_all
  | useStream =>
      simp only [runStep] at hrun
      split at hrun
      · simp_all
      · simp_all
      · split at hrun
        · simp_all
        · simp only [Outcome.next.injEq, reduceCtorEq, or_false] at hrun
          obtain ⟨_, -, rfl⟩ := hrun
          exact List.mem_cons_of_mem _ hmem
  | newHandle =>
      simp only [runStep] at hrun
      split at hrun
      · simp_all
      · next hnew =>
        simp only [Outcome.next.injEq, reduceCtorEq, or_false] at hrun
        obtain ⟨_, -, rfl⟩ := hrun
        rw [newHandleL_trace hnew]
        exact hmem
  | assign type =>
      simp only [runStep] at hrun
      split at hrun
      · split at hrun
        · simp only [Outcome.next.injEq, reduceCtorEq, or_false] at hrun
          obtain ⟨_, -, rfl⟩ := hrun
          exact hmem
        · simp_all
      · simp_all
  | release =>
      simp only [runStep] at hrun
      split at hrun
      · simp_all
      · simp only [Outcome.next.injEq, reduceCtorEq, or_false] at hrun
        obtain ⟨_, -, rfl⟩ := hrun
        rw [release_trace]
        exact hmem
  | reply =>
      simp only [runStep] at hrun
      split at hrun
      · simp only [Outcome.next.injEq, reduceCtorEq, or_false] at hrun
        obtain ⟨_, -, rfl⟩ := hrun
        exact List.mem_cons_of_mem _ hmem
      · simp_all

theorem runScript_trace {r : Request} {e : Ref} {steps : List Step} {k : Nat} {made : Made}
    {sess sess' : CFavouritesSession} (hrun : runScript r e k made sess steps = .ok sess')
    {o : Observation} (hmem : o ∈ sess.trace) : o ∈ sess'.trace := by
  induction steps generalizing k made sess with
  | nil =>
      cases hrun
      exact hmem
  | cons step steps ih =>
      rw [runScript] at hrun
      cases hfirst : runStep r e k made sess step with
      | next made' sess₁ =>
          rw [hfirst] at hrun
          exact ih hrun (runStep_trace (.inl ⟨made', hfirst⟩) hmem)
      | leave sess₁ =>
          rw [hfirst] at hrun
          cases hrun
          exact runStep_trace (.inr hfirst) hmem
      | fault f =>
          rw [hfirst] at hrun
          cases hrun

/-- A request whose word does not meet its condition is served with a fault, or with an entry that
is not the client's. -/
theorem unsound_of_not_wordOk {r : Request} {sess : CFavouritesSession}
    (hnull : isNull r.word = false) (h : ¬ WordOk sess r.word) :
    ¬ ∃ sess', serviceL r sess = .ok sess' ∧ ∀ o ∈ sess'.trace, o.Sound := by
  rintro ⟨sess', hok, hsound⟩
  unfold serviceL at hok
  rw [hnull, if_neg Bool.false_ne_true] at hok
  unfold WordOk at h
  by_cases hnum : index r.word = sess.iNumEntries
  · -- the slot behind the last one
    have hnone : sess.iEntries[index r.word]? = none :=
      List.getElem?_eq_none (Nat.le_of_eq hnum.symm)
    unfold CFavouritesSession.entryL at hok
    rw [if_neg (by omega), hnone] at hok
    cases hok
  · simp only [ne_eq, hnum, not_false_eq_true, true_and, not_forall] at h
    obtain ⟨entry, hat, hchk, hobject⟩ := h
    rw [entryL_of_at hat hchk] at hok
    obtain ⟨grant, -, -, hfound⟩ := hsound _ (runScript_trace hok List.mem_cons_self)
    rw [not_not] at hobject
    rw [hobject] at hfound
    cases hfound

end SymbianWeb.Favourites
