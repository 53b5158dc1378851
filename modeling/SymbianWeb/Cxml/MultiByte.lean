import Mathlib.Data.Nat.Bitwise
import Mathlib.Data.Nat.Digits.Defs
import SymbianWeb.Cxml.Charset

/-!
# Multi-byte integers

A number of 32 bits is written in groups of seven bits, the highest group first, and every byte but
the last has its top bit set. `NW_WBXML_EncodeMultibyte` collects the groups from the lowest one up
and turns them round; `NW_WBXML_Parser_readMbUint32` shifts them in from the left.

The groups are the digits of the number in base 128 (`ofDigits_littleEndian`), so the reader gets
back what the writer wrote, whatever follows (`readMbUint32_encodeMultibyte`). On any other bytes it
stays inside the bytes that are left (`readMbUint32_append`) and refuses those that do not end a
number (`readMbUint32_bad_iff`).
-/

set_option autoImplicit false

namespace SymbianWeb.Wbxml

/-! ## The writer -/

/-- The loop of `NW_WBXML_EncodeMultibyte` with `n` rounds left: the groups above the lowest one,
up to the round in which nothing is left of `x`. -/
def littleEndianLoop : Nat → UInt32 → Bytes
  | 0, _ => []
  | n + 1, x =>
      if x >>> 7 = 0 then []
      else ((x >>> 7) &&& 0x7f).toUInt8 :: littleEndianLoop n (x >>> 7)

/-- The array `littleEndian` of `NW_WBXML_EncodeMultibyte`, as far as it is used. -/
def littleEndian (x : UInt32) : Bytes := (x &&& 0x7f).toUInt8 :: littleEndianLoop 4 x

/-- Every byte but the last gets the continuation bit. -/
def continuationBits : Bytes → Bytes
  | [] => []
  | [last] => [last]
  | b :: c :: rest => (b ||| 0x80) :: continuationBits (c :: rest)

/-- `NW_WBXML_EncodeMultibyte` -/
def encodeMultibyte (x : UInt32) : Bytes := continuationBits (littleEndian x).reverse

/-! ## The reader -/

/-- What `NW_WBXML_Parser_readMbUint32` gives: a number and the bytes it takes, or -1. -/
inductive MbUint32 where
  | value (val : UInt32) (count : Nat)
  | bad
  deriving DecidableEq

/-- The loop of `NW_WBXML_Parser_readMbUint32`, before its byte `i`. -/
def readMbUint32From (space : Nat) : Nat → UInt32 → Bytes → Option MbUint32
  | i, _, [] => if 4 < i ∨ i = space then some .bad else none
  | i, val, next :: p =>
      if 4 < i ∨ i = space then some .bad
      else if next &&& 0x80 = 0 then some (.value (val ||| next.toUInt32) (i + 1))
      else readMbUint32From space (i + 1) ((val ||| (next.toUInt32 &&& 0x7f)) <<< 7) p

/-- `NW_WBXML_Parser_readMbUint32` at the pointer `p` with `left` bytes left. -/
def readMbUint32 (p : Bytes) (left : Nat) : Option MbUint32 := readMbUint32From left 0 0 p

example : encodeMultibyte 0xA0 = [0x81, 0x20] := rfl
example : readMbUint32 [0x81, 0x20, 0xFF] 3 = some (.value 0xA0 2) := rfl

/-! ## The groups are digits -/

theorem toNat_shiftRight_seven (x : UInt32) : (x >>> 7).toNat = x.toNat / 128 := by
  rw [UInt32.toNat_shiftRight]
  exact Nat.shiftRight_eq_div_pow x.toNat 7

theorem toNat_low_seven (x : UInt32) : (x &&& 0x7f).toUInt8.toNat = x.toNat % 128 := by
  have hmask : (x &&& 0x7f).toNat = x.toNat % 128 := by
    rw [UInt32.toNat_and]
    exact Nat.and_two_pow_sub_one_eq_mod x.toNat 7
  rw [UInt32.toNat_toUInt8, hmask]
  omega

theorem shiftRight_seven_eq_zero_iff (x : UInt32) : x >>> 7 = 0 ↔ x.toNat / 128 = 0 := by
  rw [← toNat_shiftRight_seven, ← UInt32.toNat_inj]
  rfl

theorem length_littleEndianLoop_le (n : Nat) (x : UInt32) : (littleEndianLoop n x).length ≤ n := by
  induction n generalizing x with
  | zero => exact Nat.le_refl 0
  | succ n ih =>
      rw [littleEndianLoop]
      split
      · exact Nat.zero_le _
      · exact Nat.succ_le_succ (ih _)

/-- The groups of the loop are the digits above the lowest one, when there are rounds enough. -/
theorem ofDigits_littleEndianLoop {n : Nat} {x : UInt32} (hx : x.toNat < 128 ^ (n + 1)) :
    Nat.ofDigits 128 ((littleEndianLoop n x).map UInt8.toNat) = x.toNat / 128 := by
  induction n generalizing x with
  | zero =>
      rw [littleEndianLoop, List.map_nil, Nat.ofDigits_nil]
      omega
  | succ n ih =>
      rw [littleEndianLoop]
      split
      · rename_i hzero
        rw [shiftRight_seven_eq_zero_iff] at hzero
        rw [hzero, List.map_nil, Nat.ofDigits_nil]
      · have hrest : (x >>> 7).toNat < 128 ^ (n + 1) := by
          rw [toNat_shiftRight_seven, Nat.div_lt_iff_lt_mul (by decide)]
          rwa [pow_succ] at hx
        rw [List.map_cons, Nat.ofDigits_cons, ih hrest, toNat_low_seven, toNat_shiftRight_seven]
        exact Nat.mod_add_div (x.toNat / 128) 128

theorem ofDigits_littleEndian (x : UInt32) :
    Nat.ofDigits 128 ((littleEndian x).map UInt8.toNat) = x.toNat := by
  have hx : x.toNat < 128 ^ (4 + 1) := by
    have hlt := x.toNat_lt
    omega
  rw [littleEndian, List.map_cons, Nat.ofDigits_cons, ofDigits_littleEndianLoop hx, toNat_low_seven]
  exact Nat.mod_add_div x.toNat 128

theorem lt_of_mem_littleEndianLoop {n : Nat} {x : UInt32} {b : UInt8}
    (h : b ∈ littleEndianLoop n x) : b.toNat < 128 := by
  induction n generalizing x with
  | zero => cases h
  | succ n ih =>
      rw [littleEndianLoop] at h
      split at h
      · cases h
      · rcases List.mem_cons.1 h with rfl | h
        · rw [toNat_low_seven]
          exact Nat.mod_lt _ (by decide)
        · exact ih h

theorem lt_of_mem_littleEndian {x : UInt32} {b : UInt8} (h : b ∈ littleEndian x) :
    b.toNat < 128 := by
  rcases List.mem_cons.1 h with rfl | h
  · rw [toNat_low_seven]
    exact Nat.mod_lt _ (by decide)
  · exact lt_of_mem_littleEndianLoop h

theorem length_littleEndian_le (x : UInt32) : (littleEndian x).length ≤ 5 :=
  Nat.succ_le_succ (length_littleEndianLoop_le 4 x)

@[simp] theorem length_continuationBits (groups : Bytes) :
    (continuationBits groups).length = groups.length := by
  induction groups using continuationBits.induct with
  | case1 => rfl
  | case2 last => rfl
  | case3 b c rest ih => simp [continuationBits, ih]

theorem length_encodeMultibyte (x : UInt32) :
    (encodeMultibyte x).length = (littleEndian x).length := by
  rw [encodeMultibyte, length_continuationBits, List.length_reverse]

/-! ## Reading what was written -/

theorem toNat_and_continuation (b : UInt8) :
    (b &&& 0x80).toNat = (b.toNat.testBit 7).toNat * 128 := by
  rw [UInt8.toNat_and]
  exact Nat.and_two_pow b.toNat 7

theorem and_continuation_of_lt {b : UInt8} (h : b.toNat < 128) : b &&& 0x80 = 0 := by
  rw [← UInt8.toNat_inj, toNat_and_continuation, Nat.testBit_lt_two_pow h]
  rfl

theorem or_continuation_and (b : UInt8) : (b ||| 0x80) &&& 0x80 ≠ 0 := by
  intro h
  have hbit := congrArg UInt8.toNat h
  have htop : Nat.testBit 128 7 = true := by decide
  rw [toNat_and_continuation, UInt8.toNat_or, Nat.testBit_or] at hbit
  simp [htop] at hbit

theorem or_continuation_low {b : UInt8} (h : b.toNat < 128) :
    (b ||| 0x80).toUInt32 &&& 0x7f = b.toUInt32 := by
  have hor := Nat.two_pow_add_eq_or_of_lt (i := 7) h 1
  have hmask := Nat.and_two_pow_sub_one_eq_mod (128 + b.toNat) 7
  rw [← UInt32.toNat_inj, UInt32.toNat_and, UInt8.toNat_toUInt32, UInt8.toNat_toUInt32,
    UInt8.toNat_or, Nat.or_comm]
  show (128 ||| b.toNat) &&& 127 = b.toNat
  simp only [Nat.reducePow, Nat.mul_one, Nat.reduceSub] at hor hmask
  rw [← hor, hmask]
  omega

/-- The reader's accumulator takes a group in. -/
theorem ofNat_or_group {b : UInt8} (h : b.toNat < 128) (acc : Nat) :
    UInt32.ofNat (128 * acc) ||| b.toUInt32 = UInt32.ofNat (128 * acc + b.toNat) := by
  have hlow : 128 * acc % 2 ^ 32 = 128 * (acc % 2 ^ 25) := by omega
  have hor := Nat.two_pow_add_eq_or_of_lt (i := 7) h (acc % 2 ^ 25)
  rw [← UInt32.toNat_inj, UInt32.toNat_or, UInt8.toNat_toUInt32, UInt32.toNat_ofNat',
    UInt32.toNat_ofNat']
  simp only [Nat.reducePow] at hor hlow ⊢
  rw [hlow, ← hor]
  omega

theorem ofNat_shiftLeft_seven (m : Nat) : UInt32.ofNat m <<< 7 = UInt32.ofNat (128 * m) := by
  rw [← UInt32.toNat_inj, UInt32.toNat_shiftLeft, UInt32.toNat_ofNat', UInt32.toNat_ofNat',
    Nat.shiftLeft_eq]
  simp only [UInt32.reduceToNat, Nat.reduceMod, Nat.reducePow]
  omega

/-- The number that groups stand for behind those of `acc`, the highest group first. -/
def shiftIn (acc : Nat) (groups : Bytes) : Nat :=
  groups.foldl (fun acc b => 128 * acc + b.toNat) acc

theorem shiftIn_reverse (groups : Bytes) :
    shiftIn 0 groups.reverse = Nat.ofDigits 128 (groups.map UInt8.toNat) := by
  rw [shiftIn, List.foldl_reverse, Nat.ofDigits_eq_foldr, List.foldr_map]
  congr 1
  funext b acc
  exact Nat.add_comm _ _

/-- The reader shifts in the groups of a number up to the one without a continuation bit. -/
theorem readMbUint32From_continuationBits {groups : Bytes} {space i : Nat} (acc : Nat)
    (rest : Bytes) (hne : groups ≠ []) (hlt : ∀ b ∈ groups, b.toNat < 128)
    (hmax : i + groups.length ≤ 5) (hspace : i + groups.length ≤ space) :
    readMbUint32From space i (.ofNat (128 * acc)) (continuationBits groups ++ rest) =
      some (.value (.ofNat (shiftIn acc groups)) (i + groups.length)) := by
  induction groups using continuationBits.induct generalizing i acc with
  | case1 => exact absurd rfl hne
  | case2 last =>
      have hlast := hlt last (List.mem_singleton_self last)
      have hin : ¬ (4 < i ∨ i = space) := by
        simp only [List.length_singleton] at hmax hspace
        omega
      rw [continuationBits, List.singleton_append, readMbUint32From, if_neg hin,
        if_pos (and_continuation_of_lt hlast), ofNat_or_group hlast]
      rfl
  | case3 b c groups ih =>
      have hb := hlt b (List.mem_cons_self ..)
      have hin : ¬ (4 < i ∨ i = space) := by
        simp only [List.length_cons] at hmax hspace
        omega
      rw [continuationBits, List.cons_append, readMbUint32From, if_neg hin,
        if_neg (or_continuation_and b), or_continuation_low hb, ofNat_or_group hb,
        ofNat_shiftLeft_seven]
      -- the accumulator of the next round is again a shifted one
      have hrest := ih (i := i + 1) (128 * acc + b.toNat) (List.cons_ne_nil c groups)
        (fun d hd => hlt d (List.mem_cons_of_mem b hd))
        (by simp only [List.length_cons] at hmax ⊢; omega)
        (by simp only [List.length_cons] at hspace ⊢; omega)
      rw [hrest]
      simp only [shiftIn, List.foldl_cons, List.length_cons]
      congr 2
      omega

/-- The reader gets back the number that was written, whatever follows it. -/
theorem readMbUint32_encodeMultibyte (x : UInt32) (rest : Bytes) :
    readMbUint32 (encodeMultibyte x ++ rest) ((encodeMultibyte x).length + rest.length) =
      some (.value x (encodeMultibyte x).length) := by
  have hlength := length_encodeMultibyte x
  have hmax := length_littleEndian_le x
  have hread := @readMbUint32From_continuationBits (littleEndian x).reverse
    ((encodeMultibyte x).length + rest.length) 0 0 rest
    (by simp [littleEndian])
    (fun b hb => lt_of_mem_littleEndian (List.mem_reverse.1 hb))
    (by rw [List.length_reverse]; omega)
    (by rw [List.length_reverse]; omega)
  have hvalue : UInt32.ofNat (shiftIn 0 (littleEndian x).reverse) = x := by
    rw [shiftIn_reverse, ofDigits_littleEndian]
    exact UInt32.ofNat_toNat
  rw [hvalue, List.length_reverse, Nat.zero_add, ← hlength] at hread
  exact hread

/-! ## The bytes that are left -/

/-- What lies behind the bytes that are left is never read. -/
theorem readMbUint32From_append (space i : Nat) (val : UInt32) (p beyond : Bytes)
    (h : i + p.length = space) :
    ∃ r, readMbUint32From space i val p = some r ∧
      readMbUint32From space i val (p ++ beyond) = some r := by
  induction p generalizing i val with
  | nil =>
      have hend : 4 < i ∨ i = space := .inr (by simpa using h)
      refine ⟨.bad, by rw [readMbUint32From, if_pos hend], ?_⟩
      cases beyond with
      | nil => rw [List.nil_append, readMbUint32From, if_pos hend]
      | cons next beyond => rw [List.nil_append, readMbUint32From, if_pos hend]
  | cons next p ih =>
      rw [List.cons_append, readMbUint32From, readMbUint32From]
      split_ifs
      · exact ⟨.bad, rfl, rfl⟩
      · exact ⟨_, rfl, rfl⟩
      · exact ih (i + 1) _ (by rw [List.length_cons] at h; omega)

theorem readMbUint32_append (p beyond : Bytes) :
    ∃ r, readMbUint32 p p.length = some r ∧ readMbUint32 (p ++ beyond) p.length = some r :=
  readMbUint32From_append p.length 0 0 p beyond (Nat.zero_add _)

/-- The reader gives up exactly where none of the bytes it may look at ends a number. -/
theorem readMbUint32From_bad_iff (space i : Nat) (val : UInt32) (p : Bytes)
    (h : i + p.length = space) :
    readMbUint32From space i val p = some .bad ↔ ∀ b ∈ p.take (5 - i), b &&& 0x80 ≠ 0 := by
  induction p generalizing i val with
  | nil =>
      have hend : 4 < i ∨ i = space := .inr (by simpa using h)
      simp [readMbUint32From, hend]
  | cons next p ih =>
      rw [List.length_cons] at h
      rw [readMbUint32From]
      by_cases hlong : 4 < i
      · rw [if_pos (.inl hlong), Nat.sub_eq_zero_of_le (by omega), List.take_zero]
        simp
      · have hin : ¬ (4 < i ∨ i = space) := by omega
        have htake : 5 - i = (5 - (i + 1)) + 1 := by omega
        rw [if_neg hin, htake, List.take_succ_cons, List.forall_mem_cons]
        by_cases hnext : next &&& 0x80 = 0
        · simp [hnext]
        · rw [if_neg hnext, ih (i + 1) _ (by omega)]
          exact (and_iff_right hnext).symm

theorem readMbUint32_bad_iff (p : Bytes) :
    readMbUint32 p p.length = some .bad ↔ ∀ b ∈ p.take 5, b &&& 0x80 ≠ 0 :=
  readMbUint32From_bad_iff p.length 0 0 p (Nat.zero_add _)

/-- Reading what was written gives the number and the bytes it took, one to five of them; and from
any bytes the reader takes nothing but those that are left, and refuses exactly those among which
the first five hold no last byte of a number. -/
theorem multibyte_roundTrip :
    (∀ (x : UInt32) (rest : Bytes),
      1 ≤ (encodeMultibyte x).length ∧ (encodeMultibyte x).length ≤ 5 ∧
        readMbUint32 (encodeMultibyte x ++ rest) ((encodeMultibyte x).length + rest.length) =
          some (.value x (encodeMultibyte x).length)) ∧
    (∀ p beyond : Bytes,
      (∃ r, readMbUint32 p p.length = some r ∧ readMbUint32 (p ++ beyond) p.length = some r) ∧
        (readMbUint32 (p ++ beyond) p.length = some .bad ↔ ∀ b ∈ p.take 5, b &&& 0x80 ≠ 0)) := by
  constructor
  · intro x rest
    have hlength := length_encodeMultibyte x
    refine ⟨?_, ?_, readMbUint32_encodeMultibyte x rest⟩
    · rw [hlength]
      exact Nat.succ_le_succ (Nat.zero_le _)
    · rw [hlength]
      exact length_littleEndian_le x
  · intro p beyond
    obtain ⟨r, hinside, hbeyond⟩ := readMbUint32_append p beyond
    refine ⟨⟨r, hinside, hbeyond⟩, ?_⟩
    rw [hbeyond, ← hinside]
    exact readMbUint32_bad_iff p

end SymbianWeb.Wbxml
