import SymbianWeb.Library.XmlContent
import SymbianWeb.Library.ByteStream
import SymbianWeb.Library.ExceptRuns

/-!
# Packed containers

`CPacked` keeps the tokens of a feed or a folder in an array, and the texts in a string table that
the tokens point into. Both grow as they are appended to. `Trim` gives memory back and leaves
`iTokenArrayMaxLength` as it was, so that the next token is written outside of the array; chunks
are cut to whole tokens and characters. Where neither happens a container is what was added to it
and reads so (`kept_of_allMeet`).
-/

set_option autoImplicit false

namespace SymbianWeb.Feeds

open XmlContent ByteStream ExceptRuns

/-! ## The container -/

/-- How a call ends that does not return. -/
inductive PackedEnd where
  | leave
  | outside
  deriving DecidableEq

/-- What the heap gives: the characters that a descriptor has room for, and whether there is
memory for an array of tokens. The arguments are the room that there is and the room that is asked
for. A cell has less than 2 GB. -/
structure Heap where
  text : Nat → Nat → Option Nat
  le_text : ∀ {current request room}, text current request = some room → request ≤ room
  text_lt : ∀ {current request room}, text current request = some room → room < 2147483648
  tokens : Nat → Nat → Bool

/-- `KTokenArrayInc` and `KStringTableInc`. -/
structure Increments where
  tokenArrayInc : Nat
  stringTableInc : Nat
  tokenArrayInc_pos : 0 < tokenArrayInc

/-- Those of `CPackedFolder`. -/
def folderIncrements : Increments := ⟨100, 1024, Nat.succ_pos 99⟩

/-- The tokens up to `iTokenArrayLength`, with the room that the array has got, and the string
table with its `MaxLength`. -/
structure Packed where
  iTokenArray : List UInt32
  capacity : Nat
  iTokenArrayMaxLength : Nat
  iStringTable : Text
  maxLength : Nat
  deriving DecidableEq

def ePackedTokenAttribute : UInt32 := 0

namespace Packed

section

variable (heap : Heap) (inc : Increments)

/-- `BaseConstructL`. -/
def baseConstructL : Except PackedEnd Packed :=
  match heap.text 0 inc.stringTableInc with
  | none => .error .leave
  | some room => .ok ⟨[], 0, 0, [], room⟩

/-- `ReAllocL` of the token array. -/
def growTokens (request : Nat) (s : Packed) : Except PackedEnd Packed :=
  if heap.tokens s.capacity request then
    .ok { s with capacity := request, iTokenArrayMaxLength := request }
  else .error .leave

/-- `ReAllocL` of the string table. -/
def growText (request : Nat) (s : Packed) : Except PackedEnd Packed :=
  match heap.text s.maxLength request with
  | none => .error .leave
  | some room => .ok { s with maxLength := room }

/-- `iTokenArray[iTokenArrayLength++] = aToken`. -/
def putToken (aToken : UInt32) (s : Packed) : Except PackedEnd Packed :=
  if s.iTokenArray.length < s.capacity then .ok { s with iTokenArray := s.iTokenArray ++ [aToken] }
  else .error .outside

/-- The loop that appends tokens. -/
def putTokens : List UInt32 → Packed → Except PackedEnd Packed
  | [], s => .ok s
  | aToken :: tokens, s => do
    let s ← putToken aToken s
    putTokens tokens s

/-- `Append` to the string table. -/
def append (aValue : Text) (s : Packed) : Except PackedEnd Packed :=
  if (s.iStringTable ++ aValue).length ≤ s.maxLength then
    .ok { s with iStringTable := s.iStringTable ++ aValue }
  else .error .outside

/-- `InsertTokenL`. -/
def insertTokenL (aToken : UInt32) (s : Packed) : Except PackedEnd Packed := do
  let s ← (if s.iTokenArray.length = s.iTokenArrayMaxLength then
      growTokens heap (s.iTokenArrayMaxLength + inc.tokenArrayInc) s
    else .ok s)
  putToken aToken s

/-- `AddAttributeL`. -/
def addAttributeL (aAttribute : UInt32) (aValue : Text) (s : Packed) : Except PackedEnd Packed := do
  let offset := s.iStringTable.length
  let s ← (if s.maxLength ≤ s.iStringTable.length + aValue.length then
      let delta := if inc.stringTableInc < aValue.length then aValue.length + inc.stringTableInc
        else inc.stringTableInc
      growText heap (s.maxLength + delta) s
    else .ok s)
  let s ← append aValue s
  let s ← insertTokenL heap inc ePackedTokenAttribute s
  let s ← insertTokenL heap inc aAttribute s
  let s ← insertTokenL heap inc (UInt32.ofNat offset) s
  insertTokenL heap inc (UInt32.ofNat aValue.length) s

end

/-- The whole tokens in some memory. -/
def tokensOf : List UInt8 → List UInt32
  | b₀ :: b₁ :: b₂ :: b₃ :: rest => UInt32.ofNat (leValue [b₀, b₁, b₂, b₃]) :: tokensOf rest
  | _ => []

/-- The whole characters in some memory. -/
def unitsOf : List UInt8 → Text
  | b₀ :: b₁ :: rest => UInt16.ofNat (leValue [b₀, b₁]) :: unitsOf rest
  | _ => []

section

variable (heap : Heap) (inc : Increments)

/-- `AppendTokenChunkL`. -/
def appendTokenChunkL (aChunk : List UInt8) (s : Packed) : Except PackedEnd Packed :=
  if aChunk.length = 0 then .ok s
  else do
    let tokens := tokensOf aChunk
    let s ← (if s.iTokenArrayMaxLength ≤ s.iTokenArray.length + tokens.length then
        growTokens heap (s.iTokenArrayMaxLength + max inc.tokenArrayInc tokens.length) s
      else .ok s)
    putTokens tokens s

/-- `AppendStringTableChunkL`. -/
def appendStringTableChunkL (aChunk : List UInt8) (s : Packed) : Except PackedEnd Packed :=
  if aChunk.length = 0 then .ok s
  else do
    let buf := unitsOf aChunk
    let s ← (if s.maxLength ≤ s.iStringTable.length + buf.length then
        growText heap (s.maxLength + max inc.stringTableInc buf.length) s
      else .ok s)
    append buf s

/-- `Trim`. What the calls would leave with is trapped, and `iTokenArrayMaxLength` stays. -/
def trim (s : Packed) : Packed :=
  let s :=
    if s.iStringTable.length < s.maxLength then
      match heap.text s.maxLength s.iStringTable.length with
      | none => s
      | some room => { s with maxLength := room }
    else s
  if s.iTokenArray.length < s.iTokenArrayMaxLength then
    if heap.tokens s.capacity s.iTokenArray.length then { s with capacity := s.iTokenArray.length }
    else s
  else s

end

/-! ## Reading -/

/-- `NextToken`, from `iNextToken` on. -/
def nextToken (s : Packed) (iNextToken : Nat) : Option (UInt32 × Nat) :=
  (s.iTokenArray[iNextToken]?).map fun token => (token, iNextToken + 1)

/-- `ExtractAttributeValue`. The sum of the length and the offset is unsigned. -/
def extractAttributeValue (s : Packed) (iNextToken : Nat) : Option ((UInt32 × Text) × Nat) := do
  let (aAttribute, iNextToken) ← s.nextToken iNextToken
  let (offset, iNextToken) ← s.nextToken iNextToken
  let (length, iNextToken) ← s.nextToken iNextToken
  let aValue := if (length + offset).toNat ≤ s.iStringTable.length then
      (s.iStringTable.drop offset.toNat).take length.toNat
    else []
  some ((aAttribute, aValue), iNextToken)

end Packed

/-- What is read with one call, or with two for an attribute. -/
inductive Item where
  | packedToken (aToken : UInt32)
  | packedAttribute (aAttribute : UInt32) (aValue : Text)
  deriving DecidableEq

def Item.isAttribute : Item → Bool
  | .packedToken _ => false
  | .packedAttribute _ _ => true

namespace Packed

/-- Reads what is asked for: an attribute is `EPackedTokenAttribute` and its value. -/
def readItems (s : Packed) : List Bool → Nat → Option (List Item)
  | [], _ => some []
  | isAttribute :: rest, iNextToken => do
    let (token, iNextToken) ← s.nextToken iNextToken
    if isAttribute then
      if token = ePackedTokenAttribute then
        let ((aAttribute, aValue), iNextToken) ← s.extractAttributeValue iNextToken
        let items ← s.readItems rest iNextToken
        some (.packedAttribute aAttribute aValue :: items)
      else none
    else
      let items ← s.readItems rest iNextToken
      some (.packedToken token :: items)

end Packed

/-! ## Runs of calls -/

/-- A call that adds to a container, or trims it. -/
inductive PackedCall where
  | addAttribute (aAttribute : UInt32) (aValue : Text)
  | insertToken (aToken : UInt32)
  | appendTokenChunk (aChunk : List UInt8)
  | appendStringTableChunk (aChunk : List UInt8)
  | trim

namespace PackedCall

open Packed

section

variable (heap : Heap) (inc : Increments)

def step (s : Packed) : PackedCall → Except PackedEnd Packed
  | .addAttribute aAttribute aValue => addAttributeL heap inc aAttribute aValue s
  | .insertToken aToken => insertTokenL heap inc aToken s
  | .appendTokenChunk aChunk => appendTokenChunkL heap inc aChunk s
  | .appendStringTableChunk aChunk => appendStringTableChunkL heap inc aChunk s
  | .trim => .ok (s.trim heap)

/-- Calls in their order. A run ends with a call that does not return. -/
def run (s : Packed) : List PackedCall → Except PackedEnd Packed
  | [] => .ok s
  | call :: calls => do
    let s ← step heap inc s call
    run s calls

end

/-- The memory of some tokens. -/
def tokenBytes (tokens : List UInt32) : List UInt8 := tokens.flatMap fun t => leBytes 4 t.toNat

/-- What a call adds to the string table. -/
def addedText : PackedCall → List UInt8
  | .addAttribute _ aValue => writeUnits aValue
  | .appendStringTableChunk aChunk => aChunk
  | _ => []

/-- What a call adds to the tokens, with the length of the string table in front of it. -/
def addedTokens (offset : Nat) : PackedCall → List UInt8
  | .addAttribute aAttribute aValue =>
    tokenBytes [ePackedTokenAttribute, aAttribute, UInt32.ofNat offset, UInt32.ofNat aValue.length]
  | .insertToken aToken => tokenBytes [aToken]
  | .appendTokenChunk aChunk => aChunk
  | _ => []

/-- What a call adds to be read. -/
def items : PackedCall → List Item
  | .addAttribute aAttribute aValue => [.packedAttribute aAttribute aValue]
  | .insertToken aToken => [.packedToken aToken]
  | .appendTokenChunk aChunk => (tokensOf aChunk).map .packedToken
  | _ => []

def isChunk : PackedCall → Bool
  | .appendTokenChunk _ => true
  | .appendStringTableChunk _ => true
  | _ => false

/-- What some calls add to the tokens. -/
def allTokens : Nat → List PackedCall → List UInt8
  | _, [] => []
  | offset, call :: calls =>
    addedTokens offset call ++ allTokens (offset + call.addedText.length / 2) calls

/-- Some calls add the memory of a container in chunks. -/
structure ChunksOf (s : Packed) (calls : List PackedCall) : Prop where
  chunks : ∀ call ∈ calls, call.isChunk = true
  tokens : allTokens 0 calls = tokenBytes s.iTokenArray
  text : calls.flatMap addedText = writeUnits s.iStringTable

/-- The condition on a call: in a container that has given tokens back, none is written that is not
preceded by a reallocation; and chunks are whole tokens or characters. -/
def Meets (s : Packed) : PackedCall → Prop
  | .addAttribute _ _ => s.iTokenArrayMaxLength ≤ s.capacity
  | .insertToken _ => s.iTokenArrayMaxLength ≤ s.capacity
  | .appendTokenChunk aChunk => aChunk.length % 4 = 0 ∧ (s.iTokenArrayMaxLength ≤ s.capacity ∨
      aChunk.length = 0 ∨ s.iTokenArrayMaxLength ≤ s.iTokenArray.length + aChunk.length / 4)
  | .appendStringTableChunk aChunk => aChunk.length % 2 = 0
  | .trim => True

/-- All calls of a run meet the condition. -/
def AllMeet (heap : Heap) (inc : Increments) (s : Packed) : List PackedCall → Prop
  | [] => True
  | call :: calls => Meets s call ∧
      match step heap inc s call with
      | .ok s' => AllMeet heap inc s' calls
      | .error _ => True

/-- A container is what was added to it by some calls, and reads so. -/
structure Kept (heap : Heap) (inc : Increments) (start : Packed) (calls : List PackedCall) :
    Prop where
  inside : run heap inc start calls ≠ .error .outside
  tokens : ∀ s, run heap inc start calls = .ok s → tokenBytes s.iTokenArray = allTokens 0 calls
  text : ∀ s, run heap inc start calls = .ok s →
    writeUnits s.iStringTable = calls.flatMap addedText
  reads : ∀ s, run heap inc start calls = .ok s →
    s.readItems ((calls.flatMap items).map Item.isAttribute) 0 = some (calls.flatMap items)
  rebuilt : ∀ s, run heap inc start calls = .ok s →
    ∀ (heap' : Heap) (start' : Packed) (chunks : List PackedCall) (s' : Packed),
      baseConstructL heap' inc = .ok start' → ChunksOf s chunks → AllMeet heap' inc start' chunks →
        run heap' inc start' chunks = .ok s' →
          ∀ kinds iNextToken, s'.readItems kinds iNextToken = s.readItems kinds iNextToken

/-! ## Memory as tokens and characters -/

/-- Less than a token is left at the end. -/
theorem length_lt_of_no_token {bytes : List UInt8}
    (h : ∀ b₀ b₁ b₂ b₃ rest, bytes = b₀ :: b₁ :: b₂ :: b₃ :: rest → False) : bytes.length < 4 := by
  match bytes with
  | [] => exact Nat.succ_pos 3
  | [_] => exact Nat.succ_lt_succ (Nat.succ_pos 2)
  | [_, _] => exact Nat.succ_lt_succ (Nat.succ_lt_succ (Nat.succ_pos 1))
  | [_, _, _] => exact Nat.lt_succ_self 3
  | b₀ :: b₁ :: b₂ :: b₃ :: rest => exact (h b₀ b₁ b₂ b₃ rest rfl).elim

theorem length_tokensOf (bytes : List UInt8) : (tokensOf bytes).length = bytes.length / 4 := by
  fun_induction tokensOf bytes with
  | case1 b₀ b₁ b₂ b₃ rest ih =>
    simp only [List.length_cons, ih]
    omega
  | case2 bytes hshort =>
    have hlength := length_lt_of_no_token hshort
    rw [List.length_nil]
    omega

theorem tokenBytes_tokensOf {bytes : List UInt8} (h : bytes.length % 4 = 0) :
    tokenBytes (tokensOf bytes) = bytes := by
  fun_induction tokensOf bytes with
  | case1 b₀ b₁ b₂ b₃ rest ih =>
    have hrest : rest.length % 4 = 0 := by
      simp only [List.length_cons] at h
      omega
    have hvalue : (UInt32.ofNat (leValue [b₀, b₁, b₂, b₃])).toNat = leValue [b₀, b₁, b₂, b₃] := by
      have hlt := leValue_lt [b₀, b₁, b₂, b₃]
      simp only [List.length_cons, List.length_nil] at hlt
      rw [UInt32.toNat_ofNat']
      omega
    have hbytes : leBytes 4 (leValue [b₀, b₁, b₂, b₃]) = [b₀, b₁, b₂, b₃] :=
      leBytes_leValue [b₀, b₁, b₂, b₃]
    have htail := ih hrest
    rw [tokenBytes] at htail ⊢
    rw [List.flatMap_cons, hvalue, hbytes, htail]
    rfl
  | case2 bytes hshort =>
    have hlength := length_lt_of_no_token hshort
    have hnil : bytes = [] := List.length_eq_zero_iff.mp (by omega)
    rw [hnil]
    rfl

theorem length_lt_of_no_unit {bytes : List UInt8}
    (h : ∀ b₀ b₁ rest, bytes = b₀ :: b₁ :: rest → False) : bytes.length < 2 := by
  match bytes with
  | [] => exact Nat.succ_pos 1
  | [_] => exact Nat.lt_succ_self 1
  | b₀ :: b₁ :: rest => exact (h b₀ b₁ rest rfl).elim

theorem writeUnits_unitsOf {bytes : List UInt8} (h : bytes.length % 2 = 0) :
    writeUnits (unitsOf bytes) = bytes := by
  fun_induction unitsOf bytes with
  | case1 b₀ b₁ rest ih =>
    have hrest : rest.length % 2 = 0 := by
      simp only [List.length_cons] at h
      omega
    have hvalue : (UInt16.ofNat (leValue [b₀, b₁])).toNat = leValue [b₀, b₁] := by
      have hlt := leValue_lt [b₀, b₁]
      simp only [List.length_cons, List.length_nil] at hlt
      rw [UInt16.toNat_ofNat']
      omega
    have hbytes : leBytes 2 (leValue [b₀, b₁]) = [b₀, b₁] := leBytes_leValue [b₀, b₁]
    have htail := ih hrest
    rw [writeUnits] at htail ⊢
    rw [List.flatMap_cons, hvalue, hbytes, htail]
    rfl
  | case2 bytes hshort =>
    have hlength := length_lt_of_no_unit hshort
    have hnil : bytes = [] := List.length_eq_zero_iff.mp (by omega)
    rw [hnil]
    rfl

theorem tokenBytes_append (a b : List UInt32) :
    tokenBytes (a ++ b) = tokenBytes a ++ tokenBytes b := List.flatMap_append

theorem writeUnits_append (a b : Text) : writeUnits (a ++ b) = writeUnits a ++ writeUnits b :=
  List.flatMap_append

/-! ## What one call does -/

/-- A container within its memory. If the recorded room is not the room that there is, then memory
has been given back and nothing has been written since. -/
structure Fits (s : Packed) : Prop where
  tokens : s.iTokenArray.length ≤ s.capacity
  recorded : s.iTokenArrayMaxLength = s.capacity ∨
    s.iTokenArray.length = s.capacity ∧ s.capacity < s.iTokenArrayMaxLength
  text : s.iStringTable.length ≤ s.maxLength
  text_lt : s.maxLength < 2147483648

/-- What is added to a container. -/
structure Adds (tokens : List UInt32) (text : Text) (s s' : Packed) : Prop where
  fits : Fits s'
  tokens : s'.iTokenArray = s.iTokenArray ++ tokens
  text : s'.iStringTable = s.iStringTable ++ text

def Leaves (e : PackedEnd) : Prop := e = .leave

section

variable {heap : Heap} {inc : Increments}

theorem Adds.trans {tokens tokens' : List UInt32} {text text' : Text} {s s₁ s₂ : Packed}
    (h : Adds tokens text s s₁) (h' : Adds tokens' text' s₁ s₂) :
    Adds (tokens ++ tokens') (text ++ text') s s₂ where
  fits := h'.fits
  tokens := by rw [h'.tokens, h.tokens, List.append_assoc]
  text := by rw [h'.text, h.text, List.append_assoc]

/-- No memory of the token array has been given back. -/
def Untrimmed (s : Packed) : Prop := s.iTokenArrayMaxLength = s.capacity

theorem ends_growText {s : Packed} (h : Fits s) {request : Nat}
    (hrequest : s.iStringTable.length ≤ request) :
    Ends (fun s' => Fits s' ∧ request ≤ s'.maxLength ∧ s'.iStringTable = s.iStringTable ∧
      s'.iTokenArray = s.iTokenArray ∧ (Untrimmed s → Untrimmed s')) Leaves
      (growText heap request s) := by
  unfold growText
  cases hgrow : heap.text s.maxLength request with
  | none => exact rfl
  | some room =>
    have hroom := heap.le_text hgrow
    exact ⟨⟨h.tokens, h.recorded, hrequest.trans hroom, heap.text_lt hgrow⟩, hroom, rfl, rfl, id⟩

theorem ends_append {s : Packed} (h : Fits s) {aValue : Text}
    (hroom : s.iStringTable.length + aValue.length ≤ s.maxLength) :
    Ends (fun s' => Adds [] aValue s s' ∧ (Untrimmed s → Untrimmed s')) Leaves
      (Packed.append aValue s) := by
  have hlength : (s.iStringTable ++ aValue).length ≤ s.maxLength := by
    rwa [List.length_append]
  rw [Packed.append, if_pos hlength]
  exact ⟨⟨⟨h.tokens, h.recorded, hlength, h.text_lt⟩, (List.append_nil _).symm, rfl⟩, id⟩

theorem ends_putToken {s : Packed} (h : Fits s) (hopen : Untrimmed s) (aToken : UInt32)
    (hroom : s.iTokenArray.length < s.capacity) :
    Ends (fun s' => Adds [aToken] [] s s' ∧ Untrimmed s' ∧ s'.capacity = s.capacity) Leaves
      (putToken aToken s) := by
  rw [putToken, if_pos hroom]
  refine ⟨⟨⟨?_, .inl hopen, h.text, h.text_lt⟩, rfl, (List.append_nil _).symm⟩, hopen, rfl⟩
  rw [List.length_append]
  exact hroom

theorem ends_putTokens {s : Packed} (h : Fits s) (hopen : Untrimmed s) {tokens : List UInt32}
    (hroom : s.iTokenArray.length + tokens.length ≤ s.capacity) :
    Ends (Adds tokens [] s) Leaves (putTokens tokens s) := by
  induction tokens generalizing s with
  | nil => exact ⟨h, (List.append_nil _).symm, (List.append_nil _).symm⟩
  | cons aToken tokens ih =>
    rw [List.length_cons] at hroom
    refine (ends_putToken h hopen aToken (by omega)).bind ?_
    rintro s₁ ⟨hadds, hopen', hcapacity⟩
    refine (ih hadds.fits hopen' ?_).mono fun s₂ hmore => hadds.trans hmore
    rw [hadds.tokens, hcapacity, List.length_append, List.length_singleton]
    omega

/-- The array is reallocated for more tokens. -/
theorem ends_growTokens {s : Packed} (h : Fits s) {request : Nat}
    (hrequest : s.iTokenArray.length ≤ request) :
    Ends (fun s' => Adds [] [] s s' ∧ Untrimmed s' ∧ s'.capacity = request) Leaves
      (growTokens heap request s) := by
  unfold growTokens
  split
  · exact ⟨⟨⟨hrequest, .inl rfl, h.text, h.text_lt⟩, (List.append_nil _).symm,
      (List.append_nil _).symm⟩, rfl, rfl⟩
  · exact rfl

theorem ends_insertTokenL {s : Packed} (h : Fits s) (hopen : Untrimmed s) (aToken : UInt32) :
    Ends (fun s' => Adds [aToken] [] s s' ∧ Untrimmed s') Leaves
      (insertTokenL heap inc aToken s) := by
  have hinc := inc.tokenArrayInc_pos
  unfold insertTokenL
  by_cases hfull : s.iTokenArray.length = s.iTokenArrayMaxLength
  · rw [if_pos hfull]
    refine (ends_growTokens h (by omega)).bind ?_
    rintro s₁ ⟨hadds, hopen', hcapacity⟩
    refine (ends_putToken hadds.fits hopen' aToken ?_).mono ?_
    · rw [hadds.tokens, hcapacity, List.append_nil]
      omega
    · rintro s₂ ⟨hmore, hopen'', -⟩
      exact ⟨hadds.trans hmore, hopen''⟩
  · rw [if_neg hfull]
    have hroom : s.iTokenArray.length < s.capacity := by
      have hlength := h.tokens
      rw [Untrimmed] at hopen
      omega
    refine (ends_putToken h hopen aToken hroom).mono ?_
    rintro s₂ ⟨hmore, hopen', -⟩
    exact ⟨hmore, hopen'⟩

theorem ends_addAttributeL {s : Packed} (h : Fits s) (hopen : Untrimmed s) (aAttribute : UInt32)
    (aValue : Text) :
    Ends (Adds [ePackedTokenAttribute, aAttribute, UInt32.ofNat s.iStringTable.length,
      UInt32.ofNat aValue.length] aValue s) Leaves (addAttributeL heap inc aAttribute aValue s) := by
  have hroom : Ends (fun s' => Fits s' ∧ s'.iStringTable.length + aValue.length ≤ s'.maxLength ∧
      s'.iStringTable = s.iStringTable ∧ s'.iTokenArray = s.iTokenArray ∧ Untrimmed s') Leaves
      (if s.maxLength ≤ s.iStringTable.length + aValue.length then
        growText heap (s.maxLength + if inc.stringTableInc < aValue.length then
          aValue.length + inc.stringTableInc else inc.stringTableInc) s
      else .ok s) := by
    have htext := h.text
    apply Ends.ite
    · intro _
      refine (ends_growText h (by omega)).mono ?_
      rintro s' ⟨hfits, hrequest, htable, htokens, huntrimmed⟩
      refine ⟨hfits, ?_, htable, htokens, huntrimmed hopen⟩
      rw [htable]
      split_ifs at hrequest <;> omega
    · intro hfits
      exact ⟨h, by omega, rfl, rfl, hopen⟩
  refine hroom.bind ?_
  rintro s₁ ⟨hfits, hlength, htable, htokens, hopen₁⟩
  refine (ends_append hfits hlength).bind ?_
  rintro s₂ ⟨htext, hopen₂⟩
  refine (ends_insertTokenL htext.fits (hopen₂ hopen₁) _).bind ?_
  rintro s₃ ⟨hfirst, hopen₃⟩
  refine (ends_insertTokenL hfirst.fits hopen₃ _).bind ?_
  rintro s₄ ⟨hsecond, hopen₄⟩
  refine (ends_insertTokenL hsecond.fits hopen₄ _).bind ?_
  rintro s₅ ⟨hthird, hopen₅⟩
  refine (ends_insertTokenL hthird.fits hopen₅ _).mono ?_
  rintro s₆ ⟨hfourth, -⟩
  have hadds := (((htext.trans hfirst).trans hsecond).trans hthird).trans hfourth
  refine ⟨hadds.fits, ?_, ?_⟩
  · rw [hadds.tokens, htokens]
    rfl
  · rw [hadds.text, htable]
    simp

theorem ends_appendTokenChunkL {s : Packed} (h : Fits s) {aChunk : List UInt8}
    (hmeets : Meets s (.appendTokenChunk aChunk)) :
    Ends (Adds (tokensOf aChunk) [] s) Leaves (appendTokenChunkL heap inc aChunk s) := by
  obtain ⟨-, hroom⟩ := hmeets
  have hsize := length_tokensOf aChunk
  unfold appendTokenChunkL
  by_cases hempty : aChunk.length = 0
  · rw [if_pos hempty, List.length_eq_zero_iff.mp hempty]
    exact ⟨h, (List.append_nil _).symm, (List.append_nil _).symm⟩
  · rw [if_neg hempty]
    have hfits := h.tokens
    by_cases hgrow : s.iTokenArrayMaxLength ≤ s.iTokenArray.length + (tokensOf aChunk).length
    · dsimp only
      rw [if_pos hgrow]
      have hlength : s.iTokenArray.length ≤ s.iTokenArrayMaxLength := by
        rcases h.recorded with heq | ⟨-, hlt⟩ <;> omega
      refine (ends_growTokens h (by omega)).bind ?_
      rintro s₁ ⟨hadds, hopen, hcapacity⟩
      refine (ends_putTokens hadds.fits hopen ?_).mono fun s₂ hmore => hadds.trans hmore
      rw [hadds.tokens, hcapacity, List.append_nil]
      omega
    · dsimp only
      rw [if_neg hgrow]
      have hopen : Untrimmed s := by
        rw [Untrimmed]
        rcases h.recorded with heq | ⟨-, hlt⟩
        · exact heq
        · omega
      refine Ends.bind (P := fun s₁ => s₁ = s) rfl ?_
      rintro s₁ rfl
      apply ends_putTokens h hopen
      rw [Untrimmed] at hopen
      omega

theorem ends_appendStringTableChunkL {s : Packed} (h : Fits s) (aChunk : List UInt8) :
    Ends (Adds [] (unitsOf aChunk) s) Leaves (appendStringTableChunkL heap inc aChunk s) := by
  unfold appendStringTableChunkL
  by_cases hempty : aChunk.length = 0
  · rw [if_pos hempty, List.length_eq_zero_iff.mp hempty]
    exact ⟨h, (List.append_nil _).symm, (List.append_nil _).symm⟩
  · rw [if_neg hempty]
    have htext := h.text
    have hroom : Ends (fun s' => Fits s' ∧ s'.iStringTable.length + (unitsOf aChunk).length ≤
        s'.maxLength ∧ s'.iStringTable = s.iStringTable ∧ s'.iTokenArray = s.iTokenArray) Leaves
        (if s.maxLength ≤ s.iStringTable.length + (unitsOf aChunk).length then
          growText heap (s.maxLength + max inc.stringTableInc (unitsOf aChunk).length) s
        else .ok s) := by
      apply Ends.ite
      · intro _
        refine (ends_growText h (by omega)).mono ?_
        rintro s' ⟨hfits, hrequest, htable, htokens, -⟩
        refine ⟨hfits, ?_, htable, htokens⟩
        rw [htable]
        omega
      · intro hfits
        exact ⟨h, by omega, rfl, rfl⟩
    refine hroom.bind ?_
    rintro s₁ ⟨hfits, hlength, htable, htokens⟩
    refine (ends_append hfits hlength).mono ?_
    rintro s₂ ⟨hadds, -⟩
    refine ⟨hadds.fits, ?_, ?_⟩
    · rw [hadds.tokens, htokens]
    · rw [hadds.text, htable]

/-- `Trim` adds nothing; it is the token array whose recorded room may be too much afterwards. -/
theorem adds_trim {s : Packed} (h : Fits s) : Adds [] [] s (s.trim heap) := by
  have htable : ∃ room, Fits { s with maxLength := room } ∧
      (if s.iStringTable.length < s.maxLength then
        match heap.text s.maxLength s.iStringTable.length with
        | none => s
        | some room => { s with maxLength := room }
      else s) = { s with maxLength := room } := by
    split
    · cases hroom : heap.text s.maxLength s.iStringTable.length with
      | none => exact ⟨s.maxLength, h, rfl⟩
      | some room =>
        exact ⟨room, ⟨h.tokens, h.recorded, heap.le_text hroom, heap.text_lt hroom⟩, rfl⟩
    · exact ⟨s.maxLength, h, rfl⟩
  obtain ⟨room, hfits, hs⟩ := htable
  unfold Packed.trim
  rw [hs]
  dsimp only
  split
  · rename_i hless
    split
    · refine ⟨⟨le_rfl, .inr ⟨rfl, hless⟩, hfits.text, hfits.text_lt⟩, ?_, ?_⟩
      · exact (List.append_nil _).symm
      · exact (List.append_nil _).symm
    · exact ⟨hfits, (List.append_nil _).symm, (List.append_nil _).symm⟩
  · exact ⟨hfits, (List.append_nil _).symm, (List.append_nil _).symm⟩

/-- The tokens that a call adds behind a string table of some length, and the characters. -/
def newTokens (offset : Nat) : PackedCall → List UInt32
  | .addAttribute aAttribute aValue =>
    [ePackedTokenAttribute, aAttribute, UInt32.ofNat offset, UInt32.ofNat aValue.length]
  | .insertToken aToken => [aToken]
  | .appendTokenChunk aChunk => tokensOf aChunk
  | _ => []

def newText : PackedCall → Text
  | .addAttribute _ aValue => aValue
  | .appendStringTableChunk aChunk => unitsOf aChunk
  | _ => []

/-- One call. -/
theorem ends_step {s : Packed} (h : Fits s) {call : PackedCall} (hmeets : Meets s call) :
    Ends (Adds (newTokens s.iStringTable.length call) (newText call) s) Leaves
      (step heap inc s call) := by
  have huntrimmed : s.iTokenArrayMaxLength ≤ s.capacity → Untrimmed s := by
    intro hle
    rcases h.recorded with heq | ⟨-, hlt⟩
    · exact heq
    · omega
  cases call with
  | addAttribute aAttribute aValue => exact ends_addAttributeL h (huntrimmed hmeets) _ _
  | insertToken aToken =>
    exact (ends_insertTokenL h (huntrimmed hmeets) aToken).mono fun s' hadds => hadds.1
  | appendTokenChunk aChunk => exact ends_appendTokenChunkL h hmeets
  | appendStringTableChunk aChunk => exact ends_appendStringTableChunkL h aChunk
  | trim => exact adds_trim h

/-! ## What is read -/

/-- Tokens that are read as some items, with their values in a string table. -/
inductive Encodes (text : Text) : List Item → List UInt32 → Prop where
  | nil : Encodes text [] []
  | packedToken {aToken : UInt32} {items : List Item} {tokens : List UInt32} :
      Encodes text items tokens → Encodes text (.packedToken aToken :: items) (aToken :: tokens)
  | packedAttribute {aAttribute : UInt32} {aValue : Text} {offset : Nat} {items : List Item}
      {tokens : List UInt32} :
      (text.drop offset).take aValue.length = aValue → offset + aValue.length ≤ text.length →
        Encodes text items tokens →
          Encodes text (.packedAttribute aAttribute aValue :: items)
            (ePackedTokenAttribute :: aAttribute :: UInt32.ofNat offset ::
              UInt32.ofNat aValue.length :: tokens)

theorem Encodes.append {text : Text} {xs ys : List Item} {ts us : List UInt32}
    (h : Encodes text xs ts) (h' : Encodes text ys us) : Encodes text (xs ++ ys) (ts ++ us) := by
  induction h with
  | nil => exact h'
  | packedToken _ ih => exact .packedToken ih
  | packedAttribute hvalue hroom _ ih => exact .packedAttribute hvalue hroom ih

/-- What is put behind the string table does not change what is read. -/
theorem Encodes.mono {text : Text} {xs : List Item} {ts : List UInt32} (h : Encodes text xs ts)
    (more : Text) : Encodes (text ++ more) xs ts := by
  induction h with
  | nil => exact .nil
  | packedToken _ ih => exact .packedToken ih
  | packedAttribute hvalue hroom _ ih =>
    refine .packedAttribute ?_ ?_ ih
    · rw [List.drop_append_of_le_length (by omega), List.take_append_of_le_length]
      · exact hvalue
      · rw [List.length_drop]
        omega
    · rw [List.length_append]
      omega

theorem encodes_tokens (text : Text) (tokens : List UInt32) :
    Encodes text (tokens.map .packedToken) tokens := by
  induction tokens with
  | nil => exact .nil
  | cons aToken tokens ih => exact .packedToken ih

theorem encodes_newTokens (text : Text) (call : PackedCall) :
    Encodes (text ++ newText call) (items call) (newTokens text.length call) := by
  cases call with
  | addAttribute aAttribute aValue =>
    refine .packedAttribute ?_ ?_ .nil
    · rw [newText, List.drop_left, List.take_length]
    · rw [newText, List.length_append]
  | insertToken aToken => exact .packedToken .nil
  | appendTokenChunk aChunk => exact encodes_tokens _ _
  | appendStringTableChunk aChunk => exact .nil
  | trim => exact .nil

theorem nextToken_append {s : Packed} {front : List UInt32} {token : UInt32} {back : List UInt32}
    (h : s.iTokenArray = front ++ token :: back) :
    s.nextToken front.length = some (token, (front ++ [token]).length) := by
  rw [nextToken, h]
  simp

/-- Items are read as they are encoded. -/
theorem readItems_of_encodes {s : Packed} (hlt : s.iStringTable.length < 2147483648)
    {items : List Item} {tokens : List UInt32} (h : Encodes s.iStringTable items tokens)
    {front : List UInt32} (hfront : s.iTokenArray = front ++ tokens) :
    s.readItems (items.map Item.isAttribute) front.length = some items := by
  induction h generalizing front with
  | nil => rfl
  | @packedToken aToken items tokens _ ih =>
    have hsplit : s.iTokenArray = (front ++ [aToken]) ++ tokens := by
      rw [hfront]
      simp
    have htail := ih hsplit
    simp only [List.map_cons, Item.isAttribute, readItems, nextToken_append hfront, bind,
      Option.bind, htail]
    rfl
  | @packedAttribute aAttribute aValue offset items tokens hvalue hroom _ ih =>
    have hfirst : s.iTokenArray = front ++ ePackedTokenAttribute :: (aAttribute ::
        UInt32.ofNat offset :: UInt32.ofNat aValue.length :: tokens) := hfront
    have hsecond : s.iTokenArray = (front ++ [ePackedTokenAttribute]) ++ aAttribute ::
        (UInt32.ofNat offset :: UInt32.ofNat aValue.length :: tokens) := by
      rw [hfront]
      simp
    have hthird : s.iTokenArray = (front ++ [ePackedTokenAttribute] ++ [aAttribute]) ++
        UInt32.ofNat offset :: (UInt32.ofNat aValue.length :: tokens) := by
      rw [hfront]
      simp
    have hfourth : s.iTokenArray = (front ++ [ePackedTokenAttribute] ++ [aAttribute] ++
        [UInt32.ofNat offset]) ++ UInt32.ofNat aValue.length :: tokens := by
      rw [hfront]
      simp
    have hsplit : s.iTokenArray = (front ++ [ePackedTokenAttribute] ++ [aAttribute] ++
        [UInt32.ofNat offset] ++ [UInt32.ofNat aValue.length]) ++ tokens := by
      rw [hfront]
      simp
    have htail := ih hsplit
    have hoffset : (UInt32.ofNat offset).toNat = offset := by
      rw [UInt32.toNat_ofNat']
      omega
    have hlength : (UInt32.ofNat aValue.length).toNat = aValue.length := by
      rw [UInt32.toNat_ofNat']
      omega
    have hsum : (UInt32.ofNat aValue.length + UInt32.ofNat offset).toNat ≤ s.iStringTable.length := by
      rw [UInt32.toNat_add, hoffset, hlength]
      omega
    simp only [List.map_cons, Item.isAttribute, readItems, nextToken_append hfirst,
      extractAttributeValue, nextToken_append hsecond, nextToken_append hthird,
      nextToken_append hfourth, bind, Option.bind, if_true, hsum, hoffset, hlength, hvalue, htail]

/-! ## Whole runs -/

theorem tokenBytes_newTokens {s : Packed} {call : PackedCall} (h : Meets s call) (offset : Nat) :
    tokenBytes (newTokens offset call) = addedTokens offset call := by
  cases call with
  | addAttribute aAttribute aValue => rfl
  | insertToken aToken => rfl
  | appendTokenChunk aChunk => exact tokenBytes_tokensOf h.1
  | appendStringTableChunk aChunk => rfl
  | trim => rfl

theorem writeUnits_newText {s : Packed} {call : PackedCall} (h : Meets s call) :
    writeUnits (newText call) = addedText call := by
  cases call with
  | addAttribute aAttribute aValue => rfl
  | insertToken aToken => rfl
  | appendTokenChunk aChunk => rfl
  | appendStringTableChunk aChunk => exact writeUnits_unitsOf h
  | trim => rfl

theorem length_newText {s : Packed} {call : PackedCall} (h : Meets s call) :
    (addedText call).length / 2 = (newText call).length := by
  rw [← writeUnits_newText h]
  have hlength : ∀ t : Text, (writeUnits t).length = 2 * t.length := by
    intro t
    induction t with
    | nil => rfl
    | cons c rest ih =>
      rw [writeUnits] at ih ⊢
      rw [List.flatMap_cons, List.length_append, ih, length_leBytes, List.length_cons]
      omega
  rw [hlength]
  omega

/-- A container after some calls, with what is read of it. -/
structure Behind (s : Packed) (read : List Item) (calls : List PackedCall) (s' : Packed) :
    Prop where
  fits : Fits s'
  tokens : tokenBytes s'.iTokenArray =
    tokenBytes s.iTokenArray ++ allTokens s.iStringTable.length calls
  text : writeUnits s'.iStringTable = writeUnits s.iStringTable ++ calls.flatMap addedText
  encodes : Encodes s'.iStringTable (read ++ calls.flatMap items) s'.iTokenArray

theorem ends_run {s : Packed} (h : Fits s) {read : List Item}
    (hread : Encodes s.iStringTable read s.iTokenArray) {calls : List PackedCall}
    (hmeets : AllMeet heap inc s calls) :
    Ends (Behind s read calls) Leaves (run heap inc s calls) := by
  induction calls generalizing s read with
  | nil => exact ⟨h, (List.append_nil _).symm, (List.append_nil _).symm, by simpa using hread⟩
  | cons call calls ih =>
    obtain ⟨hcall, hrest⟩ := hmeets
    have hstep := @ends_step heap inc s h call hcall
    rw [run]
    cases hrun : step heap inc s call with
    | error e =>
      exact hstep.of_error hrun
    | ok s₁ =>
      rw [hrun] at hrest
      have hadds := hstep.of_ok hrun
      have hread₁ : Encodes s₁.iStringTable (read ++ items call) s₁.iTokenArray := by
        rw [hadds.text, hadds.tokens]
        exact (hread.mono _).append (encodes_newTokens _ _)
      refine (ih hadds.fits hread₁ hrest).mono ?_
      intro s₂ hbehind
      refine ⟨hbehind.fits, ?_, ?_, ?_⟩
      · rw [hbehind.tokens, hadds.tokens, hadds.text, tokenBytes_append, tokenBytes_newTokens hcall,
          List.length_append, allTokens, length_newText hcall, List.append_assoc]
      · rw [hbehind.text, hadds.text, writeUnits_append, writeUnits_newText hcall,
          List.flatMap_cons, List.append_assoc]
      · have hencodes := hbehind.encodes
        rwa [List.append_assoc] at hencodes

theorem fits_baseConstructL {start : Packed} (h : baseConstructL heap inc = .ok start) :
    Fits start ∧ start.iTokenArray = [] ∧ start.iStringTable = [] := by
  unfold baseConstructL at h
  cases hroom : heap.text 0 inc.stringTableInc with
  | none =>
    rw [hroom] at h
    cases h
  | some room =>
    rw [hroom] at h
    obtain rfl := Except.ok.inj h
    exact ⟨⟨le_rfl, .inl rfl, Nat.zero_le _, heap.text_lt hroom⟩, rfl, rfl⟩

theorem tokensOf_tokenBytes (tokens : List UInt32) : tokensOf (tokenBytes tokens) = tokens := by
  induction tokens with
  | nil => rfl
  | cons t rest ih =>
    have hvalue : UInt32.ofNat (leValue (leBytes 4 t.toNat)) = t := by
      rw [leValue_leBytes]
      apply UInt32.toNat_inj.mp
      rw [UInt32.toNat_ofNat']
      have := t.toNat_lt
      omega
    have hcons : tokensOf (tokenBytes (t :: rest)) =
        UInt32.ofNat (leValue (leBytes 4 t.toNat)) :: tokensOf (tokenBytes rest) := rfl
    rw [hcons, hvalue, ih]

theorem unitsOf_writeUnits (t : Text) : unitsOf (writeUnits t) = t := by
  induction t with
  | nil => rfl
  | cons c rest ih =>
    have hvalue : UInt16.ofNat (leValue (leBytes 2 c.toNat)) = c := by
      rw [leValue_leBytes]
      apply UInt16.toNat_inj.mp
      rw [UInt16.toNat_ofNat']
      have := c.toNat_lt
      omega
    have hcons : unitsOf (writeUnits (c :: rest)) =
        UInt16.ofNat (leValue (leBytes 2 c.toNat)) :: unitsOf (writeUnits rest) := rfl
    rw [hcons, hvalue, ih]

/-- What is read depends on the tokens and the string table only. -/
theorem readItems_congr {s s' : Packed} (htokens : s'.iTokenArray = s.iTokenArray)
    (htext : s'.iStringTable = s.iStringTable) (kinds : List Bool) (iNextToken : Nat) :
    s'.readItems kinds iNextToken = s.readItems kinds iNextToken := by
  induction kinds generalizing iNextToken with
  | nil => rfl
  | cons isAttribute rest ih =>
    simp only [readItems, extractAttributeValue, nextToken, htokens, htext, ih]

end

/-- If all calls of a run meet the condition, then the container is what was added to it. -/
theorem kept_of_allMeet {heap : Heap} {inc : Increments} {start : Packed}
    (hstart : baseConstructL heap inc = .ok start) {calls : List PackedCall}
    (hmeets : AllMeet heap inc start calls) : Kept heap inc start calls := by
  obtain ⟨hfits, htokens, htext⟩ := fits_baseConstructL hstart
  have hread : Encodes start.iStringTable [] start.iTokenArray := by
    rw [htokens]
    exact .nil
  have hrun := ends_run hfits hread hmeets
  constructor
  · intro h
    exact absurd (hrun.of_error h) (by simp [Leaves])
  · intro s h
    have hbytes := (hrun.of_ok h).tokens
    rwa [htokens, htext] at hbytes
  · intro s h
    have hbytes := (hrun.of_ok h).text
    rwa [htext] at hbytes
  · intro s h
    have hbehind := hrun.of_ok h
    have hlength := hbehind.fits.text
    have hlt := hbehind.fits.text_lt
    have hfront : s.iTokenArray = [] ++ s.iTokenArray := rfl
    exact readItems_of_encodes (by omega) hbehind.encodes hfront
  · intro s h heap' start' chunks s' hstart' hchunks hmeets' h'
    obtain ⟨hfits', htokens', htext'⟩ := fits_baseConstructL hstart'
    have hread' : Encodes start'.iStringTable [] start'.iTokenArray := by
      rw [htokens']
      exact .nil
    have hrun' := (ends_run hfits' hread' hmeets').of_ok h'
    apply readItems_congr
    · have hbytes := hrun'.tokens
      rw [htokens', htext'] at hbytes
      rw [← tokensOf_tokenBytes s'.iTokenArray, hbytes]
      exact (congrArg tokensOf hchunks.tokens).trans (tokensOf_tokenBytes s.iTokenArray)
    · have hbytes := hrun'.text
      rw [htext'] at hbytes
      rw [← unitsOf_writeUnits s'.iStringTable, hbytes]
      exact (congrArg unitsOf hchunks.text).trans (unitsOf_writeUnits s.iStringTable)

/-- A heap that gives what is asked for. -/
def plentiful : Heap where
  text _ request := if request < 2147483648 then some request else none
  le_text {_ request room} h := by
    split_ifs at h
    rw [Option.some.inj h]
  text_lt {_ request room} h := by
    split_ifs at h with hlt
    rw [← Option.some.inj h]
    exact hlt
  tokens _ _ := true

/-- A folder with a title is filled and trimmed. -/
theorem kept_of_allMeet_folder :
    Kept plentiful folderIncrements ⟨[], 0, 0, [], 1024⟩
      [.insertToken 1, .addAttribute 2 (lit "News"), .appendTokenChunk [1, 0, 0, 0], .trim] := by
  apply kept_of_allMeet rfl
  exact ⟨Nat.le_refl 0, Nat.le_refl 100, ⟨rfl, .inl (Nat.le_refl 100)⟩, trivial, trivial⟩

/-- A token that is inserted behind `Trim` is written outside of the array. -/
theorem not_kept_trim :
    ¬ ∀ (heap : Heap) (inc : Increments) (start : Packed) (calls : List PackedCall),
      baseConstructL heap inc = .ok start → Kept heap inc start calls := by
  intro h
  have hkept := h plentiful folderIncrements ⟨[], 0, 0, [], 1024⟩
    [.insertToken 1, .trim, .insertToken 2] rfl
  exact hkept.inside rfl

end PackedCall

end SymbianWeb.Feeds
