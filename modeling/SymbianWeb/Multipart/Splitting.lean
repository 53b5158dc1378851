import SymbianWeb.Multipart.BodyPartScan
import Mathlib.Data.Nat.Find

/-!
# Where the parts of a multipart body are found

`ParseL` looks for the next part from the sum of the lengths of the parts before, not from the end
of the part before. So a part is found once only when, with its line end, it is longer than the
preamble and the delimiters before it; and an empty part is not found, because the search for its
end starts behind its first character. `splitL_iff` gives the exact condition under which the
buffers that are taken out of a document are its parts.
-/

set_option autoImplicit false

namespace SymbianWeb.Multipart

open CString ExceptRuns

/-! ## The buffers that `ParseL` takes out -/

/-- The buffers in the order in which `ParseL` gets them, when there is no limit. -/
def splitLoop (aMultipartBody aBoundary : Bytes) (aSingleEolChar : Eol) :
    Nat → Nat → ParseM (List BodyPartBuffer)
  | 0, _ => .error .fault
  | fuel + 1, startPosition => do
      match ← getNextBodyPartBuffer startPosition aMultipartBody aBoundary aSingleEolChar with
      | none => return []
      | some buffer =>
          return buffer :: (← splitLoop aMultipartBody aBoundary aSingleEolChar fuel
            (startPosition + buffer.2))

def splitL (aMultipartBody aBoundary : Bytes) : ParseM (List BodyPartBuffer) := do
  let eol ← setEolCharacters aMultipartBody aBoundary
  splitLoop aMultipartBody aBoundary eol (aMultipartBody.length + 2) 0

/-- Parse one buffer after the other, until one of them stops. -/
def parseEach (P : Platform) (aMultipartBody : Bytes) (aUrl : List UInt16) (aSingleEolChar : Eol) :
    List BodyPartBuffer → List CBodyPart → Parsed
  | [], array => ⟨array, none⟩
  | buffer :: buffers, array =>
      match parseBodyPartL P aMultipartBody buffer aSingleEolChar aUrl with
      | .error stop => ⟨array, some stop⟩
      | .ok bodyPart =>
          parseEach P aMultipartBody aUrl aSingleEolChar buffers (array ++ [bodyPart])

/-! ## The search for a delimiter -/

section Search

variable (body b : Bytes) (e : Eol)

/-- The parser takes the text at `i` for a delimiter. -/
def IsDelimiter (i : Nat) : Prop :=
  strncmp (body.drop i) hyphens = some true ∧
    strncasecmp (body.drop (i + hyphens.length)) b = some true

/-- The length of a delimiter. -/
def delimiterLength : Nat := hyphens.length + b.length

/-- No delimiter begins in `[i, j)`. -/
def NoDelimiter (i j : Nat) : Prop := ∀ k, i ≤ k → k < j → ¬ IsDelimiter body b k

/-- The first delimiter from `i` on begins at `j`. -/
def FirstFrom (i j : Nat) : Prop := i ≤ j ∧ IsDelimiter body b j ∧ NoDelimiter body b i j

variable {body b e} {i j k : Nat}

theorem hyphens_eq : hyphens = [0x2D, 0x2D] := by decide

theorem hyphens_length : hyphens.length = 2 := rfl

theorem exists_firstFrom (hij : i ≤ j) (hj : IsDelimiter body b j) :
    ∃ k, FirstFrom body b i k ∧ k ≤ j := by
  classical
  have hex : ∃ k, i ≤ k ∧ IsDelimiter body b k := ⟨j, hij, hj⟩
  refine ⟨Nat.find hex, ⟨(Nat.find_spec hex).1, (Nat.find_spec hex).2, ?_⟩, Nat.find_min' hex ⟨hij, hj⟩⟩
  intro k hik hk hd
  exact Nat.find_min hex hk ⟨hik, hd⟩

/-- Where no delimiter is, the loop goes on. -/
theorem nextLoop_step {fuel : Nat} {so : Option Nat} (hroom : i + delimiterLength b ≤ body.length)
    (hno : ¬ IsDelimiter body b i) :
    nextLoop body b e (fuel + 1) i so = nextLoop body b e fuel (i + 1) so := by
  rw [delimiterLength, hyphens_length] at hroom
  have hlt : i < body.length + 1 - hyphens.length := by rw [hyphens_length]; omega
  have hhyphens : hyphens.length ≤ (body.drop i).length := by
    rw [hyphens_length, List.length_drop]; omega
  have hboundary : b.length ≤ (body.drop (i + hyphens.length)).length := by
    rw [hyphens_length, List.length_drop]; omega
  rw [nextLoop, if_pos hlt]
  rcases strncmp_cases hhyphens with hyes | hnot
  · rw [bind_of_ok (readM_some hyes), if_pos rfl, if_pos (by rw [hyphens_length]; omega)]
    rcases strncasecmp_cases hboundary with hyes' | hnot'
    · exact absurd ⟨hyes, hyes'⟩ hno
    · rw [bind_of_ok (readM_some hnot')]
      rfl
  · rw [bind_of_ok (readM_some hnot)]
    rfl

theorem nextLoop_skip {fuel : Nat} {so : Option Nat} (k : Nat)
    (hroom : i + k + delimiterLength b ≤ body.length) (hno : NoDelimiter body b i (i + k)) :
    nextLoop body b e (fuel + k) i so = nextLoop body b e fuel (i + k) so := by
  induction k generalizing i with
  | zero => rfl
  | succ k ih =>
      have hstep : nextLoop body b e (fuel + k + 1) i so = nextLoop body b e (fuel + k) (i + 1) so :=
        nextLoop_step (by omega) (hno i (Nat.le_refl _) (by omega))
      have hrest := ih (i := i + 1) (by omega) fun m hm hlt => hno m (by omega) (by omega)
      rw [← Nat.add_assoc, hstep, hrest]
      congr 1
      omega

/-- At a delimiter the loop looks at what follows it. -/
theorem nextLoop_at {fuel : Nat} {so : Option Nat} (hd : IsDelimiter body b i)
    (hroom : i + delimiterLength b + hyphens.length ≤ body.length) :
    nextLoop body b e (fuel + 1) i so =
      (boundaryEnd body e (i + delimiterLength b) >>= fun r =>
        match r with
        | .eol =>
            match so with
            | none => nextLoop body b e fuel (i + delimiterLength b + e.single.length + 1)
                (some (i + delimiterLength b))
            | some _ => closeBuffer so i
        | .hyphens => closeBuffer so i
        | .bad => .ok none) := by
  have hoffset : i + hyphens.length + b.length = i + delimiterLength b := Nat.add_assoc ..
  have hlt : i < body.length + 1 - hyphens.length := by
    rw [delimiterLength] at hroom
    rw [hyphens_length] at hroom ⊢
    omega
  rw [nextLoop, if_pos hlt, bind_of_ok (readM_some hd.1), if_pos rfl, hoffset, if_pos (by omega),
    bind_of_ok (readM_some hd.2), if_pos rfl, if_pos hroom]
  rfl

theorem readM_eq_ok {α : Type} {o : Option α} {a : α} (h : readM o = .ok a) : o = some a := by
  cases o with
  | none => cases h
  | some a' =>
      cases h
      rfl

/-- What one round of the loop can do. -/
inductive Round (body b : Bytes) (e : Eol) (fuel i : Nat) (so : Option Nat)
    (r : Option BodyPartBuffer) : Prop where
  /-- the buffer ends, -/
  | atEnd (hend : body.length + 1 ≤ i + hyphens.length) (h : closeBuffer so (i - 1) = .ok r)
  /-- no delimiter is at `i`, -/
  | next (hno : ¬ IsDelimiter body b i) (h : nextLoop body b e fuel (i + 1) so = .ok r)
  /-- a delimiter at `i` or the end of the buffer behind it ends the part, -/
  | close (h : closeBuffer so i = .ok r)
  /-- a delimiter starts the part, -/
  | start (hd : IsDelimiter body b i) (hso : so = none)
      (heol : boundaryEnd body e (i + delimiterLength b) = .ok .eol)
      (h : nextLoop body b e fuel (i + delimiterLength b + e.single.length + 1)
        (some (i + delimiterLength b)) = .ok r)
  /-- or a delimiter with bad content behind it was found. -/
  | bad (hd : IsDelimiter body b i)
      (hroom : i + delimiterLength b + hyphens.length ≤ body.length)
      (hbad : boundaryEnd body e (i + delimiterLength b) = .ok .bad) (h : r = none)

theorem nextLoop_round {fuel : Nat} {so : Option Nat} {r : Option BodyPartBuffer}
    (h : nextLoop body b e (fuel + 1) i so = .ok r) : Round body b e fuel i so r := by
  have hoffset : i + hyphens.length + b.length = i + delimiterLength b := Nat.add_assoc ..
  rw [nextLoop] at h
  by_cases hlt : i < body.length + 1 - hyphens.length
  · rw [if_pos hlt] at h
    obtain ⟨yes, hyes, h⟩ := bind_eq_ok.1 h
    cases yes with
    | false =>
        refine .next (fun hd => ?_) h
        rw [hd.1] at hyes
        cases hyes
    | true =>
        rw [if_pos rfl] at h
        by_cases hroom : i + hyphens.length + b.length ≤ body.length
        · rw [if_pos hroom] at h
          obtain ⟨yes', hyes', h⟩ := bind_eq_ok.1 h
          cases yes' with
          | false =>
              refine .next (fun hd => ?_) h
              rw [hd.2] at hyes'
              cases hyes'
          | true =>
              have hd : IsDelimiter body b i := ⟨readM_eq_ok hyes, readM_eq_ok hyes'⟩
              rw [if_pos rfl, hoffset] at h
              by_cases hroom' : i + delimiterLength b + hyphens.length ≤ body.length
              · rw [if_pos hroom'] at h
                obtain ⟨kind, hkind, h⟩ := bind_eq_ok.1 h
                cases kind with
                | hyphens => exact .close h
                | bad => exact .bad hd hroom' hkind (pure_eq_ok.1 h).symm
                | eol =>
                    cases so with
                    | none => exact .start hd rfl hkind h
                    | some s => exact .close h
              · rw [if_neg hroom'] at h
                exact .close h
        · rw [if_neg hroom] at h
          exact .close h
  · rw [if_neg hlt] at h
    exact .atEnd (by rw [hyphens_length] at hlt ⊢; omega) h

theorem closeBuffer_eq_ok {so : Option Nat} {endOffset s l : Nat}
    (h : closeBuffer so endOffset = .ok (some (s, l))) : so = some s ∧ s + l = endOffset := by
  cases so with
  | none => cases h
  | some start =>
      rw [closeBuffer] at h
      by_cases hle : start ≤ endOffset
      · rw [if_pos hle] at h
        cases h
        exact ⟨rfl, by omega⟩
      · rw [if_neg hle] at h
        cases h

/-- Once its start is known, the part has it, and ends where the search still was to go. -/
theorem nextLoop_started {fuel s s' l : Nat}
    (h : nextLoop body b e fuel i (some s) = .ok (some (s', l))) :
    s' = s ∧ (i ≤ s + l ∨ body.length ≤ s + l + 2) := by
  induction fuel generalizing i with
  | zero => cases h
  | succ fuel ih =>
      cases nextLoop_round h with
      | atEnd hend h =>
          obtain ⟨hso, hsum⟩ := closeBuffer_eq_ok h
          cases hso
          rw [hyphens_length] at hend
          exact ⟨rfl, .inr (by omega)⟩
      | next _ h =>
          obtain ⟨hs, hle⟩ := ih h
          exact ⟨hs, by omega⟩
      | close h =>
          obtain ⟨hso, hsum⟩ := closeBuffer_eq_ok h
          cases hso
          exact ⟨rfl, .inl (by omega)⟩
      | start _ hso => cases hso
      | bad _ _ _ h => cases h

/-- Once its start is known, a part is only lost through bad content. -/
theorem nextLoop_lost {fuel s : Nat} (h : nextLoop body b e fuel i (some s) = .ok none) :
    ∃ j, FirstFrom body b i j ∧ j + delimiterLength b + hyphens.length ≤ body.length ∧
      boundaryEnd body e (j + delimiterLength b) = .ok .bad := by
  have hclose : ∀ {endOffset : Nat}, closeBuffer (some s) endOffset ≠ .ok none := by
    intro endOffset h
    rw [closeBuffer] at h
    split at h <;> cases h
  induction fuel generalizing i with
  | zero => cases h
  | succ fuel ih =>
      cases nextLoop_round h with
      | atEnd _ h => exact absurd h hclose
      | next hno h =>
          obtain ⟨j, ⟨hij, hj, hfirst⟩, hbad⟩ := ih h
          refine ⟨j, ⟨by omega, hj, fun k hik hk => ?_⟩, hbad⟩
          rcases Nat.eq_or_lt_of_le hik with rfl | hlt
          · exact hno
          · exact hfirst k hlt hk
      | close h => exact absurd h hclose
      | start _ hso => cases hso
      | bad hd hroom hbad => exact ⟨i, ⟨Nat.le_refl _, hd, fun k hik hk => by omega⟩, hroom, hbad⟩

theorem boundaryEnd_total {offset : Nat} (h : offset + hyphens.length ≤ body.length) :
    ∃ r, boundaryEnd body e offset = .ok r := by
  have hroom : ∀ {text : Bytes}, text.length ≤ 2 → text.length ≤ (body.drop offset).length := by
    intro text htext
    rw [hyphens_length] at h
    rw [List.length_drop]
    omega
  rcases strncmp_cases (hroom (single_length_le e)) with hyes | hno
  · exact ⟨.eol, by rw [boundaryEnd, bind_of_ok (readM_some hyes)]; rfl⟩
  · rcases strncmp_cases (hroom (single_length_le .lf)) with hyes' | hno'
    · exact ⟨.eol, by
        rw [boundaryEnd, bind_of_ok (readM_some hno), if_neg Bool.false_ne_true]
        exact bind_of_ok (readM_some hyes') _⟩
    · rcases strncmp_cases (hroom (Nat.le_of_eq hyphens_length)) with hyes'' | hno''
      · exact ⟨.hyphens, by
          rw [boundaryEnd, bind_of_ok (readM_some hno), if_neg Bool.false_ne_true]
          refine (bind_of_ok (readM_some hno') _).trans ?_
          exact bind_of_ok (readM_some hyes'') _⟩
      · exact ⟨.bad, by
          rw [boundaryEnd, bind_of_ok (readM_some hno), if_neg Bool.false_ne_true]
          refine (bind_of_ok (readM_some hno') _).trans ?_
          exact bind_of_ok (readM_some hno'') _⟩

/-- The search from `S` ends without a part: the first delimiter is not followed by a line end, or
the next one has bad content behind it. -/
def Ends (body b : Bytes) (e : Eol) (S : Nat) : Prop :=
  ∃ i, FirstFrom body b S i ∧ (boundaryEnd body e (i + delimiterLength b) = .ok .eol →
    ∃ j, FirstFrom body b (i + delimiterLength b + e.single.length + 1) j ∧
      j + delimiterLength b + hyphens.length ≤ body.length ∧
      boundaryEnd body e (j + delimiterLength b) = .ok .bad)

variable {S D D' : Nat}

/-- A part that is found starts behind the first delimiter. -/
theorem getNextBodyPartBuffer_start (hSD : S ≤ D) (hD : IsDelimiter body b D)
    (hroom : D + delimiterLength b + hyphens.length ≤ body.length) {s l : Nat}
    (h : getNextBodyPartBuffer S body b e = .ok (some (s, l))) :
    ∃ i, FirstFrom body b S i ∧ i ≤ D ∧ s = i + delimiterLength b := by
  rw [hyphens_length] at hroom
  obtain ⟨i, ⟨hSi, hi, hfirst⟩, hiD⟩ := exists_firstFrom hSD hD
  obtain ⟨k, rfl⟩ := Nat.exists_eq_add_of_le hSi
  obtain ⟨fuel, hfuel⟩ : ∃ fuel, body.length + 2 = fuel + 1 + k := ⟨body.length + 1 - k, by omega⟩
  rw [getNextBodyPartBuffer, hfuel, nextLoop_skip k (by omega) hfirst,
    nextLoop_at hi (by rw [hyphens_length]; omega)] at h
  obtain ⟨r, -, h⟩ := bind_eq_ok.1 h
  cases r with
  | hyphens => cases h
  | bad => cases h
  | eol => exact ⟨S + k, ⟨by omega, hi, hfirst⟩, hiD, (nextLoop_started h).1⟩

/-- The search for a part, between the delimiters at `D` and `D'`. -/
theorem getNextBodyPartBuffer_iff (hSD : S ≤ D) (hD : IsDelimiter body b D)
    (heol : boundaryEnd body e (D + delimiterLength b) = .ok .eol) {L : Nat}
    (hL : e.single.length ≤ L) (hD' : IsDelimiter body b (D + delimiterLength b + L))
    (hroom : D + delimiterLength b + L + delimiterLength b + hyphens.length ≤ body.length)
    (hend : boundaryEnd body e (D + delimiterLength b + L + delimiterLength b) ≠ .ok .bad) :
    getNextBodyPartBuffer S body b e = .ok (some (D + delimiterLength b, L)) ↔
      NoDelimiter body b S D ∧ e.single.length < L ∧
        NoDelimiter body b (D + delimiterLength b + e.single.length + 1)
          (D + delimiterLength b + L) := by
  have hd2 : 2 ≤ delimiterLength b := Nat.le_add_right _ _
  rw [hyphens_length] at hroom
  constructor
  · intro h
    obtain ⟨i, ⟨hSi, hi, hfirst⟩, hiD⟩ := exists_firstFrom hSD hD
    obtain ⟨fuel, hfuel⟩ : ∃ fuel, body.length + 2 = fuel + 1 + (i - S) :=
      ⟨body.length + 1 - (i - S), by omega⟩
    have hsum : S + (i - S) = i := by omega
    rw [getNextBodyPartBuffer, hfuel, nextLoop_skip _ (by omega) (hsum.symm ▸ hfirst), hsum,
      nextLoop_at hi (by rw [hyphens_length]; omega)] at h
    obtain ⟨r, hr, h⟩ := bind_eq_ok.1 h
    cases r with
    | hyphens => cases h
    | bad => cases h
    | eol =>
        obtain ⟨hs, hle⟩ := nextLoop_started h
        obtain rfl : i = D := by omega
        have hpos : e.single.length < L := by omega
        refine ⟨hfirst, hpos, ?_⟩
        obtain ⟨j, ⟨hij, hj, hfirst'⟩, hjD⟩ := exists_firstFrom
          (show i + delimiterLength b + e.single.length + 1 ≤ i + delimiterLength b + L by omega) hD'
        -- a delimiter before the end of the part would end it there
        obtain ⟨k, hk⟩ := Nat.exists_eq_add_of_le hij
        obtain ⟨fuel', hfuel'⟩ : ∃ fuel', fuel = fuel' + 1 + k := ⟨fuel - 1 - k, by omega⟩
        simp only at h
        rw [hfuel', nextLoop_skip k (by omega) (hk ▸ hfirst'), ← hk,
          nextLoop_at hj (by rw [hyphens_length]; omega)] at h
        obtain ⟨r', -, h⟩ := bind_eq_ok.1 h
        have hclose : closeBuffer (some (i + delimiterLength b)) j =
            .ok (some (i + delimiterLength b, L)) := by
          cases r' with
          | eol => exact h
          | hyphens => exact h
          | bad => cases h
        obtain ⟨-, hsum'⟩ := closeBuffer_eq_ok hclose
        obtain rfl : j = i + delimiterLength b + L := by omega
        exact hfirst'
  · rintro ⟨hfirst, hpos, hfirst'⟩
    obtain ⟨k, rfl⟩ := Nat.exists_eq_add_of_le hSD
    obtain ⟨k', hk'⟩ := Nat.exists_eq_add_of_le
      (show S + k + delimiterLength b + e.single.length + 1 ≤ S + k + delimiterLength b + L by omega)
    obtain ⟨fuel, hfuel⟩ : ∃ fuel, body.length + 2 = fuel + 1 + k' + 1 + k :=
      ⟨body.length - k - k', by omega⟩
    rw [getNextBodyPartBuffer, hfuel, nextLoop_skip k (by omega) hfirst,
      nextLoop_at hD (by rw [hyphens_length]; omega), bind_of_ok heol]
    simp only
    rw [nextLoop_skip k' (by omega) (hk' ▸ hfirst'), ← hk',
      nextLoop_at hD' (by rw [hyphens_length]; omega)]
    obtain ⟨r, hr⟩ := boundaryEnd_total (e := e)
      (show S + k + delimiterLength b + L + delimiterLength b + hyphens.length ≤ body.length by
        rw [hyphens_length]; omega)
    have hclose : closeBuffer (some (S + k + delimiterLength b)) (S + k + delimiterLength b + L) =
        .ok (some (S + k + delimiterLength b, L)) := by
      rw [closeBuffer, if_pos (by omega)]
      simp
    rw [bind_of_ok hr]
    cases r with
    | eol => exact hclose
    | hyphens => exact hclose
    | bad => exact absurd hr hend

/-- The search from `S` on, with the closing delimiter at `D`. -/
theorem getNextBodyPartBuffer_none_iff (hSD : S ≤ D) (hD : IsDelimiter body b D)
    (hroom : D + delimiterLength b + hyphens.length ≤ body.length) :
    getNextBodyPartBuffer S body b e = .ok none ↔ Ends body b e S := by
  have hd2 : 2 ≤ delimiterLength b := Nat.le_add_right _ _
  rw [hyphens_length] at hroom
  obtain ⟨i, ⟨hSi, hi, hfirst⟩, hiD⟩ := exists_firstFrom hSD hD
  obtain ⟨k, rfl⟩ := Nat.exists_eq_add_of_le hSi
  obtain ⟨fuel, hfuel⟩ : ∃ fuel, body.length + 2 = fuel + 1 + k := ⟨body.length + 1 - k, by omega⟩
  obtain ⟨r, hr⟩ := boundaryEnd_total (e := e)
    (show S + k + delimiterLength b + hyphens.length ≤ body.length by rw [hyphens_length]; omega)
  rw [getNextBodyPartBuffer, hfuel, nextLoop_skip k (by omega) hfirst,
    nextLoop_at hi (by rw [hyphens_length]; omega), bind_of_ok hr]
  constructor
  · intro h
    refine ⟨S + k, ⟨by omega, hi, hfirst⟩, fun heol => ?_⟩
    rw [hr] at heol
    cases heol
    exact nextLoop_lost h
  · rintro ⟨i', ⟨hSi', hi', hfirst'⟩, hbad⟩
    obtain rfl : i' = S + k := by
      by_contra hne
      rcases Nat.lt_or_gt_of_ne hne with hlt | hgt
      · exact hfirst i' hSi' hlt hi'
      · exact hfirst' (S + k) hSi hgt hi
    cases r with
    | hyphens => rfl
    | bad => rfl
    | eol =>
        obtain ⟨j, ⟨hij, hj, hfirst''⟩, hroom', hbad'⟩ := hbad hr
        obtain ⟨k', hk'⟩ := Nat.exists_eq_add_of_le hij
        rw [hyphens_length] at hroom'
        obtain ⟨fuel', hfuel'⟩ : ∃ fuel', fuel = fuel' + 1 + k' := ⟨fuel - 1 - k', by omega⟩
        simp only
        rw [hfuel', nextLoop_skip k' (by omega) (hk' ▸ hfirst''), ← hk',
          nextLoop_at hj (by rw [hyphens_length]; omega), bind_of_ok hbad']

/-! ## The line end -/

/-- The line end that the parser takes from what follows the first boundary. -/
def lineEndAt (body : Bytes) (offset : Nat) : Eol :=
  if strncmp (body.drop offset) Eol.lf.single = some true then .lf else .crlf

theorem eolLoop_step {fuel : Nat} (hroom : i + delimiterLength b ≤ body.length)
    (hno : ¬ IsDelimiter body b i) :
    eolLoop body b (fuel + 1) i = eolLoop body b fuel (i + 1) := by
  rw [delimiterLength, hyphens_length] at hroom
  have hlt : i < body.length + 1 - hyphens.length := by rw [hyphens_length]; omega
  have hhyphens : hyphens.length ≤ (body.drop i).length := by
    rw [hyphens_length, List.length_drop]; omega
  have hboundary : b.length ≤ (body.drop (i + hyphens.length)).length := by
    rw [hyphens_length, List.length_drop]; omega
  rw [eolLoop, if_pos hlt]
  rcases strncmp_cases hhyphens with hyes | hnot
  · rw [bind_of_ok (readM_some hyes), if_pos rfl, if_pos (by rw [hyphens_length]; omega)]
    rcases strncasecmp_cases hboundary with hyes' | hnot'
    · exact absurd ⟨hyes, hyes'⟩ hno
    · rw [bind_of_ok (readM_some hnot')]
      rfl
  · rw [bind_of_ok (readM_some hnot)]
    rfl

theorem eolLoop_skip {fuel : Nat} (k : Nat) (hroom : i + k + delimiterLength b ≤ body.length)
    (hno : NoDelimiter body b i (i + k)) :
    eolLoop body b (fuel + k) i = eolLoop body b fuel (i + k) := by
  induction k generalizing i with
  | zero => rfl
  | succ k ih =>
      have hstep : eolLoop body b (fuel + k + 1) i = eolLoop body b (fuel + k) (i + 1) :=
        eolLoop_step (by omega) (hno i (Nat.le_refl _) (by omega))
      have hrest := ih (i := i + 1) (by omega) fun m hm hlt => hno m (by omega) (by omega)
      rw [← Nat.add_assoc, hstep, hrest]
      congr 1
      omega

theorem setEolCharacters_of_firstFrom (hi : FirstFrom body b 0 i)
    (hroom : i + delimiterLength b + hyphens.length ≤ body.length) :
    setEolCharacters body b = .ok (lineEndAt body (i + delimiterLength b)) := by
  obtain ⟨-, hd, hfirst⟩ := hi
  rw [hyphens_length] at hroom
  have hd2 : 2 ≤ delimiterLength b := Nat.le_add_right _ _
  have hoffset : i + hyphens.length + b.length = i + delimiterLength b := Nat.add_assoc ..
  have hlt : i < body.length + 1 - hyphens.length := by rw [hyphens_length]; omega
  obtain ⟨fuel, hfuel⟩ : ∃ fuel, body.length + 1 = fuel + 1 + i := ⟨body.length - i, by omega⟩
  have hskip : eolLoop body b (fuel + 1 + i) 0 = eolLoop body b (fuel + 1) (0 + i) :=
    eolLoop_skip i (by omega) (by rwa [Nat.zero_add])
  have hlf : Eol.lf.single.length ≤ (body.drop (i + delimiterLength b)).length := by
    show 1 ≤ _
    rw [List.length_drop]
    omega
  rw [setEolCharacters, hfuel, hskip, Nat.zero_add, eolLoop, if_pos hlt,
    bind_of_ok (readM_some hd.1), if_pos rfl, hoffset, if_pos (by omega),
    bind_of_ok (readM_some hd.2), if_pos rfl]
  simp only
  rw [if_pos (show i + delimiterLength b + Eol.lf.single.length ≤ body.length by
    show i + delimiterLength b + 1 ≤ body.length; omega), lineEndAt]
  rcases strncmp_cases hlf with hyes | hno
  · rw [bind_of_ok (readM_some hyes), hyes]
    rfl
  · rw [bind_of_ok (readM_some hno), hno]
    rfl

end Search

/-! ## Documents -/

/-- A delimiter for each part, the parts, and the closing delimiter with what is behind it. -/
def tailBytes (b : Bytes) (e : Eol) (epilogue : Bytes) : List Bytes → Bytes
  | [] => hyphens ++ b ++ (hyphens ++ epilogue)
  | p :: ps => hyphens ++ b ++ (e.single ++ (p ++ tailBytes b e epilogue ps))

/-- The buffers of the parts, when the first delimiter is at `D`: each begins with the line end
behind its delimiter. -/
def partBuffers (b : Bytes) (e : Eol) : Nat → List Bytes → List BodyPartBuffer
  | _, [] => []
  | D, p :: ps =>
      (D + delimiterLength b, e.single.length + p.length) ::
        partBuffers b e (D + delimiterLength b + (e.single.length + p.length)) ps

/-- When the search from `S` on finds the parts, with the next delimiter at `D`: before the
delimiter nothing is taken for one, the part is not empty, in it nothing is taken for a delimiter,
and with its line end it is long enough to take the next search behind its delimiter. -/
def SplitsFrom (body b : Bytes) (e : Eol) : Nat → Nat → List Bytes → Prop
  | S, _, [] => Ends body b e S
  | S, D, p :: ps =>
      NoDelimiter body b S D ∧ p ≠ [] ∧
        NoDelimiter body b (D + delimiterLength b + e.single.length + 1)
          (D + delimiterLength b + (e.single.length + p.length)) ∧
        D < S + (e.single.length + p.length) ∧
        SplitsFrom body b e (S + (e.single.length + p.length))
          (D + delimiterLength b + (e.single.length + p.length)) ps

section Tail

variable {body b epilogue : Bytes} {e : Eol} {D : Nat} {parts : List Bytes}

theorem isDelimiter_of_drop {rest : Bytes} (h : body.drop D = hyphens ++ b ++ rest) :
    IsDelimiter body b D := by
  have hsecond : body.drop (D + hyphens.length) = b ++ rest := by
    rw [← List.drop_drop, h, List.append_assoc, List.drop_left]
  refine ⟨?_, ?_⟩
  · rw [h, List.append_assoc]
    exact compareN_append _ _
  · rw [hsecond]
    exact compareN_append _ _

theorem drop_delimiter {rest : Bytes} (h : body.drop D = hyphens ++ b ++ rest) :
    body.drop (D + delimiterLength b) = rest := by
  rw [← List.drop_drop, h, delimiterLength, ← List.length_append, List.drop_left]

theorem length_of_drop {rest : Bytes} (h : body.drop D = rest) (hrest : rest ≠ []) :
    body.length = D + rest.length := by
  have hlen := congrArg List.length h
  rw [List.length_drop] at hlen
  have hpos := List.length_pos_iff.2 hrest
  omega

theorem exists_tail (b : Bytes) (e : Eol) (epilogue : Bytes) (parts : List Bytes) :
    ∃ rest, tailBytes b e epilogue parts = hyphens ++ b ++ rest ∧
      hyphens.length ≤ rest.length ∧
      ∀ {body D}, body.drop D = hyphens ++ b ++ rest →
        boundaryEnd body e (D + delimiterLength b) =
          .ok (if parts = [] then .hyphens else .eol) := by
  cases parts with
  | nil =>
      refine ⟨hyphens ++ epilogue, rfl, by simp, fun h => ?_⟩
      have hdrop := drop_delimiter h
      rw [if_pos rfl, boundaryEnd, hdrop]
      have hno : ∀ e' : Eol, strncmp (hyphens ++ epilogue) e'.single = some false := by
        intro e'
        cases e' <;> simp [strncmp, compareN, hyphens_eq, Eol.single]
      have hyes : strncmp (hyphens ++ epilogue) hyphens = some true := compareN_append _ _
      rw [hno e, hno .lf, hyes]
      rfl
  | cons p ps =>
      refine ⟨e.single ++ (p ++ tailBytes b e epilogue ps), rfl, ?_, fun h => ?_⟩
      · have htail : 2 ≤ (tailBytes b e epilogue ps).length := by
          cases ps <;> simp [tailBytes, hyphens_length]
        rw [hyphens_length]
        simp only [List.length_append]
        omega
      · have hdrop := drop_delimiter h
        rw [if_neg (List.cons_ne_nil p ps), boundaryEnd, hdrop]
        have hyes : strncmp (e.single ++ (p ++ tailBytes b e epilogue ps)) e.single = some true :=
          compareN_append _ _
        rw [hyes]
        rfl

/-- The facts about the delimiter in front of the parts. -/
theorem delimiter_of_tail (h : body.drop D = tailBytes b e epilogue parts) :
    IsDelimiter body b D ∧ D + delimiterLength b + hyphens.length ≤ body.length ∧
      boundaryEnd body e (D + delimiterLength b) =
        .ok (if parts = [] then .hyphens else .eol) := by
  obtain ⟨rest, htail, hlen, hend⟩ := exists_tail b e epilogue parts
  rw [htail] at h
  have hbody := length_of_drop h (by simp [hyphens_eq])
  refine ⟨isDelimiter_of_drop h, ?_, hend h⟩
  rw [hbody, delimiterLength]
  simp only [List.length_append]
  omega

theorem drop_next {p : Bytes} {ps : List Bytes}
    (h : body.drop D = tailBytes b e epilogue (p :: ps)) :
    body.drop (D + delimiterLength b + (e.single.length + p.length)) =
      tailBytes b e epilogue ps := by
  have hdrop := drop_delimiter h
  rw [← List.drop_drop, hdrop, ← List.append_assoc, ← List.length_append, List.drop_left]

/-- The parts are found from `S` on exactly when `SplitsFrom` says so. -/
theorem splitLoop_iff {S fuel : Nat} (h : body.drop D = tailBytes b e epilogue parts) (hSD : S ≤ D)
    (hfuel : parts.length < fuel) :
    splitLoop body b e fuel S = .ok (partBuffers b e D parts) ↔ SplitsFrom body b e S D parts := by
  induction parts generalizing S D fuel with
  | nil =>
      obtain ⟨hd, hroom, -⟩ := delimiter_of_tail h
      cases fuel with
      | zero => cases hfuel
      | succ fuel =>
          rw [SplitsFrom, ← getNextBodyPartBuffer_none_iff hSD hd hroom, splitLoop, partBuffers]
          constructor
          · intro hrun
            obtain ⟨next, hnext, hrun⟩ := bind_eq_ok.1 hrun
            cases next with
            | none => exact hnext
            | some buffer =>
                obtain ⟨rest, -, hrun⟩ := bind_eq_ok.1 hrun
                cases hrun
          · intro hnone
            rw [bind_of_ok hnone]
            rfl
  | cons p ps ih =>
      obtain ⟨hd, -, heol⟩ := delimiter_of_tail h
      rw [if_neg (List.cons_ne_nil p ps)] at heol
      have hnext := drop_next h
      obtain ⟨hd', hroom', hend'⟩ := delimiter_of_tail hnext
      have hnotBad : boundaryEnd body e (D + delimiterLength b + (e.single.length + p.length) +
          delimiterLength b) ≠ .ok .bad := by
        rw [hend']
        split <;> simp
      have hiff := getNextBodyPartBuffer_iff hSD hd heol (Nat.le_add_right _ _) hd' hroom' hnotBad
      have hempty : e.single.length < e.single.length + p.length ↔ p ≠ [] := by
        rw [← List.length_pos_iff]
        omega
      rw [hempty] at hiff
      cases fuel with
      | zero => cases hfuel
      | succ fuel =>
          have hrest := ih hnext (show S + (e.single.length + p.length) ≤ _ by omega)
            (Nat.lt_of_succ_lt_succ hfuel)
          rw [SplitsFrom, partBuffers, splitLoop]
          constructor
          · intro hrun
            obtain ⟨next, hnextRun, hrun⟩ := bind_eq_ok.1 hrun
            cases next with
            | none => cases hrun
            | some buffer =>
                obtain ⟨rest, hrestRun, hrun⟩ := bind_eq_ok.1 hrun
                rw [pure_eq_ok, List.cons.injEq] at hrun
                obtain ⟨rfl, rfl⟩ := hrun
                obtain ⟨hbefore, hp, hinside⟩ := hiff.1 hnextRun
                refine ⟨hbefore, hp, hinside, ?_, hrest.1 hrestRun⟩
                -- otherwise the next search would find the same delimiter again
                by_contra hlong
                have hLpos := hempty.2 hp
                have hsplits := hrest.1 hrestRun
                cases ps with
                | cons q qs => exact hsplits.1 D (by omega) (by omega) hd
                | nil =>
                    obtain ⟨i, ⟨hSi, hi, hfirst⟩, hbad⟩ := hsplits
                    have hiD : i = D := by
                      rcases Nat.lt_trichotomy i D with hlt | heq | hgt
                      · exact absurd hi (hbefore i (by omega) hlt)
                      · exact heq
                      · exact absurd hd (hfirst D (by omega) hgt)
                    subst hiD
                    obtain ⟨j, ⟨hij, hj, hfirst'⟩, -, hbadj⟩ := hbad heol
                    rcases Nat.lt_trichotomy j
                      (i + delimiterLength b + (e.single.length + p.length)) with hlt | rfl | hgt
                    · exact hinside j hij hlt hj
                    · exact hnotBad hbadj
                    · exact hfirst' _ (by omega) hgt hd'
          · rintro ⟨hbefore, hp, hinside, -, hsplits⟩
            rw [bind_of_ok (hiff.2 ⟨hbefore, hp, hinside⟩)]
            simp only
            rw [bind_of_ok (hrest.2 hsplits)]
            rfl

end Tail

/-- A multipart body: a preamble, parts that are introduced by a delimiter and a line end, the
closing delimiter, and an epilogue. -/
structure Document where
  boundary : Bytes
  eol : Eol
  preamble : Bytes
  parts : List Bytes
  epilogue : Bytes

def Document.bytes (doc : Document) : Bytes :=
  doc.preamble ++ tailBytes doc.boundary doc.eol doc.epilogue doc.parts

/-- Where the parts of the document are. -/
def Document.partBuffers (doc : Document) : List BodyPartBuffer :=
  Multipart.partBuffers doc.boundary doc.eol doc.preamble.length doc.parts

/-- When the parts of the document are found. Without parts, nothing that is taken for a delimiter
with a line end may come before the closing delimiter. -/
def Document.SplitsWhen (doc : Document) : Prop :=
  match doc.parts with
  | [] => ∃ i, FirstFrom doc.bytes doc.boundary 0 i ∧
      Ends doc.bytes doc.boundary (lineEndAt doc.bytes (i + delimiterLength doc.boundary)) 0
  | parts => SplitsFrom doc.bytes doc.boundary doc.eol 0 doc.preamble.length parts

section Document

variable {doc : Document}

theorem Document.drop_preamble (doc : Document) : doc.bytes.drop doc.preamble.length =
    tailBytes doc.boundary doc.eol doc.epilogue doc.parts :=
  List.drop_left

theorem length_parts_le (b : Bytes) (e : Eol) (epilogue : Bytes) (parts : List Bytes) :
    parts.length ≤ (tailBytes b e epilogue parts).length := by
  induction parts with
  | nil => exact Nat.zero_le _
  | cons p ps ih =>
      rw [tailBytes]
      simp only [List.length_append, List.length_cons, hyphens_length]
      omega

theorem Document.length_parts_le (doc : Document) : doc.parts.length ≤ doc.bytes.length := by
  have hle := Multipart.length_parts_le doc.boundary doc.eol doc.epilogue doc.parts
  rw [Document.bytes, List.length_append]
  omega

theorem FirstFrom.unique {body b : Bytes} {i j k : Nat} (hj : FirstFrom body b i j)
    (hk : FirstFrom body b i k) : j = k := by
  rcases Nat.lt_trichotomy j k with hlt | heq | hgt
  · exact absurd hj.2.1 (hk.2.2 j hj.1 hlt)
  · exact heq
  · exact absurd hk.2.1 (hj.2.2 k hk.1 hgt)

/-- Behind a first delimiter in its place is the line end of the document. -/
theorem lineEndAt_of_tail {body b epilogue p : Bytes} {e : Eol} {D : Nat} {ps : List Bytes}
    (h : body.drop D = tailBytes b e epilogue (p :: ps)) :
    lineEndAt body (D + delimiterLength b) = e := by
  have hdrop := drop_delimiter h
  rw [lineEndAt, hdrop]
  cases e <;> simp [strncmp, compareN, Eol.single]

/-- The buffers that `ParseL` takes out of a document are its parts exactly when `SplitsWhen`
says so. -/
theorem splitL_iff (doc : Document) :
    splitL doc.bytes doc.boundary = .ok doc.partBuffers ↔ doc.SplitsWhen := by
  have htail := doc.drop_preamble
  obtain ⟨hd, hroom, -⟩ := delimiter_of_tail htail
  obtain ⟨i, hi, hiD⟩ := exists_firstFrom (Nat.zero_le _) hd
  rw [hyphens_length] at hroom
  have heol := setEolCharacters_of_firstFrom hi (by rw [hyphens_length]; omega)
  have hfuel : doc.parts.length < doc.bytes.length + 2 := by
    have hle := doc.length_parts_le
    omega
  rw [splitL, bind_of_ok heol, Document.partBuffers, Document.SplitsWhen]
  cases hparts : doc.parts with
  | nil =>
      have htail' : doc.bytes.drop doc.preamble.length = tailBytes doc.boundary
          (lineEndAt doc.bytes (i + delimiterLength doc.boundary)) doc.epilogue [] := by
        rw [htail, hparts]
        rfl
      rw [hparts] at hfuel
      have hiff := splitLoop_iff htail' (Nat.zero_le _) hfuel
      rw [SplitsFrom] at hiff
      refine hiff.trans ⟨fun hends => ⟨i, hi, hends⟩, ?_⟩
      rintro ⟨j, hj, hends⟩
      rwa [hi.unique hj]
  | cons p ps =>
      rw [hparts] at htail hfuel
      have hiff := splitLoop_iff htail (Nat.zero_le _) hfuel
      have hline : ∀ {j : Nat}, j = doc.preamble.length →
          lineEndAt doc.bytes (j + delimiterLength doc.boundary) = doc.eol := by
        rintro j rfl
        exact lineEndAt_of_tail htail
      refine Iff.trans ?_ hiff
      constructor
      · intro hrun
        -- the first part starts behind the first delimiter, so that its line end is the one taken
        have hrun' := hrun
        rw [splitLoop] at hrun'
        obtain ⟨next, hnext, hrun'⟩ := bind_eq_ok.1 hrun'
        cases next with
        | none => cases hrun'
        | some buffer =>
            obtain ⟨rest, -, hrun'⟩ := bind_eq_ok.1 hrun'
            rw [pure_eq_ok, Multipart.partBuffers, List.cons.injEq] at hrun'
            obtain ⟨rfl, -⟩ := hrun'
            obtain ⟨j, hj, -, hstart⟩ := getNextBodyPartBuffer_start (Nat.zero_le _) hd
              (by rw [hyphens_length]; omega) hnext
            rwa [hi.unique hj, hline (by omega)] at hrun
      · intro hrun
        obtain ⟨hbefore, -⟩ := hiff.1 hrun
        have hfirst : FirstFrom doc.bytes doc.boundary 0 doc.preamble.length :=
          ⟨Nat.zero_le _, hd, hbefore⟩
        rwa [hline (hi.unique hfirst)]

end Document

end SymbianWeb.Multipart
