import SymbianWeb.Multipart.BodyPartSpec
import SymbianWeb.Multipart.Splitting

/-!
# When the parser stays inside its buffer

The searches for line ends and delimiters never leave the buffer and always end
(`splitL_total`); the scan of a part does both exactly when the part is sound. The codecs and the
URI parser may do what they like: they can only make `ParseL` leave.
-/

set_option autoImplicit false

namespace SymbianWeb.Multipart

open CString ExceptRuns

/-! ## The searches -/

section Searches

variable {body b : Bytes} {e : Eol}

theorem readM_strncmp (s text : Bytes) (h : text.length ≤ s.length) :
    ∃ yes, readM (strncmp s text) = .ok yes := by
  rcases strncmp_cases h with h | h
  · exact ⟨true, readM_some h⟩
  · exact ⟨false, readM_some h⟩

theorem readM_strncasecmp (s text : Bytes) (h : text.length ≤ s.length) :
    ∃ yes, readM (strncasecmp s text) = .ok yes := by
  rcases strncasecmp_cases h with h | h
  · exact ⟨true, readM_some h⟩
  · exact ⟨false, readM_some h⟩

theorem eolLoop_total {fuel i : Nat} (hpos : 0 < fuel) (hfuel : body.length ≤ i + fuel) :
    ∃ eol, eolLoop body b fuel i = .ok eol := by
  induction fuel generalizing i with
  | zero => cases hpos
  | succ fuel ih =>
      rw [eolLoop]
      by_cases hlt : i < body.length + 1 - hyphens.length
      · rw [if_pos hlt]
        rw [hyphens_length] at hlt
        have hnext : ∃ eol, eolLoop body b fuel (i + 1) = .ok eol := ih (by omega) (by omega)
        obtain ⟨yes, hyes⟩ := readM_strncmp (body.drop i) hyphens
          (by rw [hyphens_length, List.length_drop]; omega)
        rw [bind_of_ok hyes]
        cases yes with
        | false => exact hnext
        | true =>
            rw [if_pos rfl]
            by_cases hroom : i + hyphens.length + b.length ≤ body.length
            · rw [if_pos hroom]
              obtain ⟨yes', hyes'⟩ := readM_strncasecmp (body.drop (i + hyphens.length)) b
                (by rw [List.length_drop]; omega)
              rw [bind_of_ok hyes']
              cases yes' with
              | false => exact hnext
              | true =>
                  rw [if_pos rfl]
                  simp only
                  by_cases hlf : i + hyphens.length + b.length + Eol.lf.single.length ≤ body.length
                  · rw [if_pos hlf]
                    obtain ⟨yes'', hyes''⟩ := readM_strncmp
                      (body.drop (i + hyphens.length + b.length)) Eol.lf.single (by rw [List.length_drop]; omega)
                    rw [bind_of_ok hyes'']
                    cases yes'' with
                    | true => exact ⟨_, rfl⟩
                    | false => exact ⟨_, rfl⟩
                  · rw [if_neg hlf]
                    exact ⟨_, rfl⟩
            · rw [if_neg hroom]
              exact hnext
      · rw [if_neg hlt]
        exact ⟨_, rfl⟩

theorem setEolCharacters_total (body b : Bytes) : ∃ eol, setEolCharacters body b = .ok eol :=
  eolLoop_total (Nat.succ_pos _) (by omega)

/-- A buffer that lies in the body and is not empty. -/
def Inside (body : Bytes) (r : Option BodyPartBuffer) : Prop :=
  ∀ buffer, r = some buffer → 0 < buffer.2 ∧ buffer.1 + buffer.2 ≤ body.length

theorem closeBuffer_total {so : Option Nat} {endOffset : Nat}
    (hso : ∀ s, so = some s → s < endOffset) (hend : endOffset ≤ body.length ∨ so = none) :
    ∃ r, closeBuffer so endOffset = .ok r ∧ Inside body r := by
  cases so with
  | none => exact ⟨none, rfl, fun buffer h => by cases h⟩
  | some s =>
      have hlt := hso s rfl
      have hle := hend.resolve_right (by simp)
      refine ⟨some (s, endOffset - s), if_pos (Nat.le_of_lt hlt), fun buffer h => ?_⟩
      cases h
      exact ⟨by simp only; omega, by simp only; omega⟩

theorem nextLoop_total {fuel i : Nat} {so : Option Nat} (hpos : 0 < fuel)
    (hfuel : body.length ≤ i + fuel)
    (hso : ∀ s, so = some s → s + 2 ≤ i ∧ i ≤ body.length + 1) :
    ∃ r, nextLoop body b e fuel i so = .ok r ∧ Inside body r := by
  induction fuel generalizing i so with
  | zero => cases hpos
  | succ fuel ih =>
      have h1 := single_length_pos e
      have h2 := single_length_le e
      have hstart : ∀ s, so = some s → s < i := fun s hs => by
        have h := (hso s hs).1
        omega
      rw [nextLoop]
      by_cases hlt : i < body.length + 1 - hyphens.length
      · rw [if_pos hlt]
        rw [hyphens_length] at hlt
        have hnext : ∃ r, nextLoop body b e fuel (i + 1) so = .ok r ∧ Inside body r :=
          ih (by omega) (by omega) fun s hs => by
            have h := hso s hs
            omega
        have hclose : ∃ r, closeBuffer so i = .ok r ∧ Inside body r :=
          closeBuffer_total hstart (.inl (by omega))
        obtain ⟨yes, hyes⟩ := readM_strncmp (body.drop i) hyphens
          (by rw [hyphens_length, List.length_drop]; omega)
        rw [bind_of_ok hyes]
        cases yes with
        | false => exact hnext
        | true =>
            rw [if_pos rfl]
            by_cases hroom : i + hyphens.length + b.length ≤ body.length
            · rw [if_pos hroom]
              obtain ⟨yes', hyes'⟩ := readM_strncasecmp (body.drop (i + hyphens.length)) b
                (by rw [List.length_drop]; omega)
              rw [bind_of_ok hyes']
              cases yes' with
              | false => exact hnext
              | true =>
                  rw [if_pos rfl]
                  simp only
                  by_cases hroom' : i + hyphens.length + b.length + hyphens.length ≤ body.length
                  · rw [if_pos hroom']
                    obtain ⟨kind, hkind⟩ := boundaryEnd_total (e := e) hroom'
                    rw [bind_of_ok hkind]
                    rw [hyphens_length] at hroom'
                    cases kind with
                    | hyphens => exact hclose
                    | bad => exact ⟨none, rfl, fun buffer h => by cases h⟩
                    | eol =>
                        cases so with
                        | some s => exact hclose
                        | none =>
                            refine ih (by omega) (by rw [hyphens_length]; omega) fun s hs => ?_
                            cases hs
                            rw [hyphens_length]
                            omega
                  · rw [if_neg hroom']
                    exact hclose
            · rw [if_neg hroom]
              exact hclose
      · rw [if_neg hlt]
        rw [hyphens_length] at hlt
        cases so with
        | none => exact ⟨none, rfl, fun buffer h => by cases h⟩
        | some s =>
            have h := hso s rfl
            refine closeBuffer_total (fun s' hs' => ?_) (.inl (by omega))
            cases hs'
            omega

theorem getNextBodyPartBuffer_total (S : Nat) (body b : Bytes) (e : Eol) :
    ∃ r, getNextBodyPartBuffer S body b e = .ok r ∧ Inside body r :=
  nextLoop_total (Nat.succ_pos _) (by omega) fun s hs => by cases hs

/-- Behind the end of the body there are no parts. -/
theorem getNextBodyPartBuffer_behind {S : Nat} (hS : body.length ≤ S) :
    getNextBodyPartBuffer S body b e = .ok none := by
  rw [getNextBodyPartBuffer, nextLoop, if_neg (by rw [hyphens_length]; omega)]
  rfl

theorem splitLoop_total {fuel S : Nat} (hpos : 0 < fuel) (hfuel : body.length < S + fuel) :
    ∃ buffers, splitLoop body b e fuel S = .ok buffers ∧
      ∀ buffer ∈ buffers, 0 < buffer.2 ∧ buffer.1 + buffer.2 ≤ body.length := by
  induction fuel generalizing S with
  | zero => cases hpos
  | succ fuel ih =>
      obtain ⟨r, hr, hinside⟩ := getNextBodyPartBuffer_total S body b e
      rw [splitLoop, bind_of_ok hr]
      cases r with
      | none => exact ⟨[], rfl, fun buffer h => by cases h⟩
      | some buffer =>
          obtain ⟨hlen, hend⟩ := hinside buffer rfl
          have hS : S < body.length := by
            by_contra hge
            rw [getNextBodyPartBuffer_behind (Nat.not_lt.1 hge)] at hr
            cases hr
          obtain ⟨rest, hrest, hall⟩ := ih (S := S + buffer.2) (by omega) (by omega)
          refine ⟨buffer :: rest, ?_, ?_⟩
          · simp only
            rw [bind_of_ok hrest]
            rfl
          · rw [List.forall_mem_cons]
            exact ⟨⟨hlen, hend⟩, hall⟩

/-- The searches end, and what they find is in the body. -/
theorem splitL_total (body b : Bytes) : ∃ eol buffers, setEolCharacters body b = .ok eol ∧
    splitL body b = .ok buffers ∧
      splitLoop body b eol (body.length + 2) 0 = .ok buffers ∧
      ∀ buffer ∈ buffers, 0 < buffer.2 ∧ buffer.1 + buffer.2 ≤ body.length := by
  obtain ⟨eol, heol⟩ := setEolCharacters_total body b
  obtain ⟨buffers, hrun, hall⟩ : ∃ buffers, splitLoop body b eol (body.length + 2) 0 = .ok buffers ∧
      ∀ buffer ∈ buffers, 0 < buffer.2 ∧ buffer.1 + buffer.2 ≤ body.length :=
    splitLoop_total (Nat.succ_pos _) (by omega)
  exact ⟨eol, buffers, heol, by rw [splitL, bind_of_ok heol, hrun], hrun, hall⟩

end Searches

/-! ## Runs of `ParseL` -/

/-- The buffers that are parsed when there may be a limit. -/
def upTo (aMaxToParse : Option Nat) (buffers : List BodyPartBuffer) : List BodyPartBuffer :=
  match aMaxToParse with
  | none => buffers
  | some k => buffers.take k

section Runs

variable {P : Platform} {body b : Bytes} {url : List UInt16} {e : Eol}

theorem parseLoop_upTo {fuel start : Nat} {limit : Option Nat} {buffers : List BodyPartBuffer}
    {array : List CBodyPart} (h : splitLoop body b e fuel start = .ok buffers) :
    parseLoop P body b url e fuel limit start array =
      parseEach P body url e (upTo limit buffers) array := by
  induction fuel generalizing start buffers array limit with
  | zero => cases h
  | succ fuel ih =>
      rw [splitLoop] at h
      obtain ⟨next, hnext, h⟩ := bind_eq_ok.1 h
      by_cases hlimit : limit = some 0
      · subst hlimit
        rw [upTo, List.take_zero]
        rfl
      · rw [parseLoop, hnext]
        swap
        · exact hlimit
        cases next with
        | none =>
            cases h
            cases limit with
            | none => rfl
            | some k =>
                rw [upTo, List.take_nil]
                rfl
        | some buffer =>
            obtain ⟨rest, hrest, h⟩ := bind_eq_ok.1 h
            rw [pure_eq_ok] at h
            subst h
            have hupTo : upTo limit (buffer :: rest) = buffer :: upTo (limit.map (· - 1)) rest := by
              cases limit with
              | none => rfl
              | some k =>
                  cases k with
                  | zero => exact absurd rfl hlimit
                  | succ k => rfl
            rw [hupTo, parseEach]
            simp only
            cases hparse : parseBodyPartL P body buffer e url with
            | error stop => rfl
            | ok bodyPart => exact ih hrest

theorem parseL_upTo {ct : Bytes} {limit : Option Nat} {buffers : List BodyPartBuffer}
    (hbody : body ≠ []) (hct : supported ct = .ok true) (heol : setEolCharacters body b = .ok e)
    (h : splitLoop body b e (body.length + 2) 0 = .ok buffers) :
    parseL P body ct b url limit = parseEach P body url e (upTo limit buffers) [] := by
  rw [parseL, if_neg hbody, hct, heol]
  exact parseLoop_upTo h

theorem parseEach_stop {buffers : List BodyPartBuffer} {array : List CBodyPart} {stop : Stop}
    (h : (parseEach P body url e buffers array).stop = some stop) :
    ∃ buffer ∈ buffers, parseBodyPartL P body buffer e url = .error stop := by
  induction buffers generalizing array with
  | nil => cases h
  | cons buffer buffers ih =>
      rw [parseEach] at h
      cases hparse : parseBodyPartL P body buffer e url with
      | error stop' =>
          rw [hparse, Option.some.injEq] at h
          exact ⟨buffer, List.mem_cons_self, by rw [← h, hparse]⟩
      | ok bodyPart =>
          rw [hparse] at h
          obtain ⟨buffer', hmem, hstop⟩ := ih h
          exact ⟨buffer', List.mem_cons_of_mem _ hmem, hstop⟩

/-- A buffer on which the parser faults makes the run fault, when nothing leaves. -/
theorem parseEach_fault {buffers : List BodyPartBuffer} {array : List CBodyPart}
    (hleave : ∀ buffer ∈ buffers, ∀ code,
      parseBodyPartL P body buffer e url ≠ .error (.leave code))
    {buffer : BodyPartBuffer} (hmem : buffer ∈ buffers)
    (h : parseBodyPartL P body buffer e url = .error .fault) :
    (parseEach P body url e buffers array).stop = some .fault := by
  induction buffers generalizing array with
  | nil => cases hmem
  | cons buffer' buffers ih =>
      rw [parseEach]
      cases hparse : parseBodyPartL P body buffer' e url with
      | error stop =>
          cases stop with
          | fault => rfl
          | leave code => exact absurd hparse (hleave buffer' List.mem_cons_self code)
      | ok bodyPart =>
          rcases List.mem_cons.1 hmem with rfl | hmem
          · rw [hparse] at h
            cases h
          · exact ih (fun b' hb' => hleave b' (List.mem_cons_of_mem _ hb')) hmem

/-- A platform whose codecs never fail and for which every URL is absolute. -/
def lenient : Platform where
  decodeBase64 _ := [0]
  decodeQuotedPrintable _ := [0]
  inflate _ := .ok [0]
  hasScheme _ := .ok true
  parseUri _ := .error KErrGeneral

theorem not_mayLeave_lenient : ¬ lenient.MayLeave := by
  rintro (⟨bytes, h⟩ | ⟨bytes, h⟩ | ⟨bytes, h⟩ | ⟨url, h⟩)
  · cases h
  · cases h
  · exact absurd (h [0] rfl) (by simp)
  · exact h rfl

/-- The part, and the body cut off behind it. -/
def cutBehind (aMultipartBody : Bytes) (buffer : BodyPartBuffer) : Bytes :=
  aMultipartBody.take (buffer.1 + buffer.2)

/-- `ParseL` takes the buffers `buffers` out of the body, and neither it nor the scan of one of
them reads over an end or makes a negative length: not the end of the body, and, for `inPart`, not
the end of the part. -/
structure StaysInside (body b : Bytes) (url : List UInt16) (limit : Option Nat) (e : Eol)
    (buffers : List BodyPartBuffer) : Prop where
  inBody : ∀ P ct, supported ct = .ok true →
    (parseL P body ct b url limit).stop ≠ some .fault
  inPart : ∀ P, ∀ buffer ∈ buffers,
    parseBodyPartL P (cutBehind body buffer) buffer e url ≠ .error .fault

/-- The parser ends, and it stays inside its buffer and the parts exactly when each part that is
parsed is sound, in the body and cut off behind its end. -/
theorem parseL_staysInside_iff {body : Bytes} (b : Bytes) (url : List UInt16) (limit : Option Nat)
    (hbody : body ≠ []) :
    ∃ e buffers, setEolCharacters body b = .ok e ∧ splitL body b = .ok buffers ∧
      (StaysInside body b url limit e (upTo limit buffers) ↔
        ∀ buffer ∈ upTo limit buffers,
          Sound body e buffer ∧ Sound (cutBehind body buffer) e buffer) := by
  obtain ⟨e, buffers, heol, hsplit, hloop, hinside⟩ := splitL_total body b
  refine ⟨e, buffers, heol, hsplit, ?_⟩
  have hmem : ∀ buffer ∈ upTo limit buffers, buffer ∈ buffers := by
    intro buffer hb
    cases limit with
    | none => exact hb
    | some k => exact List.mem_of_mem_take hb
  have hlen : ∀ buffer ∈ upTo limit buffers, buffer.2 ≤ (body.drop buffer.1).length := by
    intro buffer hb
    have h := hinside buffer (hmem buffer hb)
    rw [List.length_drop]
    omega
  have hcut : ∀ buffer ∈ upTo limit buffers,
      buffer.2 ≤ ((cutBehind body buffer).drop buffer.1).length := by
    intro buffer hb
    have h := hinside buffer (hmem buffer hb)
    rw [cutBehind, List.length_drop, List.length_take]
    omega
  have hct : supported (ascii "multipart/mixed") = .ok true := by decide
  constructor
  · intro h buffer hb
    constructor
    · by_contra hsound
      have hfault : parseBodyPartL lenient body buffer e url = .error .fault :=
        (parseBodyPartL_fault_iff (hlen buffer hb)).2 hsound
      refine h.inBody lenient _ hct ?_
      rw [parseL_upTo hbody hct heol hloop]
      exact parseEach_fault (fun buffer' hb' code hleave => not_mayLeave_lenient
        (parseBodyPartL_leave (hlen buffer' hb') hleave)) hb hfault
    · by_contra hsound
      exact h.inPart lenient buffer hb
        ((parseBodyPartL_fault_iff (hcut buffer hb)).2 hsound)
  · intro h
    refine ⟨fun P ct hct' hstop => ?_, fun P buffer hb hfault => ?_⟩
    · rw [parseL_upTo hbody hct' heol hloop] at hstop
      obtain ⟨buffer, hb, hfault⟩ := parseEach_stop hstop
      exact (parseBodyPartL_fault_iff (hlen buffer hb)).1 hfault (h buffer hb).1
    · exact (parseBodyPartL_fault_iff (hcut buffer hb)).1 hfault (h buffer hb).2

/-- A document with one part, whose content id is an angle bracket alone. -/
def angleBracket : Bytes := ascii "--b\x0D\nContent-ID: <\x0D\n\x0D\nx\x0D\n--b--"

theorem parseL_staysInside_iff_angleBracket :
    ∃ e buffers, setEolCharacters angleBracket (ascii "b") = .ok e ∧
      splitL angleBracket (ascii "b") = .ok buffers ∧
      (StaysInside angleBracket (ascii "b") [] none e (upTo none buffers) ↔
        ∀ buffer ∈ upTo none buffers,
          Sound angleBracket e buffer ∧ Sound (cutBehind angleBracket buffer) e buffer) :=
  parseL_staysInside_iff (ascii "b") [] none (by decide)

theorem not_parseL_staysInside : ¬ ∀ (P : Platform) (body ct b : Bytes) (url : List UInt16)
    (limit : Option Nat), body ≠ [] → supported ct = .ok true →
      (parseL P body ct b url limit).stop ≠ some .fault := by
  intro h
  exact h lenient angleBracket (ascii "multipart/mixed") (ascii "b") [] none (by decide) (by decide)
    (by decide)

end Runs

end SymbianWeb.Multipart
