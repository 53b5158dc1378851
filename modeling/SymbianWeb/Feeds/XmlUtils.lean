import SymbianWeb.Library.XmlContent
import Mathlib.Data.List.DropRight

/-!
# Entities and text of feeds

`CXmlEntity` resolves the name of an entity: a number, or a name of a table that
is sorted, first the names in which case counts. `CXmlUtils` resolves the
entities of a text in place and goes on with what it has put there, so that
`&amp;lt;` becomes `<`. `CleanupUrlL` resolves the entities of an address,
decodes its escaped characters and trims it.

What the platform does with white space, escaped characters and the content of a
variable that was not set is `Platform`.
-/

set_option autoImplicit false

namespace SymbianWeb.Feeds

open XmlContent

/-- How a call ends early. -/
inductive Failure where
  | leave (code : Int)
  | panic
  | stackOverflow
  deriving DecidableEq, Repr

def kErrNotSupported : Int := -5

def kErrCorrupt : Int := -20

/-- What the text functions take from the platform. `EscapeDecodeL` puts one
character for each escaped one, or leaves. -/
structure Platform where
  isSpace : UInt16 → Bool
  isSpace_ascii : ∀ c : UInt16, c < 128 → isSpace c = decide (c = 32 ∨ 9 ≤ c ∧ c ≤ 13)
  compareF : Text → Text → Bool
  escapeDecodeL : Text → Except Failure Text
  escapeDecodeL_shorter : ∀ {t u : Text}, escapeDecodeL t = .ok u → u = t ∨ u.length < t.length
  unset : UInt16

/-! ## Entities -/

/-- `sEntityMappings`, the names in which case counts. -/
def caseSensitiveEntries : List (String × UInt16) :=
  [
    ("AElig", 198), ("Aacute", 193), ("Acirc", 194), ("Agrave", 192), ("Alpha", 913),
    ("Aring", 197), ("Atilde", 195), ("Auml", 196), ("Beta", 914), ("Ccedil", 199), ("Chi", 935),
    ("Dagger", 8225), ("Delta", 916), ("ETH", 208), ("Eacute", 201), ("Ecirc", 202),
    ("Egrave", 200), ("Epsilon", 917), ("Eta", 919), ("Euml", 203), ("Gamma", 915),
    ("Iacute", 205), ("Icirc", 206), ("Igrave", 204), ("Iota", 921), ("Iuml", 207),
    ("Kappa", 922), ("Lambda", 923), ("Mu", 924), ("Ntilde", 209), ("Nu", 925), ("OElig", 338),
    ("Oacute", 211), ("Ocirc", 212), ("Ograve", 210), ("Omega", 937), ("Omicron", 927),
    ("Oslash", 216), ("Otilde", 213), ("Ouml", 214), ("Phi", 934), ("Pi", 928), ("Prime", 8243),
    ("Psi", 936), ("Rho", 929), ("Scaron", 352), ("Sigma", 931), ("THORN", 222), ("Tau", 932),
    ("Theta", 920), ("Uacute", 218), ("Ucirc", 219), ("Ugrave", 217), ("Upsilon", 933),
    ("Uuml", 220), ("Xi", 926), ("Yacute", 221), ("Yuml", 376), ("Zeta", 918), ("aacute", 225),
    ("acirc", 226), ("acute", 180), ("aelig", 230), ("agrave", 224), ("alpha", 945),
    ("atilde", 227), ("auml", 228), ("beta", 946), ("ccedil", 231), ("chi", 967), ("dArr", 8659),
    ("dagger", 8224), ("darr", 8595), ("delta", 948), ("eacute", 233), ("ecirc", 234),
    ("egrave", 232), ("epsilon", 949), ("eta", 951), ("euml", 235), ("gamma", 947),
    ("hArr", 8660), ("harr", 8596), ("iacute", 237), ("icirc", 238), ("igrave", 236),
    ("iota", 953), ("iuml", 239), ("kappa", 954), ("lArr", 8656), ("lambda", 955), ("larr", 8592),
    ("mu", 956), ("ntilde", 241), ("nu", 957), ("oacute", 243), ("ocirc", 244), ("oelig", 339),
    ("ograve", 242), ("omega", 969), ("omicron", 959), ("oslash", 248), ("otilde", 245),
    ("otimes", 8855), ("ouml", 246), ("phi", 966), ("pi", 960), ("psi", 968), ("rArr", 8658),
    ("rarr", 8594), ("rho", 961), ("scaron", 353), ("sigma", 963), ("tau", 964), ("theta", 952),
    ("thorn", 254), ("uArr", 8657), ("uacute", 250), ("uarr", 8593), ("ucirc", 251),
    ("ugrave", 249), ("upsilon", 965), ("uuml", 252), ("xi", 958), ("yacute", 253), ("yuml", 255),
    ("zeta", 950), ("zwj", 8205), ("zwnj", 8204)]

/-- `sEntityMappings`, the other names. -/
def caseInsensitiveEntries : List (String × UInt16) :=
  [
    ("alefsym", 8501), ("amp", 38), ("and", 8743), ("ang", 8736), ("apos", 39), ("aring", 229),
    ("asymp", 8776), ("bdquo", 8222), ("brvbar", 166), ("bull", 8226), ("cap", 8745),
    ("cedil", 184), ("cent", 162), ("circ", 710), ("clubs", 9827), ("cong", 8773), ("copy", 169),
    ("crarr", 8629), ("cup", 8746), ("curren", 164), ("deg", 176), ("diams", 9830),
    ("divide", 247), ("empty", 8709), ("emsp", 8195), ("ensp", 8194), ("equiv", 8801),
    ("eth", 240), ("euro", 8364), ("exist", 8707), ("fnof", 402), ("forall", 8704),
    ("frac12", 189), ("frac14", 188), ("frac34", 190), ("frasl", 8260), ("ge", 8805), ("gt", 62),
    ("hearts", 9829), ("hellip", 8230), ("iexcl", 161), ("image", 8465), ("infin", 8734),
    ("int", 8747), ("iquest", 191), ("isin", 8712), ("lang", 9001), ("laquo", 171),
    ("lceil", 8968), ("ldquo", 8220), ("le", 8804), ("lfloor", 8970), ("lowast", 8727),
    ("loz", 9674), ("lrm", 8206), ("lsaquo", 8249), ("lsquo", 8216), ("lt", 60), ("macr", 175),
    ("mdash", 8212), ("micro", 181), ("middot", 183), ("minus", 8722), ("nabla", 8711),
    ("nbsp", 160), ("ndash", 8211), ("ne", 8800), ("ni", 8715), ("not", 172), ("notin", 8713),
    ("nsub", 8836), ("oline", 8254), ("oplus", 8853), ("or", 8744), ("ordf", 170), ("ordm", 186),
    ("para", 182), ("part", 8706), ("permil", 8240), ("perp", 8869), ("piv", 982),
    ("plusmn", 177), ("pound", 163), ("prime", 8242), ("prod", 8719), ("prop", 8733),
    ("quot", 34), ("radic", 8730), ("rang", 9002), ("raquo", 187), ("rceil", 8969),
    ("rdquo", 8221), ("real", 8476), ("reg", 174), ("rfloor", 8971), ("rlm", 8207),
    ("rsaquo", 8250), ("rsquo", 8217), ("sbquo", 8218), ("sdot", 8901), ("sect", 167),
    ("shy", 173), ("sigmaf", 962), ("sim", 8764), ("spades", 9824), ("sub", 8834), ("sube", 8838),
    ("sum", 8721), ("sup", 8835), ("sup1", 185), ("sup2", 178), ("sup3", 179), ("supe", 8839),
    ("szlig", 223), ("there4", 8756), ("thetasym", 977), ("thinsp", 8201), ("tilde", 732),
    ("times", 215), ("trade", 8482), ("uml", 168), ("upsih", 978), ("weierp", 8472), ("yen", 165),
    ("zwj", 8205), ("zwnj", 8204)]

/-- A zero-terminated string ends at its first zero. -/
def cString (t : Text) : Text := t.takeWhile (· ≠ 0)

/-- `xmlStrcmp`. -/
def xmlStrcmp : Text → Text → Ordering
  | [], [] => .eq
  | [], _ :: _ => .lt
  | _ :: _, [] => .gt
  | a :: as, b :: bs => if a < b then .lt else if b < a then .gt else xmlStrcmp as bs

/-- The case folding of `libxml2`. -/
def casemap (c : UInt16) : UInt16 := if 65 ≤ c ∧ c ≤ 90 then c + 32 else c

/-- `xmlStrcasecmp`. -/
def xmlStrcasecmp (a b : Text) : Ordering := xmlStrcmp (a.map casemap) (b.map casemap)

/-- The binary search of `LookupUsc2Value`, over the entries from `low` on in
front of `high`. -/
def searchEntries (res : Text → Ordering) (entries : List (String × UInt16)) (low high : Nat) :
    Option UInt16 :=
  if low < high then
    let index := (high - 1 + low) / 2
    match entries[index]? with
    | none => none
    | some entry =>
      match res (lit entry.1) with
      | .gt => searchEntries res entries (index + 1) high
      | .lt => searchEntries res entries low index
      | .eq => some entry.2
  else none
termination_by high - low

/-- `LookupUsc2Value`. What is not found is a blank. -/
def lookupUsc2Value (aName : Text) : UInt16 :=
  match searchEntries (xmlStrcmp aName) caseSensitiveEntries 0 caseSensitiveEntries.length with
  | some ucs2Value => ucs2Value
  | none =>
    (searchEntries (xmlStrcasecmp aName) caseInsensitiveEntries 0
      caseInsensitiveEntries.length).getD 32

/-- The value of a digit. -/
def digitValue (c : UInt16) : Option Nat :=
  if 48 ≤ c ∧ c ≤ 57 then some (c.toNat - 48)
  else if 65 ≤ c ∧ c ≤ 70 then some (c.toNat - 55)
  else if 97 ≤ c ∧ c ≤ 102 then some (c.toNat - 87)
  else none

/-- The digits in front of a text. -/
def leadingDigits (radix : Nat) : Text → List Nat
  | [] => []
  | c :: rest =>
    match digitValue c with
    | some d => if d < radix then d :: leadingDigits radix rest else []
    | none => []

/-- `TLex::Val` for 16-bit numbers. -/
def lexUint16 (radix : Nat) (t : Text) : Option UInt16 :=
  let digits := leadingDigits radix t
  let value := digits.foldl (fun n d => n * radix + d) 0
  if digits ≠ [] ∧ value < 65536 then some (UInt16.ofNat value) else none

section

variable (p : Platform)

/-- `ResolveNumericL`. The result of `Val` is not looked at, so that the value
stays unset when there is no number. -/
def resolveNumericL (aName : Text) : Option UInt16 :=
  if aName.length < 2 then none
  else if aName.head? = some 35 then
    let second := aName.tail.head?
    let numeric := if second = some 120 ∨ second = some 88 then aName.drop 2 else aName.drop 1
    let radix := if second = some 120 ∨ second = some 88 then 16 else 10
    if numeric = [] then none else some ((lexUint16 radix numeric).getD p.unset)
  else none

/-- `CXmlEntity::ResolveL` of a name in 16-bit text. -/
def resolveL (aName : Text) : Except Failure UInt16 :=
  if aName.length < 1 then .error (.leave kErrCorrupt)
  else
    match resolveNumericL p aName with
    | some ucs2Value => .ok ucs2Value
    | none => .ok (lookupUsc2Value (cString aName))

/-- What is held back since the last ampersand. -/
def heldText : Option Text → Text
  | none => []
  | some name => 38 :: name

/-- The loop of `ResolveEntitiesL`: the text that is done, the name of an entity
that has begun, and the rest. The value of an entity is looked at again. -/
def resolveFrom (before : Text) (held : Option Text) (rest : Text) : Except Failure Text :=
  match rest with
  | [] => .ok (before ++ heldText held)
  | c :: rest =>
    if c = 38 then resolveFrom (before ++ heldText held) (some []) rest
    else
      match held with
      | none => resolveFrom (before ++ [c]) none rest
      | some name =>
        if c = 59 then
          match resolveL p name with
          | .error e => .error e
          | .ok entityCode => resolveFrom before none (entityCode :: rest)
        else resolveFrom before (some (name ++ [c])) rest
termination_by 2 * rest.length + (heldText held).length
decreasing_by all_goals simp [heldText] <;> omega

/-- `ResolveEntitiesL`. -/
def resolveEntitiesL (aBuffer : Text) : Except Failure Text := resolveFrom p [] none aBuffer

/-! ## White space and addresses -/

/-- `Trim`. -/
def trim (t : Text) : Text := (t.dropWhile p.isSpace).rdropWhile p.isSpace

/-- `CleanupUrlL`. -/
def cleanupUrlL (aUrl : Text) : Except Failure Text := do
  let aUrl ← resolveEntitiesL p aUrl
  let temp ← p.escapeDecodeL aUrl
  .ok (trim p temp)

end

/-- All white space but the first of each run removed. -/
def squeeze (isSpace : UInt16 → Bool) : Bool → Text → Text
  | _, [] => []
  | afterSpace, c :: rest =>
    if isSpace c then
      if afterSpace then squeeze isSpace true rest else c :: squeeze isSpace true rest
    else c :: squeeze isSpace false rest

/-- `TrimAll`. -/
def trimAll (isSpace : UInt16 → Bool) (t : Text) : Text :=
  squeeze isSpace false ((t.dropWhile isSpace).rdropWhile isSpace)

/-- The loop of `StripCDataMarkers`: whether the buffer changed, and the buffer. -/
def stripFrom (changed markerStartFound : Bool) (before rest : Text) : Bool × Text :=
  match rest with
  | [] => (changed, before)
  | c :: tail =>
    if (lit "<![CDATA[").isPrefixOf (c :: tail) then stripFrom true true before (tail.drop 8)
    else if markerStartFound = true ∧ (lit "]]>").isPrefixOf (c :: tail) = true then
      stripFrom true false before (tail.drop 2)
    else stripFrom changed markerStartFound (before ++ [c]) tail
termination_by rest.length

/-- `StripCDataMarkers`. -/
def stripCDataMarkers (p : Platform) (aBuffer : Text) : Text :=
  let (changed, aBuffer) := stripFrom false false [] aBuffer
  if changed then trimAll p.isSpace aBuffer else aBuffer

/-- `ExtractTextL`, of the inner markup of an element. -/
def extractTextL (p : Platform) (inner : Text) : Except Failure (Option Text) :=
  if inner = [] then .ok none
  else do
    let ptr ← resolveEntitiesL p inner
    .ok (some (trimAll p.isSpace (stripCDataMarkers p ptr)))

/-! ## What the text functions keep -/

/-- No semicolon stands behind an ampersand. -/
def EntityFree (t : Text) : Prop := 59 ∉ t.dropWhile (· ≠ 38)

instance (t : Text) : Decidable (EntityFree t) := inferInstanceAs (Decidable (_ ∉ _))

/-- No entity ends in what is left. -/
def Held (held : Option Text) (rest : Text) : Prop :=
  match held with
  | none => EntityFree rest
  | some _ => 59 ∉ rest

section

variable {p : Platform}

theorem entityFree_cons_amp (rest : Text) : EntityFree (38 :: rest) ↔ 59 ∉ rest := by
  simp [EntityFree]

theorem entityFree_cons_of_ne {c : UInt16} (hc : c ≠ 38) (rest : Text) :
    EntityFree (c :: rest) ↔ EntityFree rest := by
  simp [EntityFree, hc]

/-- Without entities the text stays as it is; otherwise it gets shorter. -/
theorem resolveFrom_spec (before : Text) (held : Option Text) (rest : Text) :
    (Held held rest → resolveFrom p before held rest = .ok (before ++ heldText held ++ rest)) ∧
      ∀ u, resolveFrom p before held rest = .ok u → ¬ Held held rest →
        u.length < (before ++ heldText held ++ rest).length := by
  fun_induction resolveFrom p before held rest with
  | case1 before held =>
    refine ⟨fun _ => by rw [List.append_nil], fun u _ hnot => absurd ?_ hnot⟩
    cases held with
    | none => exact List.not_mem_nil
    | some name => exact List.not_mem_nil
  | case2 before held rest ih =>
    have hheld : Held (some []) rest ↔ 59 ∉ rest := Iff.rfl
    have hfree : Held held (38 :: rest) ↔ 59 ∉ rest := by
      cases held with
      | none => exact entityFree_cons_amp rest
      | some name => simp [Held]
    rw [hheld] at ih
    rw [hfree]
    simpa [heldText] using ih
  | case3 before c rest hamp ih =>
    have hfree : Held none (c :: rest) ↔ Held none rest := entityFree_cons_of_ne hamp rest
    rw [hfree]
    simpa [heldText] using ih
  | case4 before rest name e hresolve hamp =>
    refine ⟨fun h => absurd List.mem_cons_self h, fun u hu => ?_⟩
    cases hu
  | case5 before rest name entityCode hresolve hamp ih =>
    refine ⟨fun h => absurd List.mem_cons_self h, fun u hu _ => ?_⟩
    have hlength : u.length ≤ (before ++ heldText none ++ entityCode :: rest).length := by
      by_cases hfree : Held none (entityCode :: rest)
      · have := ih.1 hfree
        rw [hu] at this
        exact (congrArg List.length (Except.ok.inj this)).le
      · exact (ih.2 u hu hfree).le
    -- The name that is replaced is not empty, or `ResolveL` had left.
    simp only [heldText, List.length_append, List.length_cons, List.length_nil] at hlength ⊢
    omega
  | case6 before c rest hamp name hsemi ih =>
    have hfree : Held (some name) (c :: rest) ↔ Held (some (name ++ [c])) rest := by
      simp [Held, Ne.symm hsemi]
    rw [hfree]
    simpa [heldText] using ih

/-- An entity without a name makes `ResolveL` leave. -/
theorem resolveFrom_ne_panic (p : Platform) (before : Text) (held : Option Text) (rest : Text) :
    resolveFrom p before held rest ≠ .error .panic := by
  fun_induction resolveFrom p before held rest with
  | case1 => exact fun h => (nomatch h)
  | case2 before held rest ih => exact ih
  | case3 before c rest hamp ih => exact ih
  | case4 before rest name e hresolve hamp =>
    intro h
    rw [Except.error.inj h, resolveL] at hresolve
    split at hresolve
    · cases hresolve
    · split at hresolve <;> cases hresolve
  | case5 before rest name entityCode hresolve hamp ih => exact ih
  | case6 before c rest hamp name hsemi ih => exact ih

theorem resolveEntitiesL_of_entityFree {t : Text} (h : EntityFree t) :
    resolveEntitiesL p t = .ok t := by
  have := (resolveFrom_spec (p := p) [] none t).1 h
  simpa [resolveEntitiesL, heldText] using this

theorem resolveEntitiesL_shorter {t u : Text} (h : resolveEntitiesL p t = .ok u)
    (hfree : ¬ EntityFree t) : u.length < t.length := by
  have := (resolveFrom_spec (p := p) [] none t).2 u h hfree
  simpa [heldText] using this

theorem length_trim_le (t : Text) : (trim p t).length ≤ t.length :=
  ((List.rdropWhile_prefix _ _).length_le).trans (List.dropWhile_suffix _).length_le

theorem trim_eq_or_shorter (t : Text) : trim p t = t ∨ (trim p t).length < t.length := by
  rcases Nat.lt_or_eq_of_le (length_trim_le (p := p) t) with hlt | heq
  · exact .inr hlt
  · left
    have hpre := List.rdropWhile_prefix p.isSpace (t.dropWhile p.isSpace)
    have hsuffix := List.dropWhile_suffix (l := t) p.isSpace
    have hright : (t.dropWhile p.isSpace).length = t.length :=
      Nat.le_antisymm hsuffix.length_le (heq.symm.le.trans hpre.length_le)
    have hleft : t.dropWhile p.isSpace = t := hsuffix.eq_of_length hright
    exact (hpre.eq_of_length (heq.trans hright.symm)).trans hleft

/-- What `CleanupUrlL` gives is the address itself or shorter, and it is the
address itself when there is nothing to do. -/
theorem cleanupUrlL_shorter {t u : Text} (h : cleanupUrlL p t = .ok u) :
    u = t ∨ u.length < t.length := by
  unfold cleanupUrlL at h
  cases hresolve : resolveEntitiesL p t with
  | error e =>
    rw [hresolve] at h
    cases h
  | ok r =>
    rw [hresolve] at h
    cases hdecode : p.escapeDecodeL r with
    | error e =>
      simp only [bind, Except.bind, hdecode] at h
      cases h
    | ok d =>
      simp only [bind, Except.bind, hdecode] at h
      obtain rfl := Except.ok.inj h
      have htrim := trim_eq_or_shorter (p := p) d
      have hd := p.escapeDecodeL_shorter hdecode
      have hr : r = t ∨ r.length < t.length := by
        by_cases hfree : EntityFree t
        · have := resolveEntitiesL_of_entityFree (p := p) hfree
          rw [hresolve] at this
          exact .inl (Except.ok.inj this)
        · exact .inr (resolveEntitiesL_shorter hresolve hfree)
      have hle : (trim p d).length ≤ d.length := length_trim_le d
      rcases hr with rfl | hr
      · rcases hd with rfl | hd
        · exact htrim
        · exact .inr (by omega)
      · right
        have : d.length ≤ r.length := by rcases hd with rfl | hd <;> omega
        omega

/-- `CleanupUrlL` leaves an address alone exactly when each of its three steps does. -/
theorem cleanupUrlL_eq_self_iff {t : Text} :
    cleanupUrlL p t = .ok t ↔ EntityFree t ∧ p.escapeDecodeL t = .ok t ∧ trim p t = t := by
  constructor
  · intro h
    unfold cleanupUrlL at h
    cases hresolve : resolveEntitiesL p t with
    | error e =>
      rw [hresolve] at h
      cases h
    | ok r =>
      rw [hresolve] at h
      cases hdecode : p.escapeDecodeL r with
      | error e =>
        simp only [bind, Except.bind, hdecode] at h
        cases h
      | ok d =>
        simp only [bind, Except.bind, hdecode] at h
        have htrim : trim p d = t := Except.ok.inj h
        have hd := p.escapeDecodeL_shorter hdecode
        have hle : (trim p d).length ≤ d.length := length_trim_le d
        rw [htrim] at hle
        have hdr : d.length ≤ r.length := by rcases hd with rfl | hd <;> omega
        by_cases hfree : EntityFree t
        · have hself := resolveEntitiesL_of_entityFree (p := p) hfree
          rw [hresolve] at hself
          obtain rfl := Except.ok.inj hself
          obtain rfl : d = r := by
            rcases hd with hd | hd
            · exact hd
            · omega
          exact ⟨hfree, hdecode, htrim⟩
        · have := resolveEntitiesL_shorter hresolve hfree
          omega
  · rintro ⟨hfree, hdecode, htrim⟩
    unfold cleanupUrlL
    rw [resolveEntitiesL_of_entityFree hfree]
    simp only [bind, Except.bind, hdecode, htrim]

end

end SymbianWeb.Feeds
