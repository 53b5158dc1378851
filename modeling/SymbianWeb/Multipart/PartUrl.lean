import SymbianWeb.Multipart.Parser
import SymbianWeb.Library.ExceptRuns
import SymbianWeb.Library.Search
import Mathlib.Data.List.DropRight

/-!
# Relative URLs of body parts

The URL that a relative URL stands for, and the URL that `UrlRelToAbsL` builds. The position of the
last slash of the base path is used as a truth value there, and so are a position that is not found
and the position of the first character. `resolves_iff` says for which URLs this makes no
difference, and that the buffer is long enough for all of them.
-/

set_option autoImplicit false

namespace SymbianWeb.Multipart

open CString ExceptRuns

/-- The URL without a leading dot and slash. -/
def withoutDotSlash (aRelativeUrl : Bytes) : Bytes :=
  if aRelativeUrl.take 2 = ascii "./" then aRelativeUrl.drop 2 else aRelativeUrl

/-- What `UrlRelToAbsL` takes from the base path, and whether it puts a slash behind it. -/
def takenPath (uri : UriParts) (aRelativeUrl : Bytes) : Option (List UInt16) × Bool :=
  if (withoutDotSlash aRelativeUrl).head? = some 0x2F then (none, false) else basePath uri.path

/-- `len` of `UrlRelToAbsL`: the length of the buffer, with two characters for the terminator. -/
def urlAbsLength (uri : UriParts) (aRelativeUrl : Bytes) : Nat :=
  let (path, appendSlash) := takenPath uri aRelativeUrl
  (uri.scheme.getD []).length + 3 +
    (match uri.userinfo with
      | some user => user.length + 1
      | none => 0) +
    (uri.host.getD []).length + (uri.port.getD []).length + (withoutDotSlash aRelativeUrl).length +
    (path.getD []).length + (if appendSlash then 1 else 0) + 2

/-- The scheme, the user information, the host and the port with their separators. -/
def authority (uri : UriParts) : List UInt16 :=
  uri.scheme.getD [] ++ widen (ascii "://") ++ (uri.userinfo.map (· ++ [0x40])).getD [] ++
    uri.host.getD [] ++ (uri.port.map (0x3A :: ·)).getD []

/-- The path up to its last slash, or a slash alone. -/
def directory (path : Option (List UInt16)) : List UInt16 :=
  match (path.getD []).rdropWhile (· != 0x2F) with
  | [] => [0x2F]
  | c :: s => c :: s

/-- The URL that the relative URL stands for. -/
def resolved (uri : UriParts) (aRelativeUrl : Bytes) : List UInt16 :=
  if aRelativeUrl.head? = some 0x2F then
    authority uri ++ widen aRelativeUrl
  else
    authority uri ++ (directory uri.path ++ widen (withoutDotSlash aRelativeUrl))

/-- The relative URL begins with a slash; or it does not begin with `.//`, and the base has a path
with a slash, whose last dot is not its first character unless the path ends in a slash. -/
def WellResolved (uri : UriParts) (aRelativeUrl : Bytes) : Prop :=
  aRelativeUrl.head? = some 0x2F ∨
    (¬ ascii ".//" <+: aRelativeUrl ∧ ∃ path, uri.path = some path ∧ 0x2F ∈ path ∧
      (path.head? ≠ some 0x2E ∨ 0x2E ∈ path.tail ∨ path.getLast? = some 0x2F))

section Paths

variable {c : UInt16} {s a rest : List UInt16}

theorem locateReverse_append (h : c ∉ rest) : locateReverse c (a ++ c :: rest) = a.length := by
  have hindex : (a ++ c :: rest).reverse.idxOf? c = some rest.length := by
    rw [List.reverse_append, List.reverse_cons, List.append_assoc, List.idxOf?,
      List.findIdx?_append]
    have hnone : rest.reverse.findIdx? (· == c) = none := by
      rw [List.findIdx?_eq_none_iff]
      intro x hx
      rw [beq_eq_false_iff_ne]
      rintro rfl
      exact h (List.mem_reverse.1 hx)
    rw [hnone]
    simp [List.findIdx?_cons]
  rw [locateReverse, hindex]
  simp only [List.length_append, List.length_cons]
  omega

theorem locateReverse_of_notMem (h : c ∉ s) : locateReverse c s = -1 := by
  have hnone : s.reverse.idxOf? c = none := by
    rw [List.idxOf?_eq_none_iff]
    simpa using h
  rw [locateReverse, hnone]

theorem directory_append (h : 0x2F ∉ rest) :
    directory (some (a ++ 0x2F :: rest)) = a ++ [0x2F] := by
  have hdrop : (a ++ 0x2F :: rest).rdropWhile (· != 0x2F) = a ++ [0x2F] := by
    rw [List.rdropWhile, List.reverse_append, List.reverse_cons, List.append_assoc,
      List.dropWhile_append_of_pos]
    · simp
    · intro x hx
      rw [bne_iff_ne]
      rintro rfl
      exact h (List.mem_reverse.1 hx)
  rw [directory, Option.getD_some, hdrop]
  cases a <;> rfl

theorem directory_of_notMem (h : 0x2F ∉ s) : directory (some s) = [0x2F] := by
  have hdrop : s.rdropWhile (· != 0x2F) = [] := by
    rw [List.rdropWhile_eq_nil_iff]
    intro x hx
    rw [bne_iff_ne]
    rintro rfl
    exact h hx
  rw [directory, Option.getD_some, hdrop]

theorem directory_ne_nil (path : Option (List UInt16)) : directory path ≠ [] := by
  rw [directory]
  split <;> simp

/-- The last dot of the path is its first character. -/
theorem locateReverse_dot : locateReverse 0x2E s = 0 ↔ s.head? = some 0x2E ∧ 0x2E ∉ s.tail := by
  by_cases hmem : (0x2E : UInt16) ∈ s
  · obtain ⟨a, rest, rfl, hrest⟩ := Search.exists_last hmem
    rw [locateReverse_append hrest]
    cases a with
    | nil => simpa using hrest
    | cons x a => simp; omega
  · rw [locateReverse_of_notMem hmem]
    constructor
    · intro h
      cases h
    · rintro ⟨hhead, -⟩
      cases s with
      | nil => cases hhead
      | cons x s =>
          cases hhead
          exact absurd List.mem_cons_self hmem

/-- What is taken from the base path is its directory exactly when it has a slash, and its last dot
is not its first character or it ends in a slash. -/
theorem basePath_iff (path : Option (List UInt16)) :
    (basePath path).1.getD [] ++ (if (basePath path).2 then [0x2F] else []) = directory path ↔
      ∃ p, path = some p ∧ 0x2F ∈ p ∧
        (p.head? ≠ some 0x2E ∨ 0x2E ∈ p.tail ∨ p.getLast? = some 0x2F) := by
  cases path with
  | none =>
      constructor
      · intro h
        exact absurd h (by decide)
      · rintro ⟨p, hp, -⟩
        cases hp
  | some p =>
      have hexists : (∃ q, some p = some q ∧ 0x2F ∈ q ∧
          (q.head? ≠ some 0x2E ∨ 0x2E ∈ q.tail ∨ q.getLast? = some 0x2F)) ↔
          0x2F ∈ p ∧ (p.head? ≠ some 0x2E ∨ 0x2E ∈ p.tail ∨ p.getLast? = some 0x2F) := by
        constructor
        · rintro ⟨q, hq, h⟩
          cases hq
          exact h
        · intro h
          exact ⟨p, rfl, h⟩
      rw [hexists, basePath]
      simp only
      by_cases hslash : (0x2F : UInt16) ∈ p
      · obtain ⟨a, rest, rfl, hrest⟩ := Search.exists_last hslash
        have hat := locateReverse_append (a := a) hrest
        rw [directory_append hrest]
        by_cases hdot : locateReverse 0x2E (a ++ 0x2F :: rest) = 0
        · -- the path stays as it is
          obtain ⟨hhead, htail⟩ := locateReverse_dot.1 hdot
          rw [if_neg (by simpa using hdot), hat]
          simp only [Option.getD_some, List.length_append, List.length_cons]
          cases rest with
          | nil =>
              simp
          | cons x rest =>
              have hlast : (a ++ 0x2F :: x :: rest).getLast? ≠ some 0x2F := by
                rw [List.getLast?_append_of_ne_nil _ (by simp), List.getLast?_cons_cons]
                intro hlast
                exact hrest (List.mem_of_getLast? hlast)
              constructor
              · intro h
                have hlength := congrArg List.length h
                simp at hlength
              · rintro ⟨-, h | h | h⟩
                · exact absurd hhead h
                · exact absurd h htail
                · exact absurd h hlast
        · -- the path is cut off behind its last slash
          have hright : (a ++ 0x2F :: rest).head? ≠ some 0x2E ∨ 0x2E ∈ (a ++ 0x2F :: rest).tail ∨
              (a ++ 0x2F :: rest).getLast? = some 0x2F := by
            by_contra h
            rw [not_or, not_or, not_not] at h
            exact hdot (locateReverse_dot.2 ⟨h.1, h.2.1⟩)
          rw [if_pos hdot, hat]
          refine ⟨fun _ => ⟨hslash, hright⟩, fun _ => ?_⟩
          cases a with
          | nil => rfl
          | cons x a =>
              have htake : (x :: a ++ 0x2F :: rest).take ((x :: a).length + 1) =
                  x :: a ++ [0x2F] := by
                rw [List.take_append, List.take_of_length_le (by omega), Nat.add_sub_cancel_left]
                rfl
              have hend : locateReverse 0x2F (x :: a ++ [0x2F]) = (x :: a).length :=
                locateReverse_append (by simp)
              rw [if_pos (by simp; omega), show ((((x :: a).length : Nat) : Int) + 1).toNat =
                (x :: a).length + 1 by omega, htake, hend]
              simp
      · -- there is no slash to be kept, and none is put behind
        rw [directory_of_notMem hslash, locateReverse_of_notMem hslash]
        refine ⟨fun h => ?_, fun h => absurd h.1 hslash⟩
        by_cases hdot : locateReverse 0x2E p = 0
        · obtain ⟨hhead, -⟩ := locateReverse_dot.1 hdot
          rw [if_neg (by simpa using hdot)] at h
          cases p with
          | nil => cases hhead
          | cons x p =>
              simp at h
        · have htake : p.take ((-1 : Int) + 1).toNat = [] := rfl
          rw [if_pos hdot, htake] at h
          exact absurd h (by decide)

end Paths

section Urls

variable {P : Platform} {base : List UInt16} {r : Bytes} {uri : UriParts} {scheme host : List UInt16}

/-- Behind a leading dot and slash the URL begins with a slash when there is a second one. -/
theorem withoutDotSlash_head : (withoutDotSlash r).head? = some 0x2F ↔
    r.head? = some 0x2F ∨ ascii ".//" <+: r := by
  have hdot : ascii "./" = [0x2E, 0x2F] := by decide
  have hdots : ascii ".//" = [0x2E, 0x2F, 0x2F] := by decide
  rw [withoutDotSlash, hdot, hdots]
  match r with
  | [] => simp
  | [x] => simp
  | x :: y :: zs =>
      by_cases hxy : x = 0x2E ∧ y = 0x2F
      · obtain ⟨rfl, rfl⟩ := hxy
        cases zs with
        | nil => simp
        | cons z zs => simp [eq_comm]
      · have htake : (x :: y :: zs).take 2 ≠ [0x2E, 0x2F] := by simpa using hxy
        rw [if_neg htake]
        constructor
        · exact .inl
        · rintro (h | h)
          · exact h
          · simp only [List.cons_prefix_cons] at h
            exact absurd ⟨h.1.symm, h.2.1.symm⟩ hxy

theorem withoutDotSlash_of_slash (h : r.head? = some 0x2F) : withoutDotSlash r = r := by
  rw [withoutDotSlash, if_neg]
  intro htake
  have hdot : ascii "./" = [0x2E, 0x2F] := by decide
  rw [hdot] at htake
  cases r with
  | nil => cases h
  | cons x s =>
      cases h
      simp at htake

/-- The URL that is built: the authority, what is taken from the base path, and the relative URL. -/
theorem urlRelToAbsL_eq (hparse : P.parseUri base = .ok uri) (hscheme : uri.scheme = some scheme)
    (hhost : uri.host = some host) : urlRelToAbsL P base r =
      .ok (authority uri ++ ((takenPath uri r).1.getD [] ++
        (if (takenPath uri r).2 then [0x2F] else []) ++ widen (withoutDotSlash r))) := by
  rw [urlRelToAbsL, hparse, leaveIfError, bind_of_ok rfl, hscheme, hhost]
  simp only [authority, hscheme, hhost, Option.getD_some, List.append_assoc]
  rfl

theorem length_authority (hscheme : uri.scheme = some scheme) (hhost : uri.host = some host) :
    (authority uri).length ≤ scheme.length + 3 + (match uri.userinfo with
      | some user => user.length + 1
      | none => 0) + host.length + (uri.port.getD []).length + 1 := by
  have h3 : (widen (ascii "://")).length = 3 := by decide
  simp only [authority, hscheme, hhost, Option.getD_some, List.length_append, h3]
  cases uri.userinfo <;> cases uri.port <;> simp <;> omega

/-- The URL that is built fits its buffer, and is the one that the relative URL stands for exactly
when the positions of the slashes and dots are taken for what they are. -/
theorem resolves_iff (hparse : P.parseUri base = .ok uri) (hscheme : uri.scheme = some scheme)
    (hhost : uri.host = some host) :
    (∃ url, urlRelToAbsL P base r = .ok url ∧ url.length + 1 ≤ urlAbsLength uri r) ∧
      (urlRelToAbsL P base r = .ok (resolved uri r) ↔ WellResolved uri r) := by
  have hrun := urlRelToAbsL_eq (r := r) hparse hscheme hhost
  refine ⟨⟨_, hrun, ?_⟩, ?_⟩
  · have hauthority := length_authority hscheme hhost
    rw [urlAbsLength, hscheme, hhost]
    simp only [Option.getD_some, List.length_append, widen, List.length_map]
    split <;> simp <;> omega
  rw [hrun, Except.ok.injEq, resolved, WellResolved]
  by_cases hslash : r.head? = some 0x2F
  · rw [if_pos hslash, takenPath, withoutDotSlash_of_slash hslash, if_pos hslash]
    simp [hslash]
  rw [if_neg hslash, or_iff_right hslash, List.append_cancel_left_eq,
    List.append_cancel_right_eq, takenPath]
  by_cases hdots : ascii ".//" <+: r
  · -- no path is taken, and a directory is never empty
    rw [if_pos (withoutDotSlash_head.2 (.inr hdots))]
    constructor
    · intro h
      exact absurd h.symm (directory_ne_nil _)
    · rintro ⟨hnot, -⟩
      exact absurd hdots hnot
  · rw [if_neg fun h => (withoutDotSlash_head.1 h).elim hslash hdots, basePath_iff]
    exact (and_iff_right hdots).symm

/-- `http://host` and a path. -/
def hostParts (path : List UInt16) : UriParts where
  scheme := some (widen (ascii "http"))
  userinfo := none
  host := some (widen (ascii "host"))
  port := none
  path := some path

/-- A platform that has parsed the URL `http://host` with this path. -/
def hostPlatform (path : List UInt16) : Platform where
  decodeBase64 bytes := bytes
  decodeQuotedPrintable bytes := bytes
  inflate bytes := .ok bytes
  hasScheme _ := .ok false
  parseUri _ := .ok (hostParts path)

theorem resolves_iff_directory :
    (∃ url, urlRelToAbsL (hostPlatform (widen (ascii "/dir/a.html")))
        (widen (ascii "http://host/dir/a.html")) (ascii "./b.html") = .ok url ∧
        url.length + 1 ≤ urlAbsLength (hostParts (widen (ascii "/dir/a.html"))) (ascii "./b.html")) ∧
      (urlRelToAbsL (hostPlatform (widen (ascii "/dir/a.html")))
          (widen (ascii "http://host/dir/a.html")) (ascii "./b.html") =
            .ok (resolved (hostParts (widen (ascii "/dir/a.html"))) (ascii "./b.html")) ↔
        WellResolved (hostParts (widen (ascii "/dir/a.html"))) (ascii "./b.html")) :=
  resolves_iff rfl rfl rfl

/-- Behind a host without a path no slash is put: `http://host` and `b.html` give
`http://hostb.html`. -/
theorem not_resolves_noPath : ¬ ∀ (P : Platform) (base : List UInt16) (r : Bytes) (uri : UriParts)
    (scheme host : List UInt16), P.parseUri base = .ok uri → uri.scheme = some scheme →
      uri.host = some host → urlRelToAbsL P base r = .ok (resolved uri r) := by
  intro h
  have hrun := h (hostPlatform []) (widen (ascii "http://host")) (ascii "b.html") (hostParts [])
    (widen (ascii "http")) (widen (ascii "host")) rfl rfl rfl
  exact absurd hrun (by decide)

end Urls

end SymbianWeb.Multipart
