import SymbianWeb.Library.ErrorState

/-!
# Runs that go together

Two computations with states of their own go together (`Related`) if from related states they return
the same or stop for the same reason, in states that are related again. A comparison can be given
up on either side: there are states from which nothing more is claimed, and a computation does not
leave them. Computations that are built in the same way from parts that go together go together
(`Related.bind`, `Related.ite`).

A computation that keeps an invariant goes together with itself (`Keeps`).
-/

set_option autoImplicit false

namespace SymbianWeb.RelatedRuns

open ErrorState

universe u

/-- How two runs are compared: the states from which they do the same, what is known besides where
both stop, and the states of either side in which the comparison is given up. -/
structure Comparison (ε σ τ : Type u) where
  Rel : σ → τ → Prop
  Stops : ε → σ → τ → Prop
  Left : σ → Prop
  Right : τ → Prop

variable {ε σ τ α β : Type u} {c : Comparison ε σ τ}

/-- The results of two runs. -/
inductive Compared (c : Comparison ε σ τ) :
    EStateM.Result ε σ α → EStateM.Result ε τ α → Prop
  | ok {a : α} {s : σ} {t : τ} (h : c.Rel s t) : Compared c (.ok a s) (.ok a t)
  | error {e : ε} {s : σ} {t : τ} (h : c.Rel s t) (he : c.Stops e s t) :
      Compared c (.error e s) (.error e t)
  | left {r : EStateM.Result ε σ α} {q : EStateM.Result ε τ α} (h : c.Left (finalState r)) :
      Compared c r q
  | right {r : EStateM.Result ε σ α} {q : EStateM.Result ε τ α} (h : c.Right (finalState q)) :
      Compared c r q

/-- From related states the runs have related results, and a comparison that has been given up is
not taken up again. -/
structure Related (c : Comparison ε σ τ) (x : EStateM ε σ α) (y : EStateM ε τ α) : Prop where
  results : ∀ {s : σ} {t : τ}, c.Rel s t → Compared c (x s) (y t)
  left : ∀ {s : σ}, c.Left s → c.Left (finalState (x s))
  right : ∀ {t : τ}, c.Right t → c.Right (finalState (y t))

/-- A property of states that no run leaves. -/
theorem stays_bind {P : σ → Prop} {x : EStateM ε σ α} {k : α → EStateM ε σ β} {s : σ}
    (hx : P (finalState (x s))) (hk : ∀ a {s' : σ}, P s' → P (finalState (k a s'))) :
    P (finalState ((x >>= k) s)) := by
  rcases bind_cases x k s with ⟨a, s₁, hfirst, hbind⟩ | ⟨e, s₁, hfirst, hbind⟩
  · rw [hfirst] at hx
    rw [hbind]
    exact hk a hx
  · rw [hfirst] at hx
    rw [hbind]
    exact hx

namespace Related

theorem pure (a : α) : Related c (pure a) (pure a) where
  results h := .ok h
  left h := h
  right h := h

theorem bind {x : EStateM ε σ α} {y : EStateM ε τ α} {k : α → EStateM ε σ β}
    {l : α → EStateM ε τ β} (h : Related c x y) (hk : ∀ a, Related c (k a) (l a)) :
    Related c (x >>= k) (y >>= l) where
  results := by
    intro s t hst
    have hfirst := h.results hst
    generalize hx : x s = r at hfirst
    generalize hy : y t = q at hfirst
    cases hfirst with
    | ok hst' =>
        rw [bind_of_ok hx, bind_of_ok hy]
        exact (hk _).results hst'
    | error hst' he =>
        rw [bind_of_error hx, bind_of_error hy]
        exact .error hst' he
    | left hleft =>
        rw [← hx] at hleft
        exact .left (stays_bind hleft fun a _ => (hk a).left)
    | right hright =>
        rw [← hy] at hright
        exact .right (stays_bind hright fun a _ => (hk a).right)
  left hs := stays_bind (h.left hs) fun a _ => (hk a).left
  right ht := stays_bind (h.right ht) fun a _ => (hk a).right

theorem ite {p : Prop} [Decidable p] {x x' : EStateM ε σ α} {y y' : EStateM ε τ α}
    (h : Related c x y) (h' : Related c x' y') :
    Related c (if p then x else x') (if p then y else y') := by
  split
  · exact h
  · exact h'

/-- The same reason to stop on both sides. -/
theorem throw {e : ε} (he : ∀ {s : σ} {t : τ}, c.Rel s t → c.Stops e s t) :
    Related c (throw e : EStateM ε σ α) (throw e) where
  results h := .error h (he h)
  left h := h
  right h := h

/-- Changes of the states that keep them related. -/
theorem modify {f : σ → σ} {g : τ → τ} (h : ∀ {s : σ} {t : τ}, c.Rel s t → c.Rel (f s) (g t))
    (hleft : ∀ {s : σ}, c.Left s → c.Left (f s)) (hright : ∀ {t : τ}, c.Right t → c.Right (g t)) :
    Related c (modify f) (modify g) where
  results hst := .ok (h hst)
  left := hleft
  right := hright

end Related

/-! ## One run -/

/-- The comparison of a run with itself under an invariant `I`, with what is known where it
stops. -/
def Comparison.invariant (I : σ → Prop) (Stops : ε → σ → Prop) : Comparison ε σ σ where
  Rel s t := s = t ∧ I s
  Stops e s _ := Stops e s
  Left _ := False
  Right _ := False

/-- The computation keeps the invariant. -/
def Keeps (I : σ → Prop) (Stops : ε → σ → Prop) (x : EStateM ε σ α) : Prop :=
  Related (.invariant I Stops) x x

section Keeps

variable {I : σ → Prop} {Stops : ε → σ → Prop} {x : EStateM ε σ α}

theorem Keeps.intro (hok : ∀ {s : σ} {a : α} {s' : σ}, I s → x s = .ok a s' → I s')
    (herror : ∀ {s : σ} {e : ε} {s' : σ}, I s → x s = .error e s' → I s' ∧ Stops e s') :
    Keeps I Stops x where
  results := by
    rintro s t ⟨rfl, h⟩
    cases hx : x s with
    | ok a s' => exact .ok ⟨rfl, hok h hx⟩
    | error e s' =>
        obtain ⟨hI, hE⟩ := herror h hx
        exact .error ⟨rfl, hI⟩ hE
  left := False.elim
  right := False.elim

theorem Keeps.modify {f : σ → σ} (h : ∀ {s : σ}, I s → I (f s)) : Keeps I Stops (modify f) :=
  Related.modify (fun hst => ⟨congrArg f hst.1, h hst.2⟩) id id

theorem Keeps.ok (h : Keeps I Stops x) {s s' : σ} {a : α} (hs : I s) (hx : x s = .ok a s') :
    I s' := by
  have hr := h.results ⟨rfl, hs⟩
  rw [hx] at hr
  cases hr with
  | ok hI => exact hI.2
  | left h => exact h.elim
  | right h => exact h.elim

theorem Keeps.error (h : Keeps I Stops x) {s s' : σ} {e : ε} (hs : I s)
    (hx : x s = .error e s') : I s' ∧ Stops e s' := by
  have hr := h.results ⟨rfl, hs⟩
  rw [hx] at hr
  cases hr with
  | error hI he => exact ⟨hI.2, he⟩
  | left h => exact h.elim
  | right h => exact h.elim

end Keeps

end SymbianWeb.RelatedRuns
