import SymbianWeb.Library.ErrorState

/-!
# Contracts of stateful computations that may stop

`Contract P x Q E`: run on a state with `P`, the computation `x` returns a value and a state with
`Q`, or it stops with an error and a state with `E`. There is one rule for each way of building a
computation, and one for a fold over a list, which keeps an invariant of the value and the state.
-/

set_option autoImplicit false

namespace SymbianWeb.ErrorState

universe u v

variable {ε σ α β : Type u}

def Contract (P : σ → Prop) (x : EStateM ε σ α) (Q : α → σ → Prop) (E : ε → σ → Prop) : Prop :=
  ∀ s, P s → match x s with
    | .ok a s' => Q a s'
    | .error e s' => E e s'

namespace Contract

variable {P : σ → Prop} {Q : α → σ → Prop} {R : β → σ → Prop} {E : ε → σ → Prop}

theorem of_ok {x : EStateM ε σ α} (h : Contract P x Q E) {s s' : σ} {a : α} (hs : P s)
    (hrun : x s = .ok a s') : Q a s' := by
  have hpost := h s hs
  rwa [hrun] at hpost

theorem of_error {x : EStateM ε σ α} (h : Contract P x Q E) {s s' : σ} {e : ε} (hs : P s)
    (hrun : x s = .error e s') : E e s' := by
  have hpost := h s hs
  rwa [hrun] at hpost

theorem ret {a : α} (h : ∀ s, P s → Q a s) : Contract P (pure a) Q E := h

theorem stop {e : ε} (h : ∀ s, P s → E e s) : Contract P (throw e : EStateM ε σ α) Q E := h

theorem update {f : σ → σ} {Q : PUnit → σ → Prop} (h : ∀ s, P s → Q PUnit.unit (f s)) :
    Contract P (modify f) Q E := h

theorem updateGet {f : σ → α × σ} (h : ∀ s, P s → Q (f s).1 (f s).2) :
    Contract P (modifyGet f) Q E := h

theorem bind {x : EStateM ε σ α} {k : α → EStateM ε σ β} (hx : Contract P x Q E)
    (hk : ∀ a, Contract (Q a) (k a) R E) : Contract P (x >>= k) R E := by
  intro s hs
  rcases bind_cases x k s with ⟨a, s₁, hrun, hbind⟩ | ⟨e, s₁, hrun, hbind⟩
  · rw [hbind]
    exact hk a s₁ (hx.of_ok hs hrun)
  · rw [hbind]
    exact hx.of_error hs hrun

/-- Reading the state changes nothing; what is known of the value is that it is the state. -/
theorem get_bind {k : σ → EStateM ε σ β}
    (hk : ∀ a, P a → Contract (fun s => P s ∧ s = a) (k a) R E) :
    Contract P (get >>= k) R E :=
  fun s hs => hk s hs s ⟨hs, rfl⟩

theorem mono {P' : σ → Prop} {Q' : α → σ → Prop} {x : EStateM ε σ α} (h : Contract P x Q E)
    (hP : ∀ s, P' s → P s) (hQ : ∀ a s, Q a s → Q' a s) : Contract P' x Q' E := by
  intro s hs
  have hpost := h s (hP s hs)
  cases hrun : x s with
  | ok a s' =>
      rw [hrun] at hpost
      exact hQ a s' hpost
  | error e s' =>
      rw [hrun] at hpost
      exact hpost

/-- A fact that is not about the state stays. -/
theorem frame {c : Prop} {x : EStateM ε σ α} (h : c → Contract P x Q E) :
    Contract (fun s => c ∧ P s) x (fun a s => c ∧ Q a s) E := by
  rintro s ⟨hc, hs⟩
  have hpost := h hc s hs
  cases hrun : x s with
  | ok a s' =>
      rw [hrun] at hpost
      exact ⟨hc, hpost⟩
  | error e s' =>
      rw [hrun] at hpost
      exact hpost

/-- A fold keeps what each of its steps keeps. -/
theorem foldlM {γ : Type v} {I : α → σ → Prop} {f : α → γ → EStateM ε σ α} :
    ∀ {l : List γ}, (∀ c ∈ l, ∀ a, Contract (I a) (f a c) I E) →
      ∀ a, Contract (I a) (l.foldlM f a) I E := by
  intro l
  induction l with
  | nil =>
      intro _ a
      exact ret fun s hs => hs
  | cons c l ih =>
      intro h a
      rw [List.foldlM_cons]
      apply bind (h c List.mem_cons_self a)
      intro a₁
      exact ih (fun c' hc' => h c' (List.mem_cons_of_mem c hc')) a₁

end Contract

end SymbianWeb.ErrorState
