/-!
# Runs of computations that may stop

For each way of building a computation in `Except ε`, what is known when it succeeds, so that a
run of a `do` block is taken apart one line at a time.
-/

set_option autoImplicit false

namespace SymbianWeb.ExceptRuns

universe u v

variable {ε : Type u} {α β : Type v}

theorem bind_eq_ok {x : Except ε α} {k : α → Except ε β} {b : β} :
    (x >>= k) = .ok b ↔ ∃ a, x = .ok a ∧ k a = .ok b := by
  cases x with
  | error e =>
      constructor
      · intro h
        cases h
      · rintro ⟨a, ha, -⟩
        cases ha
  | ok a =>
      constructor
      · intro h
        exact ⟨a, rfl, h⟩
      · rintro ⟨a', ha, h⟩
        cases ha
        exact h

theorem pure_eq_ok {a b : α} : (pure a : Except ε α) = .ok b ↔ a = b :=
  ⟨fun h => by cases h; rfl, fun h => by rw [h]; rfl⟩

theorem bind_of_ok {x : Except ε α} {a : α} (h : x = .ok a) (k : α → Except ε β) :
    (x >>= k) = k a := by
  rw [h]
  rfl

theorem bind_of_error {x : Except ε α} {e : ε} (h : x = .error e) (k : α → Except ε β) :
    (x >>= k) = .error e := by
  rw [h]
  rfl

theorem bind_eq_error {x : Except ε α} {k : α → Except ε β} {e : ε} :
    (x >>= k) = .error e ↔ x = .error e ∨ ∃ a, x = .ok a ∧ k a = .error e := by
  cases x with
  | error e' =>
      constructor
      · intro h
        exact .inl (by cases h; rfl)
      · rintro (h | ⟨a, ha, -⟩)
        · cases h
          rfl
        · cases ha
  | ok a =>
      constructor
      · intro h
        exact .inr ⟨a, rfl, h⟩
      · rintro (h | ⟨a', ha, h⟩)
        · cases h
        · cases ha
          exact h

/-- The result is as `P` says, or the error as `E` says. -/
def Ends (P : α → Prop) (E : ε → Prop) : Except ε α → Prop
  | .ok a => P a
  | .error e => E e

namespace Ends

variable {P : α → Prop} {Q : β → Prop} {E : ε → Prop}

theorem bind {x : Except ε α} {k : α → Except ε β} (hx : Ends P E x)
    (hk : ∀ a, P a → Ends Q E (k a)) : Ends Q E (x >>= k) := by
  cases x with
  | error e => exact hx
  | ok a => exact hk a hx

theorem mono {P' : α → Prop} {x : Except ε α} (hx : Ends P E x) (h : ∀ a, P a → P' a) :
    Ends P' E x := by
  cases x with
  | error e => exact hx
  | ok a => exact h a hx

theorem of_ok {x : Except ε α} (hx : Ends P E x) {a : α} (h : x = .ok a) : P a := by
  rw [h] at hx
  exact hx

theorem of_error {x : Except ε α} (hx : Ends P E x) {e : ε} (h : x = .error e) : E e := by
  rw [h] at hx
  exact hx

theorem ite {c : Prop} [Decidable c] {x y : Except ε α} (hx : c → Ends P E x)
    (hy : ¬ c → Ends P E y) : Ends P E (if c then x else y) := by
  by_cases hc : c
  · rw [if_pos hc]
    exact hx hc
  · rw [if_neg hc]
    exact hy hc

end Ends

end SymbianWeb.ExceptRuns
