/-!
# Stateful computations that stop with the state they have reached

A computation `EStateM ε σ α` reads and writes a state and returns a value or stops, and the state
it has reached is there in both cases. For each way of building a computation this module says
what it does on a state (`bind_of_ok`, `bind_of_error`, `get_bind`, `modify_bind`), what is known
of a run of one computation behind the other (`bind_cases`, `bind_eq_ok`), and it has the loops
that repeat a computation until it has a result (`repeatUntil`). A loop that has made as many
rounds as it may make stops with an error of its own.
-/

set_option autoImplicit false

namespace SymbianWeb.ErrorState

universe u

variable {ε σ α β : Type u}

/-- The state that a computation has reached. -/
def finalState : EStateM.Result ε σ α → σ
  | .ok _ s => s
  | .error _ s => s

/-! ## One computation behind the other -/

/-- The result of a run that has one. -/
def result? : EStateM.Result ε σ α → Option α
  | .ok a _ => some a
  | .error _ _ => none

theorem eq_ok_of_result {r : EStateM.Result ε σ α} {a : α} (h : result? r = some a) :
    r = .ok a (finalState r) := by
  cases r with
  | ok b s =>
      cases h
      rfl
  | error e s => cases h

theorem bind_of_ok {x : EStateM ε σ α} {k : α → EStateM ε σ β} {s s₁ : σ} {a : α}
    (h : x s = .ok a s₁) : (x >>= k) s = k a s₁ := by
  show EStateM.bind x k s = k a s₁
  simp only [EStateM.bind, h]

theorem bind_of_error {x : EStateM ε σ α} {k : α → EStateM ε σ β} {s s₁ : σ} {e : ε}
    (h : x s = .error e s₁) : (x >>= k) s = .error e s₁ := by
  show EStateM.bind x k s = .error e s₁
  simp only [EStateM.bind, h]

/-- The second computation runs from where the first one ends, or the first one stops. -/
theorem bind_cases (x : EStateM ε σ α) (k : α → EStateM ε σ β) (s : σ) :
    (∃ a s₁, x s = .ok a s₁ ∧ (x >>= k) s = k a s₁) ∨
      ∃ e s₁, x s = .error e s₁ ∧ (x >>= k) s = .error e s₁ := by
  cases h : x s with
  | ok a s₁ => exact .inl ⟨a, s₁, rfl, bind_of_ok h⟩
  | error e s₁ => exact .inr ⟨e, s₁, rfl, bind_of_error h⟩

theorem bind_eq_ok {x : EStateM ε σ α} {k : α → EStateM ε σ β} {s s' : σ} {b : β} :
    (x >>= k) s = .ok b s' ↔ ∃ a s₁, x s = .ok a s₁ ∧ k a s₁ = .ok b s' := by
  constructor
  · intro h
    rcases bind_cases x k s with ⟨a, s₁, hx, hbind⟩ | ⟨e, s₁, -, hbind⟩
    · exact ⟨a, s₁, hx, hbind.symm.trans h⟩
    · rw [hbind] at h
      cases h
  · rintro ⟨a, s₁, hx, hk⟩
    rw [bind_of_ok hx, hk]

theorem bind_eq_error {x : EStateM ε σ α} {k : α → EStateM ε σ β} {s s' : σ} {e : ε}
    (h : (x >>= k) s = .error e s') :
    x s = .error e s' ∨ ∃ a s₁, x s = .ok a s₁ ∧ k a s₁ = .error e s' := by
  rcases bind_cases x k s with ⟨a, s₁, hx, hbind⟩ | ⟨e', s₁, hx, hbind⟩
  · exact .inr ⟨a, s₁, hx, hbind.symm.trans h⟩
  · rw [hbind] at h
    cases h
    exact .inl hx

@[simp] theorem pure_run (a : α) (s : σ) : (pure a : EStateM ε σ α) s = .ok a s := rfl

@[simp] theorem throw_run (e : ε) (s : σ) : (throw e : EStateM ε σ α) s = .error e s := rfl

@[simp] theorem get_run (s : σ) : (get : EStateM ε σ σ) s = .ok s s := rfl

@[simp] theorem modify_run (f : σ → σ) (s : σ) :
    (modify f : EStateM ε σ PUnit) s = .ok PUnit.unit (f s) := rfl

@[simp] theorem get_bind (k : σ → EStateM ε σ β) (s : σ) : (get >>= k) s = k s s := rfl

@[simp] theorem modify_bind (f : σ → σ) (k : PUnit → EStateM ε σ β) (s : σ) :
    (modify f >>= k) s = k PUnit.unit (f s) := rfl

/-! ## Loops -/

/-- Runs `body` until it has a result, at most `n` times; `limit` is the error of a loop that goes
on behind that. -/
def repeatUntil (limit : ε) (body : EStateM ε σ (Option β)) : Nat → EStateM ε σ β
  | 0 => throw limit
  | n + 1 => do
      match ← body with
      | none => repeatUntil limit body n
      | some b => pure b

section

variable {limit : ε} {body : EStateM ε σ (Option β)}

theorem repeatUntil_succ (n : Nat) :
    repeatUntil limit body (n + 1) = body >>= fun r =>
      match r with
      | none => repeatUntil limit body n
      | some b => pure b := by
  rw [repeatUntil]

/-- The rule of a loop: each round that has no result keeps `I`, and the round that has one ends
in `Q`. -/
theorem repeatUntil_ok {I : σ → Prop} {Q : β → σ → Prop}
    (hnone : ∀ s s', I s → body s = .ok none s' → I s')
    (hsome : ∀ s b s', I s → body s = .ok (some b) s' → Q b s') :
    ∀ (n : Nat) {s s' : σ} {b : β}, I s → repeatUntil limit body n s = .ok b s' → Q b s' := by
  intro n
  induction n with
  | zero =>
      intro s s' b hI hrun
      cases hrun
  | succ n ih =>
      intro s s' b hI hrun
      rw [repeatUntil_succ, bind_eq_ok] at hrun
      obtain ⟨r, s₁, hbody, hrest⟩ := hrun
      cases r with
      | none => exact ih (hnone s s₁ hI hbody) hrest
      | some b₁ =>
          cases hrest
          exact hsome s b s' hI hbody

/-- What every round keeps, however it ends, the loop keeps. -/
theorem finalState_repeatUntil {I : σ → Prop} (h : ∀ s, I s → I (finalState (body s))) :
    ∀ (n : Nat) {s : σ}, I s → I (finalState (repeatUntil limit body n s)) := by
  intro n
  induction n with
  | zero => exact fun hI => hI
  | succ n ih =>
      intro s hI
      have hbody := h s hI
      rw [repeatUntil_succ]
      rcases bind_cases body (fun r => match r with
        | none => repeatUntil limit body n
        | some b => pure b) s with ⟨r, s₁, hrun, hbind⟩ | ⟨e, s₁, hrun, hbind⟩
      · rw [hbind]
        rw [hrun] at hbody
        cases r with
        | none => exact ih hbody
        | some b => exact hbody
      · rw [hbind]
        rwa [hrun] at hbody

end

end SymbianWeb.ErrorState
