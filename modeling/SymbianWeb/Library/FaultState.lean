import Mathlib.Logic.Relation

/-!
# Stateful computations that may fault

A computation of type `FaultM σ α` reads and writes a state of type `σ` and returns an `α`, or
faults: `none` stands for a panic, an access through a dangling pointer, or a wait that never
ends. The first part gives, for each way of building a computation, what is known when it
succeeds (`bind_eq_some`, `whenM_eq_some`, `forEach_cons_eq_some`, …), so that a run of a
`do` block is taken apart one line at a time.

The second part packages the inductions. `Stays R m` says that every successful run of `m` is a
chain of `R`-steps, and `StaysFrom R s m` says so for the runs from one state. Both compose along
the same constructors (`Stays.bind`, `Stays.forEach`, …), and a property preserved by single
`R`-steps is preserved by the whole run (`invariant_of_chain`). `Reaches` are the states of a
system that makes one call after the other.
-/

set_option autoImplicit false

namespace SymbianWeb.FaultState

universe u v w

/-- Computations on a state `σ` that may fault. -/
abbrev FaultM (σ : Type u) (α : Type u) := StateT σ Option α

variable {σ : Type u} {α β : Type u}

/-- The computation that faults. -/
def fault : FaultM σ α := fun _ => none

/-- Run `m` when `p` holds. -/
def whenM (p : Prop) [Decidable p] (m : FaultM σ PUnit) : FaultM σ PUnit :=
  if p then m else pure PUnit.unit

/-- Fault unless `p` holds. -/
def guardM (p : Prop) [Decidable p] : FaultM σ PUnit :=
  if p then pure PUnit.unit else fault

/-- Run `f` on the elements of a list from left to right. -/
def forEach {ι : Type v} : List ι → (ι → FaultM σ PUnit) → FaultM σ PUnit
  | [], _ => pure PUnit.unit
  | a :: as, f => f a >>= fun _ => forEach as f

/-! ## What a successful run says -/

@[simp] theorem bind_eq_some {x : FaultM σ α} {k : α → FaultM σ β} {s : σ} {r : β × σ} :
    (x >>= k) s = some r ↔ ∃ a s₁, x s = some (a, s₁) ∧ k a s₁ = some r := by
  show (x s).bind (fun p => k p.1 p.2) = some r ↔ _
  rw [Option.bind_eq_some_iff]
  constructor
  · rintro ⟨⟨a, s₁⟩, h₁, h₂⟩
    exact ⟨a, s₁, h₁, h₂⟩
  · rintro ⟨a, s₁, h₁, h₂⟩
    exact ⟨(a, s₁), h₁, h₂⟩

@[simp] theorem pure_eq_some {a : α} {s : σ} {r : α × σ} :
    (pure a : FaultM σ α) s = some r ↔ r = (a, s) := by
  show some (a, s) = some r ↔ _
  rw [Option.some.injEq, eq_comm]

@[simp] theorem get_eq_some {s : σ} {r : σ × σ} :
    (get : FaultM σ σ) s = some r ↔ r = (s, s) := by
  show some (s, s) = some r ↔ _
  rw [Option.some.injEq, eq_comm]

@[simp] theorem modify_eq_some {f : σ → σ} {s : σ} {r : PUnit × σ} :
    (modify f : FaultM σ PUnit) s = some r ↔ r = (PUnit.unit, f s) := by
  show some (PUnit.unit, f s) = some r ↔ _
  rw [Option.some.injEq, eq_comm]

@[simp] theorem fault_eq_some {s : σ} {r : α × σ} : (fault : FaultM σ α) s = some r ↔ False := by
  simp [fault]

@[simp] theorem whenM_eq_some {p : Prop} [Decidable p] {m : FaultM σ PUnit} {s : σ}
    {r : PUnit × σ} :
    whenM p m s = some r ↔ (p ∧ m s = some r) ∨ (¬ p ∧ r = (PUnit.unit, s)) := by
  by_cases hp : p
  · simp [whenM, hp]
  · simp [whenM, hp]

@[simp] theorem guardM_eq_some {p : Prop} [Decidable p] {s : σ} {r : PUnit × σ} :
    guardM p s = some r ↔ p ∧ r = (PUnit.unit, s) := by
  by_cases hp : p
  · simp [guardM, hp]
  · simp [guardM, hp]

@[simp] theorem forEach_nil_eq_some {ι : Type v} {f : ι → FaultM σ PUnit} {s : σ}
    {r : PUnit × σ} : forEach [] f s = some r ↔ r = (PUnit.unit, s) :=
  pure_eq_some

@[simp] theorem forEach_cons_eq_some {ι : Type v} {a : ι} {as : List ι}
    {f : ι → FaultM σ PUnit} {s : σ} {r : PUnit × σ} :
    forEach (a :: as) f s = some r ↔
      ∃ s₁, f a s = some (PUnit.unit, s₁) ∧ forEach as f s₁ = some r := by
  rw [forEach, bind_eq_some]
  constructor
  · rintro ⟨⟨⟩, s₁, h₁, h₂⟩
    exact ⟨s₁, h₁, h₂⟩
  · rintro ⟨s₁, h₁, h₂⟩
    exact ⟨PUnit.unit, s₁, h₁, h₂⟩

theorem modify_run {f : σ → σ} {s s' : σ} {a : PUnit} :
    (modify f : FaultM σ PUnit) s = some (a, s') ↔ s' = f s := by
  rw [modify_eq_some, Prod.mk.injEq]
  exact and_iff_right (Subsingleton.elim _ _)

theorem get_bind (k : σ → FaultM σ β) (s : σ) : (get >>= k) s = k s s := rfl

theorem modify_bind (f : σ → σ) (k : PUnit → FaultM σ β) (s : σ) :
    (modify f >>= k) s = k PUnit.unit (f s) :=
  rfl

theorem guardM_bind {p : Prop} [Decidable p] {k : PUnit → FaultM σ β} {s : σ} {r : β × σ} :
    (guardM p >>= k) s = some r ↔ p ∧ k PUnit.unit s = some r := by
  rw [bind_eq_some]
  constructor
  · rintro ⟨a, s₁, h, hk⟩
    obtain ⟨hp, heq⟩ := guardM_eq_some.1 h
    rw [Prod.mk.injEq] at heq
    obtain ⟨rfl, rfl⟩ := heq
    exact ⟨hp, hk⟩
  · rintro ⟨hp, hk⟩
    exact ⟨PUnit.unit, s, guardM_eq_some.2 ⟨hp, rfl⟩, hk⟩

theorem whenM_run {p : Prop} [Decidable p] {m : FaultM σ PUnit} {s s' : σ} {a : PUnit} :
    whenM p m s = some (a, s') ↔ (p ∧ m s = some (a, s')) ∨ (¬ p ∧ s' = s) := by
  rw [whenM_eq_some, Prod.mk.injEq]
  exact or_congr_right (and_congr_right' (and_iff_right (Subsingleton.elim _ _)))

/-! ## Running a computation forward -/

theorem bind_of {x : FaultM σ α} {k : α → FaultM σ β} {s s₁ : σ} {a : α}
    (h : x s = some (a, s₁)) : (x >>= k) s = k a s₁ := by
  show (x s).bind (fun p => k p.1 p.2) = k a s₁
  rw [h]
  rfl

/-- Continuations that agree on what a computation leaves behind. -/
theorem bind_congr_of_run {x : FaultM σ α} {k k' : α → FaultM σ β} {s : σ}
    (h : ∀ a s₁, x s = some (a, s₁) → k a s₁ = k' a s₁) : (x >>= k) s = (x >>= k') s := by
  show (x s).bind (fun p => k p.1 p.2) = (x s).bind fun p => k' p.1 p.2
  cases hx : x s with
  | none => rfl
  | some p => exact h p.1 p.2 hx

theorem whenM_of {p : Prop} [Decidable p] (hp : p) (m : FaultM σ PUnit) : whenM p m = m :=
  if_pos hp

theorem whenM_of_not {p : Prop} [Decidable p] (hp : ¬ p) (m : FaultM σ PUnit) :
    whenM p m = pure PUnit.unit :=
  if_neg hp

theorem guardM_of {p : Prop} [Decidable p] (hp : p) :
    (guardM p : FaultM σ PUnit) = pure PUnit.unit :=
  if_pos hp

theorem forEach_append_of {ι : Type v} {f : ι → FaultM σ PUnit} {as bs : List ι} {s s₁ : σ}
    {a : PUnit} (h : forEach as f s = some (a, s₁)) :
    forEach (as ++ bs) f s = forEach bs f s₁ := by
  induction as generalizing s with
  | nil =>
      rw [forEach_nil_eq_some, Prod.mk.injEq] at h
      rw [h.2, List.nil_append]
  | cons b as ih =>
      obtain ⟨s₂, hfirst, hrest⟩ := forEach_cons_eq_some.1 h
      rw [List.cons_append, forEach, bind_of hfirst]
      exact ih hrest

/-! ## Chains of steps -/

/-- Every successful run of `m` from `s` is a chain of `R`-steps. -/
def StaysFrom (R : σ → σ → Prop) (s : σ) (m : FaultM σ α) : Prop :=
  ∀ a s', m s = some (a, s') → Relation.ReflTransGen R s s'

/-- Every successful run of `m` is a chain of `R`-steps from its start to its end. -/
def Stays (R : σ → σ → Prop) (m : FaultM σ α) : Prop := ∀ s, StaysFrom R s m

section StaysFrom

variable {R : σ → σ → Prop} {s : σ}

theorem StaysFrom.of_step {m : FaultM σ α} (h : ∀ a s', m s = some (a, s') → R s s') :
    StaysFrom R s m :=
  fun a s' hm => Relation.ReflTransGen.single (h a s' hm)

/-- The continuation starts where the first computation ends, with its result. -/
theorem StaysFrom.bind {x : FaultM σ α} {k : α → FaultM σ β} (hx : StaysFrom R s x)
    (hk : ∀ a s₁, x s = some (a, s₁) → StaysFrom R s₁ (k a)) : StaysFrom R s (x >>= k) := by
  intro b s' h
  obtain ⟨a, s₁, h₁, h₂⟩ := bind_eq_some.1 h
  exact (hx a s₁ h₁).trans (hk a s₁ h₁ b s' h₂)

theorem StaysFrom.pure (a : α) : StaysFrom R s (pure a : FaultM σ α) := by
  intro b s' h
  simp only [pure_eq_some, Prod.mk.injEq] at h
  obtain ⟨-, rfl⟩ := h
  exact Relation.ReflTransGen.refl

theorem StaysFrom.get : StaysFrom R s (MonadState.get : FaultM σ σ) := by
  intro b s' h
  simp only [get_eq_some, Prod.mk.injEq] at h
  obtain ⟨-, rfl⟩ := h
  exact Relation.ReflTransGen.refl

theorem StaysFrom.fault : StaysFrom R s (FaultState.fault : FaultM σ α) := by
  intro b s' h
  simp at h

theorem StaysFrom.guardM {p : Prop} [Decidable p] : StaysFrom R s (FaultState.guardM p) := by
  intro b s' h
  simp only [guardM_eq_some, Prod.mk.injEq] at h
  obtain ⟨-, -, rfl⟩ := h
  exact Relation.ReflTransGen.refl

theorem StaysFrom.ite {p : Prop} [Decidable p] {x y : FaultM σ α} (hx : p → StaysFrom R s x)
    (hy : ¬ p → StaysFrom R s y) : StaysFrom R s (if p then x else y) := by
  cases hp : decide p with
  | true =>
      rw [if_pos (of_decide_eq_true hp)]
      exact hx (of_decide_eq_true hp)
  | false =>
      rw [if_neg (of_decide_eq_false hp)]
      exact hy (of_decide_eq_false hp)

theorem StaysFrom.whenM {p : Prop} [Decidable p] {m : FaultM σ PUnit}
    (hm : p → StaysFrom R s m) : StaysFrom R s (FaultState.whenM p m) :=
  StaysFrom.ite hm fun _ => StaysFrom.pure _

theorem StaysFrom.mono {R' : σ → σ → Prop} {m : FaultM σ α} (h : StaysFrom R s m)
    (hsub : ∀ s s', R s s' → R' s s') : StaysFrom R' s m :=
  fun a s' hm => Relation.ReflTransGen.mono hsub _ _ (h a s' hm)

end StaysFrom

section Stays

variable {R : σ → σ → Prop}

theorem Stays.of_step {m : FaultM σ α} (h : ∀ s a s', m s = some (a, s') → R s s') :
    Stays R m :=
  fun s => StaysFrom.of_step (h s)

theorem Stays.mono {R' : σ → σ → Prop} {m : FaultM σ α} (h : Stays R m)
    (hsub : ∀ s s', R s s' → R' s s') : Stays R' m :=
  fun s => (h s).mono hsub

theorem Stays.pure (a : α) : Stays R (pure a : FaultM σ α) := fun _ => StaysFrom.pure a

theorem Stays.get : Stays R (MonadState.get : FaultM σ σ) := fun _ => StaysFrom.get

theorem Stays.fault : Stays R (FaultState.fault : FaultM σ α) := fun _ => StaysFrom.fault

theorem Stays.guardM {p : Prop} [Decidable p] : Stays R (FaultState.guardM p) :=
  fun _ => StaysFrom.guardM

theorem Stays.bind {x : FaultM σ α} {k : α → FaultM σ β} (hx : Stays R x)
    (hk : ∀ a, Stays R (k a)) : Stays R (x >>= k) :=
  fun s => (hx s).bind fun a s₁ _ => hk a s₁

theorem Stays.ite {p : Prop} [Decidable p] {x y : FaultM σ α} (hx : p → Stays R x)
    (hy : ¬ p → Stays R y) : Stays R (if p then x else y) :=
  fun s => StaysFrom.ite (fun hp => hx hp s) fun hp => hy hp s

theorem Stays.whenM {p : Prop} [Decidable p] {m : FaultM σ PUnit} (hm : p → Stays R m) :
    Stays R (FaultState.whenM p m) :=
  fun s => StaysFrom.whenM fun hp => hm hp s

theorem Stays.forEach {ι : Type v} {f : ι → FaultM σ PUnit} {l : List ι}
    (h : ∀ a ∈ l, Stays R (f a)) : Stays R (FaultState.forEach l f) := by
  induction l with
  | nil => exact Stays.pure _
  | cons a l ih =>
      refine Stays.bind (h a List.mem_cons_self) fun _ => ?_
      exact ih fun b hb => h b (List.mem_cons_of_mem _ hb)

end Stays

/-- A property preserved by single steps is preserved along a chain. -/
theorem invariant_of_chain {R : σ → σ → Prop} {I : σ → Prop}
    (hstep : ∀ s s', R s s' → I s → I s') {s s' : σ} (h : Relation.ReflTransGen R s s')
    (hs : I s) : I s' := by
  induction h with
  | refl => exact hs
  | tail _ hlast ih => exact hstep _ _ hlast ih

/-- A reflexive and transitive relation relates the ends of a chain of its steps. -/
theorem related_of_chain {R : σ → σ → Prop} (hrefl : ∀ s, R s s)
    (htrans : ∀ s₁ s₂ s₃, R s₁ s₂ → R s₂ s₃ → R s₁ s₃) {s s' : σ}
    (h : Relation.ReflTransGen R s s') : R s s' := by
  induction h with
  | refl => exact hrefl _
  | tail _ hlast ih => exact htrans _ _ _ ih hlast

/-! ## Loops that count down -/

/-- The loop rule for a loop that runs its body at `k - 1`, …, `0`: what holds before it at `k`,
and is taken from `i + 1` to `i` by the body, holds behind it at `0`. -/
theorem countdown_rule (loop body : Nat → β → FaultM σ β) (hzero : ∀ b, loop 0 b = pure b)
    (hsucc : ∀ i b, loop (i + 1) b = body i b >>= loop i) {I : Nat → β → σ → Prop}
    (hbody : ∀ i b s b' s', I (i + 1) b s → body i b s = some (b', s') → I i b' s')
    {k : Nat} {b b' : β} {s s' : σ} (h : I k b s) (hrun : loop k b s = some (b', s')) :
    I 0 b' s' := by
  induction k generalizing b s with
  | zero =>
      rw [hzero, pure_eq_some, Prod.mk.injEq] at hrun
      obtain ⟨rfl, rfl⟩ := hrun
      exact h
  | succ k ih =>
      rw [hsucc] at hrun
      obtain ⟨b₁, s₁, hfirst, hrest⟩ := bind_eq_some.1 hrun
      exact ih (hbody k b s b₁ s₁ h hfirst) hrest

/-! ## Runs -/

section Reaches

variable {ω : Type v} (run : ω → FaultM σ PUnit) (start : σ → Prop) (ok : ω → σ → Prop)

/-- The states a run can be in: it starts in a `start` state, and each call moves it on. Every
call meets `ok` in the state before it. -/
inductive Reaches : σ → Prop where
  | start {s : σ} (h : start s) : Reaches s
  | call {s s' : σ} {a : PUnit} (op : ω) (h : Reaches s) (hok : ok op s)
      (hrun : run op s = some (a, s')) : Reaches s'

variable {run start ok}

/-- What holds at the start and is kept by every call holds in every state of a run. -/
theorem Reaches.invariant {I : σ → Prop} (hstart : ∀ s, start s → I s)
    (hcall : ∀ op s, ok op s → I s → ∀ a s', run op s = some (a, s') → I s') {s : σ}
    (h : Reaches run start ok s) : I s := by
  induction h with
  | start h => exact hstart _ h
  | call op _ hok hrun ih => exact hcall op _ hok ih _ _ hrun

/-- A sequence of calls that all succeed is a run. -/
theorem Reaches.forEach {s s' : σ} {a : PUnit} (h : Reaches run start ok s) {ops : List ω}
    (hok : ∀ op ∈ ops, ∀ s, ok op s) (hrun : FaultState.forEach ops run s = some (a, s')) :
    Reaches run start ok s' := by
  induction ops generalizing s with
  | nil =>
      rw [forEach_nil_eq_some, Prod.mk.injEq] at hrun
      rw [hrun.2]
      exact h
  | cons op ops ih =>
      obtain ⟨s₁, hfirst, hrest⟩ := forEach_cons_eq_some.1 hrun
      have h₁ : Reaches run start ok s₁ := .call op h (hok op List.mem_cons_self s) hfirst
      exact ih h₁ (fun op' hmem => hok op' (List.mem_cons_of_mem _ hmem)) hrest

/-- The calls, one after the other, as long as each one meets `ok`. -/
def runChecked (run : ω → FaultM σ PUnit) (ok : ω → σ → Prop) [∀ op s, Decidable (ok op s)] :
    List ω → σ → Option σ
  | [], s => some s
  | op :: ops, s =>
      if ok op s then (run op s).bind fun out => runChecked run ok ops out.2 else none

/-- The states of a run can be computed. -/
theorem Reaches.of_runChecked [∀ op s, Decidable (ok op s)] {s s' : σ}
    (h : Reaches run start ok s) {ops : List ω} (hrun : runChecked run ok ops s = some s') :
    Reaches run start ok s' := by
  induction ops generalizing s with
  | nil =>
      cases hrun
      exact h
  | cons op ops ih =>
      by_cases hok : ok op s
      · rw [runChecked, if_pos hok, Option.bind_eq_some_iff] at hrun
        obtain ⟨⟨a, s₁⟩, hfirst, hrest⟩ := hrun
        exact ih (.call op h hok hfirst) hrest
      · rw [runChecked, if_neg hok] at hrun
        cases hrun

end Reaches

end SymbianWeb.FaultState
