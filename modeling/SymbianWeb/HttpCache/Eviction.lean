import SymbianWeb.HttpCache.TableInvariant

/-!
# Erasing complete entries

`Remove`, `RemoveAll` and the eviction erase entries only when they are complete. `EvictStep` is
what such a computation does in one step: it erases a complete entry, or it changes only the
buckets and the eviction candidate flags. What survives is unchanged (`EvictStep.survives`).
-/

set_option autoImplicit false

namespace SymbianWeb.HttpCache

open FaultState CHttpCacheLookupTable

section Locate

variable [Platform]

theorem locate_slot {s : CacheState} {url : Des8} {pos : Nat} {id : EntryId}
    (h : s.locate url = some (pos, id)) :
    s.iLookupTable.probeFind s.urlOf url = some pos ∧ s.iLookupTable.entryAt pos = some id := by
  unfold CacheState.locate at h
  cases hprobe : s.iLookupTable.probeFind s.urlOf url with
  | none =>
      rw [hprobe] at h
      cases h
  | some p =>
      cases hslot : s.iLookupTable.entryAt p with
      | none =>
          simp only [hprobe, hslot] at h
          cases h
      | some i =>
          simp only [hprobe, hslot, Option.some.injEq, Prod.mk.injEq] at h
          obtain ⟨rfl, rfl⟩ := h
          exact ⟨rfl, hslot⟩

/-- `Find` is `Probe`, except that it hides complete entries without a body. -/
theorem find_eq_some {s : CacheState} {url : Des8} {id : EntryId} :
    s.find url = some id ↔ ∃ pos e, s.locate url = some (pos, id) ∧ s.heap id = some e ∧
      ¬ (e.iBodySize = 0 ∧ e.iState = .eCacheComplete) := by
  unfold CacheState.find
  cases hloc : s.locate url with
  | none => simp
  | some p =>
      obtain ⟨pos, i⟩ := p
      cases he : s.heap i with
      | none =>
          simp only [he, Option.some.injEq, Prod.mk.injEq]
          constructor
          · intro h
            cases h
          · rintro ⟨_, e, ⟨-, rfl⟩, he', -⟩
            rw [he] at he'
            cases he'
      | some e =>
          simp only [he, Option.some.injEq, Prod.mk.injEq]
          constructor
          · intro h
            split at h
            · cases h
            · next hvisible =>
                rw [Option.some.injEq] at h
                subst h
                exact ⟨pos, e, ⟨rfl, rfl⟩, he, hvisible⟩
          · rintro ⟨_, e', ⟨-, rfl⟩, he', hvisible⟩
            rw [he, Option.some.injEq] at he'
            subst he'
            rw [if_neg hvisible]

end Locate

/-- A computation that stays in `R` whenever it erases the complete entry of a slot. -/
def ErasesComplete (R : CacheState → CacheState → Prop) : Prop :=
  ∀ {s : CacheState} {pos : Nat} {id : EntryId} {e : CHttpCacheEntry},
    s.iLookupTable.entryAt pos = some id → s.heap id = some e → e.iState = .eCacheComplete →
      StaysFrom R s (erase pos)

theorem staysFrom_getEntry {α : Type} {R : CacheState → CacheState → Prop} {id : EntryId}
    {s : CacheState} {k : CHttpCacheEntry → CacheM α}
    (h : ∀ e, s.heap id = some e → StaysFrom R s (k e)) : StaysFrom R s (getEntry id >>= k) := by
  intro a s' hrun
  obtain ⟨e, he, hk⟩ := getEntry_bind.1 hrun
  exact h e he a s' hk

theorem staysFrom_get {α : Type} {R : CacheState → CacheState → Prop} {s : CacheState}
    {k : CacheState → CacheM α} (h : StaysFrom R s (k s)) : StaysFrom R s (get >>= k) := by
  intro a s' hrun
  rw [get_bind] at hrun
  exact h a s' hrun

section Remove

variable [Platform] {R : CacheState → CacheState → Prop}

theorem staysFrom_find {α : Type} {url : Des8} {s : CacheState}
    {k : Option EntryId → CacheM α} (h : StaysFrom R s (k (s.find url))) :
    StaysFrom R s (find url >>= k) :=
  staysFrom_get h

theorem stays_remove (herase : ErasesComplete R) (url : Des8) : Stays R (remove url) := by
  intro s
  refine staysFrom_get ?_
  cases hloc : s.locate url with
  | none => exact StaysFrom.pure _
  | some p =>
      obtain ⟨pos, id⟩ := p
      refine staysFrom_getEntry fun e he => StaysFrom.ite (fun hc => ?_) fun _ => StaysFrom.pure _
      exact (herase (locate_slot hloc).2 he hc).bind fun _ _ _ => StaysFrom.pure _

omit [Platform] in
theorem stays_removeAll (herase : ErasesComplete R) : Stays R removeAll := by
  refine Stays.bind Stays.get fun _ => Stays.forEach fun pos _ s => ?_
  refine staysFrom_get ?_
  cases hslot : s.iLookupTable.entryAt pos with
  | none => exact StaysFrom.pure _
  | some id =>
      exact staysFrom_getEntry fun e he => StaysFrom.whenM fun hc => herase hslot he hc

end Remove

/-! ## DeleteCacheEntry -/

/-- `DeleteCacheEntry` erases the entry that is at the slot to which the URL probes, and the
history says which one that is. -/
theorem deleteCacheEntry_spec [Platform] {id : EntryId} {s s' : CacheState} {a : Unit}
    (h : deleteCacheEntry id s = some (a, s')) : ∃ e s₁, Quiet s s₁ ∧ s₁.heap id = some e ∧
      ((s₁.locate e.iUrl = none ∧ s' = s₁.noted (e.deleteCall id none)) ∨
        ∃ pos j e', s₁.locate e.iUrl = some (pos, j) ∧
          Erased pos j e' (s₁.noted (e.deleteCall id (some j))) s') := by
  obtain ⟨_, s₁, hqueue, h⟩ := bind_eq_some.1 h
  obtain ⟨e, he, h⟩ := getEntry_bind.1 h
  rw [get_bind, note, modify_bind, eraseCacheEntry, get_bind] at h
  refine ⟨e, s₁, quiet_of (quiet_removeEntry id) hqueue, he, ?_⟩
  have hlocate : ∀ c, (s₁.noted c).locate e.iUrl = s₁.locate e.iUrl := fun _ => rfl
  rw [hlocate] at h
  cases hloc : s₁.locate e.iUrl with
  | none =>
      rw [hloc, pure_eq_some, Prod.mk.injEq] at h
      exact .inl ⟨rfl, h.2⟩
  | some found =>
      obtain ⟨pos, j⟩ := found
      rw [hloc] at h
      obtain ⟨e', herased⟩ := erase_spec h (locate_slot hloc).2
      exact .inr ⟨pos, j, e', rfl, herased⟩

/-! ## Eviction -/

/-- One step of the eviction. -/
inductive EvictStep (s s' : CacheState) : Prop where
  | idle (h : Idle s s')
  | erased (pos : Nat) (id : EntryId) (e : CHttpCacheEntry) (h : Erased pos id e s s')
      (hcomplete : e.iState = .eCacheComplete)

theorem EvictStep.history {s s' : CacheState} (h : EvictStep s s') :
    s.history <:+ s'.history := by
  cases h with
  | idle h => rw [h.history]
  | erased pos id e h _ => rw [h.history]

theorem evictStep_erase : ErasesComplete EvictStep := by
  intro s pos id e hslot he hcomplete
  refine StaysFrom.of_step fun a s' hrun => ?_
  obtain ⟨e', herased⟩ := erase_spec hrun hslot
  have heq := herased.entry
  rw [he, Option.some.injEq] at heq
  subst heq
  exact .erased pos id e herased hcomplete

theorem idle_setBucket (i : Fin 5) (queue : List EntryId) : Stays Idle (setBucket i queue) :=
  stays_modify fun _ => ⟨rfl, rfl, rfl, rfl, rfl, fun _ => rfl⟩

theorem idle_setCandidate (id : EntryId) (b : Bool) :
    Stays Idle (modifyEntry id fun e => { e with iEvictionCandidate := b }) :=
  stays_modifyEntry fun _ _ he => ⟨rfl, rfl, rfl, rfl, rfl, map_setEntry he rfl⟩

theorem idle_evictLoop (now : Clock) (fuel : Nat) (space : Int) :
    Stays Idle (evictLoop now fuel space) := by
  induction fuel generalizing space with
  | zero => exact Stays.pure _
  | succ fuel ih =>
      refine Stays.ite (fun _ => ?_) fun _ => Stays.pure _
      refine Stays.bind Stays.get fun s => ?_
      cases hpick : pickCandidate s now with
      | none => exact Stays.fault
      | some pick =>
          dsimp only
          cases pick.candidate with
          | none => exact Stays.pure _
          | some p =>
              obtain ⟨i, id⟩ := p
              refine Stays.bind (idle_setBucket _ _) fun _ => ?_
              refine Stays.bind (stays_getEntry id) fun e => ?_
              exact Stays.bind (ih _) fun _ => Stays.pure _

theorem idle_evictL (now : Clock) (space : Int) : Stays Idle (evictL now space) :=
  Stays.bind Stays.get fun _ => idle_evictLoop now _ _

section Space

variable [Platform]

theorem evictStep_destroyEvicted (id : EntryId) : Stays EvictStep (destroyEvicted id) := by
  refine Stays.bind ((quiet_removeEntry id).mono fun _ _ h => .idle h.idle) fun _ => ?_
  refine Stays.bind ((idle_setCandidate id false).mono fun _ _ h => .idle h) fun _ => ?_
  refine Stays.bind (stays_getEntry id) fun e => ?_
  exact Stays.bind (stays_remove evictStep_erase _) fun _ => Stays.pure _

/-- `CacheNeedsSpaceL` is a sequence of eviction steps. -/
theorem evictStep_cacheNeedsSpaceL (now : Clock) (size : Nat) :
    Stays EvictStep (cacheNeedsSpaceL now size) := by
  refine Stays.bind Stays.get fun s => Stays.ite (fun _ => ?_) fun _ => Stays.pure _
  refine Stays.bind ((idle_evictL now size).mono fun _ _ h => .idle h) fun evicted => ?_
  refine Stays.ite (fun _ => Stays.pure _) fun _ => ?_
  refine Stays.bind (Stays.forEach fun id _ => evictStep_destroyEvicted id) fun _ => ?_
  exact Stays.bind Stays.get fun _ => Stays.pure _

end Space

/-! ## What survives -/

/-- Every entry of the second state was in the first one with the same value of `f`. -/
def Survives {α : Type} (f : CHttpCacheEntry → α) (s s' : CacheState) : Prop :=
  ∀ i e', s'.heap i = some e' → ∃ e, s.heap i = some e ∧ f e' = f e

theorem Survives.trans {α : Type} {f : CHttpCacheEntry → α} {s₁ s₂ s₃ : CacheState}
    (h : Survives f s₁ s₂) (h' : Survives f s₂ s₃) : Survives f s₁ s₃ := by
  intro i e₃ he₃
  obtain ⟨e₂, he₂, heq₂⟩ := h' i e₃ he₃
  obtain ⟨e₁, he₁, heq₁⟩ := h i e₂ he₂
  exact ⟨e₁, he₁, heq₂.trans heq₁⟩

theorem Survives.of_map {α : Type} {f : CHttpCacheEntry → α} {s s' : CacheState}
    (h : ∀ i, (s'.heap i).map f = (s.heap i).map f) : Survives f s s' := by
  intro i e' he'
  obtain ⟨e, he, heq⟩ := exists_of_map_eq (h i).symm he'
  exact ⟨e, he, heq.symm⟩

theorem Survives.comp {α β : Type} {f : CHttpCacheEntry → α} {s s' : CacheState}
    (h : Survives f s s') (g : α → β) : Survives (fun e => g (f e)) s s' := by
  intro i e' he'
  obtain ⟨e, he, heq⟩ := h i e' he'
  exact ⟨e, he, congrArg g heq⟩

theorem Erased.survives {pos : Nat} {id : EntryId} {e : CHttpCacheEntry} {s s' : CacheState}
    (h : Erased pos id e s s') : Survives CHttpCacheEntry.core s s' := by
  intro i e' he'
  cases hi : decide (i = id) with
  | true =>
      rw [decide_eq_true_eq] at hi
      rw [hi, h.gone] at he'
      cases he'
  | false =>
      rw [decide_eq_false_iff_not] at hi
      obtain ⟨e₀, he₀, heq⟩ := exists_of_map_eq (h.others i hi).symm he'
      exact ⟨e₀, he₀, heq.symm⟩

theorem EvictStep.survives {s s' : CacheState} (h : EvictStep s s') :
    Survives CHttpCacheEntry.idleCore s s' := by
  cases h with
  | idle h => exact Survives.of_map h.core
  | erased pos id e h _ =>
      exact h.survives.comp fun c : EntryCore => { c with iEvictionCandidate := false }

/-- What a sequence of eviction steps leaves of the entries is unchanged. -/
theorem survives_of_evict {s s' : CacheState} (h : Relation.ReflTransGen EvictStep s s') :
    Survives CHttpCacheEntry.idleCore s s' :=
  related_of_chain (fun _ => Survives.of_map fun _ => rfl) (fun _ _ _ => Survives.trans)
    (Relation.ReflTransGen.mono (fun _ _ => EvictStep.survives) _ _ h)

end SymbianWeb.HttpCache
