import SymbianWeb.HttpCache.Operations
import SymbianWeb.HttpCache.Reference

/-!
# Removals spare what is being received

Entries leave the cache when a client asks for it, when the list of bad entries names them, and
when room is needed. None of these takes away an entry that is not complete, in any order and
however often (`removals_spare`): the most that can happen to it is that `RemoveL` marks it, so that
its own transaction destroys it later.
-/

set_option autoImplicit false

namespace SymbianWeb.HttpCache

open FaultState

/-- The core of an entry but for its state and the eviction candidate flag. -/
def CHttpCacheEntry.restCore (e : CHttpCacheEntry) : EntryCore :=
  { e.idleCore with iState := .eCacheDestroyed }

/-- Entries that are not complete stay, and at most get marked. No entry comes, and what is left
is unchanged. -/
structure Spares (s s' : CacheState) : Prop where
  kept : ∀ i e, s.heap i = some e → e.iState ≠ .eCacheComplete → ∃ e', s'.heap i = some e' ∧
    (e'.iState = e.iState ∨ e'.iState = .eCacheDestroyed)
  survives : Survives CHttpCacheEntry.restCore s s'

variable {s s' : CacheState}

theorem spares_refl (s : CacheState) : Spares s s :=
  ⟨fun _ e he _ => ⟨e, he, .inl rfl⟩, Survives.of_map fun _ => rfl⟩

theorem spares_trans (s₁ s₂ s₃ : CacheState) (h : Spares s₁ s₂) (h' : Spares s₂ s₃) :
    Spares s₁ s₃ := by
  refine ⟨fun i e he hactive => ?_, h.survives.trans h'.survives⟩
  obtain ⟨e₂, he₂, hstate₂⟩ := h.kept i e he hactive
  have hactive₂ : e₂.iState ≠ .eCacheComplete := by
    rcases hstate₂ with hstate₂ | hstate₂
    · rwa [hstate₂]
    · rw [hstate₂]
      decide
  obtain ⟨e₃, he₃, hstate₃⟩ := h'.kept i e₂ he₂ hactive₂
  refine ⟨e₃, he₃, ?_⟩
  rcases hstate₃ with hstate₃ | hstate₃
  · rwa [hstate₃]
  · exact .inr hstate₃

theorem EvictStep.spares (h : EvictStep s s') : Spares s s' := by
  refine ⟨fun i e he hactive => ?_, h.survives.comp fun c : EntryCore =>
    { c with iState := .eCacheDestroyed }⟩
  have hcore : (s'.heap i).map CHttpCacheEntry.idleCore =
      (s.heap i).map CHttpCacheEntry.idleCore := by
    cases h with
    | idle h => exact h.core i
    | erased pos id e₀ h hcomplete =>
        have hne : i ≠ id := by
          rintro rfl
          rw [h.entry, Option.some.injEq] at he
          exact hactive (he ▸ hcomplete)
        exact map_eq_of_map_eq (fun c : EntryCore => { c with iEvictionCandidate := false })
          (h.others i hne)
  obtain ⟨e', he', heq⟩ := exists_of_map_eq hcore he
  exact ⟨e', he', .inl (congrArg EntryCore.iState heq)⟩

theorem spares_erase : ErasesComplete Spares := fun hslot he hcomplete =>
  (evictStep_erase hslot he hcomplete).mono fun _ _ => EvictStep.spares

theorem spares_of_quiet {α : Type} {m : CacheM α} (h : Stays Quiet m) : Stays Spares m :=
  h.mono fun _ _ h => (EvictStep.idle h.idle).spares

/-- `RemoveL` marks an active entry. -/
theorem spares_setDestroyed (id : EntryId) : Stays Spares (setState id .eCacheDestroyed) := by
  refine Stays.bind (stays_getEntry id) fun e => ?_
  refine Stays.bind (Stays.whenM fun h => absurd h.1 (by decide)) fun _ => ?_
  refine stays_modifyEntry fun s e he => ⟨fun i e' he' _ => ?_, Survives.of_map
    (map_setEntry he rfl)⟩
  rw [heap_setEntry]
  split
  · exact ⟨_, rfl, .inr rfl⟩
  · exact ⟨e', he', .inl rfl⟩

section Runs

variable [Platform]

/-- What takes entries out of the cache, apart from the transaction an entry belongs to. -/
inductive Removal where
  | removeL (aUrl : Des8)
  | removeAllL (env : Env)
  | validateCacheEntriesL
  | cacheNeedsSpaceL (now : Clock) (aSize : Nat)

def Removal.run : Removal → CacheM Unit
  | removeL aUrl => HttpCache.removeL aUrl >>= fun _ => pure ()
  | removeAllL env => HttpCache.removeAllL env
  | validateCacheEntriesL => HttpCache.validateCacheEntriesL
  | cacheNeedsSpaceL now aSize => HttpCache.cacheNeedsSpaceL now aSize >>= fun _ => pure ()

theorem spares_removeL (aUrl : Des8) : Stays Spares (removeL aUrl) := by
  refine Stays.bind (spares_of_quiet (quiet_find aUrl)) fun entry => ?_
  cases entry with
  | none => exact Stays.pure _
  | some id =>
      refine Stays.bind (stays_getEntry id) fun e => Stays.ite
        (fun _ => stays_remove spares_erase aUrl) fun _ => ?_
      exact Stays.bind (spares_setDestroyed id) fun _ => Stays.pure _

theorem spares_run (removal : Removal) : Stays Spares removal.run := by
  cases removal with
  | removeL aUrl => exact Stays.bind (spares_removeL aUrl) fun _ => Stays.pure _
  | removeAllL env =>
      refine Stays.bind (spares_of_quiet quiet_postponeRemoveAll) fun _ => ?_
      refine Stays.bind (stays_removeAll spares_erase) fun _ => ?_
      exact spares_of_quiet (quiet_saveLookupTableL _)
  | validateCacheEntriesL =>
      refine Stays.bind Stays.get fun s => Stays.forEach fun url _ => ?_
      exact Stays.bind (stays_remove spares_erase url) fun _ => Stays.pure _
  | cacheNeedsSpaceL now aSize =>
      exact Stays.bind ((evictStep_cacheNeedsSpaceL now aSize).mono fun _ _ => EvictStep.spares)
        fun _ => Stays.pure _

/-- Whatever is removed, in any order: entries that are not complete stay. -/
theorem removals_spare (h : Reaches Removal.run (fun s₀ => s₀ = s) (fun _ _ => True) s') :
    Spares s s' := by
  refine h.invariant (fun s₀ hs₀ => hs₀ ▸ spares_refl s) fun removal s₁ _ hs₁ a s₂ hrun => ?_
  exact spares_trans s s₁ s₂ hs₁ (related_of_chain spares_refl spares_trans
    (spares_run removal s₁ a s₂ hrun))

end Runs

section Responding

open Reference

/-- An entry that is being received is marked by `RemoveL` and outlives `RemoveAllL`. -/
theorem removals_spare_responding : ∃ s s', Spares s s' ∧
    (s.heap 0).map (·.iState) = some .eCacheResponding ∧
    (s'.heap 0).map (·.iState) = some .eCacheDestroyed := by
  have heval : ((stateAfter emptyCache [.receivedResponseHeadersL env 0 (response [1] [2])]).bind
      fun s => (forEach [.removeL [1], .removeAllL env] Removal.run s).map fun p =>
        ((s.heap 0).map (·.iState), (p.2.heap 0).map (·.iState))) =
      some (some .eCacheResponding, some .eCacheDestroyed) := by
    decide +kernel
  obtain ⟨s, -, heval⟩ := Option.bind_eq_some_iff.1 heval
  obtain ⟨⟨a, s'⟩, hrun, heq⟩ := Option.map_eq_some_iff.1 heval
  have hstart : Reaches Removal.run (fun s₀ => s₀ = s) (fun _ _ => True) s := .start rfl
  exact ⟨s, s', removals_spare (hstart.forEach (fun _ _ _ => trivial) hrun),
    congrArg Prod.fst heq, congrArg Prod.snd heq⟩

end Responding

end SymbianWeb.HttpCache
