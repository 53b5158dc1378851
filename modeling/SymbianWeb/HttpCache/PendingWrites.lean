import SymbianWeb.HttpCache.AsyncWrite
import SymbianWeb.HttpCache.AwaitedWrites

/-!
# The file write handler and its request

`CHttpCacheFileWriteHandler::RunL` makes its request pending and activates itself before it calls
`FlushAsync`, and does not look at the result. `FlushAsync` completes the request when there is
nothing to write and hands it to a write helper when there is. When the disk is full, the body file
cannot be created or there is no memory for the helper, it does neither: the handler stays active
for good.

`runUntilFlush` is `RunL` up to that call (`fileWriteRunL_eq`). In a run in which no `FlushAsync`
takes such a branch, a helper runs whenever the handler waits, and it completes the request
(`answered_of_canWrite`).
-/

set_option autoImplicit false

namespace SymbianWeb.HttpCache

open FaultState

section Machine

variable [Platform]

/-! ## `RunL` up to `FlushAsync` -/

/-- The start of a write up to `FlushAsync`, with the entry it is called for. -/
def startUntilFlush (env : Env) : CacheM (Option EntryId) := do
  let s ← get
  match s.iPostponeHandler with
  | none => fault
  | some h =>
      match h.iObjectQueue with
      | [] => goIdle env >>= fun _ => pure none
      | id :: _ =>
          if h.isActive then goIdle env >>= fun _ => pure none
          else do
            modifyPostpone fun h => { h with isActive := true, iStatus := none }
            pure (some id)

/-- `RunL` up to `FlushAsync`. -/
def runUntilFlush (env : Env) (updated : Bool) : CacheM (Option EntryId) := do
  let s ← get
  match s.iPostponeHandler with
  | none => fault
  | some h =>
      match h.iStatus with
      | none => fault
      | some result => do
          guardM (h.isActive = true)
          modifyPostpone fun h => { h with isActive := false }
          finishFlushing h result
          let s ← get
          match s.iPostponeHandler with
          | none => fault
          | some h =>
              if h.iWaitTimer = false then do
                dropEmpty h.iObjectQueue.length
                let s ← get
                match s.iPostponeHandler with
                | none => fault
                | some h =>
                    if h.iObjectQueue = [] then goIdle env >>= fun _ => pure none
                    else do
                      whenM (updated = true) (updateLookupTable env)
                      startUntilFlush env
              else pure none

/-- The call of `FlushAsync`, with what follows it. -/
def flushFirst (env : Env) : Option EntryId → CacheM Unit
  | none => pure ()
  | some id => do
      flushAsync (env.io 0) id
      modifyPostpone fun h => { h with iObjectFlushing := some id }

theorem goIdle_flushFirst (env : Env) :
    ((goIdle env >>= fun _ => pure none) >>= flushFirst env) = goIdle env := by
  rw [bind_assoc]
  exact bind_pure (goIdle env)

theorem startWriting_eq (env : Env) :
    startWriting env = startUntilFlush env >>= flushFirst env := by
  unfold startWriting startUntilFlush
  rw [bind_assoc]
  refine bind_congr fun s => ?_
  cases s.iPostponeHandler with
  | none => rfl
  | some h =>
      obtain ⟨_, _, _, _, queue, _, isActive, _⟩ := h
      cases queue with
      | nil => exact (goIdle_flushFirst env).symm
      | cons id rest =>
          cases isActive with
          | true => exact (goIdle_flushFirst env).symm
          | false => rfl

theorem fileWriteRunL_eq (env : Env) (updated : Bool) :
    fileWriteRunL env updated = runUntilFlush env updated >>= flushFirst env := by
  unfold fileWriteRunL runUntilFlush
  rw [bind_assoc]
  refine bind_congr fun s => ?_
  cases s.iPostponeHandler with
  | none => rfl
  | some h =>
      obtain ⟨_, _, _, _, _, _, _, status⟩ := h
      cases status with
      | none => rfl
      | some result =>
          simp only [bind_assoc]
          refine bind_congr fun _ => bind_congr fun _ => bind_congr fun _ => bind_congr fun s => ?_
          cases s.iPostponeHandler with
          | none => rfl
          | some h =>
              obtain ⟨_, _, _, waitTimer, _, _, _, _⟩ := h
              cases waitTimer with
              | true => rfl
              | false =>
                  dsimp only
                  rw [whenM_of rfl, if_pos rfl, bind_assoc]
                  refine bind_congr fun _ => ?_
                  rw [bind_assoc]
                  refine bind_congr fun s => ?_
                  cases s.iPostponeHandler with
                  | none => rfl
                  | some h =>
                      dsimp only
                      by_cases hqueue : h.iObjectQueue = []
                      · rw [if_pos hqueue, if_pos hqueue, goIdle_flushFirst]
                      · rw [if_neg hqueue, if_neg hqueue, startWriting_eq, bind_assoc]

/-- Up to `FlushAsync` nothing waits, but for the handler itself where it is called. -/
theorem startUntilFlush_spec {env : Env} {s s' : CacheState} {r : Option EntryId}
    (hrun : startUntilFlush env s = some (r, s')) :
    (s.Fresh → s'.Fresh) ∧ (r = none → KeepsWrites s s') := by
  have hidle : ∀ {s s' : CacheState} {r : Option EntryId},
      (goIdle env >>= fun _ => pure none) s = some (r, s') → KeepsWrites s s' := fun h =>
    keepsWrites_of (Stays.bind (keeps_goIdle env) fun _ => Stays.pure _) h
  rw [startUntilFlush, get_bind] at hrun
  cases hpost : s.iPostponeHandler with
  | none =>
      rw [hpost] at hrun
      cases hrun
  | some h =>
      simp only [hpost] at hrun
      cases hqueue : h.iObjectQueue with
      | nil =>
          rw [hqueue] at hrun
          exact ⟨(hidle hrun).fresh, fun _ => hidle hrun⟩
      | cons id rest =>
          simp only [hqueue] at hrun
          by_cases hactive : h.isActive = true
          · rw [if_pos hactive] at hrun
            exact ⟨(hidle hrun).fresh, fun _ => hidle hrun⟩
          · rw [if_neg hactive, modifyPostpone, modify_bind, pure_eq_some, Prod.mk.injEq] at hrun
            obtain ⟨rfl, rfl⟩ := hrun
            exact ⟨fun hs => hs, fun hnone => (Option.some_ne_none _ hnone).elim⟩

/-- The same for all of `RunL` up to `FlushAsync`. -/
theorem runUntilFlush_spec {env : Env} {updated : Bool} {s s' : CacheState} {r : Option EntryId}
    (hrun : runUntilFlush env updated s = some (r, s')) :
    (s.Fresh → s'.Fresh) ∧ (r = none → KeepsWrites s s') := by
  -- what comes before the start of the next write
  have hbefore : ∀ {s₁ s₂ : CacheState}, KeepsWrites s s₁ → KeepsWrites s₁ s₂ →
      (s.Fresh → s₂.Fresh) ∧ (r = none → KeepsWrites s s₂) := fun h₁ h₂ =>
    ⟨(h₁.trans _ _ _ h₂).fresh, fun _ => h₁.trans _ _ _ h₂⟩
  rw [runUntilFlush, get_bind] at hrun
  cases hpost : s.iPostponeHandler with
  | none =>
      rw [hpost] at hrun
      cases hrun
  | some h =>
      simp only [hpost] at hrun
      cases hstatus : h.iStatus with
      | none =>
          rw [hstatus] at hrun
          cases hrun
      | some result =>
          simp only [hstatus] at hrun
          obtain ⟨-, hrun⟩ := guardM_bind.1 hrun
          obtain ⟨_, s₁, hinactive, hrun⟩ := bind_eq_some.1 hrun
          obtain ⟨_, s₂, hfinish, hrun⟩ := bind_eq_some.1 hrun
          have h₁ : KeepsWrites s s₁ := keepsWrites_of
            (keeps_modifyPostpone fun _ hactive _ => absurd hactive (by simp)) hinactive
          have h₂ : KeepsWrites s s₂ :=
            h₁.trans _ _ _ (keepsWrites_of (keeps_finishFlushing h result) hfinish)
          rw [get_bind] at hrun
          cases hpost₂ : s₂.iPostponeHandler with
          | none =>
              rw [hpost₂] at hrun
              cases hrun
          | some h₂' =>
              simp only [hpost₂] at hrun
              by_cases htimer : h₂'.iWaitTimer = false
              · rw [if_pos htimer] at hrun
                obtain ⟨_, s₃, hdrop, hrun⟩ := bind_eq_some.1 hrun
                have h₃ : KeepsWrites s s₃ :=
                  h₂.trans _ _ _ (keepsWrites_of (keeps_dropEmpty _) hdrop)
                rw [get_bind] at hrun
                cases hpost₃ : s₃.iPostponeHandler with
                | none =>
                    rw [hpost₃] at hrun
                    cases hrun
                | some h₃' =>
                    simp only [hpost₃] at hrun
                    by_cases hqueue : h₃'.iObjectQueue = []
                    · rw [if_pos hqueue] at hrun
                      exact hbefore h₃ (keepsWrites_of
                        (Stays.bind (keeps_goIdle env) fun _ => Stays.pure _) hrun)
                    · rw [if_neg hqueue] at hrun
                      obtain ⟨_, s₄, hmerge, hrun⟩ := bind_eq_some.1 hrun
                      have h₄ : KeepsWrites s s₄ := h₃.trans _ _ _
                        (keepsWrites_of (Stays.whenM fun _ => keeps_updateLookupTable env) hmerge)
                      obtain ⟨hfresh, hnone⟩ := startUntilFlush_spec hrun
                      exact ⟨fun hs => hfresh (h₄.fresh hs),
                        fun hr => h₄.trans _ _ _ (hnone hr)⟩
              · rw [if_neg htimer, pure_eq_some, Prod.mk.injEq] at hrun
                obtain ⟨-, rfl⟩ := hrun
                exact hbefore h₂ (KeepsWrites.refl _)

/-! ## `FlushAsync` -/

/-- `FlushAsync` has nothing to write for the entry, or there is room for it on the disk, its body
file can be created and there is memory for the helper. -/
def CanWrite (io : Io) (s : CacheState) (id : EntryId) : Prop :=
  ∀ e, s.heap id = some e → ∀ header, e.iHeaderBuffer = some header →
    e.iCacheBuffer.length = 0 ∨
      (isDiskSpaceAvailable io s.iCriticalLevel (e.iCacheBuffer.length + header.length) = true ∧
        io.replaceOk = true ∧ e.iFileName ∉ s.openFiles ∧ io.alloc 0 = true)

instance (io : Io) (s : CacheState) (id : EntryId) : Decidable (CanWrite io s id) :=
  inferInstanceAs (Decidable (∀ e ∈ s.heap id, ∀ header ∈ e.iHeaderBuffer, _ ∨ _))

omit [Platform] in
/-- With memory for the helper `WriteBodyDataAsync` leaves the helper running. -/
theorem writeBodyDataAsync_spec {memory : Bool} {s s' : CacheState} {id : EntryId} {a : Unit}
    (hs : s.Fresh) (hrun : writeBodyDataAsync memory id s = some (a, s')) :
    s'.Fresh ∧ (memory = true → s'.Writing id) := by
  obtain ⟨e, he, hrun⟩ := getEntry_bind.1 hrun
  obtain ⟨_, s₁, hcancel, hrun⟩ := bind_eq_some.1 hrun
  have h₁ : KeepsWrites s s₁ := by
    cases hhelper : e.iWriteHelper with
    | none =>
        rw [hhelper] at hcancel
        exact keepsWrites_of (Stays.pure _) hcancel
    | some helper =>
        rw [hhelper] at hcancel
        exact keepsWrites_of (keeps_cancelWriteHelper id helper) hcancel
  obtain ⟨e₁, he₁, rfl⟩ := modifyEntry_run.1 hrun
  refine ⟨fresh_setEntry he₁ _ (h₁.fresh hs), ?_⟩
  rintro rfl
  exact ⟨_, _, heap_setEntry_self _ _ _, rfl, rfl⟩

omit [Platform] in
theorem createNewBodyFile_of {io : Io} {s s' : CacheState} {id : EntryId} {e : CHttpCacheEntry}
    {created : Bool} (he : s.heap id = some e) (hok : io.replaceOk = true)
    (hopen : e.iFileName ∉ s.openFiles) (hrun : createNewBodyFile io id s = some (created, s')) :
    created = true := by
  obtain ⟨e', he', hrun⟩ := getEntry_bind.1 hrun
  obtain rfl : e' = e := Option.some.inj (he'.symm.trans he)
  rw [get_bind] at hrun
  obtain ⟨_, _, -, hrun⟩ := bind_eq_some.1 hrun
  rw [if_pos ⟨hok, hopen⟩] at hrun
  obtain ⟨_, _, -, hrun⟩ := bind_eq_some.1 hrun
  obtain ⟨_, _, -, hrun⟩ := bind_eq_some.1 hrun
  rw [pure_eq_some, Prod.mk.injEq] at hrun
  exact hrun.1

omit [Platform] in
theorem headerData_run {s s' : CacheState} {id : EntryId} {e : CHttpCacheEntry} {header : Des8}
    (he : s.heap id = some e) (hrun : headerData id s = some (header, s')) :
    e.iHeaderBuffer = some header ∧ s' = s := by
  obtain ⟨e', he', hrun⟩ := getEntry_bind.1 hrun
  obtain rfl : e' = e := Option.some.inj (he'.symm.trans he)
  cases hbuf : e'.iHeaderBuffer with
  | none =>
      rw [hbuf] at hrun
      cases hrun
  | some text =>
      rw [hbuf, pure_eq_some, Prod.mk.injEq] at hrun
      exact ⟨congrArg some hrun.1.symm, hrun.2⟩

omit [Platform] in
/-- Where it can write, `FlushAsync` completes the request or leaves a helper running. -/
theorem flushAsync_spec {io : Io} {s s' : CacheState} {id : EntryId} {a : Unit} (hs : s.Fresh)
    (hrun : flushAsync io id s = some (a, s')) :
    s'.Fresh ∧ (CanWrite io s id → s'.Pending → s'.Writing id) := by
  unfold flushAsync at hrun
  obtain ⟨e, he, hrun⟩ := getEntry_bind.1 hrun
  obtain ⟨header, s₁, hheader, hrun⟩ := bind_eq_some.1 hrun
  obtain ⟨hbuf, hsame⟩ := headerData_run he hheader
  rw [hsame, get_bind] at hrun
  by_cases hempty : e.iCacheBuffer.length = 0
  · rw [if_pos hempty] at hrun
    refine ⟨(keepsWrites_of (keeps_requestComplete _) hrun).fresh hs, fun _ hp => ?_⟩
    exact absurd hp (not_pending_requestComplete hrun)
  · rw [if_neg hempty] at hrun
    have hroom : CanWrite io s id → _ := fun hcan => (hcan e he header hbuf).resolve_left hempty
    by_cases hspace : isDiskSpaceAvailable io s.iCriticalLevel
        (e.iCacheBuffer.length + header.length) = true
    · rw [if_pos hspace] at hrun
      obtain ⟨created, s₂, hcreate, hrun⟩ := bind_eq_some.1 hrun
      have hfresh₂ : s₂.Fresh := (keepsWrites_of (keeps_createNewBodyFile io id) hcreate).fresh hs
      cases created with
      | true =>
          rw [if_pos rfl] at hrun
          obtain ⟨_, s₃, hhelper, hrun⟩ := bind_eq_some.1 hrun
          obtain ⟨hfresh₃, hwriting⟩ := writeBodyDataAsync_spec hfresh₂ hhelper
          have hdelay : Stays KeepsWrites
              (modifyEntry id fun e => { e with delayedWriteInProgress := true }) :=
            keeps_modifyEntry fun _ => rfl
          have h₄ : KeepsWrites s₃ s' := keepsWrites_of hdelay hrun
          refine ⟨h₄.fresh hfresh₃, fun hcan hp => ?_⟩
          exact h₄.writing hfresh₃ hp id (hwriting (hroom hcan).2.2.2)
      | false =>
          rw [if_neg (by decide)] at hrun
          refine ⟨(keepsWrites_of (keeps_resetBodyData id) hrun).fresh hfresh₂, fun hcan _ => ?_⟩
          have hcreated := createNewBodyFile_of he (hroom hcan).2.1 (hroom hcan).2.2.1 hcreate
          cases hcreated
    · rw [if_neg hspace] at hrun
      exact ⟨(keepsWrites_of (keeps_resetBodyData id) hrun).fresh hs,
        fun hcan _ => absurd (hroom hcan).1 hspace⟩

/-! ## Runs -/

/-- Where `RunL` calls `FlushAsync`, the body can be written. -/
def Op.canWrite : Op → CacheState → Prop
  | .fileWriteRunL env updated, s => ∀ id s₁,
      runUntilFlush env updated s = some (some id, s₁) → CanWrite (env.io 0) s₁ id
  | _, _ => True

instance (op : Op) (s : CacheState) : Decidable (op.canWrite s) :=
  match op with
  | .fileWriteRunL env updated =>
      decidable_of_iff
        (∀ p ∈ runUntilFlush env updated s, ∀ id ∈ p.1, CanWrite (env.io 0) p.2 id)
        ⟨fun h id s₁ hrun => h _ hrun _ rfl, fun h p hp id hid => h id p.2 (by rw [hp, ← hid])⟩
  | .receivedResponseHeadersL .. | .receivedResponseBodyDataL .. | .responseComplete ..
  | .requestL .. | .requestNextChunkL .. | .requestClosed .. | .saveL .. | .removeL ..
  | .removeAllL .. | .addHeaderL .. | .validateCacheEntriesL | .updateLookupTable ..
  | .writeTimeout | .writeHelperRunL .. | .collect .. | .fileSystem .. => isTrue trivial

/-- `RunL` keeps the heap in order, and leaves a helper running where it waits for one. -/
theorem fileWriteRunL_spec {env : Env} {updated : Bool} {s s' : CacheState} {a : Unit}
    (hs : s.Fresh) (hrun : fileWriteRunL env updated s = some (a, s')) :
    s'.Fresh ∧ (Op.canWrite (.fileWriteRunL env updated) s → (s.Pending → ∃ i, s.Writing i) →
      s'.Pending → ∃ i, s'.Writing i) := by
  rw [fileWriteRunL_eq] at hrun
  obtain ⟨r, s₁, huntil, hrun⟩ := bind_eq_some.1 hrun
  obtain ⟨hfresh, hnone⟩ := runUntilFlush_spec huntil
  cases r with
  | none =>
      obtain rfl : s' = s₁ := (Prod.mk.inj (pure_eq_some.1 hrun)).2
      refine ⟨hfresh hs, fun _ hwait hp => ?_⟩
      obtain ⟨i, hi⟩ := hwait ((hnone rfl).pending hs hp)
      exact ⟨i, (hnone rfl).writing hs hp i hi⟩
  | some id =>
      obtain ⟨_, s₂, hflush, hrun⟩ := bind_eq_some.1 hrun
      obtain ⟨hfresh₂, hwrites⟩ := flushAsync_spec (hfresh hs) hflush
      have hnow : Stays KeepsWrites
          (modifyPostpone fun h => { h with iObjectFlushing := some id }) :=
        keeps_modifyPostpone fun _ h₁ h₂ => ⟨h₁, h₂⟩
      have h₃ : KeepsWrites s₂ s' := keepsWrites_of hnow hrun
      refine ⟨h₃.fresh hfresh₂, fun hcan _ hp => ⟨id, ?_⟩⟩
      exact h₃.writing hfresh₂ hp id (hwrites (hcan id s₁ huntil) (h₃.pending hfresh₂ hp))

/-- All operations but `RunL` keep writes. -/
theorem op_keepsWrites {op : Op} (hop : ∀ env updated, op ≠ .fileWriteRunL env updated) :
    Stays KeepsWrites op.run := by
  cases op with
  | receivedResponseHeadersL env t resp => exact keeps_receivedResponseHeadersL env t resp
  | receivedResponseBodyDataL env t body => exact keeps_receivedResponseBodyDataL env t body
  | responseComplete env t => exact keeps_responseComplete env t
  | requestL env t req => exact keeps_requestL env t req
  | requestNextChunkL t => exact Stays.bind (keeps_requestNextChunkL t) fun _ => Stays.pure _
  | requestClosed t => exact keeps_requestClosed t
  | saveL env url header content =>
      exact Stays.bind (keeps_saveL env url header content) fun _ => Stays.pure _
  | removeL url => exact Stays.bind (keeps_removeL url) fun _ => Stays.pure _
  | removeAllL env => exact keeps_removeAllL env
  | addHeaderL env url alter => exact keeps_addHeaderL env url alter
  | validateCacheEntriesL => exact keeps_validateCacheEntriesL
  | updateLookupTable env => exact keeps_updateLookupTable env
  | fileWriteRunL env updated => exact absurd rfl (hop env updated)
  | writeTimeout => exact keeps_writeTimeout
  | writeHelperRunL id status => exact keeps_writeHelperRunL id status
  | collect io required => exact keeps_collect io required
  | fileSystem files indexFile => exact keeps_modify fun _ => ⟨rfl, rfl, rfl⟩

theorem fresh_op {op : Op} {s s' : CacheState} {a : Unit} (hs : s.Fresh)
    (hrun : op.run s = some (a, s')) : s'.Fresh := by
  cases op with
  | fileWriteRunL env updated => exact (fileWriteRunL_spec hs hrun).1
  | _ => exact (keepsWrites_of (op_keepsWrites (by simp)) hrun).fresh hs

/-- A new cache has only objects it has made, and a handler that is not active does not wait. -/
theorem starts_spec {c : Construct} {s : CacheState} (hs : c.Starts s) :
    s.Fresh ∧ ((∀ h, c.aPostpone = some h → h.isActive = false) → ¬ s.Pending) := by
  have hkeeps : KeepsWrites c.initial s := keepsWrites_of (keeps_constructL c.env) hs
  have hfresh : c.initial.Fresh := fun _ _ => rfl
  refine ⟨hkeeps.fresh hfresh, fun hidle hp => ?_⟩
  obtain ⟨h, hpost, hactive, -⟩ := hkeeps.pending hfresh hp
  rw [hidle h hpost] at hactive
  cases hactive

theorem fresh_of_reaches {c : Construct} {ok : Op → CacheState → Prop} {s : CacheState}
    (hs : Reaches Op.run c.Starts ok s) : s.Fresh :=
  hs.invariant (fun _ h => (starts_spec h).1) fun _ _ _ h _ _ hrun => fresh_op h hrun

/-- The helper of an entry completes the request when it has run often enough, whatever its writes
return. -/
def CacheState.WillComplete (s : CacheState) (id : EntryId) : Prop :=
  ∃ n, ∀ (statuses : List Int) (x : Int), statuses.length = n →
    ∃ s', forEach (statuses ++ [x]) (writeHelperRunL id) s = some ((), s') ∧ ¬ s'.Pending

/-- The file write handler is not active, or its request has been completed, or a helper runs that
will complete it. -/
def CacheState.Answered (s : CacheState) : Prop :=
  ∀ h, s.iPostponeHandler = some h → h.isActive = true →
    (∃ r, h.iStatus = some r) ∨ ∃ id, s.Writing id ∧ s.WillComplete id

omit [Platform] in
theorem willComplete_of_writing {s : CacheState} {id : EntryId} (h : s.Writing id) :
    s.WillComplete id := by
  obtain ⟨e, ⟨k, st, active⟩, he, hhelper, rfl⟩ := h
  have he' : s.heap id = some (e.writing k st) := by
    rw [he, CHttpCacheEntry.writing, ← hhelper]
  refine ⟨e.iCacheBuffer.count - k, fun statuses x hlen => ?_⟩
  obtain ⟨s', hrun, hpost⟩ := helper_completes he' statuses x hlen
  refine ⟨s', hrun, ?_⟩
  rintro ⟨h', hh', -, hpending⟩
  rw [hpost] at hh'
  obtain ⟨h, -, rfl⟩ := Option.map_eq_some_iff.1 hh'
  cases hpending

/-- In a run in which the body can be written wherever `FlushAsync` is called, the handler never
waits for a completion that nobody will send. -/
theorem answered_of_canWrite {c : Construct}
    (hidle : ∀ h, c.aPostpone = some h → h.isActive = false) {s : CacheState} (hs : Reaches Op.run c.Starts Op.canWrite s) : s.Answered := by
  have hwait : s.Fresh ∧ (s.Pending → ∃ i, s.Writing i) := by
    refine hs.invariant (I := fun s => s.Fresh ∧ (s.Pending → ∃ i, s.Writing i)) ?_ ?_
    · intro s₀ hstart
      obtain ⟨hfresh, hnot⟩ := starts_spec hstart
      exact ⟨hfresh, fun hp => absurd hp (hnot hidle)⟩
    · intro op s₁ hok ⟨hfresh, hwait⟩ a s₂ hrun
      refine ⟨fresh_op hfresh hrun, ?_⟩
      cases op with
      | fileWriteRunL env updated => exact (fileWriteRunL_spec hfresh hrun).2 hok hwait
      | _ =>
          intro hp
          have hkeeps := keepsWrites_of (op_keepsWrites (by simp)) hrun
          obtain ⟨i, hi⟩ := hwait (hkeeps.pending hfresh hp)
          exact ⟨i, hkeeps.writing hfresh hp i hi⟩
  intro h hpost hactive
  cases hstatus : h.iStatus with
  | some r => exact .inl ⟨r, rfl⟩
  | none =>
      obtain ⟨i, hi⟩ := hwait.2 ⟨h, hpost, hactive, hstatus⟩
      exact .inr ⟨i, hi, willComplete_of_writing hi⟩

end Machine

/-! ## A postponed response -/

section Postponed

open Reference

theorem idle_postponingCache : ∀ h, postponingCache.aPostpone = some h → h.isActive = false := by
  intro h hh
  cases hh
  rfl

/-- There is room on the disk: the handler waits, and the helper of the entry runs. -/
theorem answered_of_postponed : ∃ s, Reaches Op.run postponingCache.Starts Op.canWrite s ∧
    s.Pending ∧ s.Answered := by
  have hrun : ((constructL env postponingCache.initial).bind fun p =>
      (runChecked Op.run Op.canWrite (postponedOps env) p.2).map fun s =>
        s.iPostponeHandler.map fun h => (h.isActive, h.iStatus)) = some (some (true, none)) := by
    decide +kernel
  obtain ⟨⟨⟨⟩, s₀⟩, hstart, hrun⟩ := Option.bind_eq_some_iff.1 hrun
  obtain ⟨s, hchecked, heval⟩ := Option.map_eq_some_iff.1 hrun
  have hreached₀ : Reaches Op.run postponingCache.Starts Op.canWrite s₀ := .start hstart
  have hreached := hreached₀.of_runChecked hchecked
  obtain ⟨h, hpost, hh⟩ := Option.map_eq_some_iff.1 heval
  rw [Prod.mk.injEq] at hh
  exact ⟨s, hreached, ⟨h, hpost, hh⟩, answered_of_canWrite idle_postponingCache hreached⟩

/-- The disk is full: the handler waits, and no helper runs. -/
theorem not_answered : ¬ ∀ (c : Construct) (s : CacheState),
    (∀ h, c.aPostpone = some h → h.isActive = false) →
    Reaches Op.run c.Starts (fun _ _ => True) s → s.Answered := by
  intro hclaim
  have heval : (stateAfter postponingCache
      (postponedOps { env with io := fun _ => { io with volumeFree := some 0 } })).map (fun s =>
        (s.iPostponeHandler.map fun h => (h.isActive, h.iStatus), s.nextId,
          (s.heap 0).map fun e => e.iWriteHelper)) =
      some (some (true, none), 1, some none) := by
    decide +kernel
  obtain ⟨s, hs, heq⟩ := exists_run_of_eval heval
  simp only [Prod.mk.injEq] at heq
  obtain ⟨hpost, hnext, hentry⟩ := heq
  obtain ⟨h, hpost, hh⟩ := Option.map_eq_some_iff.1 hpost
  rw [Prod.mk.injEq] at hh
  rcases hclaim _ s idle_postponingCache hs h hpost hh.1 with ⟨r, hr⟩ | ⟨i, hwriting, -⟩
  · rw [hh.2] at hr
    cases hr
  · obtain ⟨e, helper, he, hhelper, -⟩ := hwriting
    -- the only object is the entry at the first address
    have hi : i = 0 := by
      by_contra hne
      have hfresh : s.nextId ≤ i := by
        rw [hnext]
        exact Nat.pos_of_ne_zero hne
      rw [fresh_of_reaches hs i hfresh] at he
      cases he
    rw [hi] at he
    rw [he, Option.map_some, hhelper] at hentry
    cases hentry

end Postponed

end SymbianWeb.HttpCache
