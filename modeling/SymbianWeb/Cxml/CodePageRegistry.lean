import SymbianWeb.Cxml.ParserRuns

/-!
# The registry of code pages

The parser notes the switches of the code page in a registry, so that a parser that is set to a
token again later has the pages that were in effect there. The entry of a switch has an even offset
if it is one of tags and an odd one otherwise, so that it can be that of either byte of the switch.

Whatever the callbacks do and however the parse ends, setting the parser to any place at which it
has looked for a token restores the pages (`registry_restores`). The registry must have as many
places as there are switches, and no opaque data may have a length that moves the parser backwards.
-/

set_option autoImplicit false

namespace SymbianWeb.WbxmlParser

open Wbxml ErrorState RelatedRuns

/-! ## Entries -/

/-- The entries that have been made. -/
def CpRegistry.entries (registry : CpRegistry) : List RegistryEntry :=
  registry.storage.take registry.current

/-- The pages behind the switch that an entry stands for. -/
def RegistryEntry.enter (pages : UInt8 × UInt8) (entry : RegistryEntry) : UInt8 × UInt8 :=
  if entry.startOffset &&& 1 ≠ 0 then (pages.1, entry.codePage) else (entry.codePage, pages.2)

def Parser.pages (parser : Parser) : UInt8 × UInt8 := (parser.tagCodePage, parser.attributeCodePage)

/-- What the parser has registered, and the pages in effect. -/
def Parser.registered (parser : Parser) : CpRegistry × Bool × (UInt8 × UInt8) :=
  (parser.cpRegistry, parser.flags.registryInit, parser.pages)

variable {offset : UInt32} {entries : List RegistryEntry}

theorem pagesFrom_of_behind (h : ∀ entry ∈ entries, entry.startOffset < offset)
    (pages : UInt8 × UInt8) :
    pagesFrom offset pages entries = entries.foldl RegistryEntry.enter pages := by
  induction entries generalizing pages with
  | nil => rfl
  | cons entry entries ih =>
      obtain ⟨hfirst, hrest⟩ := List.forall_mem_cons.1 h
      rw [pagesFrom, if_pos hfirst, List.foldl_cons, ih hrest, ih hrest, RegistryEntry.enter]
      split <;> rfl

/-- An entry does not concern the places in front of it. -/
theorem pagesFrom_append {entry : RegistryEntry} (h : offset ≤ entry.startOffset)
    (pages : UInt8 × UInt8) :
    pagesFrom offset pages (entries ++ [entry]) = pagesFrom offset pages entries := by
  induction entries generalizing pages with
  | nil =>
      rw [List.nil_append, pagesFrom]
      exact if_neg (UInt32.not_lt.2 h)
  | cons entry' entries ih => rw [List.cons_append, pagesFrom, pagesFrom, ih, ih]

theorem odd_iff (x : UInt32) : x &&& 1 ≠ 0 ↔ x.toNat % 2 = 1 := by
  rw [ne_eq, ← UInt32.toNat_inj, UInt32.toNat_and]
  show ¬ x.toNat &&& 1 = 0 ↔ _
  rw [Nat.and_one_is_mod]
  omega

/-- An entry is at one of the two bytes of its switch, and its parity tells tags from attributes. -/
theorem entryOffset_spec (h : offset.toNat + 1 < 2 ^ 32) (tokenState : TokenState) :
    offset.toNat ≤ (entryOffset offset tokenState).toNat ∧
      (entryOffset offset tokenState).toNat ≤ offset.toNat + 1 ∧
      (entryOffset offset tokenState &&& 1 ≠ 0 ↔ tokenState = .attr) := by
  have hsucc : (offset + 1).toNat = offset.toNat + 1 :=
    (UInt32.toNat_add offset 1).trans (Nat.mod_eq_of_lt h)
  have hodd := odd_iff offset
  rw [odd_iff]
  cases tokenState
  all_goals
    rw [entryOffset]
    split <;> simp_all
    omega

theorem pages_setPage (parser : Parser) (h : offset.toNat + 1 < 2 ^ 32) (tokenState : TokenState)
    (page : UInt8) : (parser.setPage tokenState page).pages =
      RegistryEntry.enter parser.pages ⟨page, entryOffset offset tokenState⟩ := by
  have hodd := (entryOffset_spec h tokenState).2.2
  cases tokenState with
  | tag => exact (if_neg (hodd.not.2 TokenState.noConfusion)).symm
  | attr => exact (if_pos (hodd.2 rfl)).symm

/-- An entry is made behind the others. -/
theorem addEntry_eq {registry registry' : CpRegistry} {page : UInt8} {tokenState : TokenState}
    (h : registry.addEntry page offset tokenState = some registry') :
    registry'.entries = registry.entries ++ [⟨page, entryOffset offset tokenState⟩] ∧
      registry'.count = registry.count := by
  rw [CpRegistry.addEntry] at h
  split at h
  · rename_i hroom
    cases h
    refine ⟨?_, rfl⟩
    rw [CpRegistry.entries, CpRegistry.entries,
      List.take_succ_eq_append_getElem (by simpa using hroom), List.take_set_of_le (Nat.le_refl _)]
    simp
  · cases h

/-! ## Moves -/

section

variable {parser : Parser}

theorem toInt32_of_lt {n : Nat} (h : n < 2 ^ 31) : toInt32 n = n :=
  (toInt32_eq_iff (Nat.le_refl n) (by omega)).2 ⟨rfl, h⟩

/-- A move inside a buffer whose size a signed number can hold. -/
theorem advance?_inside {count : Int}
    (hinside : parser.offset.toNat + parser.left.toNat < 2 ^ 31)
    (hle : count ≤ parser.left.toNat) (hnonneg : 0 ≤ parser.offset.toNat + count) :
    ∃ parser', parser.advance? count = some parser' ∧ parser'.registered = parser.registered ∧
      (parser'.offset.toNat : Int) = parser.offset.toNat + count ∧
      (parser'.left.toNat : Int) = parser.left.toNat - count := by
  have htarget : (parser.offset.toNat + count).bmod 0x100000000 = parser.offset.toNat + count :=
    Int.bmod_eq_of_le (by omega) (by omega)
  refine ⟨{ parser with
    p := parser.p.map (·.add count)
    offset := .ofNat (parser.offset.toNat + count).toNat
    left := .ofInt (parser.left.toNat - count) }, ?_, rfl, ?_, ?_⟩
  · rw [Parser.advance?, toInt32_of_lt (by omega), toInt32_of_lt (by omega)]
    simp only [htarget]
    exact if_neg (by omega)
  · dsimp only
    rw [UInt32.toNat_ofNat']
    omega
  · dsimp only
    rw [UInt32.ofInt, UInt32.toNat_ofNat']
    omega

theorem advance?_too_far {count : Int}
    (hinside : parser.offset.toNat + parser.left.toNat < 2 ^ 31)
    (h : parser.left.toNat < count) : parser.advance? count = none := by
  rw [Parser.advance?, toInt32_of_lt (Nat.lt_of_le_of_lt (Nat.le_add_left _ _) hinside)]
  exact if_pos (.inl h)

end

/-! ## Registered switches -/

section

variable {σ : Type} {m m' : Machine σ}

/-- The registry has the switches so far, and leads back to every place that was visited. -/
structure Registered (m : Machine σ) : Prop where
  count : 0 < m.parser.cpRegistry.count
  filling : m.parser.flags.registryInit = false
  inside : m.parser.offset.toNat + m.parser.left.toNat < 2 ^ 31
  increasing : m.parser.cpRegistry.entries.Pairwise fun e e' => e.startOffset < e'.startOffset
  behind : ∀ e ∈ m.parser.cpRegistry.entries, e.startOffset < m.parser.offset
  pages : m.parser.cpRegistry.entries.foldl RegistryEntry.enter (0, 0) = m.parser.pages
  boundaries : ∀ b ∈ m.boundaries, b.offset ≤ m.parser.offset ∧
    pagesFrom b.offset (0, 0) m.parser.cpRegistry.entries = (b.tagCodePage, b.attributeCodePage)

/-- Opaque data with a length that is taken for a negative number. -/
def MovedBack (m : Machine σ) : Prop := ∃ len, .opaqueData len ∈ m.events ∧ 2 ^ 31 ≤ len.toNat

/-- What each step of the parser keeps. -/
def RegisteredOr (m : Machine σ) : Prop := MovedBack m ∨ Registered m

theorem MovedBack.later (h : MovedBack m) (hevents : m.events <:+ m'.events) : MovedBack m' := by
  obtain ⟨len, hmem, hlen⟩ := h
  exact ⟨len, hevents.subset hmem, hlen⟩

/-- A move forward, or no move. -/
theorem Registered.moved (h : Registered m) (hboundaries : m'.boundaries = m.boundaries)
    (hregistered : m'.parser.registered = m.parser.registered)
    (hle : m.parser.offset.toNat ≤ m'.parser.offset.toNat)
    (hinside : m'.parser.offset.toNat + m'.parser.left.toNat < 2 ^ 31) : Registered m' := by
  obtain ⟨hregistry, hrest⟩ := Prod.mk.inj hregistered
  obtain ⟨hflag, hpages⟩ := Prod.mk.inj hrest
  refine ⟨?_, ?_, hinside, ?_, ?_, ?_, ?_⟩
  · rw [hregistry]
    exact h.count
  · rw [hflag]
    exact h.filling
  · rw [hregistry]
    exact h.increasing
  · rw [hregistry]
    exact fun e he => Nat.lt_of_lt_of_le (h.behind e he) hle
  · rw [hregistry, hpages, h.pages]
  · rw [hregistry, hboundaries]
    exact fun b hb => ⟨Nat.le_trans (h.boundaries b hb).1 hle, (h.boundaries b hb).2⟩

/-- A callback leaves all but the status of the parser alone. -/
theorem handle_run (event : Event) (m : Machine σ) :
    ∃ m', handle event m = .ok () m' ∧ m'.events = event :: m.events ∧
      m'.boundaries = m.boundaries ∧ m'.parser.registered = m.parser.registered ∧
      m'.parser.offset = m.parser.offset ∧ m'.parser.left = m.parser.left := by
  cases h : m.handler event with
  | none =>
      have hcall : callback event m = .ok none { m with events := event :: m.events } := by
        rw [callback, get_bind, h]
        rfl
      exact ⟨_, (bind_of_ok hcall).trans rfl, rfl, rfl, rfl, rfl, rfl⟩
  | some function =>
      have hcall : callback event m = .ok (some (function m.parser m.context).1) { m with
          context := (function m.parser m.context).2
          events := event :: m.events
          returned := (function m.parser m.context).1 :: m.returned } := by
        rw [callback, get_bind, h]
        rfl
      refine ⟨_, (bind_of_ok hcall).trans rfl, rfl, rfl, ?_, rfl, rfl⟩
      show (m.parser.setStatus (function m.parser m.context).1).registered = _
      cases (function m.parser m.context).1 <;> rfl

/-- The parser behind a switch, with an entry for the place where the switch begins. -/
theorem Registered.entered (h : Registered m) {tokenState : TokenState} {page : UInt8}
    {registry : CpRegistry}
    (hentries : registry.entries = m.parser.cpRegistry.entries ++
      [⟨page, entryOffset m.parser.offset tokenState⟩])
    (hcount : registry.count = m.parser.cpRegistry.count)
    (hregistered : m'.parser.registered =
      (registry, m.parser.flags.registryInit, (m.parser.setPage tokenState page).pages))
    (hoffset : m'.parser.offset.toNat = m.parser.offset.toNat + 2)
    (hinside : m'.parser.offset.toNat + m'.parser.left.toNat < 2 ^ 31)
    (hboundaries : m'.boundaries = m.boundaries) : Registered m' := by
  obtain ⟨rfl, hrest⟩ := Prod.mk.inj hregistered
  obtain ⟨hflags, hpages⟩ := Prod.mk.inj hrest
  have hshort : m.parser.offset.toNat + 1 < 2 ^ 32 := by omega
  obtain ⟨hfirst, hsecond, -⟩ := entryOffset_spec hshort tokenState
  refine ⟨hcount ▸ h.count, hflags ▸ h.filling, hinside, ?_, ?_, ?_, ?_⟩
  · rw [hentries, List.pairwise_append]
    refine ⟨h.increasing, List.pairwise_singleton .., fun e he e' he' => ?_⟩
    rw [List.mem_singleton.1 he']
    exact Nat.lt_of_lt_of_le (h.behind e he) hfirst
  · rw [hentries]
    intro e he
    apply UInt32.lt_iff_toNat_lt.2
    rcases List.mem_append.1 he with he | he
    · have := UInt32.lt_iff_toNat_lt.1 (h.behind e he)
      omega
    · rw [List.mem_singleton.1 he]
      dsimp only
      omega
  · rw [hentries, List.foldl_append, h.pages, hpages, pages_setPage _ hshort]
    rfl
  · rw [hentries, hboundaries]
    intro b hb
    obtain ⟨hbefore, hfound⟩ := h.boundaries b hb
    have hle : m.parser.offset ≤ m'.parser.offset := UInt32.le_iff_toNat_le.2 (by omega)
    exact ⟨UInt32.le_trans hbefore hle,
      (pagesFrom_append (UInt32.le_trans hbefore (UInt32.le_iff_toNat_le.2 hfirst)) _).trans
        hfound⟩

/-- The switch that a registry has room for. -/
theorem enterPage?_noting {q q' : Parser} {tokenState : TokenState}
    (hcount : 0 < q.cpRegistry.count) (hfilling : q.flags.registryInit = false)
    (h : q.enterPage? tokenState = some q') :
    ∃ page registry, q' = { q.setPage tokenState page with cpRegistry := registry } ∧
      registry.entries = q.cpRegistry.entries ++
        [⟨page, entryOffset (q.offset - 1) tokenState⟩] ∧
      registry.count = q.cpRegistry.count := by
  obtain ⟨page, -, hpage⟩ := Option.bind_eq_some_iff.1 h
  have hnote : 0 < q.cpRegistry.count ∧ !q.flags.registryInit := ⟨hcount, by rw [hfilling]; rfl⟩
  have hmap : (q.cpRegistry.addEntry page (q.offset - 1) tokenState).map
      (fun cpRegistry => { q.setPage tokenState page with cpRegistry }) = some q' := by
    cases tokenState with
    | tag => exact (if_pos hnote).symm.trans hpage
    | attr => exact (if_pos hnote).symm.trans hpage
  obtain ⟨registry, hadd, rfl⟩ := Option.map_eq_some_iff.1 hmap
  exact ⟨page, registry, rfl, addEntry_eq hadd⟩

theorem keeps_of_finalState {α : Type} {x : Parse σ α}
    (hback : ∀ {m : Machine σ}, MovedBack m → MovedBack (finalState (x m)))
    (h : ∀ {m : Machine σ}, Registered m → RegisteredOr (finalState (x m))) :
    Keeps RegisteredOr (fun _ _ => True) x := by
  have hfinal : ∀ {m : Machine σ}, RegisteredOr m → RegisteredOr (finalState (x m)) :=
    fun hm => hm.elim (fun hm => .inl (hback hm)) h
  refine .intro (fun {s _ _} hs hx => ?_) fun {s _ _} hs hx => ⟨?_, trivial⟩
  · have := hfinal hs
    rwa [hx] at this
  · have := hfinal hs
    rwa [hx] at this

theorem movedBack_advance {count : Int} (h : MovedBack m) :
    MovedBack (finalState (advance count m)) := by
  rw [advance_eq]
  split <;> exact h

theorem movedBack_handle {event : Event} (h : MovedBack m) :
    MovedBack (finalState (handle event m)) := by
  obtain ⟨m', hrun, hevents, -⟩ := handle_run event m
  rw [hrun]
  exact h.later (hevents ▸ List.suffix_cons ..)

theorem registered_advance (count : Nat) :
    Keeps (RegisteredOr (σ := σ)) (fun _ _ => True) (advance count) := by
  refine keeps_of_finalState movedBack_advance fun {m} h => .inr ?_
  have hinside := h.inside
  rw [advance_eq]
  by_cases hle : (count : Int) ≤ m.parser.left.toNat
  · obtain ⟨q, hq, hregistered, hoffset, hleft⟩ := advance?_inside hinside hle (by omega)
    rw [hq]
    exact h.moved rfl hregistered (by dsimp only [finalState]; omega)
      (by dsimp only [finalState]; omega)
  · rw [advance?_too_far hinside (by omega)]
    exact h

theorem registered_handle (event : Event) :
    Keeps (RegisteredOr (σ := σ)) (fun _ _ => True) (handle event) := by
  refine keeps_of_finalState movedBack_handle fun {m} h => .inr ?_
  obtain ⟨m', hrun, -, hboundaries, hregistered, hoffset, hleft⟩ := handle_run event m
  rw [hrun]
  exact h.moved hboundaries hregistered (hoffset ▸ Nat.le_refl _) (hoffset ▸ hleft ▸ h.inside)

/-- A length that is taken for a negative number is noted before the parser moves. -/
theorem registered_skipOpaque (index : UInt32) :
    Keeps (RegisteredOr (σ := σ)) (fun _ _ => True) (skipOpaque index) := by
  by_cases hlt : index.toNat < 2 ^ 31
  · rw [skipOpaque, toInt32_of_lt hlt]
    exact (registered_handle _).bind fun _ => registered_advance _
  · refine keeps_of_finalState (fun h => stays_bind (movedBack_handle h) fun _ _ =>
      movedBack_advance) fun {m} _ => .inl ?_
    obtain ⟨m', hrun, hevents, -⟩ := handle_run (.opaqueData index) m
    rw [skipOpaque, bind_of_ok hrun]
    exact movedBack_advance ⟨index, hevents ▸ List.mem_cons_self, by omega⟩

theorem movedBack_switchPage {tokenState : TokenState} (h : MovedBack m) :
    MovedBack (finalState (switchPage tokenState m)) := by
  refine stays_bind (movedBack_advance h) fun moved m₁ h₁ => ?_
  cases moved with
  | false => exact h₁
  | true =>
      show MovedBack (finalState
        ((if m₁.parser.hasMoreBytecode then _ else pure false : Parse σ Bool) m₁))
      split
      · refine stays_bind ?_ fun _ _ h₂ => stays_bind (movedBack_handle h₂) fun _ _ =>
          movedBack_advance
        rw [enterPage_eq]
        split <;> exact h₁
      · exact h₁

theorem registered_switchPage (tokenState : TokenState) :
    Keeps (RegisteredOr (σ := σ)) (fun _ _ => True) (switchPage tokenState) := by
  refine keeps_of_finalState movedBack_switchPage fun {m} h => .inr ?_
  have hinside := h.inside
  have hrun := advance_eq 1 m
  by_cases hle : (1 : Int) ≤ m.parser.left.toNat
  · obtain ⟨q, hadvance, hregistered₁, hoffset, hleft⟩ := advance?_inside hinside hle (by omega)
    rw [hadvance] at hrun
    have h₁ : Registered { m with parser := q } :=
      h.moved rfl hregistered₁ (by dsimp only; omega) (by dsimp only; omega)
    rw [switchPage, bind_of_ok hrun]
    show Registered (finalState
      ((if q.hasMoreBytecode then _ else pure false : Parse σ Bool) { m with parser := q }))
    split
    · rename_i hmore
      have hmore' : 0 < q.left.toNat := of_decide_eq_true hmore
      have henter := enterPage_eq tokenState { m with parser := q }
      cases hnew : q.enterPage? tokenState with
      | none =>
          rw [hnew] at henter
          rw [bind_of_error henter]
          exact h₁
      | some q' =>
          rw [hnew] at henter
          obtain ⟨page, registry, rfl, hentries, hcount⟩ :=
            enterPage?_noting h₁.count h₁.filling hnew
          obtain ⟨m₂, hhandle, -, hboundaries, hregistered, hoffset₂, hleft₂⟩ :=
            handle_run .codePage { m with
              parser := { q.setPage tokenState page with cpRegistry := registry } }
          -- the parser is at the page still, one byte behind the place where the switch begins
          have hplace₂ : m₂.parser.offset = q.offset ∧ m₂.parser.left = q.left := by
            refine ⟨hoffset₂.trans ?_, hleft₂.trans ?_⟩
            · cases tokenState <;> rfl
            · cases tokenState <;> rfl
          have hback : q.offset - 1 = m.parser.offset := by
            rw [← UInt32.toNat_inj,
              UInt32.toNat_sub_of_le _ _ (UInt32.le_iff_toNat_le.2 (by simp; omega))]
            simp; omega
          have hrun₃ := advance_eq 1 m₂
          obtain ⟨q₃, hadvance₃, hregistered₃, hoffset₃, hleft₃⟩ := @advance?_inside m₂.parser 1
            (by rw [hplace₂.1, hplace₂.2]; omega) (by rw [hplace₂.2]; omega) (by omega)
          rw [hadvance₃] at hrun₃
          rw [bind_of_ok henter, bind_of_ok hhandle, hrun₃]
          rw [hplace₂.1] at hoffset₃
          rw [hplace₂.2] at hleft₃
          simp only [Parser.registered, Parser.pages, Prod.mk.injEq] at hregistered₁
          obtain ⟨hregistry, hflag, htag, hattribute⟩ := hregistered₁
          rw [hregistry] at hcount
          rw [hregistry, hback] at hentries
          refine h.entered hentries hcount (hregistered₃.trans (hregistered.trans ?_)) ?_ ?_
            hboundaries
          · cases tokenState <;> simp [Parser.registered, Parser.pages, Parser.setPage, *]
          · dsimp only [finalState]
            omega
          · dsimp only [finalState]
            omega
    · exact h₁
  · rw [advance?_too_far hinside (by omega)] at hrun
    rw [switchPage, bind_of_ok hrun]
    exact h

theorem registered_readToken : Keeps (RegisteredOr (σ := σ)) (fun _ _ => True) readToken := by
  have hvisit : ∀ {m : Machine σ}, Registered m → Registered m.visit := fun h =>
    ⟨h.count, h.filling, h.inside, h.increasing, h.behind, h.pages, List.forall_mem_cons.2
      ⟨⟨UInt32.le_refl _, (pagesFrom_of_behind h.behind _).trans h.pages⟩, h.boundaries⟩⟩
  refine keeps_of_finalState (fun {m} h => ?_) fun {m} h => .inr ?_
  · rw [readToken_eq]
    split <;> exact h
  · rw [readToken_eq]
    split <;> exact hvisit h

theorem registered_steps : Steps (.invariant (RegisteredOr (σ := σ)) fun _ _ => True) where
  place hst := by rw [hst.1]
  shared hst := by rw [hst.1]
  fault _ := trivial
  limit _ _ := trivial
  advance := registered_advance
  handle := registered_handle
  skipOpaque := registered_skipOpaque
  switchPage := registered_switchPage
  readToken := registered_readToken
  count _ := Keeps.modify fun h =>
    h.elim .inl fun h => .inr (h.moved rfl rfl (Nat.le_refl _) h.inside)

/-! ## The body of a document -/

/-- A parser behind the header of a document, when it first gets there. -/
structure Parser.AtBody (parser : Parser) : Prop where
  pages : parser.pages = (0, 0)
  filling : parser.flags.registryInit = false
  inside : parser.offset.toNat + parser.left.toNat < 2 ^ 31

/-- The parser can be set to the place again, with the pages that were in effect there. -/
def Restores (parser : Parser) (b : Boundary) : Prop :=
  (parser.setOffset b.offset).offset = b.offset ∧
    (parser.setOffset b.offset).pages = (b.tagCodePage, b.attributeCodePage)

/-- With a registry that has been filled the parser can be set back to any place. -/
theorem setOffset_filled {parser : Parser} (hcount : 0 < parser.cpRegistry.count)
    (hfilled : parser.flags.registryInit = true)
    (hinside : parser.offset.toNat + parser.left.toNat < 2 ^ 31) (hle : offset ≤ parser.offset) :
    (parser.setOffset offset).offset = offset ∧
      (parser.setOffset offset).pages = parser.cpRegistry.getCodePages offset := by
  have hle' := UInt32.le_iff_toNat_le.1 hle
  have hmove : toInt32 offset.toNat - toInt32 parser.offset.toNat =
      (offset.toNat : Int) - parser.offset.toNat := by
    rw [toInt32_of_lt (by omega), toInt32_of_lt (by omega)]
  dsimp only [Parser.setOffset]
  rw [if_pos ⟨hcount, hfilled⟩, hmove]
  generalize hpages : parser.cpRegistry.getCodePages offset = pages
  obtain ⟨q, hq, hregistered, hoffset, -⟩ := @advance?_inside { parser with
    tagCodePage := pages.1, attributeCodePage := pages.2 } (offset.toNat - parser.offset.toNat)
    hinside (by dsimp only; omega) (by dsimp only; omega)
  rw [hq, Option.getD_some]
  exact ⟨UInt32.toNat_inj.1 (by dsimp only at hoffset; omega), congrArg (·.2.2) hregistered⟩

theorem Registered.restores (h : Registered m)
    (hfull : m.parser.cpRegistry.current = m.parser.cpRegistry.count) {b : Boundary}
    (hb : b ∈ m.boundaries) : Restores m.parser.initRegistry b := by
  obtain ⟨hbefore, hfound⟩ := h.boundaries b hb
  have hinit : m.parser.initRegistry =
      { m.parser with flags := { m.parser.flags with registryInit := true } } :=
    if_pos ⟨h.count, by rw [h.filling]; rfl⟩
  rw [CpRegistry.entries, hfull] at hfound
  rw [hinit, Restores, ← hfound]
  exact setOffset_filled h.count rfl h.inside hbefore

/-- The body of a document is parsed with a new registry; what the parser has reached. -/
def registeringParse (parser : Parser) (storage : List RegistryEntry) (handler : EventHandler σ)
    (context : σ) (n : Nat) : Machine σ :=
  finalState (bodyLoop n (.start (parser.addCPRegistry storage storage.length) handler context))

/-- Whatever the callbacks do and however the parse ends: the offsets of the entries increase, and
a registry that has just been filled restores the pages of every place at which the parser has
looked for a token. -/
theorem registry_restores {parser : Parser} (hparser : parser.AtBody)
    {storage : List RegistryEntry} (hstorage : storage ≠ []) (handler : EventHandler σ)
    (context : σ) (n : Nat)
    (hlength : ∀ len, .opaqueData len ∈ (registeringParse parser storage handler context n).events →
      len.toNat < 2 ^ 31) :
    let m := registeringParse parser storage handler context n
    (m.parser.cpRegistry.entries.Pairwise fun e e' => e.startOffset < e'.startOffset) ∧
      (m.parser.cpRegistry.current = m.parser.cpRegistry.count →
        ∀ b ∈ m.boundaries, Restores m.parser.initRegistry b) := by
  intro m
  have hstart : Registered
      (.start (parser.addCPRegistry storage storage.length) handler context) :=
    ⟨List.length_pos_iff.2 hstorage, hparser.filling, hparser.inside, .nil,
      fun _ he => absurd he List.not_mem_nil, hparser.pages.symm,
      fun _ hb => absurd hb List.not_mem_nil⟩
  have hkeeps := registered_steps.bodyLoop n (σ := σ)
  have hor : RegisteredOr m := by
    show RegisteredOr (finalState _)
    cases hrun : bodyLoop n (.start (parser.addCPRegistry storage storage.length) handler context)
      with
    | ok status m' => exact Keeps.ok hkeeps (.inr hstart) hrun
    | error stop m' => exact (Keeps.error hkeeps (.inr hstart) hrun).1
  have hm : Registered m := by
    refine hor.resolve_left ?_
    rintro ⟨len, hmem, hlen⟩
    exact absurd (hlength len hmem) (by omega)
  exact ⟨hm.increasing, fun hfull b hb => hm.restores hfull hb⟩

/-- A parser in front of a switch to the page 5 and the end of an element. -/
def switchParser : Parser := { Parser.newInPlace with p := some ⟨[0, 5, 1], 0⟩, left := 3 }

def switchParse : Machine Unit :=
  registeringParse switchParser [⟨0, 0⟩] (fun _ => none) () 2

theorem registry_restores_switch : switchParse.boundaries ≠ [] ∧
    ∀ b ∈ switchParse.boundaries, Restores switchParse.parser.initRegistry b := by
  have hevents : switchParse.events = [.tagEnd, .codePage] := by
    decide +kernel
  refine ⟨by decide +kernel, (@registry_restores Unit switchParser ⟨rfl, rfl, by decide⟩ [⟨0, 0⟩]
    (List.cons_ne_nil _ _) (fun _ => none) () 2 ?_).2 (by decide +kernel)⟩
  rw [← switchParse, hevents]
  simp

end

end SymbianWeb.WbxmlParser
