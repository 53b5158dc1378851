import SymbianWeb.MemoryManager.SlabTree

/-!
# Runs on the trees of slabs

The variables of one heap point to sixteen trees whose slabs carry the links of all of them. A run is
any sequence of the steps the allocator takes on them: a new slab becomes the only one of its size,
slabs come and go, and one slab of a page takes over from another. Whatever the steps, their loops
end, every variable points to a tree in the order of the addresses with the slabs that it should
have, and so to the one with the lowest address (`slabTrees_run`).
-/

set_option autoImplicit false

namespace SymbianWeb.MemoryManager

open HeapTree

/-- `pagesize`. -/
def pagesize : Nat := 4096

/-- The page of a slab, by its number. -/
def pageOf (s : Address) : Nat := s / pagesize

/-- The slabs in the trees of the variables. -/
abbrev Held := SlabRef → Set Address

/-- A step of the allocator on its trees. -/
inductive TreeStep where
  | initslab (ix : Nat) (s : Address)
  | insert (s : Address) (r : SlabRef)
  | remove (s : Address)
  | replace (sl s : Address)

/-- What a step does to the links. -/
def TreeStep.exec (m : SlabLinks) : TreeStep → Option SlabLinks
  | initslab ix s => some (MemoryManager.initslab m ix s)
  | insert s r => treeInsert m s r
  | remove s => treeRemove m s
  | replace sl s => some (replaceLink m sl s)

/-- What a step means for the slabs in the trees. -/
def TreeStep.apply (held : Held) : TreeStep → Held
  | initslab ix s => Function.update held (.partialOf ix) {s}
  | insert s r => Function.update held r (Insert.insert s (held r))
  | remove s => fun r => held r \ {s}
  | replace sl s => fun r => {x | x ∈ held r ∧ x ≠ sl ∨ x = s ∧ sl ∈ held r}

/-- A slab that is in no tree. -/
def Free (held : Held) (s : Address) : Prop := s ≠ 0 ∧ ∀ r, r.owner = none → s ∉ held r

/-- When the allocator takes a step. `initslab` asserts that there is no slab of the size, and only
one slab of each page is in the tree of the pages. -/
def TreeStep.Allowed (held : Held) : TreeStep → Prop
  | initslab ix s => held (.partialOf ix) = ∅ ∧ Free held s
  | insert s r => r.owner = none ∧ Free held s
  | remove s => ∃ r, r.owner = none ∧ s ∈ held r
  | replace sl s => Free held s ∧ pageOf s = pageOf sl ∧ ∃ r, r.owner = none ∧ sl ∈ held r ∧
      ∀ x ∈ held r, x ≠ sl → pageOf x ≠ pageOf sl

/-- A variable points to a tree of its slabs in the order of the addresses. -/
structure TreeOf (m : SlabLinks) (r : SlabRef) (slabs : Set Address) (t : SlabTree) : Prop where
  linked : Linked m r t
  ordered : t.Ordered
  nodup : t.elements.Nodup
  elements : ∀ s, s ∈ t.elements ↔ s ∈ slabs

/-- So do all variables, and no slab is in two trees. -/
structure Planted (m : SlabLinks) (held : Held) (forest : SlabRef → SlabTree) : Prop where
  tree : ∀ r, r.owner = none → TreeOf m r (held r) (forest r)
  disjoint : ∀ r r', r.owner = none → r'.owner = none → r ≠ r' → ∀ s ∈ held r, s ∉ held r'

variable {m m' : SlabLinks} {held held' : Held} {forest : SlabRef → SlabTree} {r : SlabRef}
  {t : SlabTree} {s : Address}

theorem outside_of_owner (hr : r.owner = none) (slabs : List Address) : Outside r slabs := by
  intro x _ heq
  rw [hr] at heq
  cases heq

/-- Slabs of one page compare in the same way with a slab of another page. -/
theorem lt_iff_of_pageOf {s sl x : Nat} (hpage : pageOf s = pageOf sl)
    (hx : pageOf x ≠ pageOf sl) : (x < sl ↔ x < s) ∧ (sl < x ↔ s < x) := by
  unfold pageOf pagesize at hpage hx
  omega

/-- A step on one tree, in which a slab may come that was in none, leaves the others alone. -/
theorem Planted.update (h : Planted m held forest) (hr : r.owner = none)
    (ht : TreeOf m' r (held' r) t) (hrel : Relinks m m' r (s :: (forest r).elements))
    (hs : s ∈ held r ∨ Free held s) (hin : ∀ x ∈ held' r, x = s ∨ x ∈ held r)
    (hothers : ∀ r', r'.owner = none → r' ≠ r → held' r' = held r') :
    Planted m' held' (Function.update forest r t) := by
  have hapart : ∀ r', r'.owner = none → r' ≠ r → ∀ x ∈ held r', ¬ (x = s ∨ x ∈ held r) := by
    rintro r' hr' hne x hx (rfl | hmem)
    · exact hs.elim (h.disjoint r' r hr' hr hne x hx) fun hfree => hfree.2 r' hr' hx
    · exact h.disjoint r' r hr' hr hne x hx hmem
  refine ⟨fun r' hr' => ?_, fun r₁ r₂ hr₁ hr₂ hne x hx => ?_⟩
  · by_cases hne : r' = r
    · subst hne
      rwa [Function.update_self]
    · obtain ⟨hlinked, hordered, hnodup, helements⟩ := h.tree r' hr'
      rw [Function.update_of_ne hne, hothers r' hr' hne]
      exact ⟨hrel.linked hlinked hne (outside_of_owner hr' _) hnodup (outside_of_owner hr _)
        fun x hx hmem => hapart r' hr' hne x ((helements x).mp hx)
          ((List.mem_cons.mp hmem).imp_right ((h.tree r hr).elements x).mp),
        hordered, hnodup, helements⟩
  · by_cases h₁ : r₁ = r
    · subst h₁
      rw [hothers r₂ hr₂ hne.symm]
      exact fun hx' => hapart r₂ hr₂ hne.symm x hx' (hin x hx)
    · rw [hothers r₁ hr₁ h₁] at hx
      by_cases h₂ : r₂ = r
      · subst h₂
        exact fun hx' => hapart r₁ hr₁ h₁ x hx (hin x hx')
      · rw [hothers r₂ hr₂ h₂]
        exact h.disjoint r₁ r₂ hr₁ hr₂ hne x hx

/-- A step that is allowed ends, and the variables point to the trees of what they then have. -/
theorem Planted.step (h : Planted m held forest) (call : TreeStep) (hallowed : call.Allowed held) :
    ∃ m' forest', call.exec m = some m' ∧ Planted m' (call.apply held) forest' := by
  cases call with
  | initslab ix s =>
    obtain ⟨hempty, hfree⟩ := hallowed
    obtain ⟨hlinked, hrel⟩ := @hangNode_eq m (.partialOf ix) nil nil s hfree.1 trivial trivial
      (List.pairwise_singleton _ s) (outside_of_owner rfl _)
    have heq : hangNode m (.partialOf ix) s 0 0 = initslab m ix s := by
      rw [hangNode, hang_of_ne hfree.1]
      rfl
    have hself : (TreeStep.initslab ix s).apply held (.partialOf ix) = {s} :=
      Function.update_self ..
    rw [top_nil, heq] at hlinked hrel
    refine ⟨_, _, rfl, h.update rfl ⟨hlinked, ⟨fun x hx => absurd hx List.not_mem_nil, trivial,
      trivial⟩, List.pairwise_singleton _ s, fun x => ?_⟩
      (hrel.mono fun x hx => List.mem_singleton.mp hx ▸ List.mem_cons_self) (.inr hfree)
      (fun x hx => .inl ?_) fun r' _ hne => Function.update_of_ne hne ..⟩
    · rw [hself]
      exact List.mem_singleton
    · rwa [hself] at hx
  | insert s r =>
    obtain ⟨hr, hfree⟩ := hallowed
    obtain ⟨hlinked, hordered, hnodup, helements⟩ := h.tree r hr
    have hs : s ∉ (forest r).elements := fun hmem => hfree.2 r hr ((helements s).mp hmem)
    have hnodup' := List.nodup_cons.mpr ⟨hs, hnodup⟩
    obtain ⟨m', hrun, hlinked', hrel⟩ := treeInsert_eq hfree.1 hlinked hnodup'
      (outside_of_owner hr _)
    have hperm := elements_insert goLeft s (forest r)
    have hself : (TreeStep.insert s r).apply held r = Insert.insert s (held r) :=
      Function.update_self ..
    refine ⟨m', _, hrun, h.update hr ⟨hlinked', ordered_insert _ hordered hs,
      hperm.nodup_iff.mpr hnodup', fun x => ?_⟩ hrel (.inr hfree) (fun x hx => ?_)
      fun r' _ hne => Function.update_of_ne hne ..⟩
    · rw [hself, hperm.mem_iff, List.mem_cons, helements, Set.mem_insert_iff]
    · rwa [hself, Set.mem_insert_iff] at hx
  | remove s =>
    obtain ⟨r, hr, hs⟩ := hallowed
    obtain ⟨hlinked, hordered, hnodup, helements⟩ := h.tree r hr
    have hmem := (helements s).mpr hs
    obtain ⟨m', hrun, hlinked', hrel⟩ := treeRemove_eq hlinked hnodup (outside_of_owner hr _) hmem
    have hnodup' := (List.nodup_cons.mp ((elements_erase hnodup hmem).nodup_iff.mpr hnodup)).2
    refine ⟨m', _, hrun, h.update hr ⟨hlinked', ordered_erase hordered hnodup, hnodup',
      fun x => ?_⟩ (hrel.mono fun x hx => List.mem_cons_of_mem s hx) (.inl hs)
      (fun x hx => .inr hx.1) fun r' hr' hne => ?_⟩
    · rw [TreeStep.apply, Set.mem_sdiff, Set.mem_singleton_iff, mem_elements_erase hnodup hmem,
        helements, and_comm]
    · have hnot : s ∉ held r' := h.disjoint r r' hr hr' hne.symm s hs
      ext x
      exact ⟨fun hx => hx.1, fun hx => ⟨hx, fun heq => hnot (heq ▸ hx)⟩⟩
  | replace sl s =>
    obtain ⟨hfree, hpage, r, hr, hsl, hone⟩ := hallowed
    obtain ⟨hlinked, hordered, hnodup, helements⟩ := h.tree r hr
    have hs : s ∉ (forest r).elements := fun hmem => hfree.2 r hr ((helements s).mp hmem)
    have hmem := (helements sl).mpr hsl
    have hnodups := List.nodup_cons.mpr ⟨hs, hnodup⟩
    obtain ⟨hlinked', hrel⟩ := replaceLink_eq hfree.1 hlinked hnodups (outside_of_owner hr _) hmem
    have hnodup' := (List.nodup_cons.mp ((elements_replace hnodup hmem).nodup_iff.mpr hnodups)).2
    have hne : s ≠ sl := fun heq => hs (heq ▸ hmem)
    -- The other slabs are in other pages, so that they compare with `s` as with `sl`.
    have hpages : ∀ x ∈ (forest r).elements, x ≠ sl → pageOf x ≠ pageOf sl := fun x hx =>
      hone x ((helements x).mp hx)
    have hordered' : (HeapTree.replace sl s (forest r)).Ordered := ordered_replace hordered hnodup
      (fun x hx hlt => (lt_iff_of_pageOf hpage (hpages x hx (Nat.ne_of_lt hlt))).1.mp hlt)
      fun x hx hlt => (lt_iff_of_pageOf hpage (hpages x hx (Nat.ne_of_gt hlt))).2.mp hlt
    refine ⟨_, _, rfl, h.update hr ⟨hlinked', hordered', hnodup', fun x => ?_⟩ hrel (.inr hfree)
      (fun x hx => hx.elim (fun hx => .inr hx.1) fun hx => .inl hx.1) fun r' hr' hne => ?_⟩
    · rw [TreeStep.apply, Set.mem_ofPred_eq, mem_elements_replace hnodups hmem, helements,
        and_or_left, or_comm]
      exact or_congr and_comm ⟨fun hx => ⟨hx.2, hsl⟩, fun hx => ⟨hx.1 ▸ hne, hx.1⟩⟩
    · have hnotin := h.disjoint r r' hr hr' hne.symm sl hsl
      ext x
      exact ⟨fun hx => hx.elim (·.1) fun hx => absurd hx.2 hnotin,
        fun hx => .inl ⟨hx, fun heq => hnotin (heq ▸ hx)⟩⟩

/-- The links after some steps. -/
def runSteps (m : SlabLinks) (calls : List TreeStep) : Option SlabLinks :=
  calls.foldlM TreeStep.exec m

/-- The slabs in the trees after some steps. -/
def heldAfter (held : Held) (calls : List TreeStep) : Held := calls.foldl TreeStep.apply held

/-- Each step is allowed when it is taken. -/
def AllAllowed : Held → List TreeStep → Prop
  | _, [] => True
  | held, call :: calls => call.Allowed held ∧ AllAllowed (call.apply held) calls

theorem Planted.run {calls : List TreeStep} (h : Planted m held forest)
    (hallowed : AllAllowed held calls) :
    ∃ m' forest', runSteps m calls = some m' ∧ Planted m' (heldAfter held calls) forest' := by
  induction calls generalizing m held forest with
  | nil => exact ⟨m, forest, rfl, h⟩
  | cons call calls ih =>
    obtain ⟨m₁, forest₁, hexec, h₁⟩ := h.step call hallowed.1
    obtain ⟨m', forest', hrun, h'⟩ := ih h₁ hallowed.2
    refine ⟨m', forest', ?_, h'⟩
    rw [runSteps, List.foldlM_cons, hexec]
    exact hrun

theorem planted_null (hnull : ∀ r, r.owner = none → m.slabAt r = 0) :
    Planted m (fun _ => ∅) (fun _ => nil) :=
  ⟨fun r hr => ⟨⟨⟨hnull r hr, fun htop => absurd rfl htop⟩, trivial⟩, trivial, List.nodup_nil,
    fun _ => iff_of_false List.not_mem_nil (Set.notMem_empty _)⟩,
    fun _ _ _ _ _ _ hs => absurd hs (Set.notMem_empty _)⟩

/-- The variable points to the lowest slab of its tree, or is `NULL` when there is none. -/
theorem TreeOf.lowest {slabs : Set Address} (h : TreeOf m r slabs t) :
    m.slabAt r = 0 ∧ slabs = ∅ ∨ m.slabAt r ∈ slabs ∧ ∀ s ∈ slabs, m.slabAt r ≤ s := by
  obtain ⟨⟨⟨hpoints, -⟩, -⟩, hordered, -, helements⟩ := h
  cases t with
  | nil =>
    exact .inl ⟨hpoints, Set.eq_empty_of_forall_notMem fun s hs =>
      absurd ((helements s).mpr hs) List.not_mem_nil⟩
  | node n l t =>
    rw [hpoints, top_node]
    exact .inr ⟨(helements n).mp List.mem_cons_self, fun s hs =>
      hordered.root_le ((helements s).mpr hs)⟩

/-- Whatever steps are taken, the loops end, and each variable points to a tree in the order of the
addresses with the slabs it should have, and so to the lowest of them. -/
theorem slabTrees_run (m : SlabLinks) (hnull : ∀ r, r.owner = none → m.slabAt r = 0)
    (calls : List TreeStep) (hallowed : AllAllowed (fun _ => ∅) calls) :
    ∃ m', runSteps m calls = some m' ∧ ∀ r, r.owner = none →
      (∃ t, TreeOf m' r (heldAfter (fun _ => ∅) calls r) t) ∧
      (m'.slabAt r = 0 ∧ heldAfter (fun _ => ∅) calls r = ∅ ∨
        m'.slabAt r ∈ heldAfter (fun _ => ∅) calls r ∧
          ∀ s ∈ heldAfter (fun _ => ∅) calls r, m'.slabAt r ≤ s) := by
  obtain ⟨m', forest', hrun, h⟩ := (planted_null hnull).run hallowed
  exact ⟨m', hrun, fun r hr => ⟨⟨forest' r, h.tree r hr⟩, (h.tree r hr).lowest⟩⟩

/-- A page comes to the tree of the pages, and another of its slabs takes over. -/
theorem slabTrees_run_pages :
    ∃ m', runSteps ⟨fun _ => .partialPage, fun _ => 0⟩
        [.insert 12288 .partialPage, .replace 12288 13312] = some m' ∧
      m'.slabAt .partialPage = 13312 := by
  obtain ⟨m', hrun, hright⟩ := slabTrees_run ⟨fun _ => .partialPage, fun _ => 0⟩ (fun _ _ => rfl)
    [.insert 12288 .partialPage, .replace 12288 13312] (by
      refine ⟨⟨rfl, by decide, fun r _ hr => hr⟩, ⟨⟨by decide, fun r hr => ?_⟩, rfl, .partialPage,
        rfl, ?_, ?_⟩, trivial⟩
      all_goals simp [TreeStep.apply, Function.update])
  have hlowest := (hright .partialPage rfl).2
  simp [heldAfter, TreeStep.apply, Function.update] at hlowest
  exact ⟨m', hrun, hlowest.1⟩

end SymbianWeb.MemoryManager
