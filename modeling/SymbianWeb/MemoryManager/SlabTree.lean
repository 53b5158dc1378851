import SymbianWeb.Library.HeapTree

/-!
# The trees of slabs (`MemoryManager/Src/heap.cpp`)

Small cells come from slabs of 1 KB. The slabs of one cell size that have room are in a binary tree
in the order of their addresses, and so are the slabs that stand for a page with unused slabs. The
links are in the headers of the slabs, and each slab knows the variable that points to it.

`Linked m r t` says that the variable `r` points to the tree `t`. `tree_insert` and `tree_remove` end
and do what `insert` and `erase` do (`treeInsert_eq`, `treeRemove_eq`), and the slab that stands for
a page can be exchanged (`replaceLink_eq`); `Relinks` says that nothing else is written.
-/

set_option autoImplicit false

namespace SymbianWeb.MemoryManager

open HeapTree

/-- The address of a slab; 0 is `NULL`. -/
abbrev Address := Nat

/-- `sizeof(slab)`. -/
def slabsize : Nat := 1024

/-- A variable that points to a slab: `slaballoc[ix].partial`, `partial_page`, or a child field. -/
inductive SlabRef where
  | partialOf (ix : Nat)
  | partialPage
  | child1 (s : Address)
  | child2 (s : Address)
  deriving DecidableEq

/-- The slab a variable is a field of. -/
def SlabRef.owner : SlabRef → Option Address
  | partialOf _ => none
  | partialPage => none
  | child1 s => some s
  | child2 s => some s

/-- What the variables and the parent fields of the slabs hold. -/
structure SlabLinks where
  parent : Address → SlabRef
  slabAt : SlabRef → Address

/-- The assignment `*r = s`. -/
def SlabLinks.setSlabAt (m : SlabLinks) (r : SlabRef) (s : Address) : SlabLinks :=
  { m with slabAt := Function.update m.slabAt r s }

/-- The assignment `s->parent = r`. -/
def SlabLinks.setParent (m : SlabLinks) (s : Address) (r : SlabRef) : SlabLinks :=
  { m with parent := Function.update m.parent s r }

/-- The loop of `tree_remove`; `none` is a loop that does not end. -/
def SlabLinks.treeRemoveLoop (m : SlabLinks) (r : SlabRef) (c1 c2 : Address) :
    Option SlabLinks :=
  if c2 = 0 then
    let m := m.setSlabAt r c1
    some (if c1 ≠ 0 then m.setParent c1 r else m)
  else if c1 = 0 then
    some ((m.setSlabAt r c2).setParent c2 r)
  else
    -- The lesser child comes up, with the other one as its second child.
    let low := if c1 > c2 then c2 else c1
    let high := if c1 > c2 then c1 else c2
    let newc2 := m.slabAt (.child2 low)
    let m := (m.setSlabAt r low).setParent low r
    let m := (m.setSlabAt (.child2 low) high).setParent high (.child2 low)
    m |>.treeRemoveLoop (.child1 low) (m.slabAt (.child1 low)) newc2
partial_fixpoint

def treeRemove (m : SlabLinks) (s : Address) : Option SlabLinks :=
  m.treeRemoveLoop (m.parent s) (m.slabAt (.child1 s)) (m.slabAt (.child2 s))

/-- The address `c - 1` for a pointer to slabs; it is the highest one for `NULL`. -/
def before (c : Address) : Nat := (c + (2 ^ 32 - slabsize)) % 2 ^ 32

/-- The loop of `tree_insert`. -/
def SlabLinks.treeInsertLoop (m : SlabLinks) (s : Address) (r : SlabRef) (n : Address) :
    Option SlabLinks :=
  if n = 0 then
    some ((((m.setSlabAt r s).setParent s r).setSlabAt (.child1 s) 0).setSlabAt (.child2 s) 0)
  else if s < n then
    some (((((m.setSlabAt r s).setParent s r).setSlabAt (.child1 s) n).setSlabAt
      (.child2 s) 0).setParent n (.child1 s))
  else
    let c1 := m.slabAt (.child1 n)
    let c2 := m.slabAt (.child2 n)
    if before c1 > before c2 then m |>.treeInsertLoop s (.child1 n) c1
    else m |>.treeInsertLoop s (.child2 n) c2
partial_fixpoint

def treeInsert (m : SlabLinks) (s : Address) (r : SlabRef) : Option SlabLinks :=
  m.treeInsertLoop s r (m.slabAt r)

/-- The part of `slabset::initslab` that makes a slab the only one of its size. -/
def initslab (m : SlabLinks) (ix : Nat) (s : Address) : SlabLinks :=
  (((m.setSlabAt (.partialOf ix) s).setParent s (.partialOf ix)).setSlabAt (.child1 s) 0).setSlabAt
    (.child2 s) 0

/-- The part of `freeslab` that links `s` in the place of the slab `sl` of its page. -/
def replaceLink (m : SlabLinks) (sl s : Address) : SlabLinks :=
  let r := m.parent sl
  let c1 := m.slabAt (.child1 sl)
  let c2 := m.slabAt (.child2 sl)
  let m := ((m.setParent s r).setSlabAt (.child1 s) c1).setSlabAt (.child2 s) c2
  let m := m.setSlabAt r s
  let m := if c1 ≠ 0 then m.setParent c1 (.child1 s) else m
  if c2 ≠ 0 then m.setParent c2 (.child2 s) else m

/-! ## Trees in memory -/

/-- A tree of slabs. -/
abbrev SlabTree := HeapTree Address

/-- The slab at the top, or `NULL`. -/
def top (t : SlabTree) : Address := t.root?.getD 0

@[simp] theorem top_nil : top nil = 0 := rfl

@[simp] theorem top_node (s : Address) (l r : SlabTree) : top (node s l r) = s := rfl

/-- The variable points to the top of the tree, and the top back to the variable. -/
def Points (m : SlabLinks) (r : SlabRef) (t : SlabTree) : Prop :=
  m.slabAt r = top t ∧ (top t ≠ 0 → m.parent (top t) = r)

/-- The links below the top of the tree. -/
def Hangs (m : SlabLinks) : SlabTree → Prop
  | nil => True
  | node s l r =>
    s ≠ 0 ∧ (Points m (.child1 s) l ∧ Hangs m l) ∧ Points m (.child2 s) r ∧ Hangs m r

/-- The tree that a variable points to. -/
def Linked (m : SlabLinks) (r : SlabRef) (t : SlabTree) : Prop := Points m r t ∧ Hangs m t

/-- The variable is no field of one of the slabs. -/
def Outside (r : SlabRef) (slabs : List Address) : Prop := ∀ s ∈ slabs, r.owner ≠ some s

/-- Nothing changes but a variable and the links of some slabs. -/
structure Relinks (m m' : SlabLinks) (r : SlabRef) (slabs : List Address) : Prop where
  slabAt : ∀ r', r' ≠ r → Outside r' slabs → m'.slabAt r' = m.slabAt r'
  parent : ∀ s ∉ slabs, m'.parent s = m.parent s

variable {m m' m'' : SlabLinks} {r r' : SlabRef} {l t : SlabTree} {slabs slabs' : List Address}
  {s n c : Address}

theorem top_ne_zero (hangs : Hangs m t) (hne : t ≠ nil) : top t ≠ 0 := by
  cases t with
  | nil => exact absurd rfl hne
  | node s l r => exact hangs.1

theorem top_mem (hne : top t ≠ 0) : top t ∈ t.elements := by
  cases t with
  | nil => exact absurd rfl hne
  | node s l r => exact List.mem_cons_self

theorem Outside.field (hr : r.owner = some n) (hn : n ∉ slabs) : Outside r slabs := by
  intro x hx heq
  rw [hr] at heq
  exact hn (Option.some.inj heq ▸ hx)

/-! ## Frames -/

theorem Relinks.mono (hrel : Relinks m m' r slabs) (hsub : ∀ s ∈ slabs, s ∈ slabs') :
    Relinks m m' r slabs' :=
  ⟨fun r' hr hs => hrel.slabAt r' hr fun s hmem => hs s (hsub s hmem),
    fun s hs => hrel.parent s fun hmem => hs (hsub s hmem)⟩

/-- What follows may also write a field of one of the slabs. -/
theorem Relinks.trans (h₁ : Relinks m m' r slabs) (h₂ : Relinks m' m'' r' slabs')
    (hsub : ∀ s ∈ slabs', s ∈ slabs) (hr' : r' = r ∨ ∃ s ∈ slabs, r'.owner = some s) :
    Relinks m m'' r slabs := by
  refine ⟨fun ref hne hout => ?_, fun s hs => ?_⟩
  · have hne' : ref ≠ r' := by
      rintro rfl
      exact hr'.elim hne fun ⟨s, hs, hown⟩ => hout s hs hown
    rw [h₂.slabAt ref hne' fun s hs => hout s (hsub s hs), h₁.slabAt ref hne hout]
  · rw [h₂.parent s fun hmem => hs (hsub s hmem), h₁.parent s hs]

/-- The links of a tree stay when its slabs keep their children, and all but the top their
parents. -/
theorem Hangs.frame (hangs : Hangs m t) (hnodup : t.elements.Nodup)
    (hslabAt : ∀ s ∈ t.elements, m'.slabAt (.child1 s) = m.slabAt (.child1 s) ∧
      m'.slabAt (.child2 s) = m.slabAt (.child2 s))
    (hparent : ∀ s ∈ t.elements, s ≠ top t → m'.parent s = m.parent s) : Hangs m' t := by
  induction t with
  | nil => trivial
  | node n l r ihl ihr =>
    rw [elements_node, List.nodup_cons, List.nodup_append] at hnodup
    obtain ⟨hn, hl, hr, -⟩ := hnodup
    obtain ⟨hn0, ⟨hpl, hal⟩, hpr, har⟩ := hangs
    have hne : ∀ s ∈ l.elements ++ r.elements, s ≠ n := fun s hs hsn => hn (hsn ▸ hs)
    have hself := hslabAt n List.mem_cons_self
    have hpoints : ∀ {c : SlabRef} {t' : SlabTree}, Points m c t' → m'.slabAt c = m.slabAt c →
        (∀ s ∈ t'.elements, s ∈ l.elements ++ r.elements) → Points m' c t' := by
      intro c t' hp hc hsub
      refine ⟨hc.trans hp.1, fun htop => ?_⟩
      have hmem := hsub _ (top_mem htop)
      rw [hparent _ (List.mem_cons_of_mem _ hmem) (hne _ hmem), hp.2 htop]
    have hsubl : ∀ s ∈ l.elements, s ∈ l.elements ++ r.elements := fun s hs =>
      List.mem_append_left _ hs
    have hsubr : ∀ s ∈ r.elements, s ∈ l.elements ++ r.elements := fun s hs =>
      List.mem_append_right _ hs
    refine ⟨hn0, ⟨hpoints hpl hself.1 hsubl, ihl hal hl ?_ ?_⟩,
      hpoints hpr hself.2 hsubr, ihr har hr ?_ ?_⟩
    · exact fun s hs => hslabAt s (List.mem_cons_of_mem _ (hsubl s hs))
    · exact fun s hs _ => hparent s (List.mem_cons_of_mem _ (hsubl s hs)) (hne s (hsubl s hs))
    · exact fun s hs => hslabAt s (List.mem_cons_of_mem _ (hsubr s hs))
    · exact fun s hs _ => hparent s (List.mem_cons_of_mem _ (hsubr s hs)) (hne s (hsubr s hs))

/-- The links of a tree apart from what is written. -/
theorem Relinks.hangs (hrel : Relinks m m' r slabs) (hangs : Hangs m t)
    (hnodup : t.elements.Nodup) (hout : Outside r t.elements)
    (hdisjoint : ∀ s ∈ t.elements, s ∉ slabs) : Hangs m' t := by
  have hchildren : ∀ s ∈ t.elements, ∀ r' : SlabRef, r'.owner = some s →
      m'.slabAt r' = m.slabAt r' := fun s hs r' hr' =>
    hrel.slabAt r' (fun heq => hout s hs (heq ▸ hr')) (Outside.field hr' (hdisjoint s hs))
  exact hangs.frame hnodup (fun s hs => ⟨hchildren s hs _ rfl, hchildren s hs _ rfl⟩)
    fun s hs _ => hrel.parent s (hdisjoint s hs)

/-- A tree apart from what is written, with the variable that points to it. -/
theorem Relinks.linked (hrel : Relinks m m' r' slabs) (hlinked : Linked m r t) (hne : r ≠ r')
    (hout : Outside r slabs) (hnodup : t.elements.Nodup) (hout' : Outside r' t.elements)
    (hdisjoint : ∀ s ∈ t.elements, s ∉ slabs) : Linked m' r t := by
  refine ⟨⟨(hrel.slabAt r hne hout).trans hlinked.1.1, fun htop => ?_⟩,
    hrel.hangs hlinked.2 hnodup hout' hdisjoint⟩
  rw [hrel.parent _ (hdisjoint _ (top_mem htop)), hlinked.1.2 htop]

/-- A slab above a part of its tree that is changed. -/
theorem Relinks.above {new : List Address} {cl cr : SlabRef} {t' : SlabTree}
    (hrel : Relinks m m' cl (new ++ l.elements)) (hcl : cl.owner = some n) (hcr : cr.owner = some n)
    (hne : cr ≠ cl) (hpoints : m.slabAt r = n ∧ m.parent n = r) (ht : Linked m cr t)
    (hnodup : (new ++ (n :: (l.elements ++ t.elements))).Nodup)
    (hout : Outside r (new ++ (n :: (l.elements ++ t.elements))))
    (hsub : ∀ s, s ∈ t'.elements ↔ s ∈ n :: (l.elements ++ t.elements)) :
    (m'.slabAt r = n ∧ m'.parent n = r) ∧ Linked m' cr t ∧
      Relinks m m' r (new ++ t'.elements) := by
  have hperm : (new ++ (n :: (l.elements ++ t.elements))).Perm
      (n :: ((new ++ l.elements) ++ t.elements)) := by
    rw [List.append_assoc]
    exact List.perm_middle
  obtain ⟨hn, hnodup'⟩ := List.nodup_cons.mp (hperm.nodup_iff.mp hnodup)
  obtain ⟨-, hnodupt, hdisjoint⟩ := List.nodup_append.mp hnodup'
  have hnl : n ∉ new ++ l.elements := fun hmem => hn (List.mem_append_left _ hmem)
  have hnt : n ∉ t.elements := fun hmem => hn (List.mem_append_right _ hmem)
  have hin : ∀ s ∈ new ++ l.elements, s ∈ new ++ (n :: (l.elements ++ t.elements)) := fun s hs =>
    hperm.mem_iff.mpr (List.mem_cons_of_mem _ (List.mem_append_left _ hs))
  have hnin : n ∈ new ++ (n :: (l.elements ++ t.elements)) :=
    hperm.mem_iff.mpr List.mem_cons_self
  have hr : r ≠ cl := fun heq => hout n hnin (heq ▸ hcl)
  have hsame : ∀ s ∈ new ++ (n :: (l.elements ++ t.elements)), s ∈ new ++ t'.elements :=
    fun s hs => List.mem_append.mpr ((List.mem_append.mp hs).imp_right (hsub s).mpr)
  refine ⟨⟨?_, ?_⟩, ?_, ?_⟩
  · exact (hrel.slabAt r hr fun s hs => hout s (hin s hs)).trans hpoints.1
  · exact (hrel.parent n hnl).trans hpoints.2
  · exact hrel.linked ht hne (Outside.field hcr hnl) hnodupt (Outside.field hcl hnt)
      fun s hs hmem => hdisjoint s hmem s hs rfl
  · exact Relinks.trans ⟨fun _ _ _ => rfl, fun _ _ => rfl⟩ hrel (fun s hs => hsame s (hin s hs))
      (.inr ⟨n, hsame n hnin, hcl⟩)

theorem Linked.left {new : List Address} {l' : SlabTree} (hlinked : Linked m r (node n l t))
    (hnodup : (new ++ (node n l t).elements).Nodup)
    (hout : Outside r (new ++ (node n l t).elements))
    (hl : Linked m' (.child1 n) l') (hrel : Relinks m m' (.child1 n) (new ++ l.elements)) :
    Linked m' r (node n l' t) ∧ Relinks m m' r (new ++ (node n l t).elements) := by
  obtain ⟨⟨hr, hparent⟩, hn0, -, ht⟩ := hlinked
  obtain ⟨⟨hr', hparent'⟩, ht', hrel'⟩ := @Relinks.above m m' r l t n new (.child1 n) (.child2 n)
    (node n l t) hrel rfl rfl (by simp) ⟨hr, hparent hn0⟩ ht hnodup hout fun s => Iff.rfl
  exact ⟨⟨⟨hr', fun _ => hparent'⟩, hn0, hl, ht'⟩, hrel'⟩

theorem Linked.right {new : List Address} {t' : SlabTree} (hlinked : Linked m r (node n l t))
    (hnodup : (new ++ (node n l t).elements).Nodup)
    (hout : Outside r (new ++ (node n l t).elements))
    (ht : Linked m' (.child2 n) t') (hrel : Relinks m m' (.child2 n) (new ++ t.elements)) :
    Linked m' r (node n l t') ∧ Relinks m m' r (new ++ (node n l t).elements) := by
  obtain ⟨⟨hr, hparent⟩, hn0, hl, -⟩ := hlinked
  have hperm : (new ++ (n :: (t.elements ++ l.elements))).Perm (new ++ (node n l t).elements) :=
    (List.perm_append_comm.cons n).append_left new
  obtain ⟨⟨hr', hparent'⟩, hl', hrel'⟩ := @Relinks.above m m' r t l n new (.child2 n) (.child1 n)
    (node n l t) hrel rfl rfl (by simp) ⟨hr, hparent hn0⟩ hl (hperm.nodup_iff.mpr hnodup)
    (fun s hs => hout s (hperm.mem_iff.mp hs)) fun s => (List.perm_append_comm.cons n).mem_iff
  exact ⟨⟨⟨hr', fun _ => hparent'⟩, hn0, hl', ht⟩, hrel'⟩

/-! ## Links that are set -/

/-- The assignments `*r = c; if (c) c->parent = r`. -/
def hang (m : SlabLinks) (r : SlabRef) (c : Address) : SlabLinks :=
  if c ≠ 0 then (m.setSlabAt r c).setParent c r else m.setSlabAt r c

theorem slabAt_hang : (hang m r c).slabAt = Function.update m.slabAt r c := by
  unfold hang
  split <;> rfl

theorem parent_hang (hc : c ≠ 0) : (hang m r c).parent = Function.update m.parent c r := by
  rw [hang, if_pos hc]
  rfl

theorem hang_of_ne (hc : c ≠ 0) : hang m r c = (m.setSlabAt r c).setParent c r := if_pos hc

theorem relinks_hang : Relinks m (hang m r c) r [c] := by
  refine ⟨fun r' hr' _ => ?_, fun s hs => ?_⟩
  · rw [slabAt_hang, Function.update_of_ne hr']
  · by_cases hc : c = 0
    · rw [hang, if_neg (not_not.mpr hc)]
      rfl
    · rw [parent_hang hc, Function.update_of_ne fun h => hs (List.mem_singleton.mpr h)]

theorem relinks_hang_top : Relinks m (hang m r (top t)) r t.elements := by
  cases t with
  | nil => exact ⟨fun r' hr' _ => Function.update_of_ne hr' .., fun _ _ => rfl⟩
  | node s l t =>
    exact relinks_hang.mono fun x hx => List.mem_singleton.mp hx ▸ List.mem_cons_self

/-- A variable is made to point to a tree. -/
theorem linked_hang (hangs : Hangs m t) (hnodup : t.elements.Nodup) (hout : Outside r t.elements) :
    Linked (hang m r (top t)) r t := by
  have hfield : ∀ s ∈ t.elements, ∀ r' : SlabRef, r'.owner = some s →
      (hang m r (top t)).slabAt r' = m.slabAt r' := by
    intro s hs r' hr'
    have hne : r' ≠ r := fun heq => hout s hs (heq ▸ hr')
    rw [slabAt_hang, Function.update_of_ne hne]
  refine ⟨⟨?_, fun htop => ?_⟩, hangs.frame hnodup
    (fun s hs => ⟨hfield s hs _ rfl, hfield s hs _ rfl⟩) fun s _ hs => ?_⟩
  · rw [slabAt_hang, Function.update_self]
  · rw [parent_hang htop, Function.update_self]
  · exact relinks_hang.parent s fun hmem => hs (List.mem_singleton.mp hmem)

/-- A slab is linked with two trees below it. -/
def hangNode (m : SlabLinks) (r : SlabRef) (s c1 c2 : Address) : SlabLinks :=
  hang (hang (hang m r s) (.child1 s) c1) (.child2 s) c2

theorem hangNode_eq (hs : s ≠ 0) (hl : Hangs m l) (ht : Hangs m t)
    (hnodup : (node s l t).elements.Nodup) (hout : Outside r (node s l t).elements) :
    Linked (hangNode m r s (top l) (top t)) r (node s l t) ∧
      Relinks m (hangNode m r s (top l) (top t)) r (node s l t).elements := by
  obtain ⟨hsmem, hnodup'⟩ := List.nodup_cons.mp hnodup
  obtain ⟨hnodupl, hnodupt, hdisjoint⟩ := List.nodup_append.mp hnodup'
  have hsl : s ∉ l.elements := fun hmem => hsmem (List.mem_append_left _ hmem)
  have hst : s ∉ t.elements := fun hmem => hsmem (List.mem_append_right _ hmem)
  have houtl : Outside r l.elements := fun x hx =>
    hout x (List.mem_cons_of_mem _ (List.mem_append_left _ hx))
  have houtt : Outside r t.elements := fun x hx =>
    hout x (List.mem_cons_of_mem _ (List.mem_append_right _ hx))
  have houts : r.owner ≠ some s := hout s List.mem_cons_self
  have hrel₀ : Relinks m (hang m r s) r [s] := relinks_hang
  have hrel₁ :
      Relinks (hang m r s) (hang (hang m r s) (.child1 s) (top l)) (.child1 s) l.elements :=
    relinks_hang_top
  have hrel₂ : Relinks _ (hangNode m r s (top l) (top t)) (.child2 s) t.elements := relinks_hang_top
  have hlinked₁ : Linked (hang (hang m r s) (.child1 s) (top l)) (.child1 s) l :=
    linked_hang (hrel₀.hangs hl hnodupl houtl fun x hx hmem =>
      hsl (List.mem_singleton.mp hmem ▸ hx)) hnodupl (Outside.field rfl hsl)
  have hangs₂ : Hangs (hang (hang m r s) (.child1 s) (top l)) t :=
    hrel₁.hangs (hrel₀.hangs ht hnodupt houtt fun x hx hmem =>
      hst (List.mem_singleton.mp hmem ▸ hx)) hnodupt (Outside.field rfl hst) fun x hx hmem =>
        hdisjoint x hmem x hx rfl
  have hlinked₂ : Linked (hangNode m r s (top l) (top t)) (.child2 s) t :=
    linked_hang hangs₂ hnodupt (Outside.field rfl hst)
  refine ⟨⟨⟨?_, fun _ => ?_⟩, hs, ?_, hlinked₂⟩, ?_⟩
  · rw [hrel₂.slabAt r (fun heq => houts (heq ▸ rfl)) houtt,
      hrel₁.slabAt r (fun heq => houts (heq ▸ rfl)) houtl, slabAt_hang, Function.update_self,
      top_node]
  · rw [top_node, hrel₂.parent s hst, hrel₁.parent s hsl, parent_hang hs, Function.update_self]
  · exact hrel₂.linked hlinked₁ (by simp) (Outside.field rfl hst) hnodupl (Outside.field rfl hsl)
      fun x hx hmem => hdisjoint x hx x hmem rfl
  · refine ((hrel₀.mono fun x hx => ?_).trans hrel₁ (fun x hx => ?_)
      (.inr ⟨s, List.mem_cons_self, rfl⟩)).trans hrel₂ (fun x hx => ?_)
      (.inr ⟨s, List.mem_cons_self, rfl⟩)
    · exact List.mem_singleton.mp hx ▸ List.mem_cons_self
    · exact List.mem_cons_of_mem _ (List.mem_append_left _ hx)
    · exact List.mem_cons_of_mem _ (List.mem_append_right _ hx)

/-! ## `tree_remove` -/

/-- The trees below a slab are melded in the loop. -/
def Melds (l t : SlabTree) : Prop :=
  ∀ (m : SlabLinks) (r : SlabRef), Hangs m l → Hangs m t → (l.elements ++ t.elements).Nodup →
    Outside r (l.elements ++ t.elements) →
    ∃ m', m.treeRemoveLoop r (top l) (top t) = some m' ∧ Linked m' r (meld l t) ∧
      Relinks m m' r (l.elements ++ t.elements)

/-- The slab that comes up gets the other tree as its second child, and the loop goes on with its
own children. -/
theorem Melds.step {low : Address} {a b : SlabTree} (hmelds : Melds a b)
    (hlow : Hangs m (node low a b)) (hangs : Hangs m t) (htop : top t ≠ 0)
    (hnodup : ((node low a b).elements ++ t.elements).Nodup)
    (hout : Outside r ((node low a b).elements ++ t.elements)) :
    let m₁ := hang (hang m r low) (.child2 low) (top t)
    ∃ m', m₁.treeRemoveLoop (.child1 low) (m₁.slabAt (.child1 low)) (m.slabAt (.child2 low)) =
        some m' ∧ Linked m' r (node low (meld a b) t) ∧
      Relinks m m' r ((node low a b).elements ++ t.elements) := by
  intro m₁
  obtain ⟨hnodupl, hnodupt, hdisjoint⟩ := List.nodup_append.mp hnodup
  obtain ⟨hlowmem, hnodupb⟩ := List.nodup_cons.mp hnodupl
  obtain ⟨hnodup₁, hnodup₂, -⟩ := List.nodup_append.mp hnodupb
  obtain ⟨hlow0, ⟨hp₁, ha⟩, hp₂, hb⟩ := hlow
  have hlowt : low ∉ t.elements := fun hmem => hdisjoint low List.mem_cons_self low hmem rfl
  have houtt : Outside r t.elements := fun s hs => hout s (List.mem_append_right _ hs)
  have houtlow : r.owner ≠ some low := hout low (List.mem_append_left _ List.mem_cons_self)
  have houtb : Outside r (a.elements ++ b.elements) := fun s hs =>
    hout s (List.mem_append_left _ (List.mem_cons_of_mem _ hs))
  have hbt : ∀ s ∈ a.elements ++ b.elements, s ∉ t.elements := fun s hs hs' =>
    hdisjoint s (List.mem_cons_of_mem _ hs) s hs' rfl
  -- The two assignments leave the trees below `low` alone and hang `t` below it.
  have hrel₀ : Relinks m (hang m r low) r [low] := relinks_hang
  have hrel₁ : Relinks (hang m r low) m₁ (.child2 low) [top t] := relinks_hang
  have hrel : Relinks m m₁ r (low :: t.elements) :=
    (hrel₀.mono fun s hs => List.mem_singleton.mp hs ▸ List.mem_cons_self).trans hrel₁
      (fun s hs => List.mem_singleton.mp hs ▸ List.mem_cons_of_mem _ (top_mem htop))
      (.inr ⟨low, List.mem_cons_self, rfl⟩)
  have hbelow : ∀ {b' : SlabTree}, Hangs m b' → b'.elements.Nodup →
      (∀ s ∈ b'.elements, s ∈ a.elements ++ b.elements) → Hangs m₁ b' := by
    intro b' hb' hnodup' hsub
    refine hrel.hangs hb' hnodup' (fun s hs => houtb s (hsub s hs)) fun s hs hmem => ?_
    rcases List.mem_cons.mp hmem with rfl | hmem
    · exact hlowmem (hsub s hs)
    · exact hbt s (hsub s hs) hmem
  have ht₁ : Linked m₁ (.child2 low) t :=
    linked_hang (hrel₀.hangs hangs hnodupt houtt fun s hs hmem =>
      hlowt (List.mem_singleton.mp hmem ▸ hs)) hnodupt (Outside.field rfl hlowt)
  have htop₁ : ∀ {r' : SlabRef}, r'.owner ≠ some (top t) → Outside r' [top t] := fun hr' s hs =>
    List.mem_singleton.mp hs ▸ hr'
  have hr₁ : m₁.slabAt r = low := by
    rw [hrel₁.slabAt r (fun heq => houtlow (heq ▸ rfl)) (htop₁ (houtt _ (top_mem htop))),
      slabAt_hang, Function.update_self]
  have hparent₁ : m₁.parent low = r := by
    rw [hrel₁.parent low fun hmem => hlowt (List.mem_singleton.mp hmem ▸ top_mem htop),
      parent_hang hlow0, Function.update_self]
  have hchild1 : m₁.slabAt (.child1 low) = top a := by
    have hne : (SlabRef.child1 low).owner ≠ some (top t) := fun heq =>
      hlowt (Option.some.inj heq ▸ top_mem htop)
    have hr : SlabRef.child1 low ≠ r := fun heq => houtlow (heq ▸ rfl)
    rw [hrel₁.slabAt _ (by simp) (htop₁ hne), slabAt_hang, Function.update_of_ne hr, hp₁.1]
  rw [hchild1, hp₂.1]
  obtain ⟨m', hloop, hlinked, hrel'⟩ := hmelds m₁ (.child1 low)
    (hbelow ha hnodup₁ fun s hs => List.mem_append_left _ hs)
    (hbelow hb hnodup₂ fun s hs => List.mem_append_right _ hs) hnodupb (Outside.field rfl hlowmem)
  refine ⟨m', hloop, ⟨⟨?_, fun _ => ?_⟩, hlow0, hlinked, ?_⟩, ?_⟩
  · rw [hrel'.slabAt r (fun heq => houtlow (heq ▸ rfl)) houtb, hr₁, top_node]
  · rw [top_node, hrel'.parent low hlowmem, hparent₁]
  · exact hrel'.linked ht₁ (by simp) (Outside.field rfl hlowmem) hnodupt (Outside.field rfl hlowt)
      fun s hs hmem => hbt s hmem hs
  · refine (hrel.mono fun s hs => ?_).trans hrel'
      (fun s hs => List.mem_append_left _ (List.mem_cons_of_mem _ hs))
      (.inr ⟨low, List.mem_append_left _ List.mem_cons_self, rfl⟩)
    exact (List.mem_cons.mp hs).elim (fun h => h ▸ List.mem_append_left _ List.mem_cons_self)
      (List.mem_append_right _)

theorem melds (l t : SlabTree) : Melds l t := by
  induction l, t using meld.induct with
  | case1 l =>
    intro m r hl ht hnodup hout
    rw [elements_nil, List.append_nil] at hnodup hout ⊢
    refine ⟨hang m r (top l), ?_, ?_, relinks_hang_top⟩
    · rw [SlabLinks.treeRemoveLoop, top_nil, if_pos rfl]
      rfl
    · rw [meld]
      exact linked_hang hl hnodup hout
  | case2 t hne =>
    intro m r hl ht hnodup hout
    have htop : top t ≠ 0 := top_ne_zero ht hne
    rw [elements_nil, List.nil_append] at hnodup hout ⊢
    refine ⟨hang m r (top t), ?_, ?_, relinks_hang_top⟩
    · rw [SlabLinks.treeRemoveLoop, if_neg htop, top_nil, if_pos rfl, hang_of_ne htop]
    · rw [meld]
      · exact linked_hang ht hnodup hout
      · exact hne
  | case3 a a₁ a₂ b b₁ b₂ hab ih =>
    intro m r hl ht hnodup hout
    obtain ⟨m', hloop, hlinked, hrel⟩ := ih.step hl ht ht.1 hnodup hout
    refine ⟨m', ?_, ?_, hrel⟩
    · rw [SlabLinks.treeRemoveLoop, top_node, top_node, if_neg ht.1, if_neg hl.1]
      dsimp only
      rw [if_neg (lt_asymm hab), if_neg (lt_asymm hab), ← hang_of_ne hl.1, ← hang_of_ne ht.1]
      exact hloop
    · rw [meld, if_pos hab]
      exact hlinked
  | case4 a a₁ a₂ b b₁ b₂ hab ih =>
    intro m r hl ht hnodup hout
    have hne : a ≠ b :=
      (List.nodup_append.mp hnodup).2.2 a List.mem_cons_self b List.mem_cons_self
    have hba : b < a := lt_of_le_of_ne (not_lt.mp hab) hne.symm
    obtain ⟨m', hloop, hlinked, hrel⟩ :=
      ih.step ht hl hl.1 (List.perm_append_comm.nodup_iff.mp hnodup)
        fun s hs => hout s (List.mem_append.mpr (List.mem_append.mp hs).symm)
    refine ⟨m', ?_, ?_, ?_⟩
    · rw [SlabLinks.treeRemoveLoop, top_node, top_node, if_neg ht.1, if_neg hl.1]
      dsimp only
      rw [if_pos hba, if_pos hba, ← hang_of_ne ht.1, ← hang_of_ne hl.1]
      exact hloop
    · rw [meld, if_neg hab]
      exact hlinked
    · exact hrel.mono fun s hs => List.mem_append.mpr (List.mem_append.mp hs).symm

/-- The place of a slab in a tree: the slab is linked at its parent, and what is done there is done
to the tree. -/
theorem Linked.graft {f : SlabTree → SlabTree → SlabTree} {new : List Address}
    (hlinked : Linked m r t) (hnodup : (new ++ t.elements).Nodup)
    (hout : Outside r (new ++ t.elements)) (hs : s ∈ t.elements) :
    ∃ a b, Linked m (m.parent s) (node s a b) ∧ (new ++ (node s a b).elements).Nodup ∧
      Outside (m.parent s) (new ++ (node s a b).elements) ∧
      ∀ m', Linked m' (m.parent s) (f a b) →
        Relinks m m' (m.parent s) (new ++ (node s a b).elements) →
        Linked m' r (HeapTree.graft s f t) ∧ Relinks m m' r (new ++ t.elements) := by
  induction t generalizing r with
  | nil => exact absurd hs List.not_mem_nil
  | node n l t ihl iht =>
    have hnode := hlinked
    obtain ⟨⟨hr, hparent⟩, hn0, hl, ht⟩ := hlinked
    by_cases hns : n = s
    · subst hns
      rw [top_node] at hparent
      rw [hparent hn0]
      refine ⟨l, t, hnode, hnodup, hout, fun m' hlinked' hrel => ?_⟩
      rw [HeapTree.graft, if_pos rfl]
      exact ⟨hlinked', hrel⟩
    · obtain ⟨hn, hnodup'⟩ := List.nodup_cons.mp (List.perm_middle.nodup_iff.mp hnodup)
      have hlt := (List.nodup_cons.mp (List.nodup_append.mp hnodup).2.1).2
      have hdisjoint := (List.nodup_append.mp hlt).2.2
      have hsubl : (new ++ l.elements).Sublist (new ++ (l.elements ++ t.elements)) :=
        (List.sublist_append_left _ _).append_left _
      have hsubt : (new ++ t.elements).Sublist (new ++ (l.elements ++ t.elements)) :=
        (List.sublist_append_right _ _).append_left _
      rcases List.mem_append.mp ((List.mem_cons.mp hs).resolve_left (Ne.symm hns)) with hsl | hst
      · obtain ⟨a, b, hplace, hnodupab, houtab, hgraft⟩ := ihl hl (hsubl.nodup hnodup')
          (Outside.field rfl fun hmem => hn (hsubl.subset hmem)) hsl
        refine ⟨a, b, hplace, hnodupab, houtab, fun m' hlinked' hrel => ?_⟩
        obtain ⟨hl', hrel'⟩ := hgraft m' hlinked' hrel
        rw [HeapTree.graft, if_neg hns, graft_of_not_mem fun hst => hdisjoint s hsl s hst rfl]
        exact hnode.left hnodup hout hl' hrel'
      · obtain ⟨a, b, hplace, hnodupab, houtab, hgraft⟩ := iht ht (hsubt.nodup hnodup')
          (Outside.field rfl fun hmem => hn (hsubt.subset hmem)) hst
        refine ⟨a, b, hplace, hnodupab, houtab, fun m' hlinked' hrel => ?_⟩
        obtain ⟨ht', hrel'⟩ := hgraft m' hlinked' hrel
        rw [HeapTree.graft, if_neg hns, graft_of_not_mem fun hsl => hdisjoint s hsl s hst rfl]
        exact hnode.right hnodup hout ht' hrel'

/-- `tree_remove` ends, and the children of the slab are melded into its place. -/
theorem treeRemove_eq (hlinked : Linked m r t) (hnodup : t.elements.Nodup)
    (hout : Outside r t.elements) (hs : s ∈ t.elements) :
    ∃ m', treeRemove m s = some m' ∧ Linked m' r (erase s t) ∧ Relinks m m' r t.elements := by
  obtain ⟨a, b, hplace, hnodupab, houtab, hgraft⟩ :=
    @Linked.graft m r t s meld [] hlinked hnodup hout hs
  obtain ⟨-, -, hp₁, hp₂⟩ := hplace
  obtain ⟨m', hloop, hlinked', hrel⟩ := melds a b m (m.parent s) hp₁.2 hp₂.2
    (List.nodup_cons.mp hnodupab).2 fun x hx => houtab x (List.mem_cons_of_mem _ hx)
  refine ⟨m', ?_, hgraft m' hlinked' (hrel.mono fun x hx => List.mem_cons_of_mem _ hx)⟩
  rw [treeRemove, hp₁.1.1, hp₂.1.1]
  exact hloop

/-! ## `tree_insert` -/

/-- The loop goes to the child with the higher address; a missing child counts as the highest. -/
def goLeft (c1 c2 : SlabTree) : Bool := decide (before (top c1) > before (top c2))

theorem goLeft_iff {c1 c2 : SlabTree} : goLeft c1 c2 ↔ before (top c1) > before (top c2) :=
  decide_eq_true_iff

/-- The loop of `tree_insert` ends with the slab above the first one of a higher address on its
way. -/
theorem treeInsertLoop_eq (hs : s ≠ 0) (hlinked : Linked m r t) (hnodup : (s :: t.elements).Nodup)
    (hout : Outside r (s :: t.elements)) :
    ∃ m', m.treeInsertLoop s r (top t) = some m' ∧ Linked m' r (HeapTree.insert goLeft s t) ∧
      Relinks m m' r (s :: t.elements) := by
  induction t generalizing r with
  | nil =>
    obtain ⟨hlinked', hrel⟩ := @hangNode_eq m r nil nil s hs trivial trivial hnodup hout
    refine ⟨hangNode m r s 0 0, ?_, hlinked', hrel⟩
    rw [SlabLinks.treeInsertLoop, top_nil, if_pos rfl, hangNode, hang_of_ne hs]
    rfl
  | node n l t ihl iht =>
    have hnode := hlinked
    obtain ⟨-, hn0, hl, ht⟩ := hlinked
    rw [SlabLinks.treeInsertLoop, top_node, if_neg hn0, HeapTree.insert]
    split
    · have heq : (node s (node n l t) nil).elements = s :: (node n l t).elements := by
        rw [elements_node s, elements_nil, List.append_nil]
      obtain ⟨hlinked', hrel⟩ := @hangNode_eq m r (node n l t) nil s hs hnode.2 trivial
        (heq ▸ hnodup) (heq ▸ hout)
      refine ⟨hangNode m r s n 0, ?_, hlinked', heq ▸ hrel⟩
      rw [hangNode, hang_of_ne hs, hang_of_ne hn0]
      rfl
    · obtain ⟨hn, hnodup'⟩ := List.nodup_cons.mp
        ((List.Perm.swap n s (l.elements ++ t.elements)).nodup_iff.mp hnodup)
      have hsubl : (s :: l.elements).Sublist (s :: (l.elements ++ t.elements)) :=
        (List.sublist_append_left _ _).cons_cons s
      have hsubt : (s :: t.elements).Sublist (s :: (l.elements ++ t.elements)) :=
        (List.sublist_append_right _ _).cons_cons s
      dsimp only
      rw [hl.1.1, ht.1.1]
      by_cases hleft : before (top l) > before (top t)
      · rw [if_pos hleft, if_pos (goLeft_iff.mpr hleft)]
        obtain ⟨m', hloop, hl', hrel⟩ := ihl hl (hsubl.nodup hnodup')
          (Outside.field rfl fun hmem => hn (hsubl.subset hmem))
        exact ⟨m', hloop, @Linked.left m m' r l t n [s] _ hnode hnodup hout hl' hrel⟩
      · rw [if_neg hleft, if_neg (goLeft_iff.not.mpr hleft)]
        obtain ⟨m', hloop, ht', hrel⟩ := iht ht (hsubt.nodup hnodup')
          (Outside.field rfl fun hmem => hn (hsubt.subset hmem))
        exact ⟨m', hloop, @Linked.right m m' r l t n [s] _ hnode hnodup hout ht' hrel⟩

theorem treeInsert_eq (hs : s ≠ 0) (hlinked : Linked m r t) (hnodup : (s :: t.elements).Nodup)
    (hout : Outside r (s :: t.elements)) :
    ∃ m', treeInsert m s r = some m' ∧ Linked m' r (HeapTree.insert goLeft s t) ∧
      Relinks m m' r (s :: t.elements) := by
  rw [treeInsert, hlinked.1.1]
  exact treeInsertLoop_eq hs hlinked hnodup hout

/-! ## The link of a page -/

theorem replaceLink_eq_hangNode {sl : Address} (hs : s ≠ 0) (hr : (m.parent sl).owner ≠ some s) :
    replaceLink m sl s =
      hangNode m (m.parent sl) s (m.slabAt (.child1 sl)) (m.slabAt (.child2 sl)) := by
  have h1 : SlabRef.child1 s ≠ m.parent sl := fun heq => hr (heq ▸ rfl)
  have h2 : SlabRef.child2 s ≠ m.parent sl := fun heq => hr (heq ▸ rfl)
  have hslabAt : Function.update (Function.update (Function.update m.slabAt (.child1 s)
        (m.slabAt (.child1 sl))) (.child2 s) (m.slabAt (.child2 sl))) (m.parent sl) s =
      Function.update (Function.update (Function.update m.slabAt (m.parent sl) s) (.child1 s)
        (m.slabAt (.child1 sl))) (.child2 s) (m.slabAt (.child2 sl)) := by
    rw [Function.update_comm h2, Function.update_comm h1]
  rw [replaceLink, hangNode, hang_of_ne hs]
  unfold hang SlabLinks.setSlabAt SlabLinks.setParent
  dsimp only
  rw [hslabAt]
  split <;> split <;> rfl

/-- Another slab takes over the links of one. -/
theorem replaceLink_eq {sl : Address} (hs : s ≠ 0) (hlinked : Linked m r t)
    (hnodup : (s :: t.elements).Nodup) (hout : Outside r (s :: t.elements))
    (hsl : sl ∈ t.elements) :
    Linked (replaceLink m sl s) r (HeapTree.replace sl s t) ∧
      Relinks m (replaceLink m sl s) r (s :: t.elements) := by
  obtain ⟨a, b, hplace, hnodupab, houtab, hgraft⟩ :=
    @Linked.graft m r t sl (node s) [s] hlinked hnodup hout hsl
  obtain ⟨-, -, hp₁, hp₂⟩ := hplace
  have hsub : (node s a b).elements.Sublist ([s] ++ (node sl a b).elements) :=
    (List.sublist_cons_self sl _).cons_cons s
  obtain ⟨hlinked', hrel⟩ := @hangNode_eq m (m.parent sl) a b s hs hp₁.2 hp₂.2
    (hsub.nodup hnodupab) fun x hx => houtab x (hsub.subset hx)
  rw [replaceLink_eq_hangNode hs (houtab s List.mem_cons_self), hp₁.1.1, hp₂.1.1]
  exact hgraft _ hlinked' (hrel.mono hsub.subset)

end SymbianWeb.MemoryManager
