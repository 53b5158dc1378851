import Mathlib.Data.List.Basic

/-!
# Arrays kept in blocks of one size

An array that grows without moving its elements is kept as a list of blocks of `n` elements each.
The element with index `i` is the one at `i % n` in block `i / n`. Reading after a write and
reading after a block was added behind are as in one array (`get?_set`, `get?_append`).
-/

set_option autoImplicit false

namespace SymbianWeb.Blocks

variable {α : Type*} {n : Nat} {blocks : List (List α)}

/-- The element with index `i`. -/
def get? (n : Nat) (blocks : List (List α)) (i : Nat) : Option α :=
  blocks[i / n]?.bind fun block => block[i % n]?

/-- The element with index `i` is replaced. -/
def set (n : Nat) (blocks : List (List α)) (i : Nat) (x : α) : List (List α) :=
  blocks.modify (i / n) fun block => block.set (i % n) x

/-- Every block has `n` elements. -/
def Full (n : Nat) (blocks : List (List α)) : Prop := ∀ block ∈ blocks, block.length = n

@[simp] theorem length_set (i : Nat) (x : α) : (set n blocks i x).length = blocks.length :=
  List.length_modify _ _ _

theorem Full.set (h : Full n blocks) (i : Nat) (x : α) : Full n (set n blocks i x) := by
  intro block hblock
  obtain ⟨j, hj, rfl⟩ := List.getElem_of_mem hblock
  have hlength : j < blocks.length := by simpa using hj
  simp only [Blocks.set, List.getElem_modify]
  split
  · rw [List.length_set]
    exact h _ (List.getElem_mem hlength)
  · exact h _ (List.getElem_mem hlength)

theorem Full.append (h : Full n blocks) {block : List α} (hblock : block.length = n) :
    Full n (blocks ++ [block]) := by
  intro b hb
  rcases List.mem_append.mp hb with hb | hb
  · exact h b hb
  · rw [List.mem_singleton.mp hb]
    exact hblock

/-- The indexes of the array. -/
theorem get?_isSome (h : Full n blocks) {i : Nat} (hi : i < blocks.length * n) :
    (get? n blocks i).isSome := by
  have hn : 0 < n := Nat.pos_of_ne_zero fun hn => by simp [hn] at hi
  have hblock : i / n < blocks.length := Nat.div_lt_of_lt_mul (by rwa [Nat.mul_comm])
  have hlength := h _ (List.getElem_mem hblock)
  rw [get?, List.getElem?_eq_getElem hblock, Option.bind_some,
    List.getElem?_eq_getElem (by rw [hlength]; exact Nat.mod_lt i hn)]
  rfl

theorem get?_set (h : Full n blocks) {i : Nat} (hi : i < blocks.length * n) (x : α) (j : Nat) :
    get? n (set n blocks i x) j = if j = i then some x else get? n blocks j := by
  have hn : 0 < n := Nat.pos_of_ne_zero fun hn => by simp [hn] at hi
  have hblock : i / n < blocks.length := Nat.div_lt_of_lt_mul (by rwa [Nat.mul_comm])
  simp only [get?, set, List.getElem?_modify]
  by_cases hdiv : i / n = j / n
  · -- the same block; the index is another one if the place in the block is
    have hlength := h _ (List.getElem_mem hblock)
    rw [← hdiv, List.getElem?_eq_getElem hblock]
    simp only [if_true, Option.map_eq_map, Option.map_some, Option.bind_some, List.getElem?_set,
      hlength, Nat.mod_lt i hn]
    have hmod : i % n = j % n ↔ j = i := by
      constructor
      · intro hmod
        rw [← Nat.div_add_mod j n, ← hdiv, ← hmod, Nat.div_add_mod]
      · rintro rfl
        rfl
    by_cases hij : j = i
    · rw [if_pos (hmod.mpr hij), if_pos hij]
    · rw [if_neg fun heq => hij (hmod.mp heq), if_neg hij]
  · rw [if_neg fun heq => hdiv (by rw [heq])]
    cases hj : blocks[j / n]? with
    | none => rfl
    | some block => simp [hdiv]

theorem get?_append {block : List α} {i : Nat} (hi : i < blocks.length * n) :
    get? n (blocks ++ [block]) i = get? n blocks i := by
  have hblock : i / n < blocks.length := Nat.div_lt_of_lt_mul (by rwa [Nat.mul_comm])
  rw [get?, List.getElem?_append_left hblock]
  rfl

end SymbianWeb.Blocks
