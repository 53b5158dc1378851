import Mathlib.Data.Nat.Prime.Basic
import Mathlib.Data.Finset.Card
import Mathlib.Data.Nat.ModEq
import Mathlib.Data.Int.ModEq
import Mathlib.Tactic.Ring
import Mathlib.Tactic.LinearCombination

/-!
# Quadratic probing

The probe sequence `h, h + 1, h + 4, h + 9, …` in a table of `n` slots. The step from one probe
to the next adds the next odd number (`probePos_succ`), which is how a loop with a collision
counter computes it. For an odd prime `n` the first `n / 2 + 1` probes are pairwise different
(`probePos_injOn`), so a set of at most `n / 2` occupied slots leaves one of them free
(`exists_free_probe`).
-/

set_option autoImplicit false

namespace SymbianWeb.QuadraticProbe

/-- The slot looked at after `k` collisions, starting at the hash value `h`. -/
def probePos (n h k : Nat) : Nat := (h + k ^ 2) % n

theorem probePos_zero {n h : Nat} (hh : h < n) : probePos n h 0 = h := by
  simp [probePos, Nat.mod_eq_of_lt hh]

theorem probePos_lt {n : Nat} (hn : 0 < n) (h k : Nat) : probePos n h k < n :=
  Nat.mod_lt _ hn

/-- One collision adds the next odd number. -/
theorem probePos_succ (n h k : Nat) :
    (probePos n h k + ((k + 1) * 2 - 1)) % n = probePos n h (k + 1) := by
  have hodd : (k + 1) * 2 - 1 = 2 * k + 1 := by omega
  have hsq : h + (k + 1) ^ 2 = h + k ^ 2 + (2 * k + 1) := by ring
  rw [hodd, probePos, probePos, hsq, Nat.mod_add_mod]

/-- Modulo an odd prime two probes of the first half agree only when they are the same probe:
`n` would divide `(k - j) * (k + j)` with both factors positive and below `n`. -/
theorem probePos_ne_of_lt {n : Nat} (hn : n.Prime) (h : Nat) {j k : Nat} (hjk : j < k)
    (hk : k ≤ n / 2) (hodd : n % 2 = 1) : probePos n h j ≠ probePos n h k := by
  intro heq
  have hmod : h + j ^ 2 ≡ h + k ^ 2 [MOD n] := heq
  have hsq : j ^ 2 ≡ k ^ 2 [MOD n] := Nat.ModEq.add_left_cancel' h hmod
  have hle : j ^ 2 ≤ k ^ 2 := Nat.pow_le_pow_left hjk.le 2
  have hdvd : n ∣ k ^ 2 - j ^ 2 := (Nat.modEq_iff_dvd' hle).1 hsq
  rw [Nat.sq_sub_sq] at hdvd
  rcases (Nat.Prime.dvd_mul hn).1 hdvd with hd | hd
  · have hpos : 0 < k + j := by omega
    have := Nat.le_of_dvd hpos hd
    omega
  · have hpos : 0 < k - j := by omega
    have := Nat.le_of_dvd hpos hd
    omega

theorem probePos_injOn {n : Nat} (hn : n.Prime) (hodd : n % 2 = 1) (h : Nat) :
    Set.InjOn (probePos n h) (Finset.range (n / 2 + 1)) := by
  intro j hj k hk heq
  simp only [Finset.coe_range, Set.mem_Iio] at hj hk
  rcases Nat.lt_trichotomy j k with hlt | heq' | hlt
  · exact absurd heq (probePos_ne_of_lt hn h hlt (by omega) hodd)
  · exact heq'
  · exact absurd heq.symm (probePos_ne_of_lt hn h hlt (by omega) hodd)

/-- At most `n / 2` occupied slots leave a free one among the first `n / 2 + 1` probes. -/
theorem exists_free_probe {n : Nat} (hn : n.Prime) (hodd : n % 2 = 1) (h : Nat)
    (occupied : Finset Nat) (hcard : occupied.card ≤ n / 2) :
    ∃ k, k ≤ n / 2 ∧ probePos n h k ∉ occupied := by
  by_contra hno
  have hall : ∀ k, k ≤ n / 2 → probePos n h k ∈ occupied := by
    intro k hk
    by_contra hmem
    exact hno ⟨k, hk, hmem⟩
  have hsub : (Finset.range (n / 2 + 1)).image (probePos n h) ⊆ occupied := by
    intro p hp
    obtain ⟨k, hk, rfl⟩ := Finset.mem_image.1 hp
    exact hall k (by simpa [Nat.lt_succ_iff] using hk)
  have hcardImage : ((Finset.range (n / 2 + 1)).image (probePos n h)).card = n / 2 + 1 := by
    rw [Finset.card_image_of_injOn (probePos_injOn hn hodd h), Finset.card_range]
  have := Finset.card_le_card hsub
  omega

end SymbianWeb.QuadraticProbe
