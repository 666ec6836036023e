import Mathlib.Data.Finset.Card
import Mathlib.Data.Nat.Find
import Mathlib.Data.Nat.ModEq

/-!
# Looking for a free place around a cycle

A cycle has `m` places, and a search looks at them one after the other, from some
place on.  Within one turn it looks at no place twice (`eq_of_after_eq`), so it comes to a
free place before it has looked at more places than are taken.

`exists_first_notMem` is the second half on its own: a sequence that does not repeat
itself leaves a list within as many steps as the list is long.
-/

namespace CodeLib

namespace Cycle

/-- The place that comes `i` steps after the place `a`. -/
def after (m a i : Nat) : Nat := (a + i) % m

variable {m a i j : Nat}

theorem after_zero (ha : a < m) : after m a 0 = a := Nat.mod_eq_of_lt ha

/-- Going on from the next place. -/
theorem after_after : after m (after m a i) j = after m a (i + j) := by
  unfold after
  rw [Nat.mod_add_mod, Nat.add_assoc]

/-- Within one turn no place comes twice. -/
theorem eq_of_after_eq (hi : i < m) (hj : j < m) (h : after m a i = after m a j) : i = j := by
  have hmod : i ≡ j [MOD m] := Nat.ModEq.add_left_cancel' a h
  exact hmod.eq_of_lt_of_lt hi hj

end Cycle

/-- A sequence whose first values are all different leaves a list within as many steps as
the list is long. -/
theorem exists_first_notMem {α : Type} [DecidableEq α] {f : Nat → α} {l : List α}
    (hf : ∀ i j, i ≤ l.length → j ≤ l.length → f i = f j → i = j) :
    ∃ i ≤ l.length, f i ∉ l ∧ ∀ j < i, f j ∈ l := by
  have hinj : Set.InjOn f (Finset.range (l.length + 1)) := by
    intro i hi j hj h
    rw [Finset.mem_coe, Finset.mem_range] at hi hj
    exact hf i j (Nat.le_of_lt_succ hi) (Nat.le_of_lt_succ hj) h
  have hcard : l.toFinset.card < ((Finset.range (l.length + 1)).image f).card := by
    rw [Finset.card_image_of_injOn hinj, Finset.card_range]
    exact Nat.lt_succ_of_le l.toFinset_card_le
  obtain ⟨x, hx, hfree⟩ := Finset.exists_mem_notMem_of_card_lt_card hcard
  obtain ⟨k, hk, rfl⟩ := Finset.mem_image.mp hx
  have hexists : ∃ i, f i ∉ l := ⟨k, fun hmem => hfree (List.mem_toFinset.mpr hmem)⟩
  refine ⟨Nat.find hexists, ?_, Nat.find_spec hexists, ?_⟩
  · have hle : Nat.find hexists ≤ k :=
      Nat.find_min' hexists fun hmem => hfree (List.mem_toFinset.mpr hmem)
    exact Nat.le_trans hle (Nat.le_of_lt_succ (Finset.mem_range.mp hk))
  · intro j hj
    by_contra hmem
    exact Nat.find_min hexists hj hmem

end CodeLib
