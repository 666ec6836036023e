import Mathlib.Data.List.Nodup

/-!
# One owner for each thing

`holds o` is the thing that the owner `o` has in its hands, if it has one.  Nothing is in
two hands as long as things only change hands (`Exclusive.of_moved`), or are given out when
nobody has them (`Exclusive.of_new`).  A list whose places hold different things has no
repetition (`nodup_of_exclusive`).
-/

namespace CodeLib

variable {ω α : Type} {holds holds' : ω → Option α}

/-- No two owners hold the same thing. -/
def Exclusive (holds : ω → Option α) : Prop :=
  ∀ o o' x, holds o = some x → holds o' = some x → o = o'

/-- Things change hands, or are given up, and no two hands give to one. -/
theorem Exclusive.of_moved (h : Exclusive holds) {origin : ω → ω}
    (hinj : Function.Injective origin)
    (hmoved : ∀ o x, holds' o = some x → holds (origin o) = some x) : Exclusive holds' := by
  intro o o' x ho ho'
  exact hinj (h _ _ x (hmoved o x ho) (hmoved o' x ho'))

/-- Things stay where they are, or are given up. -/
theorem Exclusive.mono (h : Exclusive holds)
    (hkept : ∀ o x, holds' o = some x → holds o = some x) : Exclusive holds' :=
  h.of_moved Function.injective_id hkept

/-- One owner is given a thing that nobody has. -/
theorem Exclusive.of_new (h : Exclusive holds) {w : ω} {y : α}
    (hfree : ∀ o, holds o ≠ some y)
    (hnew : ∀ o x, holds' o = some x → o = w ∧ x = y ∨ holds o = some x) :
    Exclusive holds' := by
  intro o o' x ho ho'
  rcases hnew o x ho with ⟨rfl, rfl⟩ | hold
  · rcases hnew o' x ho' with ⟨rfl, -⟩ | hold'
    · rfl
    · exact absurd hold' (hfree o')
  · rcases hnew o' x ho' with ⟨-, rfl⟩ | hold'
    · exact absurd hold (hfree o)
    · exact h o o' x hold hold'

/-- A list has no repetition if each of its values is at one place. -/
theorem nodup_of_exclusive {l : List α} (h : Exclusive fun i : Nat => l[i]?) : l.Nodup := by
  rw [List.nodup_iff_injective_get]
  intro i j heq
  have hi : l[i.val]? = some (l.get i) := List.getElem?_eq_getElem i.isLt
  have hj : l[j.val]? = some (l.get i) :=
    (List.getElem?_eq_getElem j.isLt).trans (congrArg some heq.symm)
  exact Fin.ext (h i j (l.get i) hi hj)

end CodeLib
