import Mathlib.Data.List.Destutter

/-!
# Lists that grow and are written to

Where an element of a list comes from after one write or one append, and the
list of the distinct values that a slowly changing quantity goes through.
-/

namespace CodeLib

variable {α : Type} {l : List α} {a b : α} {i j : Nat}

/-- An element of a list after a write is the written one or an old one. -/
theorem getElem?_set_cases (h : (l.set i a)[j]? = some b) :
    j = i ∧ b = a ∨ j ≠ i ∧ l[j]? = some b := by
  by_cases hji : j = i
  · subst hji
    rw [List.getElem?_set_self'] at h
    cases hl : l[j]? with
    | none => simp [hl] at h
    | some x =>
      rw [hl] at h
      exact Or.inl ⟨rfl, by simpa using h.symm⟩
  · rw [List.getElem?_set_ne (Ne.symm hji)] at h
    exact Or.inr ⟨hji, h⟩

/-- What holds of all elements after a write holds of the written one and of the others. -/
theorem forall_mem_set {p : α → Prop} (hi : i < l.length) :
    (∀ x ∈ l.set i a, p x) ↔ p a ∧ ∀ x ∈ l.eraseIdx i, p x := by
  constructor
  · intro h
    refine ⟨h a (List.mem_set hi a), fun x hx => h x ?_⟩
    obtain ⟨j, hj, hx⟩ := List.mem_eraseIdx_iff_getElem?.mp hx
    exact List.mem_of_getElem? (by rwa [List.getElem?_set_ne (Ne.symm hj)])
  · rintro ⟨ha, hothers⟩ x hx
    obtain ⟨j, hx⟩ := List.mem_iff_getElem?.mp hx
    rcases getElem?_set_cases hx with ⟨-, rfl⟩ | ⟨hj, hx⟩
    · exact ha
    · exact hothers x (List.mem_eraseIdx_iff_getElem?.mpr ⟨j, hj, hx⟩)

/-- An element of a list after an append is an old one or the appended one. -/
theorem getElem?_concat_cases (h : (l ++ [a])[j]? = some b) :
    l[j]? = some b ∨ j = l.length ∧ b = a := by
  by_cases hj : j < l.length
  · rw [List.getElem?_append_left hj] at h
    exact Or.inl h
  · obtain ⟨hlt, hb⟩ := List.getElem?_eq_some_iff.mp h
    have hje : j = l.length := by
      simp only [List.length_append, List.length_singleton] at hlt
      omega
    subst hje
    exact Or.inr ⟨rfl, by simpa using hb.symm⟩

/-- An append changes only what stands at the end. -/
theorem getElem?_concat_ne (h : j ≠ l.length) : (l ++ [a])[j]? = l[j]? := by
  rcases Nat.lt_or_gt_of_ne h with hlt | hgt
  · exact List.getElem?_append_left hlt
  · have hend : (l ++ [a]).length ≤ j := by
      simp only [List.length_append, List.length_singleton]
      omega
    rw [List.getElem?_eq_none hend, List.getElem?_eq_none (Nat.le_of_lt hgt)]

/-- An element stays where it is when the list grows at its end. -/
theorem getElem?_mono {l' : List α} (hp : l <+: l') (h : l[j]? = some b) :
    l'[j]? = some b := by
  obtain ⟨hlt, rfl⟩ := List.getElem?_eq_some_iff.mp h
  exact List.prefix_iff_getElem?.mp hp j hlt

theorem getElem?_concat_of_some (h : l[j]? = some b) :
    (l ++ [a])[j]? = some b :=
  getElem?_mono (List.prefix_append l [a]) h

/-- A write changes a count by what it takes out and what it puts in. -/
theorem countP_set_add {q : α → Bool} (h : l[i]? = some b) (a : α) :
    (l.set i a).countP q + (if q b then 1 else 0) =
      l.countP q + if q a then 1 else 0 := by
  obtain ⟨hlt, hget⟩ := List.getElem?_eq_some_iff.mp h
  have hle : (if q b = true then 1 else 0) ≤ l.countP q := by
    split
    · rename_i hb
      exact List.countP_pos_iff.mpr ⟨b, List.mem_of_getElem? h, hb⟩
    · exact Nat.zero_le _
  have hset := List.countP_set (p := q) (a := a) hlt
  rw [hget] at hset
  omega

/-- A count falls by one when one element of the list loses the property. -/
theorem countP_lose {p q : α → Bool} [DecidableEq α] (hnodup : l.Nodup) (ha : a ∈ l)
    (hp : p a = true) (hq : q a = false) (hother : ∀ b ∈ l, b ≠ a → q b = p b) :
    l.countP q + 1 = l.countP p := by
  have hperm := List.perm_cons_erase ha
  have hrest : (l.erase a).countP q = (l.erase a).countP p := by
    apply List.countP_congr
    intro b hb
    have hb' := (hnodup.mem_erase_iff).mp hb
    rw [hother b hb'.2 hb'.1]
  rw [hperm.countP_eq q, hperm.countP_eq p, List.countP_cons, List.countP_cons, hrest, hp, hq]
  rfl

/-- If every value is followed by itself or by a value that `r` allows, the
distinct values that occur one after another form a chain of `r`. -/
theorem isChain_destutter [DecidableEq α] {r : α → α → Prop} (l : List α) (a : α)
    (h : List.IsChain (fun x y => y = x ∨ r x y) (a :: l)) :
    ∃ l', (a :: l).destutter (· ≠ ·) = a :: l' ∧ List.IsChain r (a :: l') := by
  induction l generalizing a with
  | nil => exact ⟨[], rfl, List.isChain_singleton a⟩
  | cons b l ih =>
    rw [List.isChain_cons_cons] at h
    obtain ⟨hab, htail⟩ := h
    rw [List.destutter_cons']
    by_cases heq : a = b
    · subst heq
      rw [List.destutter'_cons_neg _ (by simp), ← List.destutter_cons']
      exact ih a htail
    · obtain ⟨l', hl', hchain⟩ := ih b htail
      rw [List.destutter'_cons_pos _ heq, ← List.destutter_cons', hl']
      have hr : r a b := by
        rcases hab with hba | hr
        · exact absurd hba.symm heq
        · exact hr
      exact ⟨b :: l', rfl, List.isChain_cons_cons.mpr ⟨hr, hchain⟩⟩

end CodeLib
