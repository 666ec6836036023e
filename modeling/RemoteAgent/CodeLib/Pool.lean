import Mathlib.Data.List.Perm.Basic
import RemoteAgent.CodeLib.Lists

/-!
# What the tasks of a pool hold

A pool is a list of tasks.  A task is added at the end, and a step changes one task in its
place.  What a task holds, if anything, is read off the task.

* `filterMap_set_perm` is the bookkeeping of such a step: what one task gives up or takes is
  the difference between what all of them hold before and after.
* `eq_of_nodup_filterMap`: when the things that are held are all different, no two tasks
  hold the same one.
* `countP_le_add` counts the tasks that hold one of two things.
-/

namespace CodeLib

variable {α β : Type} {f : α → Option β} {l : List α} {i j : Nat} {a b : α} {x : β}

theorem filterMap_set_perm (h : l[i]? = some a) (b : α) :
    ((f a).toList ++ (l.set i b).filterMap f).Perm ((f b).toList ++ l.filterMap f) := by
  induction l generalizing i with
  | nil => cases h
  | cons c l ih =>
    have hcons : ∀ (d : α) (t : List α),
        (d :: t).filterMap f = (f d).toList ++ t.filterMap f := by
      intro d t
      rw [List.filterMap_cons]
      cases f d <;> rfl
    cases i with
    | zero =>
      obtain rfl : c = a := Option.some.inj h
      rw [List.set_cons_zero, hcons, hcons, ← List.append_assoc, ← List.append_assoc]
      exact List.perm_append_comm.append_right _
    | succ i =>
      rw [List.set_cons_succ, hcons, hcons]
      have hswap : ∀ xs ys zs : List β, (xs ++ (ys ++ zs)).Perm (ys ++ (xs ++ zs)) :=
        fun xs ys zs => List.perm_append_comm_assoc xs ys zs
      exact (hswap _ _ _).trans (((ih h).append_left _).trans (hswap _ _ _))

theorem eq_of_nodup_filterMap (h : (l.filterMap f).Nodup) (hi : l[i]? = some a)
    (hj : l[j]? = some b) (ha : f a = some x) (hb : f b = some x) : i = j := by
  induction l generalizing i j with
  | nil => cases hi
  | cons c l ih =>
    -- the head holds nothing that the others hold
    have hhead : ∀ (k : Nat) (d : α), l[k]? = some d → f c = some x → f d ≠ some x := by
      intro k d hk hc hd
      rw [List.filterMap_cons_some hc, List.nodup_cons] at h
      exact h.1 (List.mem_filterMap.mpr ⟨d, List.mem_of_getElem? hk, hd⟩)
    have htail : (l.filterMap f).Nodup := by
      rw [List.filterMap_cons] at h
      split at h
      · exact h
      · exact (List.nodup_cons.mp h).2
    cases i with
    | zero =>
      obtain rfl : c = a := Option.some.inj hi
      cases j with
      | zero => rfl
      | succ j => exact absurd hb (hhead j b hj ha)
    | succ i =>
      cases j with
      | zero =>
        obtain rfl : c = b := Option.some.inj hj
        exact absurd ha (hhead i a hi hb)
      | succ j => rw [ih htail hi hj]

/-- What is one of two things is counted with one of them. -/
theorem countP_le_add {p q r : α → Bool} (h : ∀ a ∈ l, p a = true → q a = true ∨ r a = true) :
    l.countP p ≤ l.countP q + l.countP r := by
  induction l with
  | nil => exact Nat.zero_le _
  | cons a l ih =>
    have htail := ih fun b hb => h b (List.mem_cons_of_mem a hb)
    have hhead := h a List.mem_cons_self
    simp only [List.countP_cons]
    cases hp : p a with
    | false =>
      simp only [Bool.false_eq_true, if_false]
      omega
    | true =>
      rcases hhead hp with hq | hr
      · simp only [hq, if_true]
        omega
      · simp only [hr, if_true]
        omega

end CodeLib
