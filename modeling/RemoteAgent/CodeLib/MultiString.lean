import Mathlib.Data.List.Basic

/-!
# Strings with in-band terminators

A block of strings that are written one after another, each with a terminator behind
it, and one more terminator at the end.  A reader takes strings up to the first empty
one.  The terminator is a value of the alphabet, so a string that contains it does not
come back.

* `pack_ends_iff`: the block ends with two terminators unless it has no strings.
* `unpack_pack`: strings that are not empty and free of the terminator come back.
* `free_of_mem_unpack`: nothing else ever does.
* `unpack_pack_perm_iff` puts the three together.
-/

namespace CodeLib.MultiString

variable {α : Type}

/-! ## Writing -/

/-- Write the strings one after another. -/
def pack (z : α) (es : List (List α)) : List α := es.flatMap (· ++ [z]) ++ [z]

@[simp] theorem pack_nil (z : α) : pack z [] = [z] := rfl

@[simp] theorem pack_cons (z : α) (e : List α) (es : List (List α)) :
    pack z (e :: es) = e ++ z :: pack z es := by
  simp [pack]

theorem pack_ends_iff {z : α} {es : List (List α)} : [z, z] <:+ pack z es ↔ es ≠ [] := by
  constructor
  · rintro h rfl
    simpa using h.length_le
  · intro hne
    obtain ⟨es, e, rfl⟩ := (List.eq_nil_or_concat' es).resolve_left hne
    exact ⟨es.flatMap (· ++ [z]) ++ e, by simp [pack]⟩

/-! ## Reading -/

variable [DecidableEq α] {z : α}

/-- Read strings, with the part of the current one that was read already.  The empty
string ends the block. -/
def unpackFrom (z : α) : List α → List α → List (List α)
  | _, [] => []
  | cur, x :: xs =>
    if x = z then
      if cur.isEmpty then [] else cur :: unpackFrom z [] xs
    else unpackFrom z (cur ++ [x]) xs

def unpack (z : α) (block : List α) : List (List α) := unpackFrom z [] block

/-- The reader takes a string up to its terminator. -/
theorem unpackFrom_append {cur e rest : List α} (he : z ∉ e) (hne : cur ++ e ≠ []) :
    unpackFrom z cur (e ++ z :: rest) = (cur ++ e) :: unpack z rest := by
  induction e generalizing cur with
  | nil =>
    have hcur : cur.isEmpty = false := by simpa using hne
    simp [unpackFrom, hcur, unpack]
  | cons x e ih =>
    rw [List.mem_cons, not_or] at he
    have hx : x ≠ z := fun h => he.1 h.symm
    rw [List.cons_append, unpackFrom, if_neg hx, ih he.2 (by simp), List.append_assoc]
    rfl

theorem unpack_pack {es : List (List α)} (h : ∀ e ∈ es, e ≠ [] ∧ z ∉ e) :
    unpack z (pack z es) = es := by
  induction es with
  | nil => simp [unpack, unpackFrom]
  | cons e es ih =>
    obtain ⟨hne, hfree⟩ := h e List.mem_cons_self
    rw [pack_cons, unpack, unpackFrom_append hfree (by simpa using hne), List.nil_append,
      ih fun e' he' => h e' (List.mem_cons_of_mem e he')]

/-- What is read is free of the terminator. -/
theorem free_of_mem_unpackFrom {block cur e : List α} (hcur : z ∉ cur)
    (h : e ∈ unpackFrom z cur block) : z ∉ e := by
  induction block generalizing cur with
  | nil => cases h
  | cons x xs ih =>
    rw [unpackFrom] at h
    split at h
    · split at h
      · cases h
      · rcases List.mem_cons.mp h with rfl | h
        · exact hcur
        · exact ih List.not_mem_nil h
    · rename_i hx
      refine ih ?_ h
      simpa [hcur] using fun hz => hx hz.symm

theorem free_of_mem_unpack {block e : List α} (h : e ∈ unpack z block) : z ∉ e :=
  free_of_mem_unpackFrom List.not_mem_nil h

/-- The block has two terminators at its end and is read as the strings that were
written, in some order, exactly if there are strings and none of them contains the
terminator. -/
theorem unpack_pack_perm_iff {es : List (List α)} (hne : ∀ e ∈ es, e ≠ []) :
    [z, z] <:+ pack z es ∧ (unpack z (pack z es)).Perm es ↔
      es ≠ [] ∧ ∀ e ∈ es, z ∉ e := by
  rw [pack_ends_iff]
  refine and_congr_right fun _ => ⟨?_, ?_⟩
  · intro hperm e he
    exact free_of_mem_unpack (hperm.mem_iff.mpr he)
  · intro hfree
    rw [unpack_pack fun e he => ⟨hne e he, hfree e he⟩]

end CodeLib.MultiString
