import Mathlib.Algebra.Ring.Nat

/-!
# Streams that arrive in chunks and leave in pieces

A reader of a stream is given what has arrived, up to what it asks for, and a
writer hands over a piece of what it has, up to what is taken.  Where the stream
is cut is not up to either of them.

* `Chunked` is what is still to arrive: a list of chunks, none of them empty.
  `flat` is its content without the cuts.
* `shortRead` is one read.  It gives at least one element while there is any
  (`shortRead_ne_nil`), no more than was asked for (`length_shortRead_le`), and
  what it gives and what it leaves are together what there was
  (`shortRead_append_flat`).
* `Intake` says for each write how much of it is taken at most: at least one
  element.
* `splice` is the write of a piece into a buffer that holds what came before.
-/

namespace CodeLib

variable {α : Type}

/-! ## Arriving -/

/-- A piece of a stream that is not empty. -/
def Chunk (α : Type) : Type := { c : List α // c ≠ [] }

/-- What is still to arrive of a stream, cut into chunks. -/
structure Chunked (α : Type) where
  chunks : List (Chunk α)

namespace Chunked

/-- The content of the stream. -/
def flat (s : Chunked α) : List α := (s.chunks.map Subtype.val).flatten

/-- The stream without the first `n` elements of its first chunk. -/
def rest (n : Nat) (c : Chunk α) (cs : List (Chunk α)) : Chunked α :=
  if h : c.1.drop n = [] then ⟨cs⟩ else ⟨⟨c.1.drop n, h⟩ :: cs⟩

/-- One read of at most `n` elements: what it gives and what it leaves.  A read
does not go over the end of a chunk. -/
def shortRead (n : Nat) (s : Chunked α) : List α × Chunked α :=
  match s.chunks with
  | [] => ([], s)
  | c :: cs => (c.1.take n, rest n c cs)

theorem flat_rest (n : Nat) (c : Chunk α) (cs : List (Chunk α)) :
    (rest n c cs).flat = c.1.drop n ++ (cs.map Subtype.val).flatten := by
  unfold rest
  split
  · rename_i h
    rw [h]
    rfl
  · rfl

/-- Nothing is lost, doubled or moved. -/
theorem shortRead_append_flat (n : Nat) (s : Chunked α) :
    (s.shortRead n).1 ++ (s.shortRead n).2.flat = s.flat := by
  obtain ⟨chunks⟩ := s
  cases chunks with
  | nil => rfl
  | cons c cs =>
    show c.1.take n ++ (rest n c cs).flat = (⟨c :: cs⟩ : Chunked α).flat
    rw [flat_rest, ← List.append_assoc, List.take_append_drop]
    rfl

theorem length_shortRead_le (n : Nat) (s : Chunked α) :
    (s.shortRead n).1.length ≤ n := by
  obtain ⟨chunks⟩ := s
  cases chunks with
  | nil => exact Nat.zero_le n
  | cons c cs => exact List.length_take_le n c.1

/-- A read finds something as long as there is something. -/
theorem shortRead_ne_nil {n : Nat} (hn : 0 < n) {s : Chunked α} (hs : s.flat ≠ []) :
    (s.shortRead n).1 ≠ [] := by
  obtain ⟨chunks⟩ := s
  cases chunks with
  | nil => exact absurd rfl hs
  | cons c cs =>
    show c.1.take n ≠ []
    intro h
    rcases List.take_eq_nil_iff.mp h with h | h
    · omega
    · exact c.2 h

theorem flat_eq_nil_iff {s : Chunked α} : s.flat = [] ↔ s.chunks = [] := by
  obtain ⟨chunks⟩ := s
  cases chunks with
  | nil => exact ⟨fun _ => rfl, fun _ => rfl⟩
  | cons c cs =>
    constructor
    · intro h
      have h' : c.1 ++ (cs.map Subtype.val).flatten = [] := h
      exact absurd (List.append_eq_nil_iff.mp h').1 c.2
    · intro h
      exact absurd h (by simp)

end Chunked

/-! ## Leaving -/

/-- How much of each write is taken at most. -/
structure Intake where
  limit : Nat → Nat
  pos : ∀ k, 0 < limit k

/-- How much write `k` of `n` elements takes. -/
def Intake.taken (t : Intake) (k n : Nat) : Nat := min n (t.limit k)

theorem Intake.taken_le (t : Intake) (k n : Nat) : t.taken k n ≤ n := Nat.min_le_left ..

theorem Intake.taken_pos (t : Intake) (k : Nat) {n : Nat} (hn : 0 < n) :
    0 < t.taken k n := by
  have hk := t.pos k
  unfold Intake.taken
  omega

/-! ## Buffers -/

/-- The buffer after `bytes` were written into it at `offset`. -/
def splice (buffer : List α) (offset : Nat) (bytes : List α) : List α :=
  buffer.take offset ++ bytes ++ buffer.drop (offset + bytes.length)

theorem length_splice {buffer bytes : List α} {offset : Nat}
    (h : offset + bytes.length ≤ buffer.length) :
    (splice buffer offset bytes).length = buffer.length := by
  simp only [splice, List.length_append, List.length_take, List.length_drop]
  omega

/-- The part of the buffer that is filled grows by what was written. -/
theorem take_splice {buffer bytes : List α} {offset : Nat}
    (h : offset + bytes.length ≤ buffer.length) :
    (splice buffer offset bytes).take (offset + bytes.length) =
      buffer.take offset ++ bytes := by
  have hlen : (buffer.take offset ++ bytes).length = offset + bytes.length := by
    rw [List.length_append, List.length_take]
    omega
  rw [splice, ← hlen, List.take_left]

end CodeLib
