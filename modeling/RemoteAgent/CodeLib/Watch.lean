import Mathlib.Logic.Basic
/-!
# Watch channels

A watch channel keeps the last value that was sent and counts the sends.  A receiver knows
how many sends it has seen, and `changed` waits for one that it has not.  A receiver that is
cloned has seen what the original has, so a send that comes before the clone is not lost to
it.  When the sender is dropped, nobody waits any more.

`changed_of_unseen` says when `changed` returns for a receiver that has not looked at
anything.
-/

namespace CodeLib

structure Watch (α : Type) where
  value : α
  version : Nat
  closed : Bool
  deriving DecidableEq, Repr

namespace Watch

structure Receiver where
  seen : Nat
  deriving DecidableEq, Repr

variable {α : Type}

def channel (a : α) : Watch α × Receiver := (⟨a, 0, false⟩, ⟨0⟩)

def send (w : Watch α) (a : α) : Watch α := { w with value := a, version := w.version + 1 }

/-- The sender is dropped. -/
def close (w : Watch α) : Watch α := { w with closed := true }

/-- What `changed` returns and the receiver after it, if it returns: it fails when there is
nothing to see and the sender is gone. -/
def changed (w : Watch α) (r : Receiver) : Option (Except Unit Unit × Receiver) :=
  if r.seen = w.version then
    if w.closed then some (.error (), r) else none
  else some (.ok (), ⟨w.version⟩)

/-- Something was sent. -/
def Sent (w : Watch α) : Prop := 0 < w.version

instance (w : Watch α) : Decidable w.Sent := inferInstanceAs (Decidable (0 < w.version))

/-- Who has not looked at anything need not wait. -/
def Ready (w : Watch α) : Prop := w.Sent ∨ w.closed = true

theorem not_sent_channel (a : α) : ¬ (channel a).1.Sent := Nat.lt_irrefl 0

theorem sent_send (w : Watch α) (a : α) : (w.send a).Sent := Nat.succ_pos _

/-- A receiver that has not looked at anything is told of every send, and that the sender is
gone. -/
theorem changed_of_unseen {w : Watch α} {r : Receiver} (hr : r.seen = 0) :
    (w.changed r).isSome = true ↔ w.Ready := by
  unfold changed Ready Sent
  split
  · rename_i hseen
    have hnone : ¬ 0 < w.version := by omega
    rw [or_iff_right hnone]
    cases w.closed <;> simp
  · rename_i hseen
    have hsent : 0 < w.version := by omega
    exact iff_of_true rfl (Or.inl hsent)

end Watch

end CodeLib
