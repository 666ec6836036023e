import Mathlib.Algebra.Ring.Nat

/-!
# A counter that is tested and then raised

Two parties share a counter that must stay within a limit.  A party loads the
counter, tests whether its next amount still fits on top of what it has loaded,
and adds the amount later.  Between the load and the add the other party may
add, so the test does not keep the counter within the limit.

`Within` is what does hold when no amount is above `M`: the counter and the
amounts that have passed the test stay within the limit plus `M`
(`Within.bound`), whatever the two parties do (`Within.act`).
-/

namespace CodeLib.CheckThenAdd

/-- What a party has in hand: the amount that has passed its test and is not
added yet, or the value that it has loaded for its next test. -/
structure Party where
  claim : Nat
  loaded : Option Nat
  deriving DecidableEq, Repr

/-- A party with nothing in hand. -/
def Party.idle : Party := ⟨0, none⟩

/-- One action of a party, with the counter and the party after it. -/
inductive Act (limit M count : Nat) (p : Party) : Nat → Party → Prop where
  | idle : Act limit M count p count .idle
  | load : Act limit M count p count ⟨0, some count⟩
  | pass (v n : Nat) (hloaded : p.loaded = some v) (hn : n ≤ M) (hfits : v + n ≤ limit) :
    Act limit M count p count ⟨n, none⟩
  | add : Act limit M count p (count + p.claim) .idle

/-- The counter with the two parties.  While a party holds a loaded value, the
other can raise the counter by the one amount that it may have had in hand, or
to the limit.  While both hold one, the counter has not moved since the later
load. -/
structure Within (limit M count : Nat) (p q : Party) : Prop where
  bound : count + p.claim + q.claim ≤ limit + M
  left_claim : p.claim ≤ M
  right_claim : q.claim ≤ M
  left : ∀ v, p.loaded = some v → v ≤ count ∧ count + q.claim ≤ max (v + M) limit
  right : ∀ v, q.loaded = some v → v ≤ count ∧ count + p.claim ≤ max (v + M) limit
  both : ∀ v u, p.loaded = some v → q.loaded = some u → count = v ∨ count = u

variable {limit M count count' : Nat} {p p' q : Party}

theorem Within.symm (h : Within limit M count p q) : Within limit M count q p where
  bound := by
    have hbound := h.bound
    omega
  left_claim := h.right_claim
  right_claim := h.left_claim
  left := h.right
  right := h.left
  both := fun v u hv hu => (h.both u v hu hv).symm

/-- The value that a party has loaded is not above the limit and one amount. -/
theorem Within.loaded_le (h : Within limit M count p q) {v : Nat}
    (hv : p.loaded = some v) : v ≤ limit + M := by
  have hle := (h.left v hv).1
  have hbound := h.bound
  omega

/-- A party that holds no loaded value has little to show. -/
theorem Within.of_unloaded {claim : Nat} (hbound : count + claim + q.claim ≤ limit + M)
    (hp : claim ≤ M) (hq : q.claim ≤ M)
    (hright : ∀ v, q.loaded = some v → v ≤ count ∧ count + claim ≤ max (v + M) limit) :
    Within limit M count ⟨claim, none⟩ q where
  bound := hbound
  left_claim := hp
  right_claim := hq
  left := fun v hv => by cases hv
  right := hright
  both := fun v u hv => by cases hv

theorem within_idle (h : count ≤ limit + M) : Within limit M count .idle .idle :=
  .of_unloaded h (Nat.zero_le M) (Nat.zero_le M) fun v hv => by cases hv

/-- An action of one party keeps the counter within its bounds. -/
theorem Within.act (h : Within limit M count p q) (ha : Act limit M count p count' p') :
    Within limit M count' p' q := by
  have hbound := h.bound
  have hq := h.right_claim
  cases ha with
  | idle =>
    apply Within.of_unloaded
    · omega
    · exact Nat.zero_le M
    · exact hq
    · intro v hv
      have hright := h.right v hv
      omega
  | load =>
    refine ⟨?_, Nat.zero_le M, hq, ?_, ?_, ?_⟩
    · show count + 0 + q.claim ≤ limit + M
      omega
    · intro v hv
      have hcount : count = v := Option.some.inj hv
      omega
    · intro v hv
      have hright := h.right v hv
      show v ≤ count ∧ count + 0 ≤ max (v + M) limit
      omega
    · intro v u hv _
      exact .inl (Option.some.inj hv)
  | pass v n hloaded hn hfits =>
    have hleft := h.left v hloaded
    apply Within.of_unloaded
    · omega
    · exact hn
    · exact hq
    · -- the later of the two loads is exact
      intro u hu
      have hright := h.right u hu
      have hboth := h.both v u hloaded hu
      omega
  | add =>
    apply Within.of_unloaded
    · omega
    · exact Nat.zero_le M
    · exact hq
    · intro v hv
      have hright := h.right v hv
      omega

end CodeLib.CheckThenAdd
