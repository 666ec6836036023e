import RemoteAgent.CodeLib.Lists
import RemoteAgent.JobManager.Actions

/-!
# Job ids across the wrap of the counter

`create_job` takes an id from a 32-bit counter, looks whether it is registered,
and registers it in a later step.  Nothing ties the three steps together, so two
calls could insert the same id if the counter went once around in between.  This
module shows that it takes that many increments: as long as fewer than
`2 ^ 32 - 1` of them fall between a call's first `fetch_add` and its insertion,
no insertion replaces an entry and no key is zero.

* `Counted` runs the manager next to one counter for each call, `lag`: how many
  increments other calls have made since its first one.
* `IdInv` is the invariant.  The proof keeps a second counter for each call,
  `age`: how many increments other calls have made since it took the id that it
  goes on with.  Two calls never have the same age, and the age of a call, its
  id and the shared counter determine each other modulo `2 ^ 32`.
-/

namespace RemoteAgent.JobManager

open CodeLib

/-! ## Counting increments -/

/-- The call is about to increment the counter: for the first time, or again. -/
def Call.fetchAdd? : Call → Option Bool
  | .createJob _ .fetchAdd => some true
  | .createJob _ .fetchAddAgain => some false
  | _ => none

/-- The id that the call is about to insert. -/
def Call.inserts? : Call → Option UInt32
  | .createJob _ (.insert id) => some id
  | _ => none

/-- The manager, and for each call the number of increments by other calls since
its own first one. -/
structure Counted where
  manager : Manager
  lag : Nat → Nat

namespace Counted

/-- The increments that call `i` makes reset or keep its own count and add one
to every other. -/
def lagAfter (x : Counted) : Manager.Label → Nat → Nat
  | .call _ => x.lag
  | .step i _ =>
    match (x.manager.calls[i]?).bind Call.fetchAdd? with
    | some first => fun j =>
      if j = i then (if first then 0 else x.lag j) else x.lag j + 1
    | none => x.lag

def machine : StepMachine Counted Manager.Label where
  Init x := Manager.Initial x.manager
  step x l := (x.manager.step l).map fun m => { manager := m, lag := x.lagAfter l }

/-- Call `i` is about to insert. -/
def inserting (x : Counted) (i : Nat) : Bool :=
  ((x.manager.calls[i]?).bind Call.inserts?).isSome

/-- A step that inserts comes after fewer than `2 ^ 32 - 1` increments by other
calls since the call's first one. -/
def FewIncrements (x : Counted) : Manager.Label → Prop
  | .call _ => True
  | .step i _ => x.inserting i = true → x.lag i < 2 ^ 32 - 1

instance (x : Counted) : (l : Manager.Label) → Decidable (FewIncrements x l)
  | .call _ => isTrue trivial
  | .step i _ =>
    inferInstanceAs (Decidable (x.inserting i = true → x.lag i < 2 ^ 32 - 1))

theorem inserting_of_inserts {x : Counted} {i : Nat} {c : Call} {id : UInt32}
    (hi : x.manager.calls[i]? = some c) (hc : c.inserts? = some id) :
    x.inserting i = true := by
  simp [inserting, hi, hc]

end Counted

/-! ## Steps that leave the ids alone -/

/-- The counter stays, the registry only loses entries, and every handle keeps
its id. -/
structure Shared.SameIds (s s' : Shared) : Prop where
  next : s'.nextJobId = s.nextJobId
  limit : s'.maxConcurrentJobs = s.maxConcurrentJobs
  shards : s'.shards = s.shards
  entries : s'.jobs.entries.Sublist s.jobs.entries
  jobs : ∀ k h, s'.jobs.lookup k = some h → s.jobs.lookup k = some h
  handles : ∀ (h : JobRef) (a : JobHandle), s.handles[h]? = some a →
    ∃ a' : JobHandle, s'.handles[h]? = some a' ∧ a'.jobId = a.jobId

theorem Shared.SameIds.refl (s : Shared) : s.SameIds s :=
  ⟨rfl, rfl, rfl, List.Sublist.refl _, fun _ _ h => h, fun _ a h => ⟨a, h, rfl⟩⟩

theorem Shared.sameIds_modify (s : Shared) (r : JobRef) {f : JobHandle → JobHandle}
    (hf : ∀ a, (f a).jobId = a.jobId) : s.SameIds (s.modify r f) := by
  refine ⟨rfl, rfl, rfl, List.Sublist.refl _, fun _ _ h => h, ?_⟩
  intro h a ha
  rw [Shared.modify_handles, ha]
  split
  · exact ⟨f a, rfl, hf a⟩
  · exact ⟨a, rfl, rfl⟩

theorem Shared.sameIds_erase (s : Shared) (id : UInt32) :
    s.SameIds { s with jobs := s.jobs.erase id } := by
  refine ⟨rfl, rfl, rfl, List.kerase_sublist id s.jobs.entries, ?_,
    fun _ a h => ⟨a, h, rfl⟩⟩
  intro k h hk
  by_cases hkid : k = id
  · subst hkid
    simp at hk
  · simpa [AList.lookup_erase_ne hkid] using hk

theorem Shared.sameIds_act (s : Shared) (now : SystemTime) {a : Action}
    (h : a.creates = false) : s.SameIds (s.act now a) := by
  cases a with
  | stay => exact Shared.SameIds.refl s
  | touch r => exact s.sameIds_modify r fun _ => rfl
  | cancel r => exact s.sameIds_modify r fun _ => rfl
  | complete r t => exact s.sameIds_modify r fun _ => rfl
  | enter r new => exact s.sameIds_modify r fun _ => rfl
  | remove id => exact s.sameIds_erase id
  | draw | insert id timeout | created t => cases h

/-- Every write keeps the handles that are there, with their ids. -/
theorem Shared.jobId_act (s : Shared) (now : SystemTime) (a : Action) {h : JobRef}
    {b : JobHandle} (hb : s.handles[h]? = some b) :
    ∃ b' : JobHandle, (s.act now a).handles[h]? = some b' ∧ b'.jobId = b.jobId := by
  cases ha : a.creates with
  | false => exact (s.sameIds_act now ha).handles h b hb
  | true =>
    cases a with
    | insert id timeout => exact ⟨b, getElem?_concat_of_some hb, rfl⟩
    | draw | created t => exact ⟨b, hb, rfl⟩
    | _ => cases ha

/-- What a step of a call does to the ids: it is a step of `create_job`, or it
leaves them alone. -/
theorem Call.step_ids {held : Held} {now : SystemTime} {s s' : Shared} {c c' : Call}
    (h : c.step held now s = some (s', c')) :
    (∃ timeout pc pc', c = .createJob timeout pc ∧ c' = .createJob timeout pc' ∧
        pc.step held now timeout s = some (s', pc')) ∨
      s.SameIds s' ∧ (∀ timeout pc, c ≠ .createJob timeout pc) ∧
        ∀ timeout pc, c' ≠ .createJob timeout pc := by
  have hact := Call.step_act h
  cases c <;> obtain ⟨⟨s₁, pc'⟩, hs, heq⟩ := Option.map_eq_some_iff.mp h <;> cases heq
  case createJob timeout pc => exact Or.inl ⟨timeout, pc, pc', rfl, rfl, hs⟩
  all_goals
    refine Or.inr ⟨?_, by simp, by simp⟩
    rw [hact]
    exact s.sameIds_act now (Call.action_creates (by simp))

/-! ## The invariant -/

/-- The id that the call goes on with. -/
def Call.candidate : Call → Option UInt32
  | .createJob _ (.containsKey id) | .createJob _ (.insert id) => some id
  | _ => none

/-- The call has drawn 0 and is about to draw again. -/
def Call.redraws : Call → Bool
  | .createJob _ .fetchAddAgain => true
  | _ => false

theorem Call.candidate_of_inserts {c : Call} {id : UInt32}
    (h : c.inserts? = some id) : c.candidate = some id := by
  unfold Call.inserts? at h
  split at h
  · exact h
  · exact absurd h (by simp)

theorem Call.of_not_create {c : Call} (h : ∀ timeout pc, c ≠ .createJob timeout pc) :
    c.candidate = none ∧ c.redraws = false ∧ c.inserts? = none ∧
      c.fetchAdd? = none := by
  cases c with
  | createJob timeout pc => exact absurd rfl (h timeout pc)
  | _ => exact ⟨rfl, rfl, rfl, rfl⟩

namespace Counted

/-- `age i` counts the increments by other calls since call `i` drew the id that
it goes on with. -/
structure IdInv (x : Counted) (age : Nat → Nat) : Prop where
  candidate : ∀ (i : Nat) (c : Call) id, x.manager.calls[i]? = some c →
    c.candidate = some id →
    age i ≤ x.lag i ∧
      x.manager.shared.nextJobId.toNat = (id.toNat + 1 + age i) % 2 ^ 32 ∧
      (id = 0 → 2 ^ 32 - 1 ≤ x.lag i)
  redraws : ∀ (i : Nat) (c : Call), x.manager.calls[i]? = some c →
    c.redraws = true → x.manager.shared.nextJobId.toNat = (1 + x.lag i) % 2 ^ 32
  distinct : ∀ (i j : Nat) (c d : Call) id id', x.manager.calls[i]? = some c →
    x.manager.calls[j]? = some d → c.candidate = some id → d.candidate = some id' →
    i ≠ j → age i ≠ age j
  pending : ∀ (i : Nat) (c : Call) id h, x.manager.calls[i]? = some c →
    c.inserts? = some id → x.manager.shared.jobs.lookup id = some h →
    2 ^ 32 - 1 ≤ x.lag i
  registered : ∀ k h, x.manager.shared.jobs.lookup k = some h →
    k ≠ 0 ∧ ∃ a : JobHandle, x.manager.shared.handles[h]? = some a ∧ a.jobId = k

/-- The invariant with some ages. -/
def Sound (x : Counted) : Prop := ∃ age, IdInv x age

theorem sound_initial {x : Counted} (h : machine.Init x) : Sound x := by
  obtain ⟨hh, hj, hc⟩ := h
  refine ⟨fun _ => 0, ?_, ?_, ?_, ?_, ?_⟩
  · intro i c id hi
    simp [hc] at hi
  · intro i c hi
    simp [hc] at hi
  · intro i j c d id id' hi
    simp [hc] at hi
  · intro i c id h hi
    simp [hc] at hi
  · intro k h hk
    simp [hj] at hk

/-- A step after which the counter, the lags and the candidates are the same or
fewer, and the registry has lost entries at most. -/
theorem IdInv.of_same {x : Counted} {age : Nat → Nat} (hinv : IdInv x age)
    {s' : Shared} {calls' : List Call} (hids : x.manager.shared.SameIds s')
    (hcand : ∀ (i : Nat) (c : Call) id, calls'[i]? = some c → c.candidate = some id →
      ∃ d : Call, x.manager.calls[i]? = some d ∧ d.candidate = some id)
    (hredraw : ∀ (i : Nat) (c : Call), calls'[i]? = some c → c.redraws = true →
      ∃ d : Call, x.manager.calls[i]? = some d ∧ d.redraws = true)
    (hins : ∀ (i : Nat) (c : Call) id, calls'[i]? = some c → c.inserts? = some id →
      s'.jobs.lookup id = none ∨
        ∃ d : Call, x.manager.calls[i]? = some d ∧ d.inserts? = some id) :
    IdInv { manager := { shared := s', calls := calls' }, lag := x.lag } age := by
  refine ⟨?_, ?_, ?_, ?_, ?_⟩
  · intro i c id hi hc
    obtain ⟨d, hd, hdc⟩ := hcand i c id hi hc
    have h := hinv.candidate i d id hd hdc
    rw [← hids.next] at h
    exact h
  · intro i c hi hc
    obtain ⟨d, hd, hdc⟩ := hredraw i c hi hc
    have h := hinv.redraws i d hd hdc
    rw [← hids.next] at h
    exact h
  · intro i j c d id id' hi hj hc hd hij
    obtain ⟨c₀, hc₀, hc₀c⟩ := hcand i c id hi hc
    obtain ⟨d₀, hd₀, hd₀c⟩ := hcand j d id' hj hd
    exact hinv.distinct i j c₀ d₀ id id' hc₀ hd₀ hc₀c hd₀c hij
  · intro i c id h hi hc hk
    rcases hins i c id hi hc with hnone | ⟨d, hd, hdc⟩
    · rw [show s'.jobs.lookup id = some h from hk] at hnone
      exact absurd hnone (by simp)
    · exact hinv.pending i d id h hd hdc (hids.jobs id h hk)
  · intro k h hk
    obtain ⟨hne, a, ha, hid⟩ := hinv.registered k h (hids.jobs k h hk)
    obtain ⟨a', ha', hid'⟩ := hids.handles h a ha
    exact ⟨hne, a', ha', hid'.trans hid⟩

theorem sound_call {x : Counted} (hx : Sound x) (op : Op) :
    Sound { manager := { x.manager with calls := x.manager.calls ++ [op.begin] }
            lag := x.lag } := by
  obtain ⟨age, hinv⟩ := hx
  have hop : op.begin.candidate = none ∧ op.begin.redraws = false ∧
      op.begin.inserts? = none := by
    cases op <;> exact ⟨rfl, rfl, rfl⟩
  refine ⟨age, hinv.of_same (Shared.SameIds.refl _) ?_ ?_ ?_⟩
  · intro i c id hi hc
    rcases getElem?_concat_cases hi with hi | ⟨-, rfl⟩
    · exact ⟨c, hi, hc⟩
    · exact absurd hc (by simp [hop.1])
  · intro i c hi hc
    rcases getElem?_concat_cases hi with hi | ⟨-, rfl⟩
    · exact ⟨c, hi, hc⟩
    · exact absurd hc (by simp [hop.2.1])
  · intro i c id hi hc
    rcases getElem?_concat_cases hi with hi | ⟨-, rfl⟩
    · exact Or.inr ⟨c, hi, hc⟩
    · exact absurd hc (by simp [hop.2.2])

/-- An increment by call `i`: its own age becomes zero, and every other call
grows older by one, as the counter moves on by one. -/
theorem IdInv.of_increment {x : Counted} {age : Nat → Nat} (hinv : IdInv x age)
    {i : Nat} {c c' : Call} {first : Bool} (hi : x.manager.calls[i]? = some c)
    (hcand : ∀ id, c'.candidate = some id → id = x.manager.shared.nextJobId ∧
      (id = 0 → first = false ∧ c.redraws = true))
    (hredraw : c'.redraws = true → first = true ∧ x.manager.shared.nextJobId = 0)
    (hins : c'.inserts? = none) :
    IdInv
      { manager :=
          { shared :=
              { x.manager.shared with nextJobId := x.manager.shared.nextJobId + 1 }
            calls := x.manager.calls.set i c' }
        lag := fun j => if j = i then (if first then 0 else x.lag j) else x.lag j + 1 }
      (fun j => if j = i then 0 else age j + 1) := by
  have hnext : (x.manager.shared.nextJobId + 1).toNat =
      (x.manager.shared.nextJobId.toNat + 1) % 2 ^ 32 := by
    rw [UInt32.toNat_add]
    rfl
  refine ⟨?_, ?_, ?_, ?_, ?_⟩
  · intro j d id hj hd
    rcases getElem?_set_cases hj with ⟨hji, rfl⟩ | ⟨hji, hj'⟩
    · obtain ⟨hid, hzero⟩ := hcand id hd
      simp only [if_pos hji]
      refine ⟨Nat.zero_le _, ?_, ?_⟩
      · rw [hnext, hid]
      · intro hid0
        obtain ⟨hfirst, hre⟩ := hzero hid0
        -- the second draw gave 0 again: the counter went all the way around
        have hlag := hinv.redraws i c hi hre
        rw [← hid, hid0] at hlag
        have hlag' : (1 + x.lag i) % 2 ^ 32 = 0 := hlag.symm
        simp only [hfirst, Bool.false_eq_true, if_false]
        rw [hji]
        omega
    · obtain ⟨hle, hval, hzero⟩ := hinv.candidate j d id hj' hd
      simp only [if_neg hji]
      refine ⟨by omega, ?_, ?_⟩
      · rw [hnext, hval]
        omega
      · intro hid0
        have := hzero hid0
        omega
  · intro j d hj hd
    rcases getElem?_set_cases hj with ⟨hji, rfl⟩ | ⟨hji, hj'⟩
    · obtain ⟨hfirst, hn⟩ := hredraw hd
      simp only [if_pos hji, hfirst, if_true]
      rw [hnext, hn]
      rfl
    · have hval := hinv.redraws j d hj' hd
      simp only [if_neg hji]
      rw [hnext, hval]
      omega
  · intro j k d e id id' hj hk hd he hjk
    rcases getElem?_set_cases hj with ⟨hji, -⟩ | ⟨hji, hj'⟩
    · have hki : k ≠ i := by
        intro h
        exact hjk (hji.trans h.symm)
      simp only [if_pos hji, if_neg hki]
      omega
    · rcases getElem?_set_cases hk with ⟨hki, -⟩ | ⟨hki, hk'⟩
      · simp only [if_neg hji, if_pos hki]
        omega
      · have hne := hinv.distinct j k d e id id' hj' hk' hd he hjk
        simp only [if_neg hji, if_neg hki]
        omega
  · intro j d id h hj hd hk
    rcases getElem?_set_cases hj with ⟨hji, rfl⟩ | ⟨hji, hj'⟩
    · exact absurd hd (by simp [hins])
    · have hlag := hinv.pending j d id h hj' hd hk
      simp only [if_neg hji]
      omega
  · exact hinv.registered

/-- Two calls with the same id are a full turn of the counter apart. -/
theorem IdInv.turn {x : Counted} {age : Nat → Nat} (hinv : IdInv x age) {i j : Nat}
    {c d : Call} {id : UInt32} (hi : x.manager.calls[i]? = some c)
    (hj : x.manager.calls[j]? = some d) (hc : c.candidate = some id)
    (hd : d.candidate = some id) (hij : i ≠ j) (hlag : x.lag i < 2 ^ 32 - 1) :
    2 ^ 32 ≤ x.lag j := by
  obtain ⟨hlei, hvali, -⟩ := hinv.candidate i c id hi hc
  obtain ⟨hlej, hvalj, -⟩ := hinv.candidate j d id hj hd
  have hne := hinv.distinct i j c d id id hi hj hc hd hij
  have hcongr : (id.toNat + 1 + age i) % 2 ^ 32 = (id.toNat + 1 + age j) % 2 ^ 32 :=
    hvali.symm.trans hvalj
  omega

/-- The insertion of an id by a call that has few increments behind it. -/
theorem IdInv.of_insert {x : Counted} {age : Nat → Nat} (hinv : IdInv x age)
    {i : Nat} {c c' : Call} {id : UInt32} {a : JobHandle}
    (hi : x.manager.calls[i]? = some c) (hins : c.inserts? = some id)
    (hlag : x.lag i < 2 ^ 32 - 1) (ha : a.jobId = id)
    (hc' : c'.candidate = none ∧ c'.redraws = false ∧ c'.inserts? = none) :
    IdInv
      { manager :=
          { shared :=
              { x.manager.shared with
                handles := x.manager.shared.handles ++ [a]
                jobs := x.manager.shared.jobs.insert id x.manager.shared.handles.length }
            calls := x.manager.calls.set i c' }
        lag := x.lag } age := by
  have hcand := Call.candidate_of_inserts hins
  have hid : id ≠ 0 := by
    intro h0
    have := (hinv.candidate i c id hi hcand).2.2 h0
    omega
  refine ⟨?_, ?_, ?_, ?_, ?_⟩
  · intro j d k hj hd
    rcases getElem?_set_cases hj with ⟨-, rfl⟩ | ⟨-, hj'⟩
    · exact absurd hd (by simp [hc'.1])
    · exact hinv.candidate j d k hj' hd
  · intro j d hj hd
    rcases getElem?_set_cases hj with ⟨-, rfl⟩ | ⟨-, hj'⟩
    · exact absurd hd (by simp [hc'.2.1])
    · exact hinv.redraws j d hj' hd
  · intro j k d e id₁ id₂ hj hk hd he hjk
    rcases getElem?_set_cases hj with ⟨-, rfl⟩ | ⟨-, hj'⟩
    · exact absurd hd (by simp [hc'.1])
    · rcases getElem?_set_cases hk with ⟨-, rfl⟩ | ⟨-, hk'⟩
      · exact absurd he (by simp [hc'.1])
      · exact hinv.distinct j k d e id₁ id₂ hj' hk' hd he hjk
  · intro j d k h hj hd hk
    rcases getElem?_set_cases hj with ⟨-, rfl⟩ | ⟨hji, hj'⟩
    · exact absurd hd (by simp [hc'.2.2])
    · by_cases hkid : k = id
      · -- another call is about to insert the same id: it drew it a turn ago
        subst hkid
        have := hinv.turn hi hj' hcand (Call.candidate_of_inserts hd) (Ne.symm hji) hlag
        show 2 ^ 32 - 1 ≤ x.lag j
        omega
      · refine hinv.pending j d k h hj' hd ?_
        have hk' : (x.manager.shared.jobs.insert id
          x.manager.shared.handles.length).lookup k = some h := hk
        rw [AList.lookup_insert_ne hkid] at hk'
        exact hk'
  · intro k h hk
    have hk' : (x.manager.shared.jobs.insert id
      x.manager.shared.handles.length).lookup k = some h := hk
    show k ≠ 0 ∧ ∃ b : JobHandle,
      (x.manager.shared.handles ++ [a])[h]? = some b ∧ b.jobId = k
    by_cases hkid : k = id
    · subst hkid
      rw [AList.lookup_insert] at hk'
      obtain rfl := Option.some.inj hk'
      exact ⟨hid, a, by simp, ha⟩
    · rw [AList.lookup_insert_ne hkid] at hk'
      obtain ⟨hne, b, hb, hbid⟩ := hinv.registered k h hk'
      exact ⟨hne, b, getElem?_concat_of_some hb, hbid⟩

theorem lagAfter_of_none {x : Counted} {i : Nat} {now : SystemTime} {c : Call}
    (hi : x.manager.calls[i]? = some c) (hc : c.fetchAdd? = none) :
    x.lagAfter (.step i now) = x.lag := by
  simp [lagAfter, hi, hc]

theorem lagAfter_of_some {x : Counted} {i : Nat} {now : SystemTime} {c : Call}
    {first : Bool} (hi : x.manager.calls[i]? = some c) (hc : c.fetchAdd? = some first) :
    x.lagAfter (.step i now) =
      fun j => if j = i then (if first then 0 else x.lag j) else x.lag j + 1 := by
  simp [lagAfter, hi, hc]

/-- A step of call `i` that leaves the ids alone and makes the call go on with
no id keeps the invariant. -/
theorem IdInv.of_set {x : Counted} {age : Nat → Nat} (hinv : IdInv x age) {i : Nat}
    {c' : Call} {s' : Shared} (hids : x.manager.shared.SameIds s')
    (hc' : c'.candidate = none ∧ c'.redraws = false ∧ c'.inserts? = none) :
    IdInv { manager := { shared := s', calls := x.manager.calls.set i c' }
            lag := x.lag } age := by
  refine hinv.of_same hids ?_ ?_ ?_
  · intro j d id hj hd
    rcases getElem?_set_cases hj with ⟨-, rfl⟩ | ⟨-, hj'⟩
    · exact absurd hd (by simp [hc'.1])
    · exact ⟨d, hj', hd⟩
  · intro j d hj hd
    rcases getElem?_set_cases hj with ⟨-, rfl⟩ | ⟨-, hj'⟩
    · exact absurd hd (by simp [hc'.2.1])
    · exact ⟨d, hj', hd⟩
  · intro j d id hj hd
    rcases getElem?_set_cases hj with ⟨-, rfl⟩ | ⟨-, hj'⟩
    · exact absurd hd (by simp [hc'.2.2])
    · exact Or.inr ⟨d, hj', hd⟩

/-- Every step of `create_job` keeps the invariant. -/
theorem sound_create {x : Counted} (hx : Sound x) {i : Nat} {now : SystemTime}
    {timeout : Option Duration} {pc pc' : CreatePc} {s' : Shared}
    (hi : x.manager.calls[i]? = some (.createJob timeout pc))
    (hpc : pc.step x.manager.held now timeout x.manager.shared = some (s', pc'))
    (hfew : FewIncrements x (.step i now)) :
    Sound { manager :=
              { shared := s'
                calls := x.manager.calls.set i (.createJob timeout pc') }
            lag := x.lagAfter (.step i now) } := by
  obtain ⟨age, hinv⟩ := hx
  cases pc with
  | lenCheck =>
    rw [lagAfter_of_none hi rfl]
    simp only [CreatePc.step] at hpc
    split at hpc <;> cases hpc <;>
      exact ⟨age, hinv.of_set (Shared.SameIds.refl _) ⟨rfl, rfl, rfl⟩⟩
  | fetchAdd =>
    rw [lagAfter_of_some hi rfl]
    simp only [CreatePc.step, Option.some.injEq, Prod.mk.injEq] at hpc
    obtain ⟨rfl, rfl⟩ := hpc
    refine ⟨_, hinv.of_increment hi ?_ ?_ ?_⟩
    · intro id hid
      split at hid
      · exact absurd hid (by simp [Call.candidate])
      · rename_i hne
        obtain rfl : x.manager.shared.nextJobId = id := by
          simpa [Call.candidate] using hid
        exact ⟨rfl, fun h0 => absurd h0 hne⟩
    · intro hre
      split at hre
      · rename_i h0
        exact ⟨rfl, h0⟩
      · exact absurd hre (by simp [Call.redraws])
    · split <;> rfl
  | fetchAddAgain =>
    rw [lagAfter_of_some hi rfl]
    simp only [CreatePc.step, Option.some.injEq, Prod.mk.injEq] at hpc
    obtain ⟨rfl, rfl⟩ := hpc
    refine ⟨_, hinv.of_increment hi ?_ ?_ rfl⟩
    · intro id hid
      obtain rfl : x.manager.shared.nextJobId = id := by
        simpa [Call.candidate] using hid
      exact ⟨rfl, fun _ => ⟨rfl, rfl⟩⟩
    · intro hre
      exact absurd hre (by simp [Call.redraws])
  | containsKey id =>
    rw [lagAfter_of_none hi rfl]
    simp only [CreatePc.step] at hpc
    split at hpc
    · cases hpc
      exact ⟨age, hinv.of_set (Shared.SameIds.refl _) ⟨rfl, rfl, rfl⟩⟩
    · rename_i hfree
      cases hpc
      -- the id stays the candidate, and it is not registered now
      have hcand : ∀ (j : Nat) (d : Call) k,
          (x.manager.calls.set i (.createJob timeout (.insert id)))[j]? = some d →
          d.candidate = some k →
          ∃ e : Call, x.manager.calls[j]? = some e ∧ e.candidate = some k := by
        intro j d k hj hd
        rcases getElem?_set_cases hj with ⟨rfl, rfl⟩ | ⟨-, hj'⟩
        · exact ⟨_, hi, hd⟩
        · exact ⟨d, hj', hd⟩
      refine ⟨age, hinv.of_same (Shared.SameIds.refl _) hcand ?_ ?_⟩
      · intro j d hj hd
        rcases getElem?_set_cases hj with ⟨-, rfl⟩ | ⟨-, hj'⟩
        · exact absurd hd (by simp [Call.redraws])
        · exact ⟨d, hj', hd⟩
      · intro j d k hj hd
        rcases getElem?_set_cases hj with ⟨-, rfl⟩ | ⟨-, hj'⟩
        · obtain rfl : id = k := by simpa [Call.inserts?] using hd
          exact Or.inl (AList.lookup_eq_none.mpr hfree)
        · exact Or.inr ⟨d, hj', hd⟩
  | insert id =>
    have hlag : x.lag i < 2 ^ 32 - 1 := hfew (inserting_of_inserts hi rfl)
    rw [lagAfter_of_none hi rfl]
    simp only [CreatePc.step] at hpc
    split at hpc
    · cases hpc
    · cases hpc
      exact ⟨age, hinv.of_insert hi rfl hlag rfl ⟨rfl, rfl, rfl⟩⟩
  | setLastCreated t h =>
    rw [lagAfter_of_none hi rfl]
    cases hpc
    exact ⟨age, hinv.of_set ⟨rfl, rfl, rfl, List.Sublist.refl _, fun _ _ hk => hk,
        fun _ a ha => ⟨a, ha, rfl⟩⟩
      ⟨rfl, rfl, rfl⟩⟩
  | ret r => exact absurd hpc (by simp [CreatePc.step])

theorem sound_step {x x' : Counted} {l : Manager.Label} (hx : Sound x)
    (hfew : FewIncrements x l) (hstep : machine.step x l = some x') : Sound x' := by
  simp only [machine, Option.map_eq_some_iff] at hstep
  obtain ⟨m', hm', rfl⟩ := hstep
  cases l with
  | call op =>
    obtain rfl := Option.some.inj hm'
    exact sound_call hx op
  | step i now =>
    obtain ⟨c, s', c', hi, hs, rfl⟩ := Manager.step_call_inv hm'
    rcases Call.step_ids hs with ⟨timeout, pc, pc', rfl, rfl, hpc⟩ | ⟨hids, hc, hc'⟩
    · exact sound_create hx hi hpc hfew
    · obtain ⟨age, hinv⟩ := hx
      rw [lagAfter_of_none hi (Call.of_not_create hc).2.2.2]
      obtain ⟨h₁, h₂, h₃, -⟩ := Call.of_not_create hc'
      exact ⟨age, hinv.of_set hids ⟨h₁, h₂, h₃⟩⟩

/-- Ids across the wrap of the counter.  In every run in which fewer than
`2 ^ 32 - 1` increments by other calls fall between a call's first `fetch_add`
and its insertion: every key is non-zero and names the handle stored under it,
two registered handles with one id are the same entry, and an insertion finds
its key free. -/
theorem ids_unique (x : Counted) (hx : machine.Reach FewIncrements x) :
    (∀ k h, x.manager.shared.jobs.lookup k = some h →
      k ≠ 0 ∧ ∃ a : JobHandle, x.manager.shared.handles[h]? = some a ∧ a.jobId = k) ∧
    (∀ k k' h h' (a a' : JobHandle), x.manager.shared.jobs.lookup k = some h →
      x.manager.shared.jobs.lookup k' = some h' →
      x.manager.shared.handles[h]? = some a → x.manager.shared.handles[h']? = some a' →
      a.jobId = a'.jobId → k = k' ∧ h = h') ∧
    (∀ i now c id, FewIncrements x (.step i now) → x.manager.calls[i]? = some c →
      c.inserts? = some id → x.manager.shared.jobs.lookup id = none) := by
  obtain ⟨age, hinv⟩ : Sound x :=
    hx.invariant (fun _ => sound_initial) fun _ _ _ hs hc hstep => sound_step hs hc hstep
  refine ⟨hinv.registered, ?_, ?_⟩
  · intro k k' h h' a a' hk hk' ha ha' hid
    obtain ⟨-, b, hb, hbid⟩ := hinv.registered k h hk
    obtain ⟨-, b', hb', hbid'⟩ := hinv.registered k' h' hk'
    obtain rfl := Option.some.inj (ha.symm.trans hb)
    obtain rfl := Option.some.inj (ha'.symm.trans hb')
    have hkk : k = k' := by rw [← hbid, ← hbid', hid]
    subst hkk
    exact ⟨rfl, Option.some.inj (hk.symm.trans hk')⟩
  · intro i now c id hfew hi hins
    have hlag := hfew (inserting_of_inserts hi hins)
    cases hk : x.manager.shared.jobs.lookup id with
    | none => rfl
    | some h =>
      have := hinv.pending i c id h hi hins hk
      omega

/-- Two calls over the wrap of the counter, one step each in turn: one draws
`2 ^ 32 - 1`, the other draws 0 and redraws. -/
theorem ids_unique_wrap :
    ∃ x, machine.Reach FewIncrements x ∧
      (∀ k h, x.manager.shared.jobs.lookup k = some h → k ≠ 0) ∧
      x.manager.shared.jobs.keys = [1, 0xFFFFFFFF] := by
  let start : Counted :=
    { manager :=
        { shared :=
            { handles := []
              jobs := ∅
              nextJobId := 0xFFFFFFFF
              maxConcurrentJobs := 50
              lastJobCreated := 0
              shards := ⟨1, fun _ => 0, fun _ => Nat.one_pos⟩ }
          calls := [] }
      lag := fun _ => 0 }
  let ls : List Manager.Label :=
    [.call (.createJob none), .call (.createJob none), .step 0 1, .step 1 1, .step 0 1,
      .step 1 1, .step 0 1, .step 1 1, .step 0 2, .step 1 2, .step 1 3]
  obtain ⟨x, hx⟩ : ∃ x, machine.runIf FewIncrements start ls = some x :=
    Option.isSome_iff_exists.mp (by decide)
  have hreach : machine.Reach FewIncrements x :=
    ⟨start, ls, ⟨rfl, rfl, rfl⟩, StepMachine.path_of_runIf hx⟩
  refine ⟨x, hreach, fun k h hk => ((ids_unique x hreach).1 k h hk).1, ?_⟩
  have hkeys : (machine.runIf FewIncrements start ls).map
      (fun x => x.manager.shared.jobs.keys) = some [1, 0xFFFFFFFF] := by
    decide
  rw [hx] at hkeys
  exact Option.some.inj hkeys

end Counted

end RemoteAgent.JobManager
