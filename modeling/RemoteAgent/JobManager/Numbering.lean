import RemoteAgent.CodeLib.Cycle
import RemoteAgent.CodeLib.Owners
import RemoteAgent.JobManager.Ids

/-!
# No id is used twice

`Ids` looks at the jobs that are registered.  Frames, log lines and late calls name jobs by
their ids also after they are gone, so this module looks at all jobs that were ever built,
and at the calls of `create_job` that have drawn an id and not used it yet.

* `Manager.Built` says that no two calls have built one job; a job stays with its call, under
  its id (`builtId_step`).
* `Metered` runs the manager next to a count of all increments of the counter.
* `Manager.idOf` says which id a job or a call has.  An increment gives a call an id that
  nobody has, an insertion hands the id of the call to the new job, and no other step
  changes who has what (`Call.step_candidate`, `Shared.jobIds_act`).
* `jobIds_distinct`: as long as the counter has been incremented `2 ^ 32` times at most, no
  two jobs were ever built with one id, and none with 0.
-/

namespace RemoteAgent.JobManager

open CodeLib

/-! ## Who has which id -/

/-- The ids of all jobs that were ever built. -/
def Shared.jobIds (s : Shared) : List UInt32 := s.handles.map JobHandle.jobId

/-- A job that was built, or a call that goes on with an id. -/
inductive IdHolder where
  | job (h : JobRef)
  | call (i : Nat)
  deriving DecidableEq

def Manager.idOf (m : Manager) : IdHolder → Option UInt32
  | .job h => m.shared.jobIds[h]?
  | .call i => (m.calls[i]?).bind Call.candidate

/-! ## What a step does to the ids -/

theorem Shared.jobIds_modify (s : Shared) (h : JobRef) {f : JobHandle → JobHandle}
    (hf : ∀ a, (f a).jobId = a.jobId) : (s.modify h f).jobIds = s.jobIds := by
  apply List.ext_getElem?
  intro k
  simp only [jobIds, List.getElem?_map, modify_handles]
  split
  · cases s.handles[k]? with
    | none => rfl
    | some a => simp [hf a]
  · rfl

/-- Only an insertion builds a job. -/
theorem Shared.jobIds_act (s : Shared) (now : SystemTime) (a : Action) :
    (∃ id timeout, a = .insert id timeout ∧ (s.act now a).jobIds = s.jobIds ++ [id]) ∨
      (∀ id timeout, a ≠ .insert id timeout) ∧ (s.act now a).jobIds = s.jobIds := by
  cases a with
  | insert id timeout =>
    refine Or.inl ⟨id, timeout, rfl, ?_⟩
    simp [act, jobIds, JobHandle.create]
  | touch h | cancel h | complete h t | enter h new =>
    exact Or.inr ⟨by simp, s.jobIds_modify h fun _ => rfl⟩
  | stay | remove id | draw | created t => exact Or.inr ⟨by simp, rfl⟩

theorem Shared.nextJobId_act (s : Shared) (now : SystemTime) (a : Action) :
    (s.act now a).nextJobId = if a = .draw then s.nextJobId + 1 else s.nextJobId := by
  cases a <;> rfl

theorem Call.draw_iff {c : Call} : c.action = .draw ↔ c.fetchAdd?.isSome = true := by
  by_cases hc : ∃ timeout pc, c = .createJob timeout pc
  · obtain ⟨timeout, pc, rfl⟩ := hc
    cases pc <;> simp [Call.action, CreatePc.action, Call.fetchAdd?]
  · have hnot : ∀ timeout pc, c ≠ .createJob timeout pc := fun timeout pc heq =>
      hc ⟨timeout, pc, heq⟩
    constructor
    · intro h
      have hcreates := Call.action_creates hnot
      rw [h] at hcreates
      cases hcreates
    · intro h
      rw [(Call.of_not_create hnot).2.2.2] at h
      cases h

/-- The id of a call after its step is the one it had, or the one it has drawn. -/
theorem Call.step_candidate {held : Held} {now : SystemTime} {s s' : Shared} {c c' : Call}
    {id : UInt32} (h : c.step held now s = some (s', c')) (hc' : c'.candidate = some id) :
    c.candidate = some id ∧ c.action = .stay ∨
      c.action = .draw ∧ id = s.nextJobId ∧ (id = 0 → c.redraws = true) := by
  rcases Call.step_ids h with ⟨timeout, pc, pc', rfl, rfl, hpc⟩ | ⟨-, -, hnot⟩
  · cases pc with
    | lenCheck =>
      simp only [CreatePc.step] at hpc
      split at hpc <;> cases hpc <;> cases hc'
    | fetchAdd =>
      cases hpc
      right
      split at hc'
      · cases hc'
      · rename_i hne
        cases hc'
        exact ⟨rfl, rfl, fun hzero => absurd hzero hne⟩
    | fetchAddAgain =>
      cases hpc
      cases hc'
      exact Or.inr ⟨rfl, rfl, fun _ => rfl⟩
    | containsKey id' =>
      simp only [CreatePc.step] at hpc
      split at hpc
      · cases hpc
        cases hc'
      · cases hpc
        exact Or.inl ⟨hc', rfl⟩
    | insert id' =>
      simp only [CreatePc.step] at hpc
      split at hpc <;> cases hpc
      cases hc'
    | setLastCreated t h =>
      cases hpc
      cases hc'
    | ret r => cases hpc
  · rw [(Call.of_not_create hnot).1] at hc'
    cases hc'

/-- A call draws again because it has drawn 0. -/
theorem Call.step_redraws {held : Held} {now : SystemTime} {s s' : Shared} {c c' : Call}
    (h : c.step held now s = some (s', c')) (hc' : c'.redraws = true) :
    c.action = .draw ∧ s.nextJobId = 0 := by
  rcases Call.step_ids h with ⟨timeout, pc, pc', rfl, rfl, hpc⟩ | ⟨-, -, hnot⟩
  · cases pc with
    | lenCheck | containsKey id' | insert id' =>
      simp only [CreatePc.step] at hpc
      split at hpc <;> cases hpc <;> cases hc'
    | fetchAdd =>
      cases hpc
      split at hc'
      · rename_i hzero
        exact ⟨rfl, hzero⟩
      · cases hc'
    | fetchAddAgain | setLastCreated t h =>
      cases hpc
      cases hc'
    | ret r => cases hpc
  · rw [(Call.of_not_create hnot).2.1] at hc'
    cases hc'

/-! ## The jobs that calls have built -/

/-- The job that a call of `create_job` has built. -/
def Call.built? : Call → Option JobRef
  | .createJob _ (.setLastCreated _ h) | .createJob _ (.ret (.ok h)) => some h
  | _ => none

/-- A step of a call leaves what was built, or the call builds the next job. -/
theorem Call.step_built {held : Held} {now : SystemTime} {s s' : Shared} {c c' : Call}
    (h : c.step held now s = some (s', c')) :
    c'.built? = c.built? ∧ s'.jobIds = s.jobIds ∨
      ∃ id, c'.built? = some s.jobIds.length ∧ c.built? = none ∧
        s'.jobIds = s.jobIds ++ [id] := by
  have hids := s.jobIds_act now c.action
  rw [← Call.step_act h] at hids
  rcases hids with ⟨id, timeout, hins, hids⟩ | ⟨hnot, hids⟩
  · obtain rfl := Call.eq_insert_of_action hins
    obtain ⟨⟨s₁, pc'⟩, hs, heq⟩ := Option.map_eq_some_iff.mp h
    cases heq
    simp only [CreatePc.step] at hs
    split at hs <;> cases hs
    exact Or.inr ⟨id, by simp [built?, Shared.jobIds], rfl, hids⟩
  · refine Or.inl ⟨?_, hids⟩
    rcases Call.step_ids h with ⟨timeout, pc, pc', rfl, rfl, hpc⟩ | ⟨-, hc, hc'⟩
    · cases pc with
      | lenCheck | containsKey id =>
        simp only [CreatePc.step] at hpc
        split at hpc <;> cases hpc <;> rfl
      | fetchAdd =>
        cases hpc
        split <;> rfl
      | fetchAddAgain | setLastCreated t h =>
        cases hpc
        rfl
      | insert id => exact absurd rfl (hnot id timeout)
      | ret r => cases hpc
    · have hnone : ∀ d : Call, (∀ timeout pc, d ≠ .createJob timeout pc) → d.built? = none := by
        intro d hd
        cases d with
        | createJob timeout pc => exact absurd rfl (hd timeout pc)
        | _ => rfl
      rw [hnone c hc, hnone c' hc']

namespace Manager

def builtBy (m : Manager) (i : Nat) : Option JobRef := (m.calls[i]?).bind Call.built?

/-- The id of the job that a call has built. -/
def builtId (m : Manager) (i : Nat) : Option UInt32 :=
  (m.builtBy i).bind fun h => m.shared.jobIds[h]?

/-- What a call of `create_job` has returned, with the id of the job that it returned. -/
def createJobResult (m : Manager) (i : Nat) : Option (Except Error UInt32) :=
  match m.calls[i]? with
  | some (.createJob _ (.ret (.ok h))) => (m.shared.jobIds[h]?).map .ok
  | some (.createJob _ (.ret (.error e))) => some (.error e)
  | _ => none

theorem builtId_of_result {m : Manager} {i : Nat} {id : UInt32}
    (h : m.createJobResult i = some (.ok id)) : m.builtId i = some id := by
  unfold createJobResult at h
  split at h
  · rename_i hi
    obtain ⟨id', hid, heq⟩ := Option.map_eq_some_iff.mp h
    cases heq
    simp [builtId, builtBy, hi, Call.built?, hid]
  · cases h
  · cases h

/-- No two calls have built one job. -/
structure Built (m : Manager) : Prop where
  exclusive : Exclusive m.builtBy
  old : ∀ i h, m.builtBy i = some h → h < m.shared.jobIds.length

/-- A step leaves what was built, or call `i` builds the next job. -/
theorem step_builtBy {m m' : Manager} {l : Label} (h : m.step l = some m') :
    (∀ i, m'.builtBy i = m.builtBy i) ∧ m'.shared.jobIds = m.shared.jobIds ∨
      ∃ i id, m.builtBy i = none ∧ m'.builtBy i = some m.shared.jobIds.length ∧
        (∀ j, j ≠ i → m'.builtBy j = m.builtBy j) ∧
        m'.shared.jobIds = m.shared.jobIds ++ [id] := by
  cases l with
  | call op =>
    obtain rfl := Option.some.inj h
    refine Or.inl ⟨fun i => ?_, rfl⟩
    have hnew : op.begin.built? = none := by cases op <;> rfl
    by_cases hi : i = m.calls.length
    · subst hi
      simp [builtBy, hnew]
    · simp only [builtBy, getElem?_concat_ne hi]
  | step i now =>
    obtain ⟨c, s', c', hi, hs, rfl⟩ := step_call_inv h
    obtain ⟨hlt, -⟩ := List.getElem?_eq_some_iff.mp hi
    have hother : ∀ j, j ≠ i →
        builtBy { shared := s', calls := m.calls.set i c' } j = m.builtBy j := by
      intro j hj
      simp only [builtBy, List.getElem?_set_ne (Ne.symm hj)]
    have hself : builtBy { shared := s', calls := m.calls.set i c' } i = c'.built? := by
      simp [builtBy, hlt]
    have hbefore : m.builtBy i = c.built? := by simp [builtBy, hi]
    rcases Call.step_built hs with ⟨hsame, hids⟩ | ⟨id, hnew, hnone, hids⟩
    · refine Or.inl ⟨fun j => ?_, hids⟩
      by_cases hj : j = i
      · rw [hj, hself, hbefore, hsame]
      · exact hother j hj
    · exact Or.inr ⟨i, id, hbefore.trans hnone, hself.trans hnew, hother, hids⟩

theorem Built.step {m m' : Manager} {l : Label} (hm : m.Built) (h : m.step l = some m') :
    m'.Built := by
  rcases step_builtBy h with ⟨hsame, hids⟩ | ⟨i, id, -, hnew, hother, hids⟩
  · refine ⟨hm.exclusive.mono fun i h hi => ?_, fun i h hi => ?_⟩
    · rw [← hsame]
      exact hi
    · rw [hsame] at hi
      rw [hids]
      exact hm.old i h hi
  · have hcases : ∀ j h, m'.builtBy j = some h →
        j = i ∧ h = m.shared.jobIds.length ∨ m.builtBy j = some h := by
      intro j h hj
      by_cases hji : j = i
      · subst hji
        exact Or.inl ⟨rfl, Option.some.inj (hj.symm.trans hnew)⟩
      · exact Or.inr ((hother j hji).symm.trans hj)
    refine ⟨hm.exclusive.of_new (fun j hj => ?_) hcases, fun j h hj => ?_⟩
    · exact Nat.lt_irrefl _ (hm.old j _ hj)
    · rw [hids, List.length_append, List.length_singleton]
      rcases hcases j h hj with ⟨-, rfl⟩ | hold
      · exact Nat.lt_succ_self _
      · exact Nat.lt_succ_of_lt (hm.old j h hold)

theorem built_initial {m : Manager} (h : Initial m) : m.Built := by
  obtain ⟨-, -, hcalls⟩ := h
  have hnone : ∀ i, m.builtBy i = none := fun i => by simp [builtBy, hcalls]
  refine ⟨fun i i' h hi => ?_, fun i h hi => ?_⟩
  · rw [hnone] at hi
    cases hi
  · rw [hnone] at hi
    cases hi

/-- What a call has built stays its job, under the id that it has. -/
theorem builtId_step {m m' : Manager} {l : Label} (h : m.step l = some m') {i : Nat}
    {id : UInt32} (hi : m.builtId i = some id) : m'.builtId i = some id := by
  obtain ⟨r, hr, hid⟩ := Option.bind_eq_some_iff.mp hi
  rcases step_builtBy h with ⟨hsame, hids⟩ | ⟨j, new, hnone, -, hother, hids⟩
  · rw [builtId, hsame, hr, hids]
    exact hid
  · have hij : i ≠ j := by
      rintro rfl
      rw [hnone] at hr
      cases hr
    rw [builtId, hother i hij, hr, hids]
    exact getElem?_concat_of_some hid

end Manager

/-! ## Counting all increments -/

/-- The manager, where its counter started, and how often it was incremented. -/
structure Metered where
  manager : Manager
  first : UInt32
  drawn : Nat

namespace Metered

/-- The step increments the counter. -/
def draws (x : Metered) : Manager.Label → Bool
  | .call _ => false
  | .step i _ => ((x.manager.calls[i]?).bind Call.fetchAdd?).isSome

def machine : StepMachine Metered Manager.Label where
  Init x := Manager.Initial x.manager ∧ x.first = x.manager.shared.nextJobId ∧ x.drawn = 0
  step x l := (x.manager.step l).map fun m =>
    { x with manager := m, drawn := if x.draws l then x.drawn + 1 else x.drawn }

/-- The counter is incremented `2 ^ 32` times at most. -/
def InFirstTurn (x : Metered) (l : Manager.Label) : Prop :=
  x.draws l = true → x.drawn < 2 ^ 32

instance (x : Metered) (l : Manager.Label) : Decidable (InFirstTurn x l) :=
  inferInstanceAs (Decidable (x.draws l = true → x.drawn < 2 ^ 32))

/-- What the counter shows after `k` increments. -/
def shown (x : Metered) (k : Nat) : Nat := Cycle.after (2 ^ 32) x.first.toNat k

/-- Everybody has an id of their own, and all ids come from the counter. -/
structure Numbered (x : Metered) : Prop where
  next : x.manager.shared.nextJobId.toNat = x.shown x.drawn
  exclusive : Exclusive x.manager.idOf
  issued : ∀ o id, x.manager.idOf o = some id →
    id ≠ 0 ∧ ∃ k < x.drawn, id.toNat = x.shown k
  skipped : ∀ (i : Nat) (c : Call), x.manager.calls[i]? = some c → c.redraws = true →
    ∃ k < x.drawn, x.shown k = 0

theorem numbered_initial {x : Metered} (h : machine.Init x) : Numbered x := by
  obtain ⟨⟨hhandles, -, hcalls⟩, hfirst, hdrawn⟩ := h
  have hnone : ∀ o, x.manager.idOf o = none := by
    intro o
    cases o <;> simp [Manager.idOf, Shared.jobIds, hhandles, hcalls]
  refine ⟨?_, ?_, ?_, ?_⟩
  · rw [← hfirst, hdrawn, shown, Cycle.after_zero x.first.toNat_lt]
  · intro o o' id ho
    simp [hnone o] at ho
  · intro o id ho
    simp [hnone o] at ho
  · intro i c hi
    simp [hcalls] at hi

/-- A step that does not touch the counter, after which ids have changed hands or were
given up. -/
theorem Numbered.of_moved {x : Metered} (hx : Numbered x) {m : Manager}
    {origin : IdHolder → IdHolder} (hinj : Function.Injective origin)
    (hnext : m.shared.nextJobId = x.manager.shared.nextJobId)
    (hmoved : ∀ o id, m.idOf o = some id → x.manager.idOf (origin o) = some id)
    (hredraw : ∀ (i : Nat) (c : Call), m.calls[i]? = some c → c.redraws = true →
      ∃ c' : Call, x.manager.calls[i]? = some c' ∧ c'.redraws = true) :
    Numbered { x with manager := m } := by
  refine ⟨?_, hx.exclusive.of_moved hinj hmoved, ?_, ?_⟩
  · show m.shared.nextJobId.toNat = _
    rw [hnext]
    exact hx.next
  · exact fun o id ho => hx.issued (origin o) id (hmoved o id ho)
  · intro i c hi hc
    obtain ⟨c', hi', hc'⟩ := hredraw i c hi hc
    exact hx.skipped i c' hi' hc'

/-- Within one turn the counter shows something that it has not shown before. -/
theorem shown_ne {x : Metered} (hturn : x.drawn < 2 ^ 32) {k : Nat} (hk : k < x.drawn) :
    x.shown k ≠ x.shown x.drawn := by
  intro heq
  have := Cycle.eq_of_after_eq (Nat.lt_trans hk hturn) hturn heq
  omega

/-- A call increments the counter. -/
theorem Numbered.of_draw {x : Metered} (hx : Numbered x) (hturn : x.drawn < 2 ^ 32)
    {i : Nat} {c c' : Call} (hi : x.manager.calls[i]? = some c)
    (hcand : ∀ id, c'.candidate = some id →
      id = x.manager.shared.nextJobId ∧ (id = 0 → c.redraws = true))
    (hredraw : c'.redraws = true → x.manager.shared.nextJobId = 0) :
    Numbered
      { x with
        manager :=
          { shared :=
              { x.manager.shared with nextJobId := x.manager.shared.nextJobId + 1 }
            calls := x.manager.calls.set i c' }
        drawn := x.drawn + 1 } := by
  have hnew : ∀ o id, Manager.idOf
      { shared := { x.manager.shared with nextJobId := x.manager.shared.nextJobId + 1 }
        calls := x.manager.calls.set i c' } o = some id →
      o = .call i ∧ c'.candidate = some id ∨ x.manager.idOf o = some id := by
    intro o id ho
    cases o with
    | job h => exact Or.inr ho
    | call j =>
      obtain ⟨d, hj, hd⟩ := Option.bind_eq_some_iff.mp ho
      rcases getElem?_set_cases hj with ⟨rfl, rfl⟩ | ⟨-, hj⟩
      · exact Or.inl ⟨rfl, hd⟩
      · exact Or.inr (Option.bind_eq_some_iff.mpr ⟨d, hj, hd⟩)
  refine ⟨?_, ?_, ?_, ?_⟩
  · show (x.manager.shared.nextJobId + 1).toNat = Cycle.after _ _ (x.drawn + 1)
    rw [UInt32.toNat_add, hx.next, shown, ← Cycle.after_after]
    rfl
  · refine hx.exclusive.of_new (w := .call i) (y := x.manager.shared.nextJobId) ?_ ?_
    · intro o ho
      obtain ⟨-, k, hk, hshown⟩ := hx.issued o _ ho
      exact shown_ne hturn hk (hshown.symm.trans hx.next)
    · intro o id ho
      exact (hnew o id ho).imp_left fun ⟨ho, hc'⟩ => ⟨ho, (hcand id hc').1⟩
  · intro o id ho
    rcases hnew o id ho with ⟨-, hc'⟩ | hold
    · obtain ⟨rfl, hzero⟩ := hcand id hc'
      refine ⟨fun h0 => ?_, x.drawn, Nat.lt_succ_self _, hx.next⟩
      -- the counter was at 0 when the call drew for the first time
      obtain ⟨k, hk, hshown⟩ := hx.skipped i c hi (hzero h0)
      have hagain : x.shown x.drawn = 0 := by
        rw [← hx.next, h0]
        rfl
      exact shown_ne hturn hk (hshown.trans hagain.symm)
    · obtain ⟨hne, k, hk, hshown⟩ := hx.issued o id hold
      exact ⟨hne, k, Nat.lt_succ_of_lt hk, hshown⟩
  · intro j d hj hd
    rcases getElem?_set_cases hj with ⟨rfl, rfl⟩ | ⟨-, hj⟩
    · refine ⟨x.drawn, Nat.lt_succ_self _, ?_⟩
      show x.shown x.drawn = 0
      rw [← hx.next, hredraw hd]
      rfl
    · obtain ⟨k, hk, hshown⟩ := hx.skipped j d hj hd
      exact ⟨k, Nat.lt_succ_of_lt hk, hshown⟩

/-- The origin of an id after call `i` has inserted job `h`. -/
def handedOver (i : Nat) (h : JobRef) : IdHolder → IdHolder
  | .job k => if k = h then .call i else .job k
  | .call j => if j = i then .job h else .call j

theorem handedOver_injective (i : Nat) (h : JobRef) :
    Function.Injective (handedOver i h) := by
  apply Function.Involutive.injective
  intro o
  cases o with
  | job k =>
    by_cases hk : k = h
    · simp [handedOver, hk]
    · simp [handedOver, hk]
  | call j =>
    by_cases hj : j = i
    · simp [handedOver, hj]
    · simp [handedOver, hj]

theorem numbered_step {x x' : Metered} {l : Manager.Label} (hx : Numbered x)
    (hturn : InFirstTurn x l) (hstep : machine.step x l = some x') : Numbered x' := by
  simp only [machine, Option.map_eq_some_iff] at hstep
  obtain ⟨m', hm', rfl⟩ := hstep
  cases l with
  | call op =>
    obtain rfl := Option.some.inj hm'
    have hop : op.begin.candidate = none ∧ op.begin.redraws = false := by
      cases op <;> exact ⟨rfl, rfl⟩
    refine hx.of_moved Function.injective_id rfl ?_ ?_
    · intro o id ho
      cases o with
      | job h => exact ho
      | call j =>
        obtain ⟨d, hj, hd⟩ := Option.bind_eq_some_iff.mp ho
        rcases getElem?_concat_cases hj with hj | ⟨-, rfl⟩
        · exact Option.bind_eq_some_iff.mpr ⟨d, hj, hd⟩
        · rw [hop.1] at hd
          cases hd
    · intro j d hj hd
      rcases getElem?_concat_cases hj with hj | ⟨-, rfl⟩
      · exact ⟨d, hj, hd⟩
      · rw [hop.2] at hd
        cases hd
  | step i now =>
    obtain ⟨c, s', c', hi, hs, rfl⟩ := Manager.step_call_inv hm'
    have hact := Call.step_act hs
    by_cases hdraw : c.action = .draw
    · have hdraws : x.draws (.step i now) = true := by
        simpa [draws, hi] using Call.draw_iff.mp hdraw
      rw [hdraw] at hact
      rw [hact, if_pos hdraws]
      refine hx.of_draw (hturn hdraws) hi ?_ fun hre => (Call.step_redraws hs hre).2
      intro id hid
      rcases Call.step_candidate hs hid with ⟨-, hstay⟩ | ⟨-, hnext, hzero⟩
      · cases hdraw.symm.trans hstay
      · exact ⟨hnext, hzero⟩
    · have hdraws : x.draws (.step i now) = false := by
        simpa [draws, hi] using mt Call.draw_iff.mpr hdraw
      rw [hdraws]
      have hredraw : ∀ (j : Nat) (d : Call), (x.manager.calls.set i c')[j]? = some d →
          d.redraws = true → ∃ d' : Call, x.manager.calls[j]? = some d' ∧ d'.redraws = true := by
        intro j d hj hd
        rcases getElem?_set_cases hj with ⟨rfl, rfl⟩ | ⟨-, hj⟩
        · exact absurd (Call.step_redraws hs hd).1 hdraw
        · exact ⟨d, hj, hd⟩
      have hnext : s'.nextJobId = x.manager.shared.nextJobId := by
        rw [hact, Shared.nextJobId_act, if_neg hdraw]
      have hcand : ∀ id, c'.candidate = some id → c.candidate = some id ∧ c.action = .stay :=
        fun id hid => (Call.step_candidate hs hid).resolve_right fun hnew => hdraw hnew.1
      rcases x.manager.shared.jobIds_act now c.action with
        ⟨id, timeout, hins, hids⟩ | ⟨-, hids⟩
      · -- the id goes from the call to the new job
        obtain rfl := Call.eq_insert_of_action hins
        refine hx.of_moved (handedOver_injective i x.manager.shared.jobIds.length) hnext ?_ hredraw
        intro o k ho
        cases o with
        | job h =>
          have hget : (x.manager.shared.jobIds ++ [id])[h]? = some k := by
            rw [← hids, ← hact]
            exact ho
          rcases getElem?_concat_cases hget with hold | ⟨rfl, rfl⟩
          · have hlt : h ≠ x.manager.shared.jobIds.length :=
              Nat.ne_of_lt (List.getElem?_eq_some_iff.mp hold).1
            simpa [handedOver, hlt, Manager.idOf] using hold
          · simp [handedOver, Manager.idOf, hi, Call.candidate]
        | call j =>
          obtain ⟨d, hj, hd⟩ := Option.bind_eq_some_iff.mp ho
          rcases getElem?_set_cases hj with ⟨rfl, rfl⟩ | ⟨hne, hj⟩
          · cases (hcand k hd).2
          · simp only [handedOver, hne, if_false]
            exact Option.bind_eq_some_iff.mpr ⟨d, hj, hd⟩
      · refine hx.of_moved Function.injective_id hnext ?_ hredraw
        intro o k ho
        cases o with
        | job h =>
          rw [hact] at ho
          exact (congrArg (fun ids => ids[h]?) hids).symm.trans ho
        | call j =>
          obtain ⟨d, hj, hd⟩ := Option.bind_eq_some_iff.mp ho
          rcases getElem?_set_cases hj with ⟨rfl, rfl⟩ | ⟨-, hj⟩
          · exact Option.bind_eq_some_iff.mpr ⟨c, hi, (hcand k hd).1⟩
          · exact Option.bind_eq_some_iff.mpr ⟨d, hj, hd⟩

theorem numbered_reach {x : Metered} (hx : machine.Reach InFirstTurn x) : Numbered x :=
  hx.invariant (fun _ => numbered_initial) fun _ _ _ hs hc hstep => numbered_step hs hc hstep

theorem built_reach {C : Metered → Manager.Label → Prop} {x : Metered}
    (hx : machine.Reach C x) : x.manager.Built := by
  refine hx.invariant (I := fun x => x.manager.Built) ?_ ?_
  · exact fun x hinit => Manager.built_initial hinit.1
  · intro x l x' hbuilt _ hstep
    obtain ⟨m, hm, rfl⟩ := Option.map_eq_some_iff.mp hstep
    exact hbuilt.step hm

theorem Numbered.jobIds_nodup {x : Metered} (hx : Numbered x) :
    x.manager.shared.jobIds.Nodup := by
  apply nodup_of_exclusive
  intro h h' id hget hget'
  exact IdHolder.job.inj (hx.exclusive (.job h) (.job h') id hget hget')

/-- No id is used twice.  In every run with at most `2 ^ 32` increments of the counter, the
ids of all jobs that were ever built are different from each other and from 0. -/
theorem jobIds_distinct {x : Metered} (hx : machine.Reach InFirstTurn x) :
    x.manager.shared.jobIds.Nodup ∧ 0 ∉ x.manager.shared.jobIds := by
  have hnum := numbered_reach hx
  refine ⟨hnum.jobIds_nodup, fun hmem => ?_⟩
  obtain ⟨h, hh⟩ := List.mem_iff_getElem?.mp hmem
  exact (hnum.issued (.job h) 0 hh).1 rfl

/-- A counter that is about to wrap, and two calls that each create a job. -/
def aboutToWrap : Metered where
  manager :=
    { shared :=
        { handles := []
          jobs := ∅
          nextJobId := 0xFFFFFFFF
          maxConcurrentJobs := 50
          lastJobCreated := 0
          shards := ⟨1, fun _ => 0, fun _ => Nat.one_pos⟩ }
      calls := [] }
  first := 0xFFFFFFFF
  drawn := 0

theorem aboutToWrap_initial : machine.Init aboutToWrap := ⟨⟨rfl, rfl, rfl⟩, rfl, rfl⟩

/-- The first job is removed before the second one is created, which draws twice. -/
theorem jobIds_distinct_wrap :
    ∃ x, machine.Reach InFirstTurn x ∧ x.manager.shared.jobs.keys = [1] ∧
      x.manager.shared.jobIds = [0xFFFFFFFF, 1] ∧ x.manager.shared.jobIds.Nodup := by
  obtain ⟨x, hx, hprop⟩ := StepMachine.reach_of_runIf machine InFirstTurn aboutToWrap_initial
    [.call (.createJob none), .step 0 1, .step 0 1, .step 0 1, .step 0 1,
      .call (.cleanupJob 0xFFFFFFFF), .step 1 2, .step 1 2, .step 1 2,
      .call (.createJob none), .step 2 3, .step 2 3, .step 2 3, .step 2 3, .step 2 3]
    (fun x => (x.manager.shared.jobs.keys == [1]) &&
      (x.manager.shared.jobIds == [0xFFFFFFFF, 1]))
    (by decide +kernel)
  simp only [Bool.and_eq_true, beq_iff_eq] at hprop
  exact ⟨x, hx, hprop.1, hprop.2, (jobIds_distinct hx).1⟩

end Metered

end RemoteAgent.JobManager
