import RemoteAgent.CodeLib.Lists
import RemoteAgent.JobManager.Actions
import RemoteAgent.JobManager.Ledger

/-!
# The life of a job over whole runs

For any number of jobs and any order of the atomic steps of any number of
calls: each handle starts in `Created` and moves along the transition table, a
terminal state and its completion time are final, and while nobody holds the
state lock a completion time is recorded exactly for the terminal states.

The argument has three parts.

* `Call.step_cases` says once what a step of a call can do.  It is a step inside
  `transition_state`, or it builds a handle, or it writes no state and no
  completion time at all.
* `Inv` is the invariant.  State locks exclude each other, and a
  `transition_state` between its check and its last write still sees the state
  that it checked.  `inv_reachable` is its induction.
* `Manager.ledger` is what the handles say about their jobs.  `ledger_step` is
  the refinement: a step of the machine moves the ledger by one of its steps.
  The write of the state is where a transition happens; the writes before it
  are not seen.  The results about whole runs are read off the laws of the
  ledger.
-/

namespace RemoteAgent.JobManager

open CodeLib

/-! ## What a step of a call can do -/

/-- The state and the completion time of a handle. -/
def Shared.core (s : Shared) (h : JobRef) : Option (JobState × Option SystemTime) :=
  (s.handles[h]?).map fun a => (a.state, a.completedAt)

/-- What a handle says about its job, if it is built. -/
def Shared.entry (s : Shared) (h : JobRef) : Option Entry :=
  (s.handles[h]?).bind JobHandle.entry

theorem Shared.entry_of_core {s : Shared} {h : JobRef} {st : JobState}
    {t : Option SystemTime} (hc : s.core h = some (st, t)) :
    s.entry h = Entry.read st t := by
  simp only [Shared.core, Option.map_eq_some_iff, Prod.mk.injEq] at hc
  obtain ⟨a, ha, rfl, rfl⟩ := hc
  rw [Shared.entry, ha]
  rfl

theorem Shared.entry_of_core_none {s : Shared} {h : JobRef} (hc : s.core h = none) :
    s.entry h = none := by
  rw [Shared.core, Option.map_eq_none_iff] at hc
  rw [Shared.entry, hc]
  rfl

/-- The core of a handle decides what the handle says. -/
theorem Shared.entry_congr {s s' : Shared} {h : JobRef} (hc : s'.core h = s.core h) :
    s'.entry h = s.entry h := by
  cases hs : s.core h with
  | none => rw [entry_of_core_none hs, entry_of_core_none (hc.trans hs)]
  | some c => rw [entry_of_core hs, entry_of_core (hc.trans hs)]

theorem Shared.core_of_ended {s : Shared} {h : JobRef} {st : JobState}
    {hst : st.isTerminal = true} {now : SystemTime}
    (he : s.entry h = some (.ended st hst now)) : s.core h = some (st, some now) := by
  cases hs : s.core h with
  | none => simp [entry_of_core_none hs] at he
  | some c =>
    rw [entry_of_core hs] at he
    exact congrArg some (Entry.read_eq_ended he)

/-- The `transition_state` that a call is in: its own, or the one inside
`cancel_job`. -/
def Call.transition? : Call → Option (UInt32 × JobState × TransitionPc)
  | .transitionState id new pc => some (id, new, pc)
  | .cancelJob id (.transition pc) => some (id, .canceled, pc)
  | _ => none

theorem Call.holdsState_of_transition {c : Call} {id : UInt32} {new : JobState}
    {pc : TransitionPc} (h : c.transition? = some (id, new, pc)) :
    c.holdsState = pc.holdsState := by
  unfold Call.transition? at h
  split at h
  · simp only [Option.some.injEq, Prod.mk.injEq] at h
    obtain ⟨rfl, rfl, rfl⟩ := h
    rfl
  · simp only [Option.some.injEq, Prod.mk.injEq] at h
    obtain ⟨rfl, rfl, rfl⟩ := h
    rfl
  · exact absurd h (by simp)

/-- The handle that a `transition_state` is about to write. -/
def TransitionPc.writes : TransitionPc → Option JobRef
  | .writeActivity h _ | .writeCompleted h _ _ | .writeState h _ => some h
  | _ => none

theorem TransitionPc.holdsState_of_writes {pc : TransitionPc} {h : JobRef}
    (hw : pc.writes = some h) : pc.holdsState = some h := by
  cases pc <;> simp_all [TransitionPc.writes, TransitionPc.holdsState]

/-- The handle that a call is about to write in `transition_state`. -/
def Call.writes (c : Call) : Option JobRef :=
  match c.transition? with
  | some (_, _, pc) => pc.writes
  | none => none

theorem Call.writes_of_transition {c : Call} {id : UInt32} {new : JobState}
    {pc : TransitionPc} (h : c.transition? = some (id, new, pc)) :
    c.writes = pc.writes := by
  simp only [Call.writes, h]

theorem Call.holdsState_of_writes {c : Call} {h : JobRef} (hw : c.writes = some h) :
    c.holdsState = some h := by
  cases ht : c.transition? with
  | none => simp [Call.writes, ht] at hw
  | some x =>
    obtain ⟨id, new, pc⟩ := x
    rw [Call.writes_of_transition ht] at hw
    rw [Call.holdsState_of_transition ht]
    exact TransitionPc.holdsState_of_writes hw

/-- Writes that keep the state and the completion time of the handle keep the
core of every handle. -/
theorem Shared.core_modify_of_keep (s : Shared) (h : JobRef)
    {f : JobHandle → JobHandle} (hstate : ∀ a, (f a).state = a.state)
    (hcompleted : ∀ a, (f a).completedAt = a.completedAt) (k : JobRef) :
    (s.modify h f).core k = s.core k := by
  unfold Shared.core
  rw [Shared.modify_handles]
  split
  · cases s.handles[k]? <;> simp [hstate, hcompleted]
  · rfl

@[simp] theorem Shared.core_cancel (s : Shared) (h k : JobRef) :
    (s.modify h JobHandle.cancel).core k = s.core k :=
  s.core_modify_of_keep h (f := JobHandle.cancel) (fun _ => rfl) (fun _ => rfl) k

@[simp] theorem Shared.core_touch (s : Shared) (h k : JobRef) (now : SystemTime) :
    (s.modify h (JobHandle.touch now)).core k = s.core k :=
  s.core_modify_of_keep h (f := JobHandle.touch now) (fun _ => rfl) (fun _ => rfl) k

theorem Shared.core_modify_ne (s : Shared) {h k : JobRef} (hne : k ≠ h)
    (f : JobHandle → JobHandle) : (s.modify h f).core k = s.core k := by
  unfold Shared.core
  rw [Shared.modify_handles, if_neg (Ne.symm hne)]

/-- The effect of a step that is neither inside `transition_state` nor builds a
handle: no state and no completion time changes, a `transition_state` starts at
its beginning or has returned, and a state lock is taken only when it is free. -/
structure Call.Plain (held : Held) (s s' : Shared) (c c' : Call) : Prop where
  core : ∀ h, s'.core h = s.core h
  writes : c.writes = none
  start : ∀ id new pc, c'.transition? = some (id, new, pc) → pc = .getJob
  lock : ∀ h, c'.holdsState = some h → c.holdsState = some h ∨ h ∉ held.states

/-- The writes that are left to the other functions keep the core of every handle. -/
theorem Shared.core_act (s : Shared) (now : SystemTime) {a : Action}
    (h : a.plain = true) (k : JobRef) : (s.act now a).core k = s.core k := by
  cases a with
  | stay | remove id => rfl
  | touch r => exact s.core_touch r k now
  | cancel r => exact s.core_cancel r k
  | complete r t | enter r new | draw | insert id timeout | created t => cases h

/-- A step of `create_job` builds a handle at the end of the list, or it leaves
all handles alone. -/
theorem CreatePc.step_handles {held : Held} {now : SystemTime}
    {timeout : Option Duration} {s s' : Shared} {pc pc' : CreatePc}
    (h : pc.step held now timeout s = some (s', pc')) :
    s'.handles = s.handles ∨
      ∃ id, s'.handles = s.handles ++ [JobHandle.create id timeout now] := by
  rw [CreatePc.step_act h]
  cases pc with
  | insert id => exact Or.inr ⟨id, rfl⟩
  | _ => exact Or.inl rfl

/-- `cleanup_idle_jobs` takes a state lock only when it is free. -/
theorem IdlePc.step_lock {held : Held} {now : SystemTime} {idle quiet : Duration}
    {s s' : Shared} {pc pc' : IdlePc}
    (h : pc.step held now idle quiet s = some (s', pc')) {k : JobRef}
    (hk : pc'.holdsState = some k) : pc.holdsState = some k ∨ k ∉ held.states := by
  unfold IdlePc.step at h
  split at h
  case h_10 =>
    simp only [Option.map_eq_some_iff, Prod.mk.injEq] at h
    obtain ⟨⟨s₁, pc₁⟩, hs, -, rfl⟩ := h
    exact absurd hk (by simp [IdlePc.holdsState])
  all_goals
    repeat' split at h
    all_goals first
      | (simp only [Option.some.injEq, Prod.mk.injEq] at h
         obtain ⟨-, rfl⟩ := h
         simp_all [IdlePc.holdsState])
      | exact absurd h (by simp)

/-- A step that builds a handle leaves the core of the others alone. -/
theorem Shared.core_append {s s' : Shared} {a : JobHandle}
    (h : s'.handles = s.handles ++ [a]) (k : JobRef) :
    s'.core k = if k = s.handles.length then some (a.state, a.completedAt)
      else s.core k := by
  unfold Shared.core
  rw [h]
  by_cases hk : k = s.handles.length
  · rw [if_pos hk, hk]
    simp
  · rw [if_neg hk, getElem?_concat_ne hk]

/-- The steps of `cancel_job` outside its `transition_state`. -/
theorem CancelPc.step_plain {held : Held} {now : SystemTime} {id : UInt32}
    {s s' : Shared} {pc pc' : CancelPc}
    (h : pc.step held now id s = some (s', pc'))
    (hpc : ∀ q, pc = .transition q → ∃ r, q = .ret r) :
    Call.Plain held s s' (.cancelJob id pc) (.cancelJob id pc') := by
  cases pc with
  | getJob =>
    simp only [CancelPc.step] at h
    split at h <;>
      (simp only [Option.some.injEq, Prod.mk.injEq] at h
       obtain ⟨rfl, rfl⟩ := h
       exact ⟨fun _ => rfl, rfl, by simp [Call.transition?], by simp [Call.holdsState]⟩)
  | lockState r =>
    simp only [CancelPc.step] at h
    split at h
    · exact absurd h (by simp)
    · rename_i hfree
      simp only [Option.some.injEq, Prod.mk.injEq] at h
      obtain ⟨rfl, rfl⟩ := h
      refine ⟨fun _ => rfl, rfl, by simp [Call.transition?], ?_⟩
      intro k hk
      obtain rfl : r = k := by simpa [Call.holdsState] using hk
      exact Or.inr hfree
  | checkTerminal r =>
    simp only [CancelPc.step] at h
    split at h
    · exact absurd h (by simp)
    · split at h <;>
        (simp only [Option.some.injEq, Prod.mk.injEq] at h
         obtain ⟨rfl, rfl⟩ := h
         exact ⟨fun _ => rfl, rfl, by simp [Call.transition?], by simp [Call.holdsState]⟩)
  | cancelToken r =>
    simp only [CancelPc.step, Option.some.injEq, Prod.mk.injEq] at h
    obtain ⟨rfl, rfl⟩ := h
    refine ⟨fun k => s.core_cancel r k, rfl, ?_, ?_⟩
    · intro _ _ pc hpc'
      simp only [Call.transition?, Option.some.injEq, Prod.mk.injEq] at hpc'
      exact hpc'.2.2.symm
    · simp [Call.holdsState, TransitionPc.holdsState]
  | transition q =>
    obtain ⟨r, rfl⟩ := hpc q rfl
    simp only [CancelPc.step, Option.some.injEq, Prod.mk.injEq] at h
    obtain ⟨rfl, rfl⟩ := h
    exact ⟨fun _ => rfl, rfl, by simp [Call.transition?], by simp [Call.holdsState]⟩
  | ret r => exact absurd h (by simp [CancelPc.step])

/-- A step of `cancel_job` inside its `transition_state`. -/
theorem CancelPc.step_transition {held : Held} {now : SystemTime} {id : UInt32}
    {s s' : Shared} {q : TransitionPc} {pc' : CancelPc} (hq : ∀ r, q ≠ .ret r)
    (h : (CancelPc.transition q).step held now id s = some (s', pc')) :
    ∃ q', q.step held now id .canceled s = some (s', q') ∧
      pc' = .transition q' := by
  have hstep : (CancelPc.transition q).step held now id s =
      (q.step held now id .canceled s).map fun r => (r.1, .transition r.2) := by
    cases q with
    | ret r => exact absurd rfl (hq r)
    | _ => rfl
  rw [hstep] at h
  simp only [Option.map_eq_some_iff, Prod.mk.injEq] at h
  obtain ⟨⟨s₁, q'⟩, hs, rfl, rfl⟩ := h
  exact ⟨q', hs, rfl⟩

/-- What a step of a call can do: a step inside `transition_state`, the
construction of a handle, or nothing to any state and completion time. -/
theorem Call.step_cases {held : Held} {now : SystemTime} {s s' : Shared}
    {c c' : Call} (h : c.step held now s = some (s', c')) :
    (∃ id new pc pc', c.transition? = some (id, new, pc) ∧
        pc.step held now id new s = some (s', pc') ∧
        c'.transition? = some (id, new, pc')) ∨
      (∃ id timeout, s'.handles = s.handles ++ [JobHandle.create id timeout now] ∧
        c.writes = none ∧ c'.transition? = none ∧ c'.holdsState = none) ∨
      Call.Plain held s s' c c' := by
  cases c with
  | createJob timeout pc =>
    simp only [Call.step, Option.map_eq_some_iff, Prod.mk.injEq] at h
    obtain ⟨⟨s₁, pc'⟩, hs, rfl, rfl⟩ := h
    rcases CreatePc.step_handles hs with hsame | ⟨id, hnew⟩
    · refine Or.inr (Or.inr ⟨?_, rfl, by simp [Call.transition?], by simp [Call.holdsState]⟩)
      intro k
      simp only [Shared.core, hsame]
    · exact Or.inr (Or.inl ⟨id, timeout, hnew, rfl, rfl, rfl⟩)
  | transitionState id new pc =>
    simp only [Call.step, Option.map_eq_some_iff, Prod.mk.injEq] at h
    obtain ⟨⟨s₁, pc'⟩, hs, rfl, rfl⟩ := h
    exact Or.inl ⟨id, new, pc, pc', rfl, hs, rfl⟩
  | cancelJob id pc =>
    simp only [Call.step, Option.map_eq_some_iff, Prod.mk.injEq] at h
    obtain ⟨⟨s₁, pc'⟩, hs, rfl, rfl⟩ := h
    by_cases hin : ∃ q, pc = .transition q ∧ ∀ r, q ≠ .ret r
    · obtain ⟨q, rfl, hq⟩ := hin
      obtain ⟨q', hs', rfl⟩ := CancelPc.step_transition hq hs
      exact Or.inl ⟨id, .canceled, q, q', rfl, hs', rfl⟩
    · refine Or.inr (Or.inr (CancelPc.step_plain hs ?_))
      intro q hq
      by_contra hret
      exact hin ⟨q, hq, fun r hr => hret ⟨r, hr⟩⟩
  | cleanupJob id pc =>
    simp only [Call.step, Option.map_eq_some_iff, Prod.mk.injEq] at h
    obtain ⟨⟨s₁, pc'⟩, hs, rfl, rfl⟩ := h
    rw [CleanupPc.step_act now hs]
    exact Or.inr (Or.inr ⟨s.core_act now (pc.action_plain id), rfl,
      by simp [Call.transition?], by simp [Call.holdsState]⟩)
  | cleanupIdleJobs idle quiet pc =>
    simp only [Call.step, Option.map_eq_some_iff, Prod.mk.injEq] at h
    obtain ⟨⟨s₁, pc'⟩, hs, rfl, rfl⟩ := h
    rw [IdlePc.step_act now hs]
    exact Or.inr (Or.inr ⟨s.core_act now pc.action_plain, rfl,
      by simp [Call.transition?], fun k hk => IdlePc.step_lock hs hk⟩)
  | forceCleanupAll pc =>
    simp only [Call.step, Option.map_eq_some_iff, Prod.mk.injEq] at h
    obtain ⟨⟨s₁, pc'⟩, hs, rfl, rfl⟩ := h
    rw [ForcePc.step_act now hs]
    exact Or.inr (Or.inr ⟨s.core_act now pc.action_plain, rfl,
      by simp [Call.transition?], by simp [Call.holdsState]⟩)
  | updateActivity id pc =>
    simp only [Call.step, Option.map_eq_some_iff, Prod.mk.injEq] at h
    obtain ⟨⟨s₁, pc'⟩, hs, rfl, rfl⟩ := h
    rw [ActivityPc.step_act hs]
    exact Or.inr (Or.inr ⟨s.core_act now pc.action_plain, rfl,
      by simp [Call.transition?], by simp [Call.holdsState]⟩)

/-! ## The invariant -/

/-- Between its check and its last write a `transition_state` still sees the
state that it checked, and the completion time that it has or has not written. -/
def TransitionPc.Sound (s : Shared) (new : JobState) : TransitionPc → Prop
  | .writeActivity h old => s.core h = some (old, none) ∧ old.canTransitionTo new = true
  | .writeCompleted h old _ =>
    s.core h = some (old, none) ∧ old.canTransitionTo new = true ∧ new.isTerminal = true
  | .writeState h old =>
    ∃ t, s.core h = some (old, t) ∧ old.canTransitionTo new = true ∧
      t.isSome = new.isTerminal
  | _ => True

/-- `Sound` speaks of the core of the handle that is about to be written only. -/
theorem TransitionPc.Sound.congr {s s' : Shared} {new : JobState} {pc : TransitionPc}
    (hs : pc.Sound s new) (hcore : ∀ h, pc.writes = some h → s'.core h = s.core h) :
    pc.Sound s' new := by
  cases pc with
  | writeActivity h old =>
    simpa only [TransitionPc.Sound, hcore h rfl] using hs
  | writeCompleted h old t =>
    simpa only [TransitionPc.Sound, hcore h rfl] using hs
  | writeState h old =>
    simpa only [TransitionPc.Sound, hcore h rfl] using hs
  | _ => trivial

/-- What a `transition_state` is about to write exists and has not ended. -/
theorem TransitionPc.Sound.active {s : Shared} {new : JobState} {pc : TransitionPc}
    (hs : pc.Sound s new) {h : JobRef} (hw : pc.writes = some h) :
    ∃ st t, s.core h = some (st, t) ∧ st.isTerminal = false := by
  cases pc with
  | writeActivity r old =>
    obtain rfl : r = h := by simpa [TransitionPc.writes] using hw
    exact ⟨old, none, hs.1, JobState.isTerminal_eq_false_of_canTransitionTo hs.2⟩
  | writeCompleted r old t =>
    obtain rfl : r = h := by simpa [TransitionPc.writes] using hw
    exact ⟨old, none, hs.1, JobState.isTerminal_eq_false_of_canTransitionTo hs.2.1⟩
  | writeState r old =>
    obtain rfl : r = h := by simpa [TransitionPc.writes] using hw
    obtain ⟨t, hcore, hcan, -⟩ := hs
    exact ⟨old, t, hcore, JobState.isTerminal_eq_false_of_canTransitionTo hcan⟩
  | _ => simp [TransitionPc.writes] at hw

theorem Shared.core_modify_self (s : Shared) {h : JobRef} {f : JobHandle → JobHandle}
    {st : JobState} {t : Option SystemTime} (hc : s.core h = some (st, t)) :
    ∃ a, s.handles[h]? = some a ∧ a.state = st ∧ a.completedAt = t ∧
      (s.modify h f).core h = some ((f a).state, (f a).completedAt) := by
  unfold Shared.core at hc
  cases ha : s.handles[h]? with
  | none => simp [ha] at hc
  | some a =>
    simp only [ha, Option.map_some, Option.some.injEq, Prod.mk.injEq] at hc
    refine ⟨a, rfl, hc.1, hc.2, ?_⟩
    unfold Shared.core
    rw [Shared.modify_handles, if_pos rfl, ha]
    rfl

/-- What a step of a `transition_state` does: it goes on seeing what it checked,
it moves no core but that of the handle it writes, and that one as the ledger
allows, it takes the lock only when it is free, and when it has written last the
handle is coupled again. -/
structure TransitionPc.Spec (held : Held) (new : JobState) (s s' : Shared)
    (pc pc' : TransitionPc) : Prop where
  sound : pc'.Sound s' new
  keeps : ∀ k, pc.writes ≠ some k → s'.core k = s.core k
  moves : ∀ k, pc.writes = some k → Entry.Move (s.entry k) (s'.entry k)
  locks : ∀ k, pc'.holdsState = some k → pc.holdsState = some k ∨ k ∉ held.states
  last : ∀ k st t, pc.writes = some k → s'.core k = some (st, t) →
    pc'.writes = some k ∨ t.isSome = st.isTerminal

/-- A step that leaves the handles alone, and after which nothing is locked that
was not. -/
theorem TransitionPc.Spec.of_same {held : Held} {new : JobState} {s : Shared}
    {pc pc' : TransitionPc} (hsound : pc'.Sound s new)
    (hlocks : ∀ k, pc'.holdsState = some k → pc.holdsState = some k ∨ k ∉ held.states)
    (hwrites : pc.writes = none) : TransitionPc.Spec held new s s pc pc' where
  sound := hsound
  keeps := fun _ _ => rfl
  moves := fun k hk => by simp [hwrites] at hk
  locks := hlocks
  last := fun k st t hk => by simp [hwrites] at hk

/-- A step that writes to the one handle `h` and keeps its lock. -/
theorem TransitionPc.Spec.of_write {held : Held} {new : JobState} {s : Shared}
    {pc pc' : TransitionPc} {h : JobRef} {f : JobHandle → JobHandle}
    (hsound : pc'.Sound (s.modify h f) new) (hwrites : pc.writes = some h)
    (hmove : Entry.Move (s.entry h) ((s.modify h f).entry h))
    (hlocks : pc'.holdsState = pc.holdsState)
    (hlast : pc'.writes = some h ∨
      ∀ st t, (s.modify h f).core h = some (st, t) → t.isSome = st.isTerminal) :
    TransitionPc.Spec held new s (s.modify h f) pc pc' where
  sound := hsound
  keeps := fun k hk => s.core_modify_ne (fun heq => hk (by rw [hwrites, heq])) f
  moves := by
    intro k hk
    obtain rfl : h = k := Option.some.inj (hwrites.symm.trans hk)
    exact hmove
  locks := by
    intro k hk
    rw [hlocks] at hk
    exact Or.inl hk
  last := by
    intro k st t hk hcore'
    obtain rfl : h = k := Option.some.inj (hwrites.symm.trans hk)
    rcases hlast with hw | hdone
    · exact Or.inl hw
    · exact Or.inr (hdone st t hcore')

theorem TransitionPc.step_spec {held : Held} {now : SystemTime} {id : UInt32}
    {new : JobState} {s s' : Shared} {pc pc' : TransitionPc}
    (hstep : pc.step held now id new s = some (s', pc')) (hsound : pc.Sound s new)
    (hcoupled : ∀ h st t, pc = .check h → s.core h = some (st, t) →
      t.isSome = st.isTerminal) : TransitionPc.Spec held new s s' pc pc' := by
  cases pc with
  | getJob =>
    simp only [TransitionPc.step] at hstep
    split at hstep <;>
      (simp only [Option.some.injEq, Prod.mk.injEq] at hstep
       obtain ⟨rfl, rfl⟩ := hstep
       exact .of_same trivial (by simp [TransitionPc.holdsState]) rfl)
  | lockState h =>
    simp only [TransitionPc.step] at hstep
    split at hstep
    · exact absurd hstep (by simp)
    · rename_i hfree
      simp only [Option.some.injEq, Prod.mk.injEq] at hstep
      obtain ⟨rfl, rfl⟩ := hstep
      refine .of_same trivial ?_ rfl
      intro k hk
      obtain rfl : h = k := by simpa [TransitionPc.holdsState] using hk
      exact Or.inr hfree
  | check h =>
    simp only [TransitionPc.step] at hstep
    split at hstep
    · exact absurd hstep (by simp)
    · rename_i a ha
      split at hstep
      · rename_i hcan
        simp only [Option.some.injEq, Prod.mk.injEq] at hstep
        obtain ⟨rfl, rfl⟩ := hstep
        have hcore : s.core h = some (a.state, a.completedAt) := by
          simp [Shared.core, ha]
        have hnone : a.completedAt = none := by
          have hc := hcoupled h a.state a.completedAt rfl hcore
          rw [JobState.isTerminal_eq_false_of_canTransitionTo hcan] at hc
          simpa using hc
        exact .of_same ⟨by rw [hcore, hnone], hcan⟩ (fun k hk => Or.inl hk) rfl
      · simp only [Option.some.injEq, Prod.mk.injEq] at hstep
        obtain ⟨rfl, rfl⟩ := hstep
        exact .of_same trivial (by simp [TransitionPc.holdsState]) rfl
  | writeActivity h old =>
    simp only [TransitionPc.step, Option.some.injEq, Prod.mk.injEq] at hstep
    obtain ⟨rfl, rfl⟩ := hstep
    obtain ⟨hcore, hcan⟩ := hsound
    have hkeep : (s.modify h (JobHandle.touch now)).core h = some (old, none) := by
      rw [Shared.core_touch, hcore]
    refine .of_write ?_ rfl ?_ ?_ ?_
    · split
      · rename_i hterm
        exact ⟨hkeep, hcan, hterm⟩
      · rename_i hterm
        exact ⟨none, hkeep, hcan, by simpa using hterm⟩
    · rw [Shared.entry_congr (s.core_touch h h now)]
      exact .stay _
    · split <;> rfl
    · split <;> exact Or.inl rfl
  | writeCompleted h old t₀ =>
    simp only [TransitionPc.step, Option.some.injEq, Prod.mk.injEq] at hstep
    obtain ⟨rfl, rfl⟩ := hstep
    obtain ⟨hcore, hcan, hterm⟩ := hsound
    have hold := JobState.isTerminal_eq_false_of_canTransitionTo hcan
    obtain ⟨a, -, hst, -, hnew⟩ := s.core_modify_self
      (f := fun a => { a with completedAt := some t₀ }) hcore
    simp only [hst] at hnew
    refine .of_write ⟨some t₀, hnew, hcan, by simpa using hterm.symm⟩ rfl ?_ rfl
      (Or.inl rfl)
    -- the time is written, but the job has not ended yet
    rw [Shared.entry_of_core hcore, Shared.entry_of_core hnew,
      Entry.read_of_active hold, Entry.read_of_active hold]
    exact .stay _
  | writeState h old =>
    simp only [TransitionPc.step, Option.some.injEq, Prod.mk.injEq] at hstep
    obtain ⟨rfl, rfl⟩ := hstep
    obtain ⟨t₀, hcore, hcan, hterm⟩ := hsound
    obtain ⟨a, -, -, ht, hnew⟩ := s.core_modify_self
      (f := fun a => { a with state := new }) hcore
    simp only [ht] at hnew
    refine .of_write trivial rfl ?_ rfl (Or.inr ?_)
    · rw [Shared.entry_of_core hcore, Shared.entry_of_core hnew]
      exact .of_read hcan hterm
    · -- the last write couples the handle again
      intro st t hcore'
      rw [hnew] at hcore'
      simp only [Option.some.injEq, Prod.mk.injEq] at hcore'
      obtain ⟨rfl, rfl⟩ := hcore'
      exact hterm
  | unlock h old =>
    simp only [TransitionPc.step, Option.some.injEq, Prod.mk.injEq] at hstep
    obtain ⟨rfl, rfl⟩ := hstep
    exact .of_same trivial (by simp [TransitionPc.holdsState]) rfl
  | ret r => exact absurd hstep (by simp [TransitionPc.step])

namespace Manager

/-- State locks exclude each other; a `transition_state` between its check and
its last write sees what it checked; and a handle that no call is about to
write is coupled. -/
structure Inv (m : Manager) : Prop where
  exclusive : ∀ (i j : Nat) (c d : Call) (h : JobRef), m.calls[i]? = some c → m.calls[j]? = some d →
    c.holdsState = some h → d.holdsState = some h → i = j
  sound : ∀ (i : Nat) (c : Call) id new pc, m.calls[i]? = some c →
    c.transition? = some (id, new, pc) → pc.Sound m.shared new
  coupled : ∀ h st t, m.shared.core h = some (st, t) →
    (∀ (i : Nat) (c : Call), m.calls[i]? = some c → c.writes ≠ some h) →
    t.isSome = st.isTerminal

theorem mem_held_states {m : Manager} {i : Nat} {c : Call} {h : JobRef}
    (hc : m.calls[i]? = some c) (hh : c.holdsState = some h) : h ∈ m.held.states :=
  List.mem_filterMap.mpr ⟨c, List.mem_of_getElem? hc, hh⟩

theorem inv_initial {m : Manager} (h : Initial m) : Inv m := by
  obtain ⟨hh, -, hc⟩ := h
  refine ⟨?_, ?_, ?_⟩
  · intro i j c d h hi
    simp [hc] at hi
  · intro i c id new pc hi
    simp [hc] at hi
  · intro h st t hcore
    simp [Shared.core, hh] at hcore

/-- A new call holds no lock and is about to write nothing. -/
theorem Op.begin_idle (op : Op) :
    op.begin.holdsState = none ∧ op.begin.writes = none ∧
      ∀ id new pc, op.begin.transition? = some (id, new, pc) → pc = .getJob := by
  cases op <;> simp [Op.begin, Call.holdsState, Call.writes, Call.transition?,
    TransitionPc.holdsState, TransitionPc.writes, IdlePc.holdsState]

theorem inv_call {m : Manager} (hinv : Inv m) (op : Op) :
    Inv { m with calls := m.calls ++ [op.begin] } := by
  obtain ⟨hhold, hwrites, hstart⟩ := Op.begin_idle op
  refine ⟨?_, ?_, ?_⟩
  · intro i j c d h hi hj hc hd
    rcases getElem?_concat_cases hi with hi | ⟨-, rfl⟩
    · rcases getElem?_concat_cases hj with hj | ⟨-, rfl⟩
      · exact hinv.exclusive i j c d h hi hj hc hd
      · exact absurd hd (by simp [hhold])
    · exact absurd hc (by simp [hhold])
  · intro i c id new pc hi ht
    rcases getElem?_concat_cases hi with hi | ⟨-, rfl⟩
    · exact hinv.sound i c id new pc hi ht
    · rw [hstart id new pc ht]
      trivial
  · intro h st t hcore hfree
    refine hinv.coupled h st t hcore ?_
    intro i c hi
    exact hfree i c (getElem?_concat_of_some hi)

/-- A step of call `i` that holds locks only as `hlock` says keeps the exclusion
of state locks. -/
theorem exclusive_set {m : Manager} (hinv : Inv m) {i : Nat} {c c' : Call}
    (hi : m.calls[i]? = some c)
    (hlock : ∀ h, c'.holdsState = some h →
      c.holdsState = some h ∨ h ∉ m.held.states) :
    ∀ (j k : Nat) (d e : Call) (h : JobRef), (m.calls.set i c')[j]? = some d →
      (m.calls.set i c')[k]? = some e → d.holdsState = some h → e.holdsState = some h → j = k := by
  -- a lock that call `i` holds after its step is held by no other call
  have hother : ∀ (j : Nat) (d : Call) h, j ≠ i → m.calls[j]? = some d →
      c'.holdsState = some h → d.holdsState ≠ some h := by
    intro j d h hji hj hc' hd
    rcases hlock h hc' with hc | hfree
    · exact hji (hinv.exclusive j i d c h hj hi hd hc)
    · exact hfree (mem_held_states hj hd)
  intro j k d e h hj hk hd he
  rcases getElem?_set_cases hj with ⟨hji, rfl⟩ | ⟨hji, hj'⟩
  · rcases getElem?_set_cases hk with ⟨hki, -⟩ | ⟨hki, hk'⟩
    · rw [hji, hki]
    · exact absurd he (hother k e h hki hk' hd)
  · rcases getElem?_set_cases hk with ⟨hki, rfl⟩ | ⟨hki, hk'⟩
    · exact absurd hd (hother j d h hji hj' he)
    · exact hinv.exclusive j k d e h hj' hk' hd he

/-- Calls other than `i` keep seeing what they checked when only the core of
handles that nobody else writes has moved. -/
theorem sound_set {m : Manager} (hinv : Inv m) {i : Nat} {c' : Call} {s' : Shared}
    (hself : ∀ id new pc, c'.transition? = some (id, new, pc) → pc.Sound s' new)
    (hcore : ∀ (j : Nat) (d : Call) h, j ≠ i → m.calls[j]? = some d → d.writes = some h →
      s'.core h = m.shared.core h) :
    ∀ (j : Nat) (d : Call) id new pc, (m.calls.set i c')[j]? = some d →
      d.transition? = some (id, new, pc) → pc.Sound s' new := by
  intro j d id new pc hj ht
  rcases getElem?_set_cases hj with ⟨rfl, rfl⟩ | ⟨hji, hj⟩
  · exact hself id new pc ht
  · refine (hinv.sound j d id new pc hj ht).congr ?_
    intro h hw
    exact hcore j d h hji hj (by rw [Call.writes_of_transition ht]; exact hw)

/-- At its check a `transition_state` is alone with a coupled handle. -/
theorem coupled_of_check {m : Manager} (hinv : Inv m) {i : Nat} {c : Call}
    {id : UInt32} {new : JobState} {pc : TransitionPc} (hi : m.calls[i]? = some c)
    (ht : c.transition? = some (id, new, pc)) {h : JobRef} {st : JobState}
    {t : Option SystemTime} (hpc : pc = .check h)
    (hcore : m.shared.core h = some (st, t)) : t.isSome = st.isTerminal := by
  refine hinv.coupled h st t hcore ?_
  intro j d hj hw
  have hji : j = i := by
    refine hinv.exclusive j i d c h hj hi (Call.holdsState_of_writes hw) ?_
    rw [Call.holdsState_of_transition ht, hpc]
    rfl
  subst hji
  rw [Option.some.inj (hj.symm.trans hi), Call.writes_of_transition ht, hpc] at hw
  exact absurd hw (by simp [TransitionPc.writes])

/-- A handle that nobody is about to write after a step of call `i` was not
about to be written before it, unless by that call. -/
theorem coupled_set {m : Manager} (hinv : Inv m) {i : Nat} {c c' : Call}
    (hi : m.calls[i]? = some c) {h : JobRef} {st : JobState} {t : Option SystemTime}
    (hcore : m.shared.core h = some (st, t)) (hself : c.writes ≠ some h)
    (hfree : ∀ (j : Nat) (d : Call), (m.calls.set i c')[j]? = some d → d.writes ≠ some h) :
    t.isSome = st.isTerminal := by
  refine hinv.coupled h st t hcore ?_
  intro j d hj
  by_cases hji : j = i
  · subst hji
    rw [Option.some.inj (hj.symm.trans hi)]
    exact hself
  · apply hfree j d
    rw [List.getElem?_set_ne (Ne.symm hji)]
    exact hj

/-- The invariant after a step inside `transition_state`. -/
theorem inv_transition {m : Manager} (hinv : Inv m) {i : Nat} {c c' : Call} {s' : Shared}
    (hi : m.calls[i]? = some c) {id : UInt32} {new : JobState} {pc pc' : TransitionPc}
    (ht : c.transition? = some (id, new, pc)) (ht' : c'.transition? = some (id, new, pc'))
    (hspec : TransitionPc.Spec m.held new m.shared s' pc pc') :
    Inv { m with shared := s', calls := m.calls.set i c' } := by
  have hwc := Call.writes_of_transition ht
  refine ⟨exclusive_set hinv hi ?_, sound_set hinv ?_ ?_, ?_⟩
  · intro h hh
    rw [Call.holdsState_of_transition ht'] at hh
    rw [Call.holdsState_of_transition ht]
    exact hspec.locks h hh
  · intro id₁ new₁ pc₁ ht₁
    rw [ht'] at ht₁
    simp only [Option.some.injEq, Prod.mk.injEq] at ht₁
    obtain ⟨-, rfl, rfl⟩ := ht₁
    exact hspec.sound
  · intro j d h hji hj hw
    apply hspec.keeps h
    rw [← hwc]
    intro hcw
    exact hji (hinv.exclusive j i d c h hj hi (Call.holdsState_of_writes hw)
      (Call.holdsState_of_writes hcw))
  · intro h st t hcore hfree
    by_cases hw : pc.writes = some h
    · rcases hspec.last h st t hw hcore with hw' | hdone
      · -- the call is still about to write
        have hget : (m.calls.set i c')[i]? = some c' := by
          obtain ⟨hlt, -⟩ := List.getElem?_eq_some_iff.mp hi
          simp [hlt]
        refine absurd ?_ (hfree i c' hget)
        rw [Call.writes_of_transition ht']
        exact hw'
      · exact hdone
    · refine coupled_set hinv hi ?_ (by rw [hwc]; exact hw) hfree
      rw [← hspec.keeps h hw]
      exact hcore

/-- The invariant after `create_job` has built a handle. -/
theorem inv_create {m : Manager} (hinv : Inv m) {i : Nat} {c c' : Call} {s' : Shared}
    (hi : m.calls[i]? = some c) {id : UInt32} {timeout : Option Duration}
    {now : SystemTime}
    (hnew : s'.handles = m.shared.handles ++ [JobHandle.create id timeout now])
    (hcw : c.writes = none) (ht' : c'.transition? = none) (hhold' : c'.holdsState = none) :
    Inv { m with shared := s', calls := m.calls.set i c' } := by
  have hcore := Shared.core_append hnew
  refine ⟨exclusive_set hinv hi (by simp [hhold']), sound_set hinv (by simp [ht']) ?_, ?_⟩
  · -- a handle that another call is about to write is not the new one
    intro j d h hji hj hw
    cases htd : d.transition? with
    | none => simp [Call.writes, htd] at hw
    | some x =>
      obtain ⟨idd, newd, pcd⟩ := x
      rw [Call.writes_of_transition htd] at hw
      obtain ⟨st, t, hst, -⟩ := (hinv.sound j d idd newd pcd hj htd).active hw
      rw [hcore h, if_neg]
      rintro rfl
      simp [Shared.core] at hst
  · intro h st t hcore' hfree
    by_cases hh : h = m.shared.handles.length
    · rw [hcore h, if_pos hh] at hcore'
      simp only [JobHandle.create, Option.some.injEq, Prod.mk.injEq] at hcore'
      obtain ⟨rfl, rfl⟩ := hcore'
      rfl
    · rw [hcore h, if_neg hh] at hcore'
      exact coupled_set hinv hi hcore' (by simp [hcw]) hfree

/-- The invariant after a step that it does not speak of. -/
theorem inv_plain {m : Manager} (hinv : Inv m) {i : Nat} {c c' : Call} {s' : Shared}
    (hi : m.calls[i]? = some c) (hplain : Call.Plain m.held m.shared s' c c') :
    Inv { m with shared := s', calls := m.calls.set i c' } := by
  refine ⟨exclusive_set hinv hi hplain.lock, sound_set hinv ?_ ?_, ?_⟩
  · intro id new pc ht
    rw [hplain.start id new pc ht]
    trivial
  · intro j d h _ _ _
    exact hplain.core h
  · intro h st t hcore hfree
    rw [hplain.core h] at hcore
    exact coupled_set hinv hi hcore (by simp [hplain.writes]) hfree

theorem inv_step {m m' : Manager} {l : Label} (hinv : Inv m)
    (hstep : m.step l = some m') : Inv m' := by
  cases l with
  | call op =>
    obtain rfl := Option.some.inj hstep
    exact inv_call hinv op
  | step i now =>
    obtain ⟨c, s', c', hi, hs, rfl⟩ := step_call_inv hstep
    rcases Call.step_cases hs with
      ⟨id, new, pc, pc', ht, hpc, ht'⟩ | ⟨id, timeout, hnew, hcw, ht', hhold'⟩ | hplain
    · refine inv_transition hinv hi ht ht' ?_
      exact TransitionPc.step_spec hpc (hinv.sound i c id new pc hi ht)
        fun _ _ _ hpc' hcore => coupled_of_check hinv hi ht hpc' hcore
    · exact inv_create hinv hi hnew hcw ht' hhold'
    · exact inv_plain hinv hi hplain

theorem inv_path {m m' : Manager} {ls : List Label} (hinv : Inv m)
    (hp : machine.Path StepMachine.Any m ls m') : Inv m' :=
  hp.invariant (fun _ _ _ h _ hstep => inv_step h hstep) hinv

theorem inv_reachable {m : Manager} (h : machine.Reachable m) : Inv m :=
  h.invariant (fun _ => inv_initial) (fun _ _ _ hi _ hstep => inv_step hi hstep)

/-! ## The refinement -/

/-- What the handles say about their jobs. -/
def ledger (m : Manager) : Ledger JobRef := m.shared.entry

/-- A step that leaves every core alone leaves the ledger alone. -/
theorem ledger_stay {m m' : Manager} (h : ∀ k, m'.shared.core k = m.shared.core k) :
    Ledger.Step m.ledger m'.ledger := by
  have hsame : m'.ledger = m.ledger := funext fun k => Shared.entry_congr (h k)
  rw [hsame]
  exact ⟨0, .stay _, fun _ _ => rfl⟩

/-- Every step of the machine is a step of the ledger. -/
theorem ledger_step {m m' : Manager} {l : Label} (hinv : Inv m)
    (hstep : m.step l = some m') : Ledger.Step m.ledger m'.ledger := by
  cases l with
  | call op =>
    obtain rfl := Option.some.inj hstep
    exact ledger_stay fun _ => rfl
  | step i now =>
    obtain ⟨c, s', c', hi, hs, rfl⟩ := step_call_inv hstep
    rcases Call.step_cases hs with
      ⟨id, new, pc, pc', ht, hpc, ht'⟩ | ⟨id, timeout, hnew, -, -, -⟩ | hplain
    · have hspec := TransitionPc.step_spec hpc (hinv.sound i c id new pc hi ht)
        fun _ _ _ hpc' hcore => coupled_of_check hinv hi ht hpc' hcore
      cases hw : pc.writes with
      | none => exact ledger_stay fun k => hspec.keeps k (by simp [hw])
      | some h =>
        refine ⟨h, hspec.moves h hw, ?_⟩
        intro k hk
        apply Shared.entry_congr
        apply hspec.keeps k
        rw [hw]
        exact fun heq => hk (Option.some.inj heq).symm
    · have hcore := Shared.core_append hnew
      refine ⟨m.shared.handles.length, ?_, ?_⟩
      · have hnone : m.shared.core m.shared.handles.length = none := by
          simp [Shared.core]
        have hcreated : s'.core m.shared.handles.length = some (.created, none) := by
          rw [hcore, if_pos rfl]
          rfl
        show Entry.Move (m.shared.entry _) (s'.entry _)
        rw [Shared.entry_of_core_none hnone, Shared.entry_of_core hcreated]
        exact .create
      · intro k hk
        apply Shared.entry_congr
        rw [hcore k, if_neg hk]
    · exact ledger_stay hplain.core

/-- The ledger over a run. -/
theorem ledger_path {m m' : Manager} {ls : List Label} (hinv : Inv m)
    (hp : machine.Path StepMachine.Any m ls m') :
    Relation.ReflTransGen Ledger.Step m.ledger m'.ledger :=
  hp.refines (fun _ _ _ h _ hstep => inv_step h hstep)
    (fun _ _ _ h _ hstep => ledger_step h hstep) hinv

/-! ## States and completion times over a run -/

/-- A terminal state has its completion time, whoever holds the lock. -/
theorem completed_of_terminal {m : Manager} (hinv : Inv m) {h : JobRef} {st : JobState}
    {t : Option SystemTime} (hcore : m.shared.core h = some (st, t))
    (hterm : st.isTerminal = true) : ∃ now, t = some now := by
  have hcoupled : t.isSome = st.isTerminal := by
    refine hinv.coupled h st t hcore ?_
    intro i c hi hw
    -- a call that is about to write has checked that the state is not terminal
    cases ht : c.transition? with
    | none => simp [Call.writes, ht] at hw
    | some x =>
      obtain ⟨id, new, pc⟩ := x
      rw [Call.writes_of_transition ht] at hw
      obtain ⟨st', t', hcore', hactive⟩ := (hinv.sound i c id new pc hi ht).active hw
      rw [hcore] at hcore'
      simp only [Option.some.injEq, Prod.mk.injEq] at hcore'
      rw [← hcore'.1, hterm] at hactive
      exact absurd hactive (by simp)
  rw [hterm] at hcoupled
  exact Option.isSome_iff_exists.mp hcoupled

/-- A terminal state and its completion time are final. -/
theorem core_final {m m' : Manager} {ls : List Label} (hinv : Inv m)
    (hp : machine.Path StepMachine.Any m ls m') {h : JobRef} {st : JobState}
    {t : Option SystemTime} (hcore : m.shared.core h = some (st, t))
    (hterm : st.isTerminal = true) : m'.shared.core h = some (st, t) := by
  obtain ⟨now, rfl⟩ := completed_of_terminal hinv hcore hterm
  have hended : m.ledger h = some (.ended st hterm now) := by
    rw [ledger, Shared.entry_of_core hcore, Entry.read_of_ended hterm]
  have hended' := Ledger.ended_of_steps (ledger_path hinv hp) hended
  exact Shared.core_of_ended hended'

/-- The state of a handle, if it is built. -/
def stateOf (h : JobRef) (m : Manager) : Option JobState :=
  (m.shared.core h).map Prod.fst

/-- The sequence of states that a handle goes through in a run. -/
def history (m₀ : Manager) (ls : List Label) (h : JobRef) : List JobState :=
  ((machine.states m₀ ls).filterMap (stateOf h)).destutter (· ≠ ·)

/-- A sequence of states that starts in `Created` and follows the table. -/
def IsLifePath : List JobState → Prop
  | [] => True
  | st :: rest =>
    st = .created ∧
      List.IsChain (fun old new => JobState.canTransitionTo old new = true) (st :: rest)

/-- The ledger has the state of every handle. -/
theorem ledger_stateOf {m : Manager} (hinv : Inv m) (h : JobRef) :
    Ledger.stateOf h m.ledger = stateOf h m := by
  rw [Ledger.stateOf, ledger, stateOf]
  cases hcore : m.shared.core h with
  | none => rw [Shared.entry_of_core_none hcore]; rfl
  | some c =>
    obtain ⟨st, t⟩ := c
    rw [Shared.entry_of_core hcore]
    cases hterm : st.isTerminal with
    | false => rw [Entry.read_of_active hterm]; rfl
    | true =>
      obtain ⟨now, rfl⟩ := completed_of_terminal hinv hcore hterm
      rw [Entry.read_of_ended hterm]
      rfl

/-- The ledgers of a run follow each other by steps. -/
theorem ledgers_isChain {m m' : Manager} {ls : List Label} (hinv : Inv m)
    (hp : machine.Path StepMachine.Any m ls m') :
    List.IsChain Ledger.Step ((machine.states m ls).map ledger) := by
  rw [List.isChain_map]
  exact hp.isChain_states (fun _ _ _ h _ hstep => inv_step h hstep)
    (fun _ _ _ h _ hstep => ledger_step h hstep) hinv

/-- Every handle lives along the table, from `Created` on. -/
theorem history_isLifePath {m m' : Manager} {ls : List Label}
    (hp : machine.Path StepMachine.Any m ls m') (hinv : Inv m) {h : JobRef}
    (hnone : m.shared.core h = none) : IsLifePath (history m ls h) := by
  have hinvs : ∀ u ∈ machine.states m ls, Inv u :=
    hp.forall_states (fun _ _ _ h _ hstep => inv_step h hstep) hinv
  have hstates : (machine.states m ls).filterMap (stateOf h) =
      ((machine.states m ls).map ledger).filterMap (Ledger.stateOf h) := by
    rw [List.filterMap_map]
    exact List.filterMap_congr fun u hu => (ledger_stateOf (hinvs u hu) h).symm
  obtain ⟨Ls, hLs⟩ : ∃ Ls, (machine.states m ls).map ledger = m.ledger :: Ls := by
    cases ls <;> exact ⟨_, rfl⟩
  have hchain := ledgers_isChain hinv hp
  rw [hLs] at hchain
  unfold history
  rw [hstates, hLs]
  rcases Ledger.states_isChain_of_none hchain (Shared.entry_of_core_none hnone) with
    hempty | ⟨rest, hrest, hlife⟩
  · rw [hempty]
    trivial
  · obtain ⟨rest', hrest', hlife'⟩ := isChain_destutter rest .created hlife
    rw [hrest, hrest']
    exact ⟨rfl, hlife'⟩

end Manager

/-! ## A refused transition writes nothing -/

/-- What `transition_state` writes of a handle. -/
def Shared.record (s : Shared) (h : JobRef) :
    Option (JobState × Option SystemTime × SystemTime) :=
  (s.handles[h]?).map fun a => (a.state, a.completedAt, a.lastActivity)

theorem Shared.record_cancel (s : Shared) (h k : JobRef) :
    (s.modify h JobHandle.cancel).record k = s.record k := by
  unfold Shared.record
  rw [Shared.modify_handles]
  split
  · cases s.handles[k]? <;> rfl
  · rfl

/-- The check has passed: the call can only return `Ok` now. -/
def TransitionPc.committed : TransitionPc → Bool
  | .writeActivity _ _ | .writeCompleted _ _ _ | .writeState _ _ | .unlock _ _
  | .ret (.ok _) => true
  | _ => false

/-- A `transition_state`, alone or inside `cancel_job`, that may still return an
error. -/
def Call.mayFail : Call → Bool
  | .transitionState _ _ pc => !pc.committed
  | .cancelJob _ (.transition pc) => !pc.committed
  | .cancelJob _ (.ret _) => false
  | .cancelJob _ _ => true
  | _ => false

theorem Call.mayFail_of_error {c : Call} {id : UInt32} {new : JobState} {e : Error}
    (h : c.transition? = some (id, new, .ret (.error e))) : c.mayFail = true := by
  unfold Call.transition? at h
  split at h
  · simp only [Option.some.injEq, Prod.mk.injEq] at h
    rw [Call.mayFail, h.2.2]
    rfl
  · simp only [Option.some.injEq, Prod.mk.injEq] at h
    rw [Call.mayFail, h.2.2]
    rfl
  · exact absurd h (by simp)

/-- A step after which an error is still possible has written nothing, and an
error was possible before it. -/
theorem TransitionPc.step_mayFail {held : Held} {now : SystemTime} {id : UInt32}
    {new : JobState} {s s' : Shared} {pc pc' : TransitionPc}
    (hstep : pc.step held now id new s = some (s', pc')) (h' : pc'.committed = false) :
    pc.committed = false ∧ s' = s := by
  cases pc with
  | getJob =>
    simp only [TransitionPc.step] at hstep
    split at hstep <;>
      (simp only [Option.some.injEq, Prod.mk.injEq] at hstep; exact ⟨rfl, hstep.1.symm⟩)
  | lockState h =>
    simp only [TransitionPc.step] at hstep
    split at hstep
    · exact absurd hstep (by simp)
    · simp only [Option.some.injEq, Prod.mk.injEq] at hstep
      exact ⟨rfl, hstep.1.symm⟩
  | check h =>
    simp only [TransitionPc.step] at hstep
    split at hstep
    · exact absurd hstep (by simp)
    · split at hstep <;>
        (simp only [Option.some.injEq, Prod.mk.injEq] at hstep; exact ⟨rfl, hstep.1.symm⟩)
  | writeActivity h old =>
    simp only [TransitionPc.step, Option.some.injEq, Prod.mk.injEq] at hstep
    obtain ⟨-, rfl⟩ := hstep
    split at h' <;> exact absurd h' (by simp [TransitionPc.committed])
  | writeCompleted h old t =>
    simp only [TransitionPc.step, Option.some.injEq, Prod.mk.injEq] at hstep
    obtain ⟨-, rfl⟩ := hstep
    exact absurd h' (by simp [TransitionPc.committed])
  | writeState h old =>
    simp only [TransitionPc.step, Option.some.injEq, Prod.mk.injEq] at hstep
    obtain ⟨-, rfl⟩ := hstep
    exact absurd h' (by simp [TransitionPc.committed])
  | unlock h old =>
    simp only [TransitionPc.step, Option.some.injEq, Prod.mk.injEq] at hstep
    obtain ⟨-, rfl⟩ := hstep
    exact absurd h' (by simp [TransitionPc.committed])
  | ret r => exact absurd hstep (by simp [TransitionPc.step])

theorem Call.step_mayFail {held : Held} {now : SystemTime} {s s' : Shared}
    {c c' : Call} (hstep : c.step held now s = some (s', c'))
    (h' : c'.mayFail = true) :
    c.mayFail = true ∧ ∀ k, s'.record k = s.record k := by
  cases c with
  | transitionState id new pc =>
    simp only [Call.step, Option.map_eq_some_iff, Prod.mk.injEq] at hstep
    obtain ⟨⟨s₁, pc'⟩, hs, rfl, rfl⟩ := hstep
    obtain ⟨hpc, rfl⟩ := TransitionPc.step_mayFail hs (by simpa [Call.mayFail] using h')
    exact ⟨by simp [Call.mayFail, hpc], fun _ => rfl⟩
  | cancelJob id pc =>
    simp only [Call.step, Option.map_eq_some_iff, Prod.mk.injEq] at hstep
    obtain ⟨⟨s₁, pc'⟩, hs, rfl, rfl⟩ := hstep
    by_cases hin : ∃ q, pc = .transition q ∧ ∀ r, q ≠ .ret r
    · obtain ⟨q, rfl, hq⟩ := hin
      obtain ⟨q', hs', rfl⟩ := CancelPc.step_transition hq hs
      obtain ⟨hpc, rfl⟩ := TransitionPc.step_mayFail hs' (by simpa [Call.mayFail] using h')
      exact ⟨by simp [Call.mayFail, hpc], fun _ => rfl⟩
    · cases pc with
      | getJob =>
        simp only [CancelPc.step] at hs
        split at hs <;>
          (simp only [Option.some.injEq, Prod.mk.injEq] at hs
           exact ⟨rfl, fun _ => by rw [hs.1]⟩)
      | lockState r =>
        simp only [CancelPc.step] at hs
        split at hs
        · exact absurd hs (by simp)
        · simp only [Option.some.injEq, Prod.mk.injEq] at hs
          exact ⟨rfl, fun _ => by rw [hs.1]⟩
      | checkTerminal r =>
        simp only [CancelPc.step] at hs
        split at hs
        · exact absurd hs (by simp)
        · split at hs <;>
            (simp only [Option.some.injEq, Prod.mk.injEq] at hs
             exact ⟨rfl, fun _ => by rw [hs.1]⟩)
      | cancelToken r =>
        simp only [CancelPc.step, Option.some.injEq, Prod.mk.injEq] at hs
        refine ⟨rfl, fun k => ?_⟩
        rw [← hs.1]
        exact s.record_cancel r k
      | transition q =>
        obtain ⟨r, rfl⟩ : ∃ r, q = .ret r := by
          by_contra hret
          exact hin ⟨q, rfl, fun r hr => hret ⟨r, hr⟩⟩
        simp only [CancelPc.step, Option.some.injEq, Prod.mk.injEq] at hs
        rw [← hs.2] at h'
        exact absurd h' (by simp [Call.mayFail])
      | ret r => exact absurd hs (by simp [CancelPc.step])
  | createJob | cleanupJob | cleanupIdleJobs | forceCleanupAll | updateActivity =>
    simp only [Call.step, Option.map_eq_some_iff, Prod.mk.injEq] at hstep
    obtain ⟨x, -, -, rfl⟩ := hstep
    exact absurd h' (by simp [Call.mayFail])

namespace Manager

/-- A call that can no longer fail never can again. -/
theorem mayFail_path {m m' : Manager} {ls : List Label}
    (hp : machine.Path StepMachine.Any m ls m') {i : Nat} {c c' : Call}
    (hi : m.calls[i]? = some c) (hi' : m'.calls[i]? = some c')
    (h' : c'.mayFail = true) : c.mayFail = true := by
  induction hp generalizing c with
  | nil m => rw [Option.some.inj (hi.symm.trans hi')]; exact h'
  | @cons m u m' l ls _ hstep _ ih =>
    cases l with
    | call op =>
      obtain rfl := Option.some.inj hstep
      exact ih (getElem?_concat_of_some hi) hi'
    | step j now =>
      obtain ⟨d, s₁, d', hj, hs, rfl⟩ := step_call_inv hstep
      by_cases hji : j = i
      · subst hji
        obtain rfl := Option.some.inj (hj.symm.trans hi)
        obtain ⟨hlt, -⟩ := List.getElem?_eq_some_iff.mp hi
        have hd' : d'.mayFail = true := ih (by simp [hlt]) hi'
        exact (Call.step_mayFail hs hd').1
      · exact ih (by rw [List.getElem?_set_ne hji]; exact hi) hi'

/-- The life of every job over every run: its states start in `Created` and
follow the table; a terminal state and its completion time are final; a
completion time is recorded exactly for the terminal states whenever nobody
holds the state lock; and the steps of a `transition_state` that returns an
error write no state, no completion time and no activity time. -/
theorem lifecycle {m₀ m : Manager} {ls : List Label} (h₀ : machine.Init m₀)
    (hrun : machine.Path StepMachine.Any m₀ ls m) :
    (∀ h, IsLifePath (history m₀ ls h)) ∧
    (∀ (h : JobRef) (a : JobHandle), m.shared.handles[h]? = some a →
      a.state.isTerminal = true →
      ∀ ls' m', machine.Path StepMachine.Any m ls' m' →
        ∃ a' : JobHandle, m'.shared.handles[h]? = some a' ∧ a'.state = a.state ∧
          a'.completedAt = a.completedAt) ∧
    (∀ (h : JobRef) (a : JobHandle), m.shared.handles[h]? = some a →
      h ∉ m.held.states →
      (a.completedAt.isSome = true ↔ a.state.isTerminal = true)) ∧
    (∀ (i : Nat) (c : Call) id new e, m.calls[i]? = some c →
      c.transition? = some (id, new, .ret (.error e)) →
      ∀ ls₁ now ls₂ u u', ls = ls₁ ++ .step i now :: ls₂ →
        machine.Path StepMachine.Any m₀ ls₁ u → machine.step u (.step i now) = some u' →
        ∀ h, u'.shared.record h = u.shared.record h) := by
  have hinv₀ := inv_initial h₀
  have hinv := inv_path hinv₀ hrun
  refine ⟨?_, ?_, ?_, ?_⟩
  · intro h
    refine history_isLifePath hrun hinv₀ ?_
    simp [Shared.core, h₀.1]
  · intro h a ha hterm ls' m' hp
    have hcore : m.shared.core h = some (a.state, a.completedAt) := by
      simp [Shared.core, ha]
    have hfinal := core_final hinv hp hcore hterm
    simp only [Shared.core, Option.map_eq_some_iff, Prod.mk.injEq] at hfinal
    obtain ⟨a', ha', hst, ht⟩ := hfinal
    exact ⟨a', ha', hst, ht⟩
  · intro h a ha hfree
    have hcore : m.shared.core h = some (a.state, a.completedAt) := by
      simp [Shared.core, ha]
    have hc := hinv.coupled h a.state a.completedAt hcore fun i c hi hw =>
      hfree (mem_held_states hi (Call.holdsState_of_writes hw))
    rw [hc]
  · intro i c id new e hi ht ls₁ now ls₂ u u' hls hu hstep h
    rw [hls] at hrun
    obtain ⟨v, hv, hrest⟩ := hrun.split
    obtain rfl := hu.unique hv
    cases hrest with
    | @cons _ w _ _ _ _ hstep' tail =>
      obtain rfl : u' = w := Option.some.inj (hstep.symm.trans hstep')
      obtain ⟨d, s', d', hd, hs, rfl⟩ := step_call_inv hstep
      obtain ⟨hlt, -⟩ := List.getElem?_eq_some_iff.mp hd
      have hd' : d'.mayFail = true :=
        mayFail_path tail (by simp [hlt]) hi (Call.mayFail_of_error ht)
      exact (Call.step_mayFail hs hd').2 h

/-- A fresh manager with one shard. -/
def fresh (max : Nat) : Manager where
  shared :=
    { handles := []
      jobs := ∅
      nextJobId := 1
      maxConcurrentJobs := max
      lastJobCreated := 0
      shards := ⟨1, fun _ => 0, fun _ => Nat.one_pos⟩ }
  calls := []

theorem fresh_initial (max : Nat) : Initial (fresh max) := ⟨rfl, rfl, rfl⟩

/-- A run of three calls: a job is created, moved to `Starting`, and refused the
move to `Completed`. -/
theorem lifecycle_create_start_refuse :
    ∃ m ls, machine.Path StepMachine.Any (fresh 50) ls m ∧
      (∀ h, IsLifePath (history (fresh 50) ls h)) ∧
      history (fresh 50) ls 0 = [.created, .starting] := by
  let ls : List Label :=
    [.call (.createJob none), .step 0 1, .step 0 1, .step 0 1, .step 0 1, .step 0 1,
      .call (.transitionState 1 .starting), .step 1 2, .step 1 2, .step 1 2, .step 1 2,
      .step 1 2, .step 1 2,
      .call (.transitionState 1 .completed), .step 2 3, .step 2 3, .step 2 3]
  obtain ⟨m, hm⟩ : ∃ m, machine.run (fresh 50) ls = some m := ⟨_, rfl⟩
  have hp := StepMachine.path_of_run hm
  exact ⟨m, ls, hp, (lifecycle (fresh_initial 50) hp).1, by decide⟩

end Manager

end RemoteAgent.JobManager
