import RemoteAgent.JobManager.Calls

/-!
# What a step of a call writes

Where a call stands says what its next step writes, whatever it goes on to.  `Action` is
the list of the writes that there are, `Call.action` reads the next one off the position,
and `Call.step_act` is the inversion of `Call.step`: what is shared afterwards is what is
shared now, with that one write made.  Facts about all steps follow by going through the
list.
-/

namespace RemoteAgent.JobManager

/-- A write to what is shared.  `draw` takes an id off the counter. -/
inductive Action where
  | stay
  | touch (h : JobRef)
  | cancel (h : JobRef)
  | complete (h : JobRef) (t : SystemTime)
  | enter (h : JobRef) (new : JobState)
  | remove (id : UInt32)
  | draw
  | insert (id : UInt32) (timeout : Option Duration)
  | created (t : SystemTime)
  deriving DecidableEq, Repr

def Shared.act (now : SystemTime) (s : Shared) : Action → Shared
  | .stay => s
  | .touch h => s.modify h (JobHandle.touch now)
  | .cancel h => s.modify h JobHandle.cancel
  | .complete h t => s.modify h fun a => { a with completedAt := some t }
  | .enter h new => s.modify h fun a => { a with state := new }
  | .remove id => { s with jobs := s.jobs.erase id }
  | .draw => { s with nextJobId := s.nextJobId + 1 }
  | .insert id timeout =>
    { s with
      handles := s.handles ++ [JobHandle.create id timeout now]
      jobs := s.jobs.insert id s.handles.length }
  | .created t => { s with lastJobCreated := t }

/-! ## The write at each position -/

def TransitionPc.action (new : JobState) : TransitionPc → Action
  | .writeActivity h _ => .touch h
  | .writeCompleted h _ t => .complete h t
  | .writeState h _ => .enter h new
  | _ => .stay

def CreatePc.action (timeout : Option Duration) : CreatePc → Action
  | .fetchAdd | .fetchAddAgain => .draw
  | .insert id => .insert id timeout
  | .setLastCreated t _ => .created t
  | _ => .stay

def CancelPc.action : CancelPc → Action
  | .cancelToken h => .cancel h
  | .transition pc => pc.action .canceled
  | _ => .stay

def CleanupPc.action (id : UInt32) : CleanupPc → Action
  | .cancelToken h => .cancel h
  | .remove => .remove id
  | _ => .stay

def ActivityPc.action : ActivityPc → Action
  | .write h => .touch h
  | _ => .stay

def SweepPc.action : SweepPc → Action
  | .cleanup id pc _ _ => pc.action id
  | _ => .stay

def IdlePc.action : IdlePc → Action
  | .sweep pc => pc.action
  | _ => .stay

def ForcePc.action : ForcePc → Action
  | .sweep pc => pc.action
  | .ret => .stay

def Call.action : Call → Action
  | .createJob timeout pc => pc.action timeout
  | .transitionState _ new pc => pc.action new
  | .cancelJob _ pc => pc.action
  | .cleanupJob id pc => pc.action id
  | .cleanupIdleJobs _ _ pc => pc.action
  | .forceCleanupAll pc => pc.action
  | .updateActivity _ pc => pc.action

/-! ## Who makes which writes -/

/-- Only `create_job` makes these writes. -/
def Action.creates : Action → Bool
  | .draw | .insert _ _ | .created _ => true
  | _ => false

/-- These writes leave every id, every state and every completion time alone. -/
def Action.plain : Action → Bool
  | .stay | .touch _ | .cancel _ | .remove _ => true
  | _ => false

theorem Action.creates_of_plain {a : Action} (h : a.plain = true) : a.creates = false := by
  cases a <;> first
    | rfl
    | cases h

theorem CleanupPc.action_plain (id : UInt32) (pc : CleanupPc) :
    (pc.action id).plain = true := by
  cases pc <;> rfl

theorem ActivityPc.action_plain (pc : ActivityPc) : pc.action.plain = true := by
  cases pc <;> rfl

theorem SweepPc.action_plain (pc : SweepPc) : pc.action.plain = true := by
  cases pc with
  | cleanup id pc todo n => exact pc.action_plain id
  | _ => rfl

theorem IdlePc.action_plain (pc : IdlePc) : pc.action.plain = true := by
  cases pc with
  | sweep pc => exact pc.action_plain
  | _ => rfl

theorem ForcePc.action_plain (pc : ForcePc) : pc.action.plain = true := by
  cases pc with
  | sweep pc => exact pc.action_plain
  | ret => rfl

theorem TransitionPc.action_creates (new : JobState) (pc : TransitionPc) :
    (pc.action new).creates = false := by
  cases pc <;> rfl

theorem CancelPc.action_creates (pc : CancelPc) : pc.action.creates = false := by
  cases pc with
  | transition pc => exact pc.action_creates .canceled
  | _ => rfl

theorem Call.action_creates {c : Call} (h : ∀ timeout pc, c ≠ .createJob timeout pc) :
    c.action.creates = false := by
  cases c with
  | createJob timeout pc => exact absurd rfl (h timeout pc)
  | transitionState id new pc => exact pc.action_creates new
  | cancelJob id pc => exact pc.action_creates
  | cleanupJob id pc => exact Action.creates_of_plain (pc.action_plain id)
  | cleanupIdleJobs idle quiet pc => exact Action.creates_of_plain pc.action_plain
  | forceCleanupAll pc => exact Action.creates_of_plain pc.action_plain
  | updateActivity id pc => exact Action.creates_of_plain pc.action_plain

/-- An insertion is the write of `create_job` at that position. -/
theorem Call.eq_insert_of_action {c : Call} {id : UInt32} {timeout : Option Duration}
    (h : c.action = .insert id timeout) : c = .createJob timeout (.insert id) := by
  by_cases hc : ∃ timeout' pc, c = .createJob timeout' pc
  · obtain ⟨timeout', pc, rfl⟩ := hc
    cases pc <;> cases h
    rfl
  · have hcreates : c.action.creates = false :=
      Call.action_creates fun timeout' pc heq => hc ⟨timeout', pc, heq⟩
    rw [h] at hcreates
    cases hcreates

/-! ## What the writes do to the registry -/

/-- What is registered after a write was so before it, or the write has put it there. -/
theorem Shared.getJob_act {s : Shared} {now : SystemTime} {a : Action} {id : UInt32}
    {h : JobRef} (hget : (s.act now a).getJob id = some h) :
    s.getJob id = some h ∨
      (∃ timeout, a = .insert id timeout) ∧ h = s.handles.length := by
  cases a with
  | insert id' timeout =>
    by_cases hid : id = id'
    · subst hid
      have hinserted : (s.jobs.insert id s.handles.length).lookup id = some h := hget
      rw [AList.lookup_insert] at hinserted
      exact Or.inr ⟨⟨timeout, rfl⟩, (Option.some.inj hinserted).symm⟩
    · exact Or.inl ((AList.lookup_insert_ne hid).symm.trans hget)
  | remove id' =>
    have herased : (s.jobs.erase id').lookup id = some h := hget
    by_cases hid : id = id'
    · subst hid
      simp at herased
    · exact Or.inl ((AList.lookup_erase_ne hid).symm.trans herased)
  | _ => exact Or.inl hget

@[simp] theorem Shared.act_shards (s : Shared) (now : SystemTime) (a : Action) :
    (s.act now a).shards = s.shards := by
  cases a <;> rfl

@[simp] theorem Shared.act_maxConcurrentJobs (s : Shared) (now : SystemTime) (a : Action) :
    (s.act now a).maxConcurrentJobs = s.maxConcurrentJobs := by
  cases a <;> rfl

/-! ## The inversion of a step -/

section steps

variable {held : Held} {time now : SystemTime} {s s' : Shared}

theorem TransitionPc.step_act {id : UInt32} {new : JobState} {pc pc' : TransitionPc}
    (h : pc.step held now id new s = some (s', pc')) : s' = s.act now (pc.action new) := by
  cases pc with
  | getJob | lockState r =>
    simp only [TransitionPc.step] at h
    split at h <;> cases h <;> rfl
  | check r =>
    simp only [TransitionPc.step] at h
    repeat' split at h
    all_goals cases h <;> rfl
  | ret r => cases h
  | _ =>
    cases h
    rfl

theorem CreatePc.step_act {timeout : Option Duration} {pc pc' : CreatePc}
    (h : pc.step held now timeout s = some (s', pc')) :
    s' = s.act now (pc.action timeout) := by
  cases pc with
  | lenCheck | containsKey id | insert id =>
    simp only [CreatePc.step] at h
    split at h <;> cases h <;> rfl
  | ret r => cases h
  | _ =>
    cases h
    rfl

theorem CancelPc.step_act {id : UInt32} {pc pc' : CancelPc}
    (h : pc.step held now id s = some (s', pc')) : s' = s.act now pc.action := by
  cases pc with
  | getJob | lockState r =>
    simp only [CancelPc.step] at h
    split at h <;> cases h <;> rfl
  | checkTerminal r =>
    simp only [CancelPc.step] at h
    repeat' split at h
    all_goals cases h <;> rfl
  | cancelToken r =>
    cases h
    rfl
  | transition pc =>
    cases pc with
    | ret r =>
      cases h
      rfl
    | _ =>
      simp only [CancelPc.step, Option.map_eq_some_iff, Prod.mk.injEq] at h
      obtain ⟨⟨s₁, q'⟩, hs, rfl, -⟩ := h
      exact TransitionPc.step_act hs
  | ret r => cases h

theorem CleanupPc.step_act (now : SystemTime) {id : UInt32} {pc pc' : CleanupPc}
    (h : pc.step held id s = some (s', pc')) : s' = s.act now (pc.action id) := by
  cases pc with
  | getJob | remove =>
    simp only [CleanupPc.step] at h
    split at h <;> cases h <;> rfl
  | cancelToken r =>
    cases h
    rfl
  | ret r => cases h

theorem ActivityPc.step_act {id : UInt32} {pc pc' : ActivityPc}
    (h : pc.step now id s = some (s', pc')) : s' = s.act now pc.action := by
  cases pc with
  | getJob =>
    simp only [ActivityPc.step] at h
    split at h <;> cases h <;> rfl
  | write r =>
    cases h
    rfl
  | ret => cases h

theorem SweepPc.step_act (now : SystemTime) {pc pc' : SweepPc}
    (h : pc.step held s = some (s', pc')) : s' = s.act now pc.action := by
  unfold SweepPc.step at h
  split at h
  case h_6 =>
    obtain ⟨⟨s₁, pc₁⟩, hs, heq⟩ := Option.map_eq_some_iff.mp h
    cases heq
    exact CleanupPc.step_act now hs
  all_goals
    repeat' split at h
    all_goals cases h <;> rfl

theorem IdlePc.step_act (now : SystemTime) {idle quiet : Duration} {pc pc' : IdlePc}
    (h : pc.step held time idle quiet s = some (s', pc')) : s' = s.act now pc.action := by
  unfold IdlePc.step at h
  split at h
  case h_10 =>
    obtain ⟨⟨s₁, pc₁⟩, hs, heq⟩ := Option.map_eq_some_iff.mp h
    cases heq
    exact SweepPc.step_act now hs
  all_goals
    repeat' split at h
    all_goals cases h <;> rfl

theorem ForcePc.step_act (now : SystemTime) {pc pc' : ForcePc}
    (h : pc.step held s = some (s', pc')) : s' = s.act now pc.action := by
  unfold ForcePc.step at h
  split at h
  · cases h
    rfl
  · obtain ⟨⟨s₁, pc₁⟩, hs, heq⟩ := Option.map_eq_some_iff.mp h
    cases heq
    exact SweepPc.step_act now hs
  · cases h

theorem Call.step_act {c c' : Call} (h : c.step held now s = some (s', c')) :
    s' = s.act now c.action := by
  cases c <;> obtain ⟨⟨s₁, pc'⟩, hs, heq⟩ := Option.map_eq_some_iff.mp h <;> cases heq
  case createJob => exact CreatePc.step_act hs
  case transitionState => exact TransitionPc.step_act hs
  case cancelJob => exact CancelPc.step_act hs
  case cleanupJob => exact CleanupPc.step_act now hs
  case cleanupIdleJobs => exact IdlePc.step_act now hs
  case forceCleanupAll => exact ForcePc.step_act now hs
  case updateActivity => exact ActivityPc.step_act hs

end steps

end RemoteAgent.JobManager
