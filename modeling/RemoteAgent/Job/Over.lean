import RemoteAgent.Job.Backpressure

/-!
# When a job is over

A job is over when its state is terminal or its token is cancelled.  Both are for
good (`isOver_step`).

* `expected` is the state that the positions of `handle_run` and of the watcher
  stand for, as long as nobody else ends the job.
* `Tracked` says that a job that is not over is in this state.  It is removed from the
  registry only with its token cancelled, so the calls of `transition_state` on their
  way find it.
* `Tracked.isOver_of_ended` is what this is for: when `handle_run` and the watcher have come to
  their ends the job is over.  The exception is a `handle_run` that could not send
  RUN_ACK, since it leaves the job as it was created; `Tracked.step` leaves it out.
-/

namespace RemoteAgent.Job

open CodeLib Protocol IoPump
open JobManager (SystemTime Duration HANDLE JobState JobHandle)

/-- The job has ended, or it is told to. -/
def isOver (a : JobHandle) : Bool := a.state.isTerminal || a.cancellationToken

theorem isOver_iff {a : JobHandle} :
    isOver a = true ↔ a.state.isTerminal = true ∨ a.cancellationToken = true := by
  simp [isOver]

/-! ## For good -/

/-- A cancelled token stays cancelled. -/
theorem token_step {j j' : Job} {e : Event} (h : j.step e = some j')
    (ht : j.handle.cancellationToken = true) : j'.handle.cancellationToken = true := by
  rcases step_token h with hsame | hc | ⟨⟨e', rfl⟩, hpc⟩
  · rw [hsame]
    exact ht
  · exact token_of_cancels hc h
  · obtain ⟨a, pc, eff, hs, rfl⟩ := step_run h
    rw [settle_token, effect_handle]
    rw [hpc] at hs
    cases e' <;> cases hs
    rfl

theorem isOver_step {j j' : Job} {e : Event} (h : j.step e = some j')
    (ho : isOver j.handle = true) : isOver j'.handle = true := by
  rw [isOver_iff] at ho ⊢
  rcases ho with hterm | htoken
  · rw [step_terminal h hterm]
    exact .inl hterm
  · exact .inr (token_step h htoken)

/-! ## The state that the tasks stand for -/

/-- The state of a job that nobody has ended from outside. -/
def expected : RunPc → WatcherPc → Option JobState
  | .inserted, _ | .sendAck, _ | .toStarting _, _ => some .created
  | .launch, _ | .storeProcess _, _ | .storeJobObject _, _ | .toRunning _ _, _
  | .toFailed _ _, _ => some .starting
  | .activityGet _, _ | .activityWrite _, _ | .spawnPump _ _, _ | .spawnMonitor _, _
  | .spawnWatcher _, _ => some .running
  | .sendError _, _ | .cleanup _, _ => none
  | .returned _, .start | .returned _, .select | .returned _, .toExiting _ _ => some .running
  | .returned _, .activityGet _ | .returned _, .activityWrite _ | .returned _, .sendExit _
  | .returned _, .toCompleted _ => some .exiting
  | .returned _, .notSpawned | .returned _, .returned => none

/-- A call that is about to remove the job. -/
def Call.removes : Call → Bool
  | .cleanupIdleJobs (.sweep pc) => pc = .cleanup .remove
  | .forceCleanupAll pc => pc = .cleanup .remove
  | _ => false

/-- A job that is not over is registered and in the expected state. -/
structure Tracked (j : Job) : Prop where
  gone : j.registered = false → j.handle.cancellationToken = true
  running : j.run = .cleanup .remove → j.handle.cancellationToken = true
  calls : ∀ c ∈ j.calls, c.removes = true → j.handle.cancellationToken = true
  stage : isOver j.handle = false → expected j.run j.watcher = some j.handle.state

theorem tracked_create (jobId : UInt32) (timeout : Option Duration)
    (now last : SystemTime) : (create jobId timeout now last).Tracked where
  gone := fun h => by cases h
  running := fun h => by cases h
  calls := fun _ h => by cases h
  stage := fun _ => rfl

/-- When `handle_run` and the watcher have come to their ends, the job is over. -/
theorem Tracked.isOver_of_ended {j : Job} (hj : j.Tracked) {r : Except Error Unit}
    (hrun : j.run = .returned r) (hwatcher : j.watcher = .notSpawned ∨ j.watcher = .returned) :
    isOver j.handle = true := by
  by_contra hno
  have hstage := hj.stage (by simpa using hno)
  rw [hrun] at hstage
  rcases hwatcher with hw | hw <;> rw [hw] at hstage <;> cases hstage

/-! ## Removal -/

/-- `cleanup_job` cancels the token before it removes the job. -/
theorem CleanupPc.step_removes {a a' : JobHandle} {registered registered' : Bool}
    {pc pc' : CleanupPc} (h : pc.step a registered = some (a', registered', pc'))
    (hgone : registered = false → a.cancellationToken = true)
    (hpc : pc = .remove → a.cancellationToken = true) :
    (registered' = false → a'.cancellationToken = true) ∧
      (pc' = .remove → a'.cancellationToken = true) := by
  cases pc with
  | getJob =>
    cases h
    refine ⟨hgone, ?_⟩
    cases registered <;> simp
  | cancelToken =>
    cases h
    exact ⟨fun _ => rfl, fun _ => rfl⟩
  | remove =>
    cases h
    exact ⟨fun _ => hpc rfl, fun h => by cases h⟩
  | returned => cases h

theorem SweepPc.step_removes {a a' : JobHandle} {registered registered' : Bool}
    {pc pc' : SweepPc} (h : pc.step a registered = some (a', registered', pc'))
    (hgone : registered = false → a.cancellationToken = true)
    (hpc : pc = .cleanup .remove → a.cancellationToken = true) :
    (registered' = false → a'.cancellationToken = true) ∧
      (pc' = .cleanup .remove → a'.cancellationToken = true) := by
  unfold SweepPc.step at h
  split at h
  · cases h
    refine ⟨hgone, ?_⟩
    cases registered <;> simp
  · cases h
    exact ⟨hgone, fun h => by cases h⟩
  · obtain ⟨⟨b, r, q⟩, hs, heq⟩ := Option.map_eq_some_iff.mp h
    cases heq
    have hclean := CleanupPc.step_removes hs hgone fun h => hpc (by rw [h])
    exact ⟨hclean.1, fun h => hclean.2 (by simpa using h)⟩
  · cases h

theorem RunPc.step_removes {a a' : JobHandle} {registered : Bool} {pc pc' : RunPc}
    {e : RunEvent} {eff : RunEffect} (h : pc.step a registered e = some (a', pc', eff))
    (hgone : registered = false → a.cancellationToken = true)
    (hpc : pc = .cleanup .remove → a.cancellationToken = true) :
    (eff = .register false → a'.cancellationToken = true) ∧
      (pc' = .cleanup .remove → a'.cancellationToken = true) := by
  unfold RunPc.step at h
  split at h
  case h_23 =>
    split at h
    · rename_i c _ _ _ _ _ _ hs
      cases h
      have hclean := CleanupPc.step_removes hs hgone fun h => hpc (by rw [h])
      exact ⟨fun h => hclean.1 (by simpa using h), fun h => hclean.2 (by simpa using h)⟩
    · cases h
  -- no other action is about the registry
  all_goals (try split at h) <;> cases h <;> constructor <;> intro h <;>
    cases h

theorem Call.step_removes {a a' : JobHandle} {registered registered' : Bool}
    {last : SystemTime} {c c' : Call} {e : CallEvent}
    (h : c.step a registered last e = some (a', registered', c'))
    (hgone : registered = false → a.cancellationToken = true)
    (hc : c.removes = true → a.cancellationToken = true) :
    (registered' = false → a'.cancellationToken = true) ∧
      (c'.removes = true → a'.cancellationToken = true) := by
  unfold Call.step at h
  split at h
  · obtain ⟨⟨b, q⟩, hs, heq⟩ := Option.map_eq_some_iff.mp h
    cases heq
    refine ⟨fun hr => ?_, fun h => by cases h⟩
    unfold ActivityPc.step at hs
    split at hs <;> cases hs <;> exact hgone hr
  · obtain ⟨⟨b, q⟩, hs, heq⟩ := Option.map_eq_some_iff.mp h
    cases heq
    refine ⟨fun hr => ?_, fun h => by cases h⟩
    unfold CancelPc.step at hs
    split at hs
    case h_3 =>
      cases hs
      rfl
    case h_5 =>
      cases hs
      rw [JobHandle.commit_token]
      exact hgone hr
    all_goals cases hs <;> exact hgone hr
  · obtain ⟨⟨b, r, q⟩, hs, heq⟩ := Option.map_eq_some_iff.mp h
    cases heq
    unfold IdlePc.step at hs
    split at hs
    case h_7 =>
      obtain ⟨⟨b', r', q'⟩, hs', heq⟩ := Option.map_eq_some_iff.mp hs
      cases heq
      have hsweep := SweepPc.step_removes hs' hgone fun h => hc (by rw [h]; rfl)
      exact ⟨hsweep.1, fun h => hsweep.2 (of_decide_eq_true h)⟩
    case h_2 | h_4 | h_6 =>
      cases hs
      refine ⟨hgone, fun h => ?_⟩
      split at h <;> cases h
    all_goals cases hs <;> exact ⟨hgone, fun h => by cases h⟩
  · obtain ⟨⟨b, r, q⟩, hs, heq⟩ := Option.map_eq_some_iff.mp h
    cases heq
    have hsweep := SweepPc.step_removes hs hgone fun h => hc (by rw [h]; rfl)
    exact ⟨hsweep.1, fun h => hsweep.2 (of_decide_eq_true h)⟩
  · cases h

/-! ## Steps -/

/-- Where the watcher stands after an action of `handle_run`. -/
def RunEffect.watcher : RunEffect → WatcherPc
  | .spawnWatcher _ => .start
  | _ => .notSpawned

/-- `handle_run` on a job that is not over, while the channel is open. -/
theorem RunPc.step_expected {a a' : JobHandle} {registered : Bool} {pc pc' : RunPc}
    {e : RunEvent} {eff : RunEffect} (h : pc.step a registered e = some (a', pc', eff))
    (hreg : registered = true) (hopen : e ≠ .closed)
    (hstage : expected pc .notSpawned = some a.state) :
    isOver a' = true ∨ expected pc' eff.watcher = some a'.state := by
  subst hreg
  cases pc with
  | sendAck =>
    cases e with
    | closed => exact absurd rfl hopen
    | sent =>
      cases h
      exact .inr hstage
    | _ => cases h
  | toStarting c =>
    cases e with
    | step now =>
      cases c with
      | getJob =>
        cases h
        exact .inr hstage
      | commit =>
        have hcan : a.state.canTransitionTo .starting = true := by
          rw [← Option.some.inj hstage]
          rfl
        simp only [RunPc.step, JobHandle.transition, hcan, if_true] at h
        cases h
        exact .inr rfl
    | _ => cases c <;> cases h
  | toRunning p c =>
    cases e with
    | step now =>
      cases c with
      | getJob =>
        cases h
        exact .inr hstage
      | commit =>
        have hcan : a.state.canTransitionTo .running = true := by
          rw [← Option.some.inj hstage]
          rfl
        simp only [RunPc.step, JobHandle.transition, hcan, if_true] at h
        cases h
        exact .inr rfl
    | _ => cases c <;> cases h
  | toFailed msg c =>
    cases e with
    | step now =>
      cases c with
      | getJob =>
        cases h
        exact .inr hstage
      | commit =>
        cases h
        left
        rw [isOver_iff, JobHandle.commit_state, ← Option.some.inj hstage]
        exact .inl rfl
    | _ => cases c <;> cases h
  | spawnPump p o =>
    cases e with
    | step now =>
      cases o <;> cases h <;> exact .inr hstage
    | _ => cases o <;> cases h
  | sendError msg => cases hstage
  | cleanup c => cases hstage
  | returned r => cases h
  | _ => cases e <;> cases h <;> exact .inr hstage

/-- The watcher on a job that is not over. -/
theorem WatcherPc.step_expected {a a' : JobHandle} {registered : Bool}
    {waiter waiter' : WaiterPc} {pc pc' : WatcherPc} {e : WatcherEvent} {fs : List Frame}
    {r : Except Error Unit} (h : pc.step a registered waiter e = some (a', pc', waiter', fs))
    (hreg : registered = true) (hstage : expected (.returned r) pc = some a.state) :
    isOver a' = true ∨ expected (.returned r) pc' = some a'.state := by
  unfold WatcherPc.step at h
  split at h
  case h_5 code now =>
    obtain hs : .running = a.state := Option.some.inj hstage
    cases h
    right
    rw [JobHandle.commit_state, ← hs]
    rfl
  case h_11 now =>
    obtain hs : .exiting = a.state := Option.some.inj hstage
    cases h
    left
    rw [isOver_iff, JobHandle.commit_state, ← hs]
    exact .inl rfl
  all_goals
    try rw [if_pos hreg] at h
    (try split at h) <;> cases h <;> exact .inr hstage

/-- A step that leaves `handle_run` and the registry alone. -/
theorem Tracked.keep {j j' : Job} {e : Event} (hj : j.Tracked) (h : j.step e = some j')
    (hreg : j'.registered = j.registered) (hrun : j'.run = j.run)
    (hcalls : ∀ c ∈ j'.calls, c.removes = true → c ∈ j.calls)
    (hstage : isOver j'.handle = false → expected j'.run j'.watcher = some j'.handle.state) :
    j'.Tracked where
  gone := by
    rw [hreg]
    exact fun hgone => token_step h (hj.gone hgone)
  running := by
    rw [hrun]
    exact fun hpc => token_step h (hj.running hpc)
  calls := fun c hc hremoves => token_step h (hj.calls c (hcalls c hc hremoves) hremoves)
  stage := hstage

/-- Before a step that leaves a job not over, it is not over either. -/
theorem Tracked.before {j j' : Job} {e : Event} (hj : j.Tracked) (h : j.step e = some j')
    (hno : isOver j'.handle = false) :
    j.registered = true ∧ expected j.run j.watcher = some j.handle.state := by
  have hbefore : isOver j.handle = false := by
    by_contra hyes
    rw [isOver_step h (by simpa using hyes)] at hno
    cases hno
  refine ⟨?_, hj.stage hbefore⟩
  by_contra hgone
  simp [isOver, hj.gone (by simpa using hgone)] at hbefore

theorem Tracked.run {j j' : Job} {e : RunEvent} (hst : j.Staged) (hj : j.Tracked)
    (h : j.step (.run e) = some j') (hopen : e ≠ .closed) : j'.Tracked := by
  have htoken := token_step h
  have hbefore := hj.before h
  obtain ⟨a, pc, eff, hs, hj'⟩ := step_run h
  obtain ⟨hremoved, hremove⟩ := RunPc.step_removes hs hj.gone hj.running
  have hrun : j'.run = pc := by rw [hj', settle_run, effect_run]
  have hstate : j'.handle.state = a.state := by rw [hj', settle_state, effect_handle]
  have hnew : j'.handle.cancellationToken = a.cancellationToken := by
    rw [hj', settle_token, effect_handle]
  have hwatcher : j.watcher = .notSpawned :=
    hst.watcher (.inl (RunPc.step_follows hs).watcherUp)
  refine ⟨?_, ?_, ?_, ?_⟩
  · intro hgone
    have hreg : eff = .register false ∨ j.registered = false := by
      rw [hj', settle_registered] at hgone
      cases eff <;> simp_all [effect]
    rcases hreg with hreg | hreg
    · rw [hnew]
      exact hremoved hreg
    · exact htoken (hj.gone hreg)
  · rw [hrun, hnew]
    exact hremove
  · rw [hj', settle_calls, effect_calls, ← hj']
    intro c hc hremoves
    exact htoken (hj.calls c hc hremoves)
  · intro hno
    obtain ⟨hreg, hstage⟩ := hbefore hno
    rw [hwatcher] at hstage
    have hw : j'.watcher = eff.watcher := by
      rw [hj', settle_watcher]
      cases eff <;> first | rfl | exact hwatcher
    rw [hrun, hw, hstate]
    rcases RunPc.step_expected hs hreg hopen hstage with hyes | hnext
    · unfold isOver at hno hyes
      rw [hstate, hnew, hyes] at hno
      cases hno
    · exact hnext

theorem Tracked.watcher {j j' : Job} {e : WatcherEvent} (hst : j.Staged) (hj : j.Tracked)
    (h : j.step (.watcher e) = some j') : j'.Tracked := by
  have hbefore := hj.before h
  have hf := step_frame h (by simp)
  obtain ⟨a, pc, waiter, fs, hw, hj'⟩ := step_watcher h
  refine hj.keep h (hf.registered (by simp)) hf.run ?_ ?_
  · rw [hf.calls (by simp) (by simp)]
    exact fun c hc _ => hc
  · intro hno
    obtain ⟨hreg, hstage⟩ := hbefore hno
    -- the watcher runs, so `handle_run` has returned
    obtain ⟨r, hrun⟩ : ∃ r, j.run = .returned r := by
      have hup : j.run.watcherUp = true := by
        by_contra hdown
        rw [hst.watcher (.inl (by simpa using hdown))] at hw
        cases hw
      cases hpc : j.run <;> first | exact ⟨_, rfl⟩ | (rw [hpc] at hup; cases hup)
    rw [hrun] at hstage
    rcases WatcherPc.step_expected hw hreg hstage with hyes | hnext
    · have hsame : isOver j'.handle = isOver a := by
        unfold isOver
        rw [hj', settle_state, settle_token]
      rw [hsame, hyes] at hno
      cases hno
    · rw [hf.run, hrun, hj', settle_watcher, settle_state]
      exact hnext

/-- Calls from elsewhere, the monitor and the pumps: they end the job, or they leave
its state alone. -/
theorem stage_of_moves {j j' : Job} {e : Event} (h : j.step e = some j')
    (hrun : ∀ e', e ≠ .run e') (hwatcher : ∀ e', e ≠ .watcher e')
    (hno : isOver j'.handle = false) (hj : j.Tracked) :
    expected j'.run j'.watcher = some j'.handle.state := by
  have hf := step_frame h hrun
  obtain ⟨-, hstage⟩ := hj.before h hno
  rw [hf.run, hf.watcher hwatcher]
  rcases step_moves h with hsame | ⟨-, hmoves⟩
  · rw [hsame]
    exact hstage
  · have hterm : j'.handle.state.isTerminal = false := by
      unfold isOver at hno
      simp only [Bool.or_eq_false_iff] at hno
      exact hno.1
    generalize j'.handle.state = new at hmoves hterm
    cases hmoves with
    | starting now hpc => exact absurd rfl (hrun _)
    | running now p hpc => exact absurd rfl (hrun _)
    | failed now msg hpc => exact absurd rfl (hrun _)
    | timedOut now hpc => cases hterm
    | exiting now code hpc => exact absurd rfl (hwatcher _)
    | completed now hpc => exact absurd rfl (hwatcher _)
    | canceled now i hpc => cases hterm

theorem Tracked.step {j j' : Job} {e : Event} (hst : j.Staged) (hj : j.Tracked)
    (h : j.step e = some j') (hopen : e ≠ .run .closed) : j'.Tracked := by
  have htoken := token_step h
  have hstage := fun hrun hwatcher hno => stage_of_moves h hrun hwatcher hno hj
  cases e with
  | run e => exact hj.run hst h fun he => hopen (by rw [he])
  | watcher e => exact hj.watcher hst h
  | call i e =>
    have hf := step_frame h (by simp)
    obtain ⟨c, a, registered, c', hget, hs, hj'⟩ := step_call h
    have hnew : j'.handle.cancellationToken = a.cancellationToken := by
      rw [hj', settle_token]
    obtain ⟨hgone, hremoves⟩ :=
      Call.step_removes hs hj.gone (hj.calls c (List.mem_of_getElem? hget))
    refine ⟨?_, ?_, ?_, hstage (by simp) (by simp)⟩
    · rw [hnew, hj', settle_registered]
      exact hgone
    · rw [hf.run]
      exact fun hrun => htoken (hj.running hrun)
    · rw [hj', settle_calls, ← hj']
      intro x hx hxr
      rcases List.mem_or_eq_of_mem_set hx with hx | rfl
      · exact htoken (hj.calls x hx hxr)
      · rw [hnew]
        exact hremoves hxr
  | begin op =>
    have hf := step_frame h (by simp)
    refine hj.keep h (hf.registered (by simp)) hf.run ?_ (hstage (by simp) (by simp))
    rw [step_begin h, settle_calls]
    intro x hx hxr
    rcases List.mem_append.mp hx with hx | hx
    · exact hx
    · rw [List.mem_singleton.mp hx] at hxr
      cases op <;> cases hxr
  | _ =>
    have hf := step_frame h (by simp)
    refine hj.keep h (hf.registered (by simp)) hf.run ?_ (hstage (by simp) (by simp))
    rw [hf.calls (by simp) (by simp)]
    exact fun c hc _ => hc

end RemoteAgent.Job
