import RemoteAgent.Job.Termination

/-!
# The two handles of a job

The process handle and the job object that a launch opens pass from the result
of `launch` into the job's handle, and `Drop` closes them when the last `Arc` is
gone.  The thread handle is closed by `handle_run`.

* `Owned` follows the two handles from the launch to the drop
  (`owned_reachable`).
* `closed_once`: when the registry, the tasks and the calls have all let go of a
  job that was launched, each of the two is closed exactly once.
* The wait thread has the raw process handle and no `Arc`.
  `waits_only_on_open`: it does not come to wait on a closed handle exactly in the
  runs in which the last `Arc` goes only after the thread has left its loop.
  `waits_on_closed` is a run that comes to that.
-/

namespace RemoteAgent.Job

open CodeLib Protocol IoPump
open JobManager (SystemTime Duration HANDLE JobState JobHandle)

/-! ## Where the handles are -/

/-- The process handle and the job object that the job's handle should have. -/
def stored (j : Job) : HANDLE × HANDLE :=
  match j.process with
  | none => (0, 0)
  | some q =>
    match j.run with
    | .storeProcess _ => (0, 0)
    | .storeJobObject _ => (q.launched.processHandle, 0)
    | _ => (q.launched.processHandle, q.launched.jobObject)

/-- The handles are in the job's handle and open until it is dropped, and each
is closed once with the drop. -/
structure Owned (j : Job) : Prop where
  stored : j.dropped = false → (j.handle.processHandle, j.handle.jobObject) = j.stored
  unlaunched : j.process = none → j.closed = []
  opened : ∀ q, j.process = some q → j.dropped = false →
    q.launched.processHandle ∉ j.closed ∧ q.launched.jobObject ∉ j.closed
  once : ∀ q, j.process = some q → j.dropped = true →
    j.closed.count q.launched.processHandle = 1 ∧ j.closed.count q.launched.jobObject = 1

/-- What an action of `handle_run` does with the handles of the process: it
opens them, it stores one of them, or it leaves them alone. -/
theorem RunPc.step_stores {a a' : JobHandle} {registered : Bool} {pc pc' : RunPc}
    {e : RunEvent} {eff : RunEffect}
    (h : pc.step a registered e = some (a', pc', eff)) :
    (∃ p, eff = .start p ∧ pc = .launch ∧ pc' = .storeProcess p ∧ a' = a) ∨
    (∃ p, eff = .none ∧ pc = .storeProcess p ∧ pc' = .storeJobObject p ∧
      a' = { a with processHandle := p.processHandle }) ∨
    (∃ p, eff = .none ∧ pc = .storeJobObject p ∧ pc' = .toRunning p .getJob ∧
      a' = { a with jobObject := p.jobObject }) ∨
    ((∀ p, eff ≠ .start p) ∧ pc.storing = false ∧ pc'.storing = false ∧
      a'.processHandle = a.processHandle ∧ a'.jobObject = a.jobObject) := by
  unfold RunPc.step at h
  split at h
  case h_6 p =>
    cases h
    exact .inl ⟨p, rfl, rfl, rfl, rfl⟩
  case h_8 p now =>
    cases h
    exact .inr (.inl ⟨p, rfl, rfl, rfl, rfl⟩)
  case h_9 p now =>
    cases h
    exact .inr (.inr (.inl ⟨p, rfl, rfl, rfl, rfl⟩))
  case h_5 | h_11 =>
    right; right; right
    split at h
    · rename_i heq
      cases h
      obtain ⟨-, rfl⟩ := JobHandle.commit_of_transition heq
      exact ⟨by simp, rfl, rfl, by simp, by simp⟩
    · cases h
      exact ⟨by simp, rfl, rfl, rfl, rfl⟩
  case h_23 =>
    right; right; right
    split at h
    · rename_i heq
      cases h
      have hkeep := (CleanupPc.step_update heq).keeps
      exact ⟨by simp, rfl, rfl, hkeep.2.1, hkeep.2.2⟩
    · cases h
  all_goals (try split at h) <;> cases h <;> right <;> right <;> right <;>
    exact ⟨by simp, rfl, rfl, by simp [JobHandle.touch], by simp [JobHandle.touch]⟩

/-- `handle_run` closes the thread handle of the process that it has in hand, and
nothing else. -/
theorem effect_closed {a a' : JobHandle} {registered : Bool} {pc pc' : RunPc}
    {e : RunEvent} {eff : RunEffect}
    (h : pc.step a registered e = some (a', pc', eff)) (j : Job) :
    (j.effect eff).closed = j.closed ∨
      ∃ p, pc.inHand = some p ∧ (j.effect eff).closed = j.closed ++ [p.threadHandle] := by
  unfold RunPc.step at h
  split at h <;> (try split at h) <;> cases h <;>
    first | exact .inl rfl | exact .inr ⟨_, rfl, rfl⟩

/-! ## From the launch to the drop -/

/-- `Owned` speaks of the process that was launched and of its handles only. -/
theorem Owned.congr {j r : Job} (hj : j.Owned)
    (hlaunched : r.process.map Process.launched = j.process.map Process.launched)
    (hrun : r.run = j.run) (hprocess : r.handle.processHandle = j.handle.processHandle)
    (hobject : r.handle.jobObject = j.handle.jobObject) (hclosed : r.closed = j.closed)
    (hdropped : r.dropped = j.dropped) : r.Owned := by
  have hq : ∀ q, r.process = some q → ∃ q', j.process = some q' ∧
      q'.launched = q.launched := by
    intro q hq
    rw [hq] at hlaunched
    exact Option.map_eq_some_iff.mp hlaunched.symm
  have hstored : r.stored = j.stored := by
    unfold Job.stored
    cases hp : r.process with
    | none =>
      rw [hp] at hlaunched
      rw [Option.map_eq_none_iff.mp hlaunched.symm]
    | some q =>
      obtain ⟨q', hq', heq⟩ := hq q hp
      rw [hq', hrun]
      simp only [heq]
  refine ⟨?_, ?_, ?_, ?_⟩
  · intro hd
    rw [hprocess, hobject, hstored]
    exact hj.stored (hdropped ▸ hd)
  · intro hnone
    rw [hnone] at hlaunched
    rw [hclosed]
    exact hj.unlaunched (Option.map_eq_none_iff.mp hlaunched.symm)
  · intro q hp hd
    obtain ⟨q', hq', heq⟩ := hq q hp
    rw [← heq, hclosed]
    exact hj.opened q' hq' (hdropped ▸ hd)
  · intro q hp hd
    obtain ⟨q', hq', heq⟩ := hq q hp
    rw [← heq, hclosed]
    exact hj.once q' hq' (hdropped ▸ hd)

/-- A handle that nobody holds has both handles of its process. -/
theorem stored_of_not_held {j : Job} {q : Process} (hq : j.process = some q)
    (hheld : j.held = false) :
    j.stored = (q.launched.processHandle, q.launched.jobObject) := by
  have hrun : j.run.holdsArc = false := by
    simp only [held, Bool.or_eq_false_iff] at hheld
    exact hheld.1.1.1.2
  cases hpc : j.run with
  | returned r => simp only [Job.stored, hq, hpc]
  | _ =>
    rw [hpc] at hrun
    exact absurd hrun (by simp [RunPc.holdsArc])

/-- The drop closes each of the two handles once. -/
theorem Owned.settle {j : Job} (hj : j.Owned) : j.settle.Owned := by
  unfold Job.settle
  split
  · exact hj
  · rename_i hfree
    simp only [Bool.or_eq_true, not_or, Bool.not_eq_true] at hfree
    obtain ⟨hheld, hdropped⟩ := hfree
    refine ⟨fun hd => (by cases hd), ?_, fun q _ hd => (by cases hd), ?_⟩
    · intro hnone
      have hstored := hj.stored hdropped
      simp only [Job.stored, show j.process = none from hnone, Prod.mk.injEq] at hstored
      show j.closed ++ taken j.handle = []
      rw [hj.unlaunched hnone, taken, hstored.1, hstored.2]
      rfl
    · intro q hq _
      have hq' : j.process = some q := hq
      have hstored := hj.stored hdropped
      rw [stored_of_not_held hq' hheld] at hstored
      simp only [Prod.mk.injEq] at hstored
      have htaken : taken j.handle = [q.launched.processHandle, q.launched.jobObject] := by
        rw [taken, hstored.1, hstored.2]
        simp [q.launched.process_valid, q.launched.object_valid]
      obtain ⟨hprocess, hobject⟩ := hj.opened q hq' hdropped
      show (j.closed ++ taken j.handle).count _ = 1 ∧ (j.closed ++ taken j.handle).count _ = 1
      rw [htaken, List.count_append, List.count_append, List.count_eq_zero.mpr hprocess,
        List.count_eq_zero.mpr hobject]
      have hne := q.launched.process_ne_object
      simp [hne, Ne.symm hne]

/-- The environment does not touch the handles. -/
theorem osStep_frame {j r : Job} {e : OsEvent} (h : j.osStep e = some r) :
    r.process.map Process.launched = j.process.map Process.launched ∧ r.run = j.run ∧
      r.handle = j.handle ∧ r.closed = j.closed ∧ r.dropped = j.dropped := by
  cases e with
  | write o data =>
    simp only [osStep] at h
    split at h
    · obtain ⟨p, -, rfl⟩ := Option.map_eq_some_iff.mp h
      exact ⟨rfl, rfl, rfl, rfl, rfl⟩
    · cases h
  | closeWriters o | otherCreated now =>
    cases h
    exact ⟨rfl, rfl, rfl, rfl, rfl⟩
  | exit code =>
    simp only [osStep] at h
    split at h
    · rename_i p hp
      cases h
      exact ⟨by rw [hp]; rfl, rfl, rfl, rfl, rfl⟩
    · cases h

theorem Owned.run {j : Job} {e : RunEvent} {a : JobHandle} {pc : RunPc} {eff : RunEffect}
    (hst : j.Staged) (hal : j.Alive) (hj : j.Owned)
    (hs : j.run.step j.handle j.registered e = some (a, pc, eff)) :
    (effect { j with handle := a, run := pc } eff).Owned := by
  -- whoever moves holds an `Arc`, so nothing is dropped yet
  have hdropped : j.dropped = false := by
    cases hd : j.dropped with
    | false => rfl
    | true =>
      have hheld := hal.held hd
      simp only [held, RunPc.holdsArc_of_step hs, Bool.or_true, Bool.true_or] at hheld
      exact absurd hheld (by simp)
  have hstored := hj.stored hdropped
  rcases RunPc.step_stores hs with ⟨p, rfl, hpc, rfl, rfl⟩ | ⟨p, rfl, hpc, rfl, rfl⟩ |
    ⟨p, rfl, hpc, rfl, rfl⟩ | ⟨hstart, hpc, hpc', hprocess, hobject⟩
  · have hnone := hst.unlaunched (by rw [hpc]; rfl)
    have hclosed := hj.unlaunched hnone
    simp only [Job.stored, hnone] at hstored
    refine ⟨fun _ => hstored, fun hp => (by cases hp), ?_, ?_⟩
    · intro q _ _
      simp [effect, hclosed]
    · intro q _ hd
      simp [effect, hdropped] at hd
  · obtain ⟨code, hproc⟩ := hst.inHand p (by rw [hpc]; rfl)
    simp only [Job.stored, hproc, hpc, Prod.mk.injEq] at hstored
    refine ⟨fun _ => ?_, ?_, hj.opened, hj.once⟩
    · simp only [effect, Job.stored, hproc, hstored.2]
    · intro hnone
      simp [effect, hproc] at hnone
  · obtain ⟨code, hproc⟩ := hst.inHand p (by rw [hpc]; rfl)
    simp only [Job.stored, hproc, hpc, Prod.mk.injEq] at hstored
    refine ⟨fun _ => ?_, ?_, hj.opened, hj.once⟩
    · simp only [effect, Job.stored, hproc, hstored.1]
    · intro hnone
      simp [effect, hproc] at hnone
  · have hproc := effect_process { j with handle := a, run := pc } hstart
    have hdropped' : (effect { j with handle := a, run := pc } eff).dropped = false := by
      rw [effect_dropped]
      exact hdropped
    refine ⟨?_, ?_, ?_, ?_⟩
    · intro _
      have hsame : (effect { j with handle := a, run := pc } eff).stored = j.stored := by
        unfold Job.stored
        rw [hproc, effect_run]
        cases j.process with
        | none => rfl
        | some q => cases hr : j.run <;> cases pc <;> simp_all [RunPc.storing]
      rw [hsame, effect_handle, ← hstored]
      simp only [hprocess, hobject]
    · intro hnone
      rw [hproc] at hnone
      have hnone' : j.process = none := hnone
      rcases effect_closed hs { j with handle := a, run := pc } with hc | ⟨p, hp, -⟩
      · rw [hc]
        exact hj.unlaunched hnone'
      · obtain ⟨code, hsome⟩ := hst.inHand p hp
        rw [hnone'] at hsome
        cases hsome
    · intro q hq _
      rw [hproc] at hq
      have hopen := hj.opened q hq hdropped
      rcases effect_closed hs { j with handle := a, run := pc } with hc | ⟨p, hp, hc⟩
      · rw [hc]
        exact hopen
      · obtain ⟨code, hsome⟩ := hst.inHand p hp
        have hq' : j.process = some q := hq
        rw [hq'] at hsome
        obtain rfl : q = ⟨p, code⟩ := Option.some.inj hsome
        rw [hc]
        simp only [List.mem_append, List.mem_singleton, not_or]
        exact ⟨⟨hopen.1, Ne.symm p.thread_ne_process⟩, hopen.2, Ne.symm p.thread_ne_object⟩
    · intro q _ hd
      rw [hdropped'] at hd
      cases hd

/-- Only `handle_run` has to do with the handles before the last `Arc` goes. -/
theorem act_frame {j r : Job} {e : Event} (h : j.act e = some r)
    (hne : ∀ e', e ≠ .run e') :
    r.process.map Process.launched = j.process.map Process.launched ∧ r.run = j.run ∧
      r.handle.processHandle = j.handle.processHandle ∧
      r.handle.jobObject = j.handle.jobObject ∧ r.closed = j.closed ∧
      r.dropped = j.dropped := by
  cases e with
  | run e => exact absurd rfl (hne e)
  | pump o e =>
    simp only [act, Option.bind_eq_some_iff, Option.map_eq_some_iff] at h
    obtain ⟨p, -, ⟨w, q, fs⟩, -, rfl⟩ := h
    exact ⟨rfl, rfl, rfl, rfl, rfl, rfl⟩
  | monitor e =>
    simp only [act, Option.map_eq_some_iff] at h
    obtain ⟨⟨a, pc, hs⟩, hm, rfl⟩ := h
    obtain ⟨-, hprocess, hobject⟩ := (MonitorPc.step_update hm).keeps
    exact ⟨rfl, rfl, hprocess, hobject, rfl, rfl⟩
  | watcher e =>
    simp only [act, Option.map_eq_some_iff] at h
    obtain ⟨⟨a, pc, waiter, fs⟩, hw, rfl⟩ := h
    obtain ⟨-, hprocess, hobject⟩ := (WatcherPc.step_update hw).keeps
    exact ⟨rfl, rfl, hprocess, hobject, rfl, rfl⟩
  | waiter e =>
    simp only [act, Option.map_eq_some_iff] at h
    obtain ⟨pc, -, rfl⟩ := h
    exact ⟨rfl, rfl, rfl, rfl, rfl, rfl⟩
  | begin op =>
    cases h
    exact ⟨rfl, rfl, rfl, rfl, rfl, rfl⟩
  | call i e =>
    simp only [act, Option.bind_eq_some_iff, Option.map_eq_some_iff] at h
    obtain ⟨c, -, ⟨a, registered, c'⟩, hc, rfl⟩ := h
    obtain ⟨-, hprocess, hobject⟩ := (Call.step_update hc).keeps
    exact ⟨rfl, rfl, hprocess, hobject, rfl, rfl⟩
  | os e =>
    obtain ⟨hlaunched, hrun, hhandle, hclosed, hdropped⟩ := osStep_frame h
    exact ⟨hlaunched, hrun, by rw [hhandle], by rw [hhandle], hclosed, hdropped⟩

theorem Owned.act {j r : Job} {e : Event} (hst : j.Staged) (hal : j.Alive)
    (hj : j.Owned) (h : j.act e = some r) : r.Owned := by
  rcases e.run_or_ne with ⟨e', rfl⟩ | hne
  · simp only [Job.act, Option.map_eq_some_iff] at h
    obtain ⟨⟨a, pc, eff⟩, hs, rfl⟩ := h
    exact hj.run hst hal hs
  · obtain ⟨hlaunched, hpc, hprocess, hobject, hclosed, hdropped⟩ := act_frame h hne
    exact hj.congr hlaunched hpc hprocess hobject hclosed hdropped

theorem Owned.step {j j' : Job} {e : Event} (hst : j.Staged) (hal : j.Alive)
    (hj : j.Owned) (h : j.step e = some j') : j'.Owned := by
  obtain ⟨r, hact, rfl⟩ := Option.map_eq_some_iff.mp h
  exact (hj.act hst hal hact).settle

theorem owned_reachable {C : Job → Event → Prop} {j : Job} (h : machine.Reach C j) :
    j.Owned := by
  refine h.invariant_of (J := fun j => j.Staged ∧ j.Alive)
    (fun _ hr => ⟨staged_reachable hr, alive_reachable hr⟩) ?_ ?_
  · rintro _ ⟨jobId, timeout, now, last, rfl⟩
    exact ⟨fun _ => rfl, fun _ => rfl, fun q hq => (by cases hq), fun q hq => (by cases hq)⟩
  · intro s e u hJ hs _ hstep
    exact Owned.step hJ.1 hJ.2 hs hstep

/-- When nobody holds the handle, it is dropped. -/
theorem dropped_of_not_held {C : Job → Event → Prop} {j : Job} (h : machine.Reach C j) :
    j.held = false → j.dropped = true := by
  refine h.invariant (I := fun j => j.held = false → j.dropped = true) ?_ ?_
  · rintro _ ⟨jobId, timeout, now, last, rfl⟩ hheld
    cases hheld
  · intro s e u _ _ hstep hheld
    obtain ⟨r, -, rfl⟩ := Option.map_eq_some_iff.mp hstep
    rw [settle_held] at hheld
    rw [settle_dropped, hheld]
    simp

/-- When the registry and all tasks and calls have let go of a job that was
launched, its process handle and its job object are each closed exactly once. -/
theorem closed_once {j : Job} (h : machine.Reachable j) {q : Process}
    (hq : j.process = some q) (hfree : j.held = false) :
    j.closed.count q.launched.processHandle = 1 ∧
      j.closed.count q.launched.jobObject = 1 :=
  (owned_reachable h).once q hq (dropped_of_not_held h hfree)

/-- The shutdown removes a running job, and the tasks of the job end. -/
def removedEvents : List Event :=
  launchEvents 0 ++ [.monitor (.step 0), .watcher (.step 0), .begin .forceCleanupAll] ++
    List.replicate 5 (.call 0 (.step 1)) ++
    [.watcher .cancelled, .watcher (.step 1), .watcher (.step 1), .watcher .sent,
      .watcher (.step 1)]

theorem closed_once_removed :
    ∃ j, machine.Reachable j ∧ (j.held = false ∧ j.process = some ⟨shell, none⟩) ∧
      j.closed.count shell.processHandle = 1 ∧ j.closed.count shell.jobObject = 1 := by
  obtain ⟨j, hr, hp⟩ := StepMachine.reach_of_runIf machine StepMachine.Any
    ⟨1, none, 0, 0, rfl⟩ removedEvents
    (fun j => j.held = false && j.process = some ⟨shell, none⟩) (by decide +kernel)
  have hp' : j.held = false ∧ j.process = some ⟨shell, none⟩ := by simpa using hp
  exact ⟨j, hr, hp', closed_once hr hp'.2 hp'.1⟩

/-! ## Waiting on the process handle -/

/-- The handle on which the thread will make its next call, as long as it is in
its loop. -/
def WaiterPc.on : WaiterPc → Option HANDLE
  | .waiting h | .signaled h => some h
  | _ => none

/-- The handle that an action gives to `WaitForSingleObject` or
`GetExitCodeProcess`.  The monitor waits too, inside `terminate_job`. -/
def waitsOn (j : Job) : Event → Option HANDLE
  | .waiter _ => j.waiter.on
  | .monitor .exitSeen | .monitor .gaveUp =>
    if j.monitor = .awaitExit then some j.handle.processHandle else none
  | _ => none

/-- The action is a wait on a handle that is closed. -/
def waitsOnClosed (j : Job) (e : Event) : Bool :=
  (j.waitsOn e).any fun h => h ∈ j.closed

/-- The last `Arc` goes with this action. -/
def letsGo (j : Job) (e : Event) : Bool := j.held && (j.act e).any fun r => !r.held

/-- The last `Arc` goes only when the wait thread is not in its loop. -/
def letsGoAfterWait (j : Job) (e : Event) : Bool := !(j.letsGo e && j.waiter.on.isSome)

/-- Before the drop the handle has the process handle of a process that is not
being stored. -/
theorem Owned.processHandle {j : Job} {q : Process} (hj : j.Owned)
    (hq : j.process = some q) (hd : j.dropped = false) (hpc : j.run.storing = false) :
    j.handle.processHandle = q.launched.processHandle := by
  have hstored := hj.stored hd
  unfold Job.stored at hstored
  rw [hq] at hstored
  cases hr : j.run <;> rw [hr] at hstored hpc <;>
    first | exact (Prod.mk.inj hstored).1 | exact absurd hpc (by simp [RunPc.storing])

/-- A task that holds an `Arc` keeps the handle from being dropped. -/
theorem Alive.not_dropped {j : Job} (hj : j.Alive) (hheld : j.held = true) :
    j.dropped = false := by
  cases hd : j.dropped with
  | false => rfl
  | true =>
    rw [hj.held hd] at hheld
    cases hheld

/-- A task that was spawned finds the process handle in the job's handle. -/
theorem processHandle_of_spawned {j : Job} (hst : j.Staged) (hj : j.Owned)
    (hd : j.dropped = false)
    (hup : j.monitor ≠ .notSpawned ∨ j.watcher ≠ .notSpawned) :
    ∃ q, j.process = some q ∧ j.handle.processHandle = q.launched.processHandle := by
  have hprocess : j.process ≠ none := by
    intro hnone
    rcases hup with hm | hw
    · exact hm (hst.monitor (.inr hnone))
    · exact hw (hst.watcher (.inr hnone))
  have hstoring : j.run.storing = false := by
    cases hpc : j.run <;> first
      | rfl
      | (rcases hup with hm | hw
         · exact absurd (hst.monitor (.inl (by rw [hpc]; rfl))) hm
         · exact absurd (hst.watcher (.inl (by rw [hpc]; rfl))) hw)
  obtain ⟨q, hq⟩ := Option.ne_none_iff_exists'.mp hprocess
  exact ⟨q, hq, hj.processHandle hq hd hstoring⟩

/-- The thread has the process handle of the job. -/
def WaitsOnProcess (j : Job) : Prop :=
  ∀ h, j.waiter.on = some h → ∃ q, j.process = some q ∧ h = q.launched.processHandle

theorem WatcherPc.step_on {a a' : JobHandle} {registered : Bool}
    {waiter waiter' : WaiterPc} {pc pc' : WatcherPc} {e : WatcherEvent}
    {fs : List Frame} (h : pc.step a registered waiter e = some (a', pc', waiter', fs)) :
    waiter' = waiter ∨ waiter' = .waiting a.processHandle ∧ pc' = .select := by
  unfold WatcherPc.step at h
  split at h <;> (try split at h) <;> cases h <;> first | exact .inl rfl | exact .inr ⟨rfl, rfl⟩

theorem WaiterPc.step_on {closed : List HANDLE} {process : Option Process}
    {pc pc' : WaiterPc} {e : WaiterEvent} {h : HANDLE}
    (hs : pc.step closed process e = some pc') (hon : pc'.on = some h) : pc.on = some h := by
  unfold WaiterPc.step at hs
  split at hs
  · split at hs <;> cases hs <;> exact hon
  · cases hs
    exact absurd hon (by simp [WaiterPc.on])
  · cases hs

/-- A step gives the thread no other handle, or starts it on the one that the
watcher finds. -/
theorem step_on {j j' : Job} {e : Event} (h : j.step e = some j') {x : HANDLE}
    (hon : j'.waiter.on = some x) :
    j.waiter.on = some x ∨
      x = j.handle.processHandle ∧ j.watcher.holdsArc = true ∧ j'.watcher = .select := by
  cases e with
  | run e =>
    obtain ⟨a, pc, eff, hs, rfl⟩ := step_run h
    rw [settle_waiter, effect_waiter] at hon
    exact .inl hon
  | watcher e =>
    obtain ⟨a, pc, waiter, fs, hw, rfl⟩ := step_watcher h
    rw [settle_waiter] at hon
    rcases WatcherPc.step_on hw with rfl | ⟨rfl, rfl⟩
    · exact .inl hon
    · refine .inr ⟨?_, WatcherPc.holdsArc_of_step hw, settle_watcher _⟩
      exact (Option.some.inj hon).symm
  | waiter e =>
    obtain ⟨pc, hs, rfl⟩ := step_waiter h
    rw [settle_waiter] at hon
    exact .inl (WaiterPc.step_on hs hon)
  | _ =>
    have hf := step_frame h (by simp)
    rw [hf.waiter (by simp) (by simp)] at hon
    exact .inl hon

theorem waitsOnProcess_reachable {C : Job → Event → Prop} {j : Job}
    (h : machine.Reach C j) : j.WaitsOnProcess := by
  refine h.invariant_of (J := fun j => j.Staged ∧ j.Alive ∧ j.Owned)
    (fun _ hr => ⟨staged_reachable hr, alive_reachable hr, owned_reachable hr⟩) ?_ ?_
  · rintro _ ⟨jobId, timeout, now, last, rfl⟩ x hx
    cases hx
  · rintro s e u ⟨hst, hal, hown⟩ hs _ hstep x hx
    have hprocess : ∃ q, s.process = some q ∧ x = q.launched.processHandle := by
      rcases step_on hstep hx with hx | ⟨rfl, hw, -⟩
      · exact hs x hx
      · refine processHandle_of_spawned hst hown (hal.not_dropped ?_) (.inr ?_)
        · simp [held, hw]
        · intro hnot
          rw [hnot] at hw
          cases hw
    obtain ⟨q, hq, rfl⟩ := hprocess
    obtain ⟨code, hq'⟩ := (step_grows hst hstep).process q hq
    exact ⟨⟨q.launched, code⟩, hq', rfl⟩

/-- Under the rule the handle is not dropped while the thread is in its loop. -/
theorem not_dropped_of_waiting {j : Job}
    (h : machine.Reach (fun j e => j.letsGoAfterWait e = true) j) :
    j.waiter.on.isSome = true → j.dropped = false := by
  refine h.invariant_of (I := fun j => j.waiter.on.isSome = true → j.dropped = false)
    (J := fun j => j.Staged ∧ j.Alive ∧ (j.held = false → j.dropped = true))
    (fun _ hr => ⟨staged_reachable hr, alive_reachable hr, dropped_of_not_held hr⟩) ?_ ?_
  · rintro _ ⟨jobId, timeout, now, last, rfl⟩ _
    rfl
  · rintro s e u ⟨hst, hal, hfree⟩ hs hrule hstep hon
    have hstep' := hstep
    obtain ⟨r, hact, rfl⟩ := Option.map_eq_some_iff.mp hstep'
    obtain ⟨x, hx⟩ := Option.isSome_iff_exists.mp hon
    rw [settle_dropped, act_dropped hact, Bool.or_eq_false_iff, Bool.not_eq_false']
    have hheld : s.held = true → s.waiter.on.isSome = true → r.held = true := by
      intro hsheld hwaiting
      by_contra hr
      simp [letsGoAfterWait, letsGo, hact, hsheld, hwaiting, hr] at hrule
    rcases step_on hstep hx with hx | ⟨-, hw, hselect⟩
    · have hwaiting : s.waiter.on.isSome = true := by
        rw [hx]
        rfl
      have hd := hs hwaiting
      refine ⟨hd, hheld ?_ hwaiting⟩
      cases hh : s.held with
      | true => rfl
      | false =>
        rw [hfree hh] at hd
        cases hd
    · refine ⟨hal.not_dropped (by simp [held, hw]), ?_⟩
      rw [settle_watcher] at hselect
      simp [held, hselect, WatcherPc.holdsArc]

/-- A step by which the last `Arc` goes leaves the wait thread alone. -/
theorem waiter_of_letsGo {j r : Job} {e : Event} (hact : j.act e = some r)
    (hgo : j.letsGo e = true) : r.waiter = j.waiter ∧ r.held = false := by
  obtain ⟨hheld, hr⟩ : j.held = true ∧ r.held = false := by
    simpa [letsGo, hact] using hgo
  refine ⟨?_, hr⟩
  have hstep : j.step e = some r.settle := by rw [step, hact]; rfl
  cases e with
  | run e =>
    obtain ⟨⟨a, pc, eff⟩, -, rfl⟩ := Option.map_eq_some_iff.mp hact
    exact effect_waiter _ eff
  | watcher e =>
    obtain ⟨⟨a, pc, waiter, fs⟩, hw, rfl⟩ := Option.map_eq_some_iff.mp hact
    rcases WatcherPc.step_on hw with rfl | ⟨-, rfl⟩
    · rfl
    · simp [held, WatcherPc.holdsArc] at hr
  | waiter e =>
    obtain ⟨pc, -, rfl⟩ := Option.map_eq_some_iff.mp hact
    have hsame : ({ j with waiter := pc } : Job).held = j.held := rfl
    rw [hsame, hheld] at hr
    cases hr
  | _ =>
    have hwaiter := (step_frame hstep (by simp)).waiter (by simp) (by simp)
    rwa [settle_waiter] at hwaiter

/-- A thread in its loop always goes on. -/
theorem exists_step_of_on {j : Job} {x : HANDLE} (hon : j.waiter.on = some x) :
    ∃ e, (j.step (.waiter e)).isSome = true := by
  cases hw : j.waiter with
  | waiting h =>
    refine ⟨.wait, ?_⟩
    simp only [step, act, hw, WaiterPc.step]
    split <;> rfl
  | signaled h =>
    refine ⟨.query true, ?_⟩
    simp [step, act, hw, WaiterPc.step]
  | _ =>
    rw [hw] at hon
    cases hon

/-- Nobody waits on a closed handle as long as the last `Arc` goes after the wait
thread. -/
theorem waitsOnClosed_eq_false {j : Job}
    (hr : machine.Reach (fun j e => j.letsGoAfterWait e = true) j) (e : Event) :
    j.waitsOnClosed e = false := by
  have hopen : ∀ q, j.process = some q → j.dropped = false →
      q.launched.processHandle ∉ j.closed :=
    fun q hq hd => ((owned_reachable hr).opened q hq hd).1
  have hmonitor : j.monitor = .awaitExit → j.handle.processHandle ∉ j.closed := by
    intro hm
    have hd := (alive_reachable hr).not_dropped (by simp [held, hm, MonitorPc.holdsArc])
    obtain ⟨q, hq, hhandle⟩ := processHandle_of_spawned (staged_reachable hr)
      (owned_reachable hr) hd (.inl (by rw [hm]; simp))
    rw [hhandle]
    exact hopen q hq hd
  have hnot : ∀ x, j.waitsOn e = some x → x ∉ j.closed := by
    intro x hx
    unfold waitsOn at hx
    split at hx
    · obtain ⟨q, hq, rfl⟩ := waitsOnProcess_reachable hr x hx
      exact hopen q hq (not_dropped_of_waiting hr (by rw [hx]; rfl))
    · split at hx
      · cases hx
        exact hmonitor ‹_›
      · cases hx
    · split at hx
      · cases hx
        exact hmonitor ‹_›
      · cases hx
    · cases hx
  rw [waitsOnClosed]
  cases hx : j.waitsOn e with
  | none => rfl
  | some x => simpa using hnot x hx

/-- When the last `Arc` goes before the wait thread, the thread is in its loop with
a closed handle. -/
theorem exists_waitsOnClosed {j j' : Job} {e : Event} (hr : machine.Reachable j)
    (hstep : j.step e = some j') (hbreak : j.letsGoAfterWait e = false) :
    ∃ e', (j'.step e').isSome = true ∧ j'.waitsOnClosed e' = true := by
  have hr' := hr.step trivial hstep
  obtain ⟨hgo, hon⟩ : j.letsGo e = true ∧ j.waiter.on.isSome = true := by
    simpa [letsGoAfterWait] using hbreak
  obtain ⟨x, hx⟩ := Option.isSome_iff_exists.mp hon
  obtain ⟨r, hact, rfl⟩ := Option.map_eq_some_iff.mp hstep
  obtain ⟨hwaiter, hheld⟩ := waiter_of_letsGo hact hgo
  rw [← settle_waiter] at hwaiter
  rw [← hwaiter] at hx
  rw [← settle_held] at hheld
  obtain ⟨q, hq, rfl⟩ := waitsOnProcess_reachable hr' x hx
  obtain ⟨e', he'⟩ := exists_step_of_on hx
  refine ⟨.waiter e', he', ?_⟩
  have hone := ((owned_reachable hr').once q hq (dropped_of_not_held hr' hheld)).1
  have hmem : q.launched.processHandle ∈ r.settle.closed :=
    List.count_pos_iff.mp (by omega)
  rw [waitsOnClosed, waitsOn, hx]
  simpa using hmem

/-- In no state of a run can anyone wait on a closed handle, exactly if in every
step of the run the last `Arc` goes only after the wait thread has left its
loop. -/
theorem waits_only_on_open {j₀ j : Job} {es : List Event} (h0 : Initial j₀)
    (hp : machine.Path StepMachine.Any j₀ es j) :
    (∀ u ∈ machine.states j₀ es, ∀ e, (u.step e).isSome = true →
        u.waitsOnClosed e = false) ↔
      machine.Path (fun j e => j.letsGoAfterWait e = true) j₀ es j := by
  refine hp.forall_states_iff_path
    (I := machine.Reach fun j e => j.letsGoAfterWait e = true) ?_ ?_ ?_ ⟨j₀, [], h0, .nil j₀⟩
  · intro u hu e _
    exact waitsOnClosed_eq_false hu e
  · intro u e v hu hgoes hstep
    exact hu.step hgoes hstep
  · intro u e v hu hstep hbreak hv
    have hr : machine.Reachable u := StepMachine.Reach.mono (fun _ _ _ => trivial) hu
    obtain ⟨e', hsome, hclosed⟩ := exists_waitsOnClosed hr hstep (by simpa using hbreak)
    rw [hv e' hsome] at hclosed
    cases hclosed

/-- A process exits, its job completes, and the shutdown removes the job. -/
def exitedEvents : List Event :=
  launchEvents 0 ++ [.monitor (.step 0), .os (.exit 0)] ++ exitEvents 0 ++
    [.watcher .sent, .watcher (.step 1), .watcher (.step 1), .begin .forceCleanupAll] ++
    List.replicate 5 (.call 0 (.step 1))

theorem waits_only_on_open_exited :
    ∃ j, machine.Path StepMachine.Any (create 1 none 0 0) exitedEvents j ∧
      j.closed.count shell.processHandle = 1 ∧
      ∀ u ∈ machine.states (create 1 none 0 0) exitedEvents, ∀ e,
        (u.step e).isSome = true → u.waitsOnClosed e = false := by
  have hrun : (machine.runIf (fun j e => j.letsGoAfterWait e = true)
      (create 1 none 0 0) exitedEvents).any
      (fun j => j.closed.count shell.processHandle = 1) = true := by decide +kernel
  obtain ⟨j, hj, hclosed⟩ := (Option.any_eq_true _ _).mp hrun
  have hall := StepMachine.path_of_runIf hj
  have hpath : machine.Path StepMachine.Any (create 1 none 0 0) exitedEvents j :=
    hall.mono fun _ _ _ => trivial
  exact ⟨j, hpath, by simpa using hclosed,
    (waits_only_on_open ⟨1, none, 0, 0, rfl⟩ hpath).mpr hall⟩

/-- After the shutdown has removed a running job, its wait thread goes on with a
handle that is closed. -/
theorem waits_on_closed :
    ∃ j e j', machine.Reachable j ∧ j.step e = some j' ∧ j.waitsOnClosed e = true := by
  obtain ⟨j, hr, hp⟩ := StepMachine.reach_of_runIf machine StepMachine.Any
    ⟨1, none, 0, 0, rfl⟩ removedEvents
    (fun j => (j.step (.waiter .wait)).isSome && j.waitsOnClosed (.waiter .wait))
    (by decide +kernel)
  rw [Bool.and_eq_true] at hp
  obtain ⟨j', hj'⟩ := Option.isSome_iff_exists.mp hp.1
  exact ⟨j, .waiter .wait, j', hr, hj', hp.2⟩

end RemoteAgent.Job
