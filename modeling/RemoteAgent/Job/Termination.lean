import RemoteAgent.Job.Machine

/-!
# Who kills the process

A process tree dies when the timeout monitor terminates the job object or the
process, or when the last `Arc` to the handle is dropped and the job object is
closed with it.  `cancel_job` does neither: it cancels the token and moves the
job to Canceled, and the token makes the monitor return.

* `Alive` says that whoever holds an `Arc` finds the job object in the handle
  (`alive_reachable`).
* `killed_when_ended`: in every run in which a cancellation takes effect only on
  a job without a process, or on one whose termination the monitor has already
  begun, a launched job that ends as Canceled or TimedOut has its termination
  requested by the time its tasks are done.
* `canceled_and_running` is a run in which a CANCEL ends all tasks of a job and
  nobody has asked for its process to end.
-/

namespace RemoteAgent.Job

open CodeLib Protocol IoPump
open JobManager (SystemTime Duration HANDLE JobState JobHandle)

/-! ## The job object stays in the handle -/

/-- `handle_run` has not yet stored the job object. -/
def RunPc.storing : RunPc → Bool
  | .storeProcess _ | .storeJobObject _ => true
  | _ => false

/-- The handle has the job object of the process, once it is stored and until it
is dropped. -/
def HasObject (j : Job) : Prop :=
  ∀ q, j.process = some q → j.dropped = false → j.run.storing = false →
    j.handle.jobObject = q.launched.jobObject

/-- Only a handle without an owner is dropped, and until then it has the job
object. -/
structure Alive (j : Job) : Prop where
  held : j.dropped = true → j.held = false
  object : j.HasObject

/-! A task that moves holds an `Arc`. -/

theorem RunPc.holdsArc_of_step {a : JobHandle} {registered : Bool} {pc : RunPc}
    {e : RunEvent} {r : JobHandle × RunPc × RunEffect}
    (h : pc.step a registered e = some r) : pc.holdsArc = true := by
  cases pc with
  | returned _ => cases h
  | _ => rfl

theorem MonitorPc.holdsArc_of_step {a : JobHandle} {registered exited : Bool}
    {pc : MonitorPc} {e : MonitorEvent} {r : JobHandle × MonitorPc × List HANDLE}
    (h : pc.step a registered exited e = some r) : pc.holdsArc = true := by
  cases pc with
  | notSpawned | returned => cases h
  | _ => rfl

theorem WatcherPc.holdsArc_of_step {a : JobHandle} {registered : Bool}
    {waiter : WaiterPc} {pc : WatcherPc} {e : WatcherEvent}
    {r : JobHandle × WatcherPc × WaiterPc × List Frame}
    (h : pc.step a registered waiter e = some r) : pc.holdsArc = true := by
  cases pc with
  | notSpawned | returned => cases h
  | _ => rfl

theorem SweepPc.step_holdsArc {a a' : JobHandle} {registered' : Bool} {pc pc' : SweepPc}
    (h : pc.step a false = some (a', registered', pc')) (hc : pc.holdsArc = false) :
    pc'.holdsArc = false ∧ registered' = false := by
  cases pc with
  | collect =>
    cases h
    exact ⟨rfl, rfl⟩
  | cleanup pc =>
    cases pc with
    | getJob | returned =>
      cases h
      exact ⟨rfl, rfl⟩
    | cancelToken | remove => exact absurd hc (by simp [SweepPc.holdsArc, CleanupPc.holdsArc])
  | returned => cases h

/-- A call on a job that is not registered any more does not get an `Arc`. -/
theorem Call.step_holdsArc {a a' : JobHandle} {registered' : Bool} {last : SystemTime}
    {c c' : Call} {e : CallEvent} (h : c.step a false last e = some (a', registered', c'))
    (hc : c.holdsArc = false) : c'.holdsArc = false ∧ registered' = false := by
  unfold Call.step at h
  split at h
  · rename_i pc now
    cases pc with
    | getJob =>
      cases h
      exact ⟨rfl, rfl⟩
    | write => exact absurd hc (by simp [Call.holdsArc])
    | returned => cases h
  · rename_i pc now
    cases pc with
    | getJob =>
      cases h
      exact ⟨rfl, rfl⟩
    | checkTerminal | cancelToken | toCanceled pc => exact absurd hc (by simp [Call.holdsArc])
    | returned => cases h
  · simp only [Option.map_eq_some_iff] at h
    obtain ⟨⟨b, r, q⟩, hs, heq⟩ := h
    cases heq
    unfold IdlePc.step at hs
    split at hs
    case h_7 =>
      simp only [Option.map_eq_some_iff] at hs
      obtain ⟨⟨b', r', q'⟩, hs', heq⟩ := hs
      cases heq
      exact SweepPc.step_holdsArc hs' hc
    all_goals cases hs <;> refine ⟨?_, rfl⟩ <;> (try split) <;> rfl
  · simp only [Option.map_eq_some_iff] at h
    obtain ⟨⟨b, r, q⟩, hs, heq⟩ := h
    cases heq
    exact SweepPc.step_holdsArc hs hc
  · exact absurd h (by simp)

/-- Once nobody holds the handle, nobody gets it again. -/
theorem held_act {j r : Job} {e : Event} (hheld : j.held = false) (h : j.act e = some r) :
    r.held = false := by
  obtain ⟨⟨⟨⟨hreg, hrun⟩, hmon⟩, hwat⟩, hcalls⟩ :
      (((j.registered = false ∧ j.run.holdsArc = false) ∧ j.monitor.holdsArc = false) ∧
        j.watcher.holdsArc = false) ∧ j.calls.any Call.holdsArc = false := by
    simpa only [held, Bool.or_eq_false_iff] using hheld
  cases e with
  | run e =>
    simp only [act, Option.map_eq_some_iff] at h
    obtain ⟨_, hs, -⟩ := h
    rw [RunPc.holdsArc_of_step hs] at hrun
    exact absurd hrun (by simp)
  | pump o e =>
    simp only [act, Option.bind_eq_some_iff, Option.map_eq_some_iff] at h
    obtain ⟨p, -, ⟨w, q, fs⟩, -, rfl⟩ := h
    exact hheld
  | monitor e =>
    simp only [act, Option.map_eq_some_iff] at h
    obtain ⟨_, hs, -⟩ := h
    rw [MonitorPc.holdsArc_of_step hs] at hmon
    exact absurd hmon (by simp)
  | watcher e =>
    simp only [act, Option.map_eq_some_iff] at h
    obtain ⟨_, hs, -⟩ := h
    rw [WatcherPc.holdsArc_of_step hs] at hwat
    exact absurd hwat (by simp)
  | waiter e =>
    simp only [act, Option.map_eq_some_iff] at h
    obtain ⟨pc, -, rfl⟩ := h
    exact hheld
  | begin op =>
    cases h
    have hop : op.begin.holdsArc = false := by cases op <;> rfl
    simp only [held, hreg, hrun, hmon, hwat, List.any_append, hcalls, List.any_cons, hop,
      List.any_nil, Bool.or_false]
  | call i e =>
    simp only [act, Option.bind_eq_some_iff, Option.map_eq_some_iff] at h
    obtain ⟨c, hc, ⟨a, registered, c'⟩, hs, rfl⟩ := h
    rw [hreg] at hs
    have hnot : ∀ c ∈ j.calls, c.holdsArc = false := by simpa using hcalls
    obtain ⟨hc', rfl⟩ := Call.step_holdsArc hs (hnot c (List.mem_of_getElem? hc))
    have hset : (j.calls.set i c').any Call.holdsArc = false := by
      rw [List.any_eq_false]
      intro x hx
      rcases List.mem_or_eq_of_mem_set hx with hx | rfl
      · rw [hnot x hx]
        simp
      · rw [hc']
        simp
    simp only [held, hrun, hmon, hwat, hset, Bool.or_false]
  | os e =>
    have hkeep : r.registered = j.registered ∧ r.run = j.run ∧ r.monitor = j.monitor ∧
        r.watcher = j.watcher ∧ r.calls = j.calls := by
      cases e with
      | write o data =>
        simp only [act, osStep] at h
        split at h
        · simp only [Option.map_eq_some_iff] at h
          obtain ⟨p, -, rfl⟩ := h
          exact ⟨rfl, rfl, rfl, rfl, rfl⟩
        · cases h
      | exit code =>
        simp only [act, osStep] at h
        split at h
        · cases h
          exact ⟨rfl, rfl, rfl, rfl, rfl⟩
        · cases h
      | _ =>
        cases h
        exact ⟨rfl, rfl, rfl, rfl, rfl⟩
    unfold held
    rw [hkeep.1, hkeep.2.1, hkeep.2.2.1, hkeep.2.2.2.1, hkeep.2.2.2.2]
    exact hheld

theorem settle_held (j : Job) : j.settle.held = j.held := by
  unfold settle
  split <;> rfl

/-- Settling drops the handle exactly when nobody holds it. -/
theorem settle_dropped (j : Job) : j.settle.dropped = (j.dropped || !j.held) := by
  unfold settle
  cases hd : j.dropped <;> cases hh : j.held <;> simp [hd]

theorem settle_of_not_dropped {j : Job} (h : j.settle.dropped = false) : j.settle = j := by
  rw [settle_dropped] at h
  unfold settle
  cases hd : j.dropped <;> cases hh : j.held <;> simp_all

theorem HasObject.settle {j : Job} (h : j.HasObject) : j.settle.HasObject := by
  intro q hq hd hpc
  have heq := settle_of_not_dropped hd
  rw [heq] at hq hd hpc ⊢
  exact h q hq hd hpc

theorem act_dropped {j r : Job} {e : Event} (h : j.act e = some r) :
    r.dropped = j.dropped := by
  cases e with
  | run e =>
    simp only [act, Option.map_eq_some_iff] at h
    obtain ⟨⟨a, pc, eff⟩, -, rfl⟩ := h
    cases eff <;> rfl
  | pump o e =>
    simp only [act, Option.bind_eq_some_iff, Option.map_eq_some_iff] at h
    obtain ⟨p, -, ⟨w, q, fs⟩, -, rfl⟩ := h
    rfl
  | call i e =>
    simp only [act, Option.bind_eq_some_iff, Option.map_eq_some_iff] at h
    obtain ⟨c, -, ⟨a, registered, c'⟩, -, rfl⟩ := h
    rfl
  | begin op =>
    cases h
    rfl
  | os e =>
    cases e with
    | write o data =>
      simp only [act, osStep] at h
      split at h
      · simp only [Option.map_eq_some_iff] at h
        obtain ⟨p, -, rfl⟩ := h
        rfl
      · cases h
    | exit code =>
      simp only [act, osStep] at h
      split at h <;> cases h
      rfl
    | _ =>
      cases h
      rfl
  | _ =>
    simp only [act, Option.map_eq_some_iff] at h
    obtain ⟨_, -, rfl⟩ := h
    rfl

/-- The invariant for the drop. -/
theorem dropped_step {j j' : Job} {e : Event} (hj : j.dropped = true → j.held = false)
    (h : j.step e = some j') : j'.dropped = true → j'.held = false := by
  simp only [step, Option.map_eq_some_iff] at h
  obtain ⟨r, hact, rfl⟩ := h
  intro hd
  rw [settle_held]
  rw [settle_dropped] at hd
  cases hh : r.held with
  | false => rfl
  | true =>
    rw [hh, act_dropped hact] at hd
    have hheld := held_act (hj (by simpa using hd)) hact
    rw [hh] at hheld
    exact absurd hheld (by simp)

theorem RunPc.step_object {a a' : JobHandle} {registered : Bool} {pc pc' : RunPc}
    {e : RunEvent} {eff : RunEffect}
    (h : pc.step a registered e = some (a', pc', eff)) (hpc : pc'.storing = false) :
    (∃ p, pc = .storeJobObject p ∧ a'.jobObject = p.jobObject ∧ eff = .none) ∨
      pc.storing = false ∧ a'.jobObject = a.jobObject ∧ ∀ p, eff ≠ .start p := by
  unfold RunPc.step at h
  split at h
  case h_9 p now =>
    cases h
    exact .inl ⟨p, rfl, rfl, rfl⟩
  case h_5 | h_11 =>
    right
    split at h
    · rename_i heq
      cases h
      obtain ⟨-, rfl⟩ := JobHandle.commit_of_transition heq
      exact ⟨rfl, by simp, by simp⟩
    · cases h
      exact ⟨rfl, rfl, by simp⟩
  case h_23 =>
    right
    split at h
    · rename_i heq
      cases h
      exact ⟨rfl, (CleanupPc.step_update heq).keeps.2.2, by simp⟩
    · cases h
  case h_6 | h_8 =>
    cases h
    exact absurd hpc (by simp [RunPc.storing])
  all_goals (try split at h) <;> cases h <;> right <;>
    exact ⟨rfl, by simp [JobHandle.touch], by simp⟩

theorem Alive.run {j : Job} {e : RunEvent} {a : JobHandle} {pc : RunPc}
    {eff : RunEffect} (hst : j.Staged) (hj : j.Alive)
    (hs : j.run.step j.handle j.registered e = some (a, pc, eff)) :
    (effect { j with handle := a, run := pc } eff).HasObject := by
  intro q hq hd hpc
  have hrun := effect_run { j with handle := a, run := pc } eff
  have hhandle := effect_handle { j with handle := a, run := pc } eff
  have hdropped := effect_dropped { j with handle := a, run := pc } eff
  rw [hrun] at hpc
  rw [hhandle]
  rw [hdropped] at hd
  rcases RunPc.step_object hs hpc with ⟨p, hp, hobj, rfl⟩ | ⟨hnot, hobj, hne⟩
  · obtain ⟨code, hproc⟩ := hst.inHand p (by rw [hp]; rfl)
    have hq' : j.process = some q := hq
    rw [hproc] at hq'
    obtain rfl : (⟨p, code⟩ : Process) = q := Option.some.inj hq'
    exact hobj
  · rw [effect_process _ hne] at hq
    exact hobj.trans (hj.object q hq hd hnot)

theorem Alive.step {j j' : Job} {e : Event} (hst : j.Staged) (hj : j.Alive)
    (h : j.step e = some j') : j'.Alive := by
  refine ⟨dropped_step hj.held h, ?_⟩
  have hobj := hj.object
  cases e with
  | run e =>
    obtain ⟨a, pc, eff, hs, rfl⟩ := step_run h
    exact (hj.run hst hs).settle
  | pump o e =>
    obtain ⟨p, w, q', fs, -, -, rfl⟩ := step_pump h
    exact HasObject.settle hobj
  | monitor e =>
    obtain ⟨a, pc, hs, hm, rfl⟩ := step_monitor h
    refine HasObject.settle fun q hq hd hpc => ?_
    exact (MonitorPc.step_update hm).keeps.2.2.trans (hobj q hq hd hpc)
  | watcher e =>
    obtain ⟨a, pc, waiter, fs, hw, rfl⟩ := step_watcher h
    refine HasObject.settle fun q hq hd hpc => ?_
    exact (WatcherPc.step_update hw).keeps.2.2.trans (hobj q hq hd hpc)
  | waiter e =>
    obtain ⟨pc, -, rfl⟩ := step_waiter h
    exact HasObject.settle hobj
  | begin op =>
    rw [step_begin h]
    exact HasObject.settle hobj
  | call i e =>
    obtain ⟨c, a, registered, c', -, hc, rfl⟩ := step_call h
    refine HasObject.settle fun q hq hd hpc => ?_
    exact (Call.step_update hc).keeps.2.2.trans (hobj q hq hd hpc)
  | os e =>
    rcases step_os h with ⟨o, data, p, -, -, -, rfl⟩ | ⟨o, -, rfl⟩ | ⟨code, p, -, hp, rfl⟩ |
      ⟨now, -, rfl⟩
    · exact HasObject.settle hobj
    · exact HasObject.settle hobj
    · refine HasObject.settle fun q hq hd hpc => ?_
      obtain rfl : (⟨p, some code⟩ : Process) = q := Option.some.inj hq
      exact hobj ⟨p, none⟩ hp hd hpc
    · exact HasObject.settle hobj

theorem alive_reachable {C : Job → Event → Prop} {j : Job} (h : machine.Reach C j) :
    j.Alive := by
  refine h.invariant_of (J := fun j => j.Staged) (fun _ hr => staged_reachable hr) ?_ ?_
  · rintro _ ⟨jobId, timeout, now, last, rfl⟩
    exact ⟨fun hd => (by cases hd), fun q hq => (by cases hq)⟩
  · intro s e u hst hs _ hstep
    exact Alive.step hst hs hstep

/-! ## Asking for the end of the process -/

/-- Someone has terminated the job object or the process, or the job object,
which kills on close, was closed. -/
def terminationRequested (j : Job) : Bool :=
  match j.process with
  | some q =>
    q.launched.jobObject ∈ j.terminated || q.launched.processHandle ∈ j.terminated ||
      q.launched.jobObject ∈ j.closed
  | none => false

/-- The monitor is past its checks and will terminate the job object. -/
def MonitorPc.kills : MonitorPc → Bool
  | .toTimedOut _ | .cancelToken | .terminateObject => true
  | _ => false

theorem MonitorPc.holdsArc_of_kills {pc : MonitorPc} (h : pc.kills = true) :
    pc.holdsArc = true := by
  cases pc <;> first | rfl | cases h

/-- The end of the process is asked for or will be. -/
def Doomed (j : Job) : Prop := j.monitor.kills = true ∨ j.terminationRequested = true

/-- A job that has ended as Canceled or TimedOut while it had a process, and on
which no task works any more, has its termination requested.  A call that moves
the state returns with the move. -/
def KilledWhenEnded (j : Job) : Prop :=
  j.process.isSome = true → j.handle.state = .canceled ∨ j.handle.state = .timedOut →
    j.run.holdsArc = false → j.monitor.holdsArc = false → j.watcher.holdsArc = false →
    j.terminationRequested = true

/-- A cancellation that takes effect finds the job without a process, or finds
its end already under way. -/
def cancelCovered (j : Job) : Event → Bool
  | .call i _ =>
    match j.calls[i]? with
    | some (.cancelJob (.toCanceled .commit)) =>
      j.handle.state.isTerminal || j.handle.state = .created || j.monitor.kills ||
        j.terminationRequested
    | _ => true
  | _ => true

theorem settle_closed (j : Job) : j.closed ⊆ j.settle.closed := by
  unfold settle
  split
  · exact List.Subset.refl _
  · exact List.subset_append_left ..

/-- A process stays the one that was launched, and what was terminated or closed
stays so. -/
structure Grows (j j' : Job) : Prop where
  process : ∀ q, j.process = some q → ∃ code, j'.process = some ⟨q.launched, code⟩
  terminated : j.terminated ⊆ j'.terminated
  closed : j.closed ⊆ j'.closed

theorem Grows.settle {j r : Job} (hp : r.process = j.process)
    (ht : j.terminated ⊆ r.terminated) (hc : r.closed = j.closed) : Grows j r.settle where
  process := fun q hq => ⟨q.exitCode, by rw [settle_process, hp, hq]⟩
  terminated := by rwa [settle_terminated]
  closed := by
    rw [← hc]
    exact settle_closed r

theorem Grows.run {j j' : Job} {e : RunEvent} (hst : j.Staged)
    (h : j.step (.run e) = some j') : Grows j j' := by
  obtain ⟨a, pc, eff, hs, rfl⟩ := step_run h
  have hf := RunPc.step_follows hs
  refine ⟨?_, ?_, ?_⟩
  · intro q hq
    rw [settle_process, effect_process]
    · exact ⟨q.exitCode, hq⟩
    · intro p hp
      have hnone := hst.unlaunched (by rw [(hf.start p hp).1]; rfl)
      rw [hnone] at hq
      exact absurd hq (by simp)
  · rw [settle_terminated]
    cases eff <;> exact List.Subset.refl _
  · refine List.Subset.trans ?_ (settle_closed _)
    cases eff <;> first | exact List.Subset.refl _ | exact List.subset_append_left ..

theorem step_grows {j j' : Job} {e : Event} (hst : j.Staged) (h : j.step e = some j') :
    Grows j j' := by
  cases e with
  | run e => exact .run hst h
  | pump o e =>
    obtain ⟨p, w, q', fs, -, -, rfl⟩ := step_pump h
    exact .settle rfl (List.Subset.refl _) rfl
  | monitor e =>
    obtain ⟨a, pc, hs, hm, rfl⟩ := step_monitor h
    exact .settle rfl (List.subset_append_left ..) rfl
  | watcher e =>
    obtain ⟨a, pc, waiter, fs, hw, rfl⟩ := step_watcher h
    exact .settle rfl (List.Subset.refl _) rfl
  | waiter e =>
    obtain ⟨pc, -, rfl⟩ := step_waiter h
    exact .settle rfl (List.Subset.refl _) rfl
  | begin op =>
    rw [step_begin h]
    exact .settle rfl (List.Subset.refl _) rfl
  | call i e =>
    obtain ⟨c, a, registered, c', -, hc, rfl⟩ := step_call h
    exact .settle rfl (List.Subset.refl _) rfl
  | os e =>
    rcases step_os h with ⟨o, data, p, -, -, -, rfl⟩ | ⟨o, -, rfl⟩ | ⟨code, p, -, hp, rfl⟩ |
      ⟨now, -, rfl⟩
    · exact .settle rfl (List.Subset.refl _) rfl
    · exact .settle rfl (List.Subset.refl _) rfl
    · refine ⟨fun q hq => ⟨some code, ?_⟩, by simp,
        settle_closed { j with process := some ⟨p, some code⟩ }⟩
      rw [hp] at hq
      obtain rfl : (⟨p, none⟩ : Process) = q := Option.some.inj hq
      simp
    · exact .settle rfl (List.Subset.refl _) rfl

theorem Grows.requested {j j' : Job} (hg : Grows j j')
    (h : j.terminationRequested = true) : j'.terminationRequested = true := by
  unfold terminationRequested at h ⊢
  cases hq : j.process with
  | none =>
    rw [hq] at h
    exact absurd h (by simp)
  | some q =>
    obtain ⟨code, hq'⟩ := hg.process q hq
    rw [hq] at h
    rw [hq']
    simp only [Bool.or_eq_true, decide_eq_true_eq] at h ⊢
    rcases h with (h | h) | h
    · exact .inl (.inl (hg.terminated h))
    · exact .inl (.inr (hg.terminated h))
    · exact .inr (hg.closed h)

/-- The monitor ends what it has begun. -/
theorem MonitorPc.step_kills {a a' : JobHandle} {registered exited : Bool}
    {pc pc' : MonitorPc} {e : MonitorEvent} {hs : List HANDLE}
    (h : pc.step a registered exited e = some (a', pc', hs)) (hk : pc.kills = true)
    (hobj : a.jobObject ≠ 0) : pc'.kills = true ∨ a.jobObject ∈ hs := by
  unfold MonitorPc.step at h
  split at h
  case h_10 =>
    rw [if_neg hobj] at h
    cases h
  case h_11 =>
    rw [if_neg hobj] at h
    split at h <;> cases h <;> exact .inr (List.mem_singleton.mpr rfl)
  case h_7 =>
    cases h
    left
    split <;> rfl
  case h_8 | h_9 =>
    cases h
    exact .inl rfl
  case h_16 => cases h
  all_goals exact absurd hk (by simp [MonitorPc.kills])

/-- A monitor that exists is moved by nobody else. -/
theorem step_monitor_eq {j j' : Job} {e : Event} (hst : j.Staged)
    (h : j.step e = some j') (hm : j.monitor ≠ .notSpawned)
    (hne : ∀ e', e ≠ .monitor e') : j'.monitor = j.monitor := by
  rcases e.run_or_ne with ⟨e', rfl⟩ | hrun
  · obtain ⟨a, pc, eff, hs, rfl⟩ := step_run h
    rw [settle_monitor]
    apply effect_monitor
    intro heff
    exact hm (hst.monitor (.inl ((RunPc.step_follows hs).spawnMonitor heff)))
  · exact (step_frame h hrun).monitor hne

/-- A monitor that moves finds the job object in the handle. -/
theorem jobObject_of_monitor {j : Job} (hst : j.Staged) (hal : j.Alive)
    (hm : j.monitor.holdsArc = true) :
    ∃ q, j.process = some q ∧ j.handle.jobObject = q.launched.jobObject := by
  have hheld : j.held = true := by
    unfold held
    rw [hm]
    simp
  have hdropped : j.dropped = false := by
    cases hd : j.dropped with
    | false => rfl
    | true =>
      rw [hal.held hd] at hheld
      exact absurd hheld (by simp)
  have hup : ¬ (j.run.monitorUp = false ∨ j.process = none) := by
    intro hup
    rw [hst.monitor hup] at hm
    exact absurd hm (by simp [MonitorPc.holdsArc])
  obtain ⟨q, hq⟩ : ∃ q, j.process = some q :=
    Option.ne_none_iff_exists'.mp fun hnone => hup (.inr hnone)
  have hstoring : j.run.storing = false := by
    cases hpc : j.run <;> first | rfl | exact absurd (.inl (by rw [hpc]; rfl)) hup
  exact ⟨q, hq, hal.object q hq hdropped hstoring⟩

theorem Doomed.monitor {j j' : Job} {e : MonitorEvent} (hst : j.Staged) (hal : j.Alive)
    (hk : j.monitor.kills = true) (h : j.step (.monitor e) = some j') : j'.Doomed := by
  obtain ⟨a, pc, hs, hstep, rfl⟩ := step_monitor h
  obtain ⟨q, hq, hobj⟩ :=
    jobObject_of_monitor hst hal (MonitorPc.holdsArc_of_step hstep)
  have hvalid : j.handle.jobObject ≠ 0 := by
    rw [hobj]
    exact q.launched.object_valid
  rcases MonitorPc.step_kills hstep hk hvalid with hk' | hmem
  · left
    rw [settle_monitor]
    exact hk'
  · right
    rw [hobj] at hmem
    unfold terminationRequested
    rw [settle_process, settle_terminated, hq]
    simp [hmem]

theorem Doomed.step {j j' : Job} {e : Event} (hst : j.Staged) (hal : j.Alive)
    (hj : j.Doomed) (h : j.step e = some j') : j'.Doomed := by
  rcases hj with hk | hr
  · by_cases hm : ∃ e', e = .monitor e'
    · obtain ⟨e', rfl⟩ := hm
      exact .monitor hst hal hk h
    · left
      rw [step_monitor_eq hst h ?_ fun e' he => hm ⟨e', he⟩]
      · exact hk
      · intro hnot
        rw [hnot] at hk
        exact absurd hk (by simp [MonitorPc.kills])
  · exact .inr ((step_grows hst h).requested hr)

/-! ## Canceled and timed out jobs -/

/-- A job that has ended while it had a process is doomed. -/
structure Ending (j : Job) : Prop where
  launching : j.run = .launch → j.handle.state = .starting
  started : j.process.isSome = true → j.handle.state ≠ .created
  doomed : j.process.isSome = true → j.handle.state = .canceled ∨ j.handle.state = .timedOut →
    j.Doomed

theorem RunPc.step_launch {a a' : JobHandle} {registered : Bool} {pc : RunPc}
    {e : RunEvent} {eff : RunEffect}
    (h : pc.step a registered e = some (a', .launch, eff)) : a'.state = .starting := by
  unfold RunPc.step at h
  split at h <;> (try split at h) <;> (try (cases h; done))
  · rename_i heq
    cases h
    obtain ⟨hcan, rfl⟩ := JobHandle.commit_of_transition heq
    rw [JobHandle.commit_state, if_pos hcan]

/-- `handle_run` comes to the launch with the move to Starting. -/
theorem step_run_launch {j j' : Job} {e : Event} (h : j.step e = some j')
    (hl : j'.run = .launch) :
    (j.run = .launch ∧ ∀ e', e ≠ .run e') ∨ j'.handle.state = .starting := by
  rcases e.run_or_ne with ⟨e', rfl⟩ | hne
  · obtain ⟨a, pc, eff, hs, rfl⟩ := step_run h
    have hpc := effect_run { j with handle := a, run := pc } eff
    have hhandle := effect_handle { j with handle := a, run := pc } eff
    rw [settle_run, hpc] at hl
    rw [settle_state, hhandle]
    right
    subst hl
    exact RunPc.step_launch hs
  · rw [(step_frame h hne).run] at hl
    exact .inl ⟨hl, hne⟩

/-- A cancellation that takes effect under the condition. -/
theorem covered_of_cancel {j : Job} {i : Nat} {now : SystemTime}
    (hc : j.cancelCovered (.call i (.step now)) = true)
    (hget : j.calls[i]? = some (.cancelJob (.toCanceled .commit)))
    (hterm : j.handle.state.isTerminal = false) : j.handle.state = .created ∨ j.Doomed := by
  simp only [cancelCovered, hget, hterm, Bool.false_or, Bool.or_eq_true,
    decide_eq_true_eq] at hc
  rcases hc with (hc | hc) | hc
  · exact .inl hc
  · exact .inr (.inl hc)
  · exact .inr (.inr hc)

/-- Nothing is doomed before the launch. -/
theorem not_doomed_of_launch {j : Job} (hst : j.Staged) (hl : j.run = .launch) :
    ¬ j.Doomed := by
  rintro (hk | hr)
  · rw [hst.monitor (.inl (by rw [hl]; rfl))] at hk
    cases hk
  · unfold terminationRequested at hr
    rw [hst.unlaunched (by rw [hl]; rfl)] at hr
    cases hr

theorem Ending.step {j j' : Job} {e : Event} (hst : j.Staged) (hal : j.Alive)
    (hj : j.Ending) (hc : j.cancelCovered e = true) (h : j.step e = some j') :
    j'.Ending := by
  have hdoomed : j.Doomed → j'.Doomed := fun hd => hd.step hst hal h
  rcases step_moves h with hsame | ⟨hcan, hmove⟩
  · refine ⟨fun hl => ?_, fun hp => ?_, fun hp hend => ?_⟩
    · rcases step_run_launch h hl with ⟨hl, -⟩ | hs
      · rw [hsame]
        exact hj.launching hl
      · exact hs
    · rw [hsame]
      rcases step_process_isSome h hp with hp | hl
      · exact hj.started hp
      · rw [hj.launching hl]
        simp
    · rw [hsame] at hend
      rcases step_process_isSome h hp with hp | hl
      · exact hdoomed (hj.doomed hp hend)
      · rw [hj.launching hl] at hend
        exact absurd hend (by simp)
  · have hterm := JobManager.JobState.isTerminal_eq_false_of_canTransitionTo hcan
    generalize hnew : j'.handle.state = new at hmove hcan
    refine ⟨fun hl => ?_, fun _ => ?_, fun hp hend => ?_⟩
    · rcases step_run_launch h hl with ⟨hl, hne⟩ | hs
      · -- before the launch nobody but a cancellation could move the state
        cases hmove with
        | timedOut now hpc =>
          rw [hst.monitor (.inl (by rw [hl]; rfl))] at hpc
          cases hpc
        | exiting now code hpc =>
          rw [hst.watcher (.inl (by rw [hl]; rfl))] at hpc
          cases hpc
        | completed now hpc =>
          rw [hst.watcher (.inl (by rw [hl]; rfl))] at hpc
          cases hpc
        | canceled now i hget =>
          rcases covered_of_cancel hc hget hterm with hcr | hd
          · rw [hj.launching hl] at hcr
            cases hcr
          · exact absurd hd (not_doomed_of_launch hst hl)
        | _ => exact absurd rfl (hne _)
      · exact hs
    · rw [hnew]
      cases hmove <;> simp
    · rw [hnew] at hend
      cases hmove with
      | timedOut now hpc => exact hdoomed (.inl (by rw [hpc]; rfl))
      | canceled now i hget =>
        rcases covered_of_cancel hc hget hterm with hcr | hd
        · rcases step_process_isSome h hp with hp | hl
          · exact absurd hcr (hj.started hp)
          · rw [hj.launching hl] at hcr
            cases hcr
        · exact hdoomed hd
      | _ => exact absurd hend (by simp)

/-- In every run whose cancellations are covered, a job that has ended as
Canceled or TimedOut does not leave its process behind. -/
theorem killed_when_ended {j : Job}
    (h : machine.Reach (fun j e => j.cancelCovered e = true) j) : j.KilledWhenEnded := by
  have hinv : j.Ending := by
    refine h.invariant_of (J := fun j => j.Staged ∧ j.Alive)
      (fun _ hr => ⟨staged_reachable hr, alive_reachable hr⟩) ?_ ?_
    · rintro _ ⟨jobId, timeout, now, last, rfl⟩
      exact ⟨fun hl => (by cases hl), fun hp => (by cases hp), fun hp => (by cases hp)⟩
    · intro s e u hJ hs hc hstep
      exact Ending.step hJ.1 hJ.2 hs hc hstep
  intro hp hend _ hmon _
  rcases hinv.doomed hp hend with hk | hr
  · -- a monitor that is about to kill is not done
    rw [MonitorPc.holdsArc_of_kills hk] at hmon
    cases hmon
  · exact hr

instance (j : Job) : Decidable j.KilledWhenEnded :=
  inferInstanceAs (Decidable (j.process.isSome = true →
    j.handle.state = .canceled ∨ j.handle.state = .timedOut → j.run.holdsArc = false →
    j.monitor.holdsArc = false → j.watcher.holdsArc = false →
    j.terminationRequested = true))

/-- A watcher that is woken by the token runs to its end. -/
def cancelledWatcher (now : SystemTime) : List Event :=
  .watcher .cancelled :: List.replicate 4 (.watcher (.step now)) ++
    [.watcher .sent, .watcher (.step now), .watcher (.step now)]

/-- A job with a timeout of five nanoseconds is terminated after six. -/
theorem killed_when_ended_timeout :
    ∃ j, machine.Reach (fun j e => j.cancelCovered e = true) j ∧
      (j.handle.state = .timedOut ∧ j.terminated = [102]) ∧ j.KilledWhenEnded := by
  obtain ⟨j, hr, hp⟩ := StepMachine.reach_of_runIf machine
    (fun j e => j.cancelCovered e = true) ⟨1, some 5, 0, 0, rfl⟩
    (launchEvents 0 ++ ([.watcher (.step 0)] : List Event) ++
      List.replicate 3 (.monitor (.step 0)) ++ ([.monitor (.elapsed 6)] : List Event) ++
      List.replicate 3 (.monitor (.step 6)) ++
      ([.monitor (.terminated true), .os (.exit 1), .monitor .exitSeen] : List Event) ++
      cancelledWatcher 7)
    (fun j => j.handle.state = .timedOut && j.terminated = [102] && !j.run.holdsArc &&
      !j.monitor.holdsArc && !j.watcher.holdsArc)
    (by decide +kernel)
  have hp' : (((j.handle.state = .timedOut ∧ j.terminated = [102]) ∧
      j.run.holdsArc = false) ∧ j.monitor.holdsArc = false) ∧
      j.watcher.holdsArc = false := by simpa using hp
  exact ⟨j, hr, hp'.1.1.1, killed_when_ended hr⟩

/-- After a CANCEL all tasks of the job are done, the process runs on, and
nothing has asked for its end. -/
theorem canceled_and_running :
    ∃ j, machine.Reachable j ∧
      (j.handle.state = .canceled ∧ j.exitCode = none ∧ j.registered = true) ∧
      ¬ j.KilledWhenEnded := by
  obtain ⟨j, hr, hp⟩ := StepMachine.reach_of_runIf machine StepMachine.Any
    ⟨1, some 1000, 0, 0, rfl⟩
    (launchEvents 0 ++ ([.watcher (.step 0)] : List Event) ++
      List.replicate 3 (.monitor (.step 0)) ++ ([.monitor (.elapsed 6)] : List Event) ++
      cancelEvents 7 ++ ([.monitor .cancelled] : List Event) ++ cancelledWatcher 8)
    (fun j => j.handle.state = .canceled && j.exitCode = none && j.registered &&
      !decide j.KilledWhenEnded)
    (by decide +kernel)
  have hp' : ((j.handle.state = .canceled ∧ j.exitCode = none) ∧ j.registered = true) ∧
      ¬ j.KilledWhenEnded := by simpa using hp
  exact ⟨j, hr, ⟨hp'.1.1.1, hp'.1.1.2, hp'.1.2⟩, hp'.2⟩

end RemoteAgent.Job
