import RemoteAgent.Job.Machine

/-!
# Cancelled means not completed

`cancel_job` cancels the token first and moves the state after it;
`monitor_timeout` does it the other way round.  Cancelling the token wakes the
exit watcher, which moves the job to Exiting and to Completed.  So the watcher
may get its move in between the two of `cancel_job`, and a timeout that comes
while the job is Exiting cancels the token of a job that then completes.

* `cancel_recorded`: in every run of `handle_run`, the pumps, the watcher, the
  monitor and any number of `cancel_job` calls in which neither of the two
  happens, a cancellation of the token on a job that has not ended leads to
  Canceled or TimedOut and to no other end.
* `cancel_then_completed` is a run in which the watcher overtakes `cancel_job`.
-/

namespace RemoteAgent.Job

open CodeLib Protocol IoPump
open JobManager (SystemTime Duration HANDLE JobState JobHandle)

/-! ## The statement -/

/-- `cancel_job` or `terminate_job` cancels the token in this step. -/
def cancelsToken (j : Job) : Event → Bool
  | .call i (.step _) => j.calls[i]? = some (.cancelJob .cancelToken)
  | .monitor (.step _) => j.monitor = .cancelToken
  | _ => false

/-- A `cancel_job` call stands between the two of its writes. -/
def Call.canceling : Call → Bool
  | .cancelJob (.toCanceled _) => true
  | _ => false

def canceling (j : Job) : Bool := j.calls.any Call.canceling

/-- A `cancel_job` call is under way. -/
def Call.unfinished : Call → Bool
  | .cancelJob .returned => false
  | .cancelJob _ => true
  | _ => false

/-- The job ends as Canceled or TimedOut only, and it has ended once no
`cancel_job` call is under way. -/
def CancelRecorded (j : Job) : Prop :=
  (j.handle.state.isTerminal = true → j.handle.state = .canceled ∨ j.handle.state = .timedOut) ∧
    (j.calls.any Call.unfinished = false →
      j.handle.state = .canceled ∨ j.handle.state = .timedOut)

/-- Nobody cleans the job up. -/
def uncleaned : Event → Bool
  | .begin .cleanupIdleJobs | .begin .forceCleanupAll => false
  | _ => true

/-- Nobody completes or fails the job between the two writes of a `cancel_job`
call, and the monitor does not time out a job that is Exiting. -/
def undisputed (j : Job) : Event → Bool
  | .run (.step _) =>
    match j.run with
    | .toFailed _ .commit => !j.canceling
    | _ => true
  | .watcher (.step _) =>
    match j.watcher with
    | .toCompleted .commit => !j.canceling
    | _ => true
  | .monitor (.step _) =>
    match j.monitor with
    | .toTimedOut .commit => j.handle.state ≠ .exiting
    | _ => true
  | _ => true

/-- The runs that are looked at. -/
def Undisputed (j : Job) (e : Event) : Prop :=
  uncleaned e = true ∧ j.undisputed e = true

/-! ## Where a job stands -/

/-- `handle_run` is past the move to Running. -/
def RunPc.up : RunPc → Bool
  | .activityGet _ | .activityWrite _ | .spawnPump _ _ => true
  | .spawnMonitor _ | .spawnWatcher _ => true
  | _ => false

/-- `handle_run` has recorded the failed launch. -/
def RunPc.failed : RunPc → Bool
  | .sendError _ | .cleanup _ => true
  | _ => false

/-- `handle_run` stands at the launch or at the record of its failure. -/
def RunPc.launching : RunPc → Bool
  | .launch | .toFailed _ _ => true
  | _ => false

/-- A call that can unregister the job. -/
def Call.cleans : Call → Bool
  | .cleanupIdleJobs _ | .forceCleanupAll _ => true
  | _ => false

/-- What the positions of the tasks say about the state, in runs without
cleanup. -/
structure Orderly (j : Job) : Prop where
  calls : ∀ c ∈ j.calls, c.cleans = false
  unregistered : j.registered = false → j.handle.state.isTerminal = true
  failed : j.run.failed = true → j.handle.state.isTerminal = true
  launching : j.run.launching = true →
    j.handle.state = .starting ∨ j.handle.state.isTerminal = true
  up : j.run.up = true ∨ j.monitor ≠ .notSpawned →
    j.handle.state ≠ .created ∧ j.handle.state ≠ .starting
  timedOut : j.monitor = .cancelToken → j.handle.state.isTerminal = true

/-- How `handle_run` comes to the positions that matter here. -/
theorem RunPc.step_orderly {a a' : JobHandle} {registered : Bool} {pc pc' : RunPc}
    {e : RunEvent} {eff : RunEffect}
    (h : pc.step a registered e = some (a', pc', eff)) :
    (pc'.failed = true → pc.failed = true ∨
      (pc.launching = true ∧ registered = false ∧ a' = a) ∨
      ∃ msg now, pc = .toFailed msg .commit ∧ a' = a.commit .failed now) ∧
    (pc'.launching = true → a'.state = .starting ∨ pc.launching = true ∧ a'.state = a.state) ∧
    (pc'.up = true → pc.up = true ∨ a'.state = .running) ∧
    (eff = .spawnMonitor → pc.up = true) ∧
    (∀ r, eff = .register r → pc.failed = true) := by
  unfold RunPc.step at h
  split at h
  case h_5 | h_11 =>
    split at h
    · rename_i heq
      cases h
      obtain ⟨hcan, rfl⟩ := JobHandle.commit_of_transition heq
      simp [RunPc.failed, RunPc.launching, RunPc.up, JobHandle.commit_state, hcan]
    · cases h
      simp [RunPc.failed, RunPc.launching, RunPc.up]
  case h_18 =>
    cases h
    cases registered <;> simp [RunPc.failed, RunPc.launching, RunPc.up]
  case h_19 msg now =>
    cases h
    simp [RunPc.failed, RunPc.launching, RunPc.up]
  all_goals (try split at h) <;> cases h <;>
    simp [RunPc.failed, RunPc.launching, RunPc.up]

/-- A job that has left Created and Starting does not come back. -/
theorem step_not_early {j j' : Job} {e : Event} (h : j.step e = some j')
    (hs : j.handle.state ≠ .created ∧ j.handle.state ≠ .starting) :
    j'.handle.state ≠ .created ∧ j'.handle.state ≠ .starting := by
  rcases step_moves h with hsame | ⟨hcan, -⟩
  · rw [hsame]
    exact hs
  · cases hold : j.handle.state <;> cases hnew : j'.handle.state <;>
      simp_all [JobState.canTransitionTo]

theorem isTerminal_commit_failed {a : JobHandle} {now : SystemTime}
    (h : a.state = .starting ∨ a.state.isTerminal = true) :
    (a.commit .failed now).state.isTerminal = true := by
  rw [JobHandle.commit_state]
  rcases h with h | h
  · rw [h]
    rfl
  · split
    · rfl
    · exact h

theorem isTerminal_commit_timedOut {a : JobHandle} {now : SystemTime}
    (h : a.state ≠ .created ∧ a.state ≠ .starting) (hne : a.state ≠ .exiting) :
    (a.commit .timedOut now).state.isTerminal = true := by
  rw [JobHandle.commit_state]
  cases hs : a.state <;> simp_all [JobState.canTransitionTo, JobState.isTerminal]

theorem Orderly.run {j j' : Job} {e : RunEvent} (hj : j.Orderly)
    (h : j.step (.run e) = some j') : j'.Orderly := by
  have hterm : j.handle.state.isTerminal = true → j'.handle.state.isTerminal = true := by
    intro ht
    rw [step_terminal h ht]
    exact ht
  have hearly := step_not_early h
  obtain ⟨a, pc, eff, hs, hj'⟩ := step_run h
  have hrun := effect_run { j with handle := a, run := pc } eff
  have hhandle := effect_handle { j with handle := a, run := pc } eff
  have hcalls := effect_calls { j with handle := a, run := pc } eff
  have hstate : j'.handle.state = a.state := by rw [hj', settle_state, hhandle]
  have hrun' : j'.run = pc := by rw [hj', settle_run, hrun]
  obtain ⟨hfailed, hlaunching, hup, hspawn, hreg⟩ := RunPc.step_orderly hs
  refine ⟨?_, ?_, ?_, ?_, ?_, ?_⟩
  · rw [hj', settle_calls, hcalls]
    exact hj.calls
  · rw [hj', settle_registered, ← hj']
    cases eff with
    | register r => exact fun _ => hterm (hj.failed (hreg r rfl))
    | _ => exact fun hr => hterm (hj.unregistered hr)
  · rw [hrun']
    intro hpc
    rcases hfailed hpc with hpc | ⟨-, hr, -⟩ | ⟨msg, now, hpc, rfl⟩
    · exact hterm (hj.failed hpc)
    · exact hterm (hj.unregistered hr)
    · rw [hstate]
      exact isTerminal_commit_failed (hj.launching (by rw [hpc]; rfl))
  · rw [hrun', hstate]
    intro hpc
    rcases hlaunching hpc with hs | ⟨hpc, hs⟩
    · exact .inl hs
    · rw [hs]
      exact hj.launching hpc
  · rintro (hpc | hmon)
    · rw [hrun'] at hpc
      rcases hup hpc with hpc | hs
      · exact hearly (hj.up (.inl hpc))
      · rw [hstate, hs]
        simp
    · by_cases heff : eff = .spawnMonitor
      · exact hearly (hj.up (.inl (hspawn heff)))
      · rw [hj', settle_monitor, effect_monitor _ heff] at hmon
        exact hearly (hj.up (.inr hmon))
  · intro hmon
    by_cases heff : eff = .spawnMonitor
    · rw [hj', settle_monitor, heff] at hmon
      cases hmon
    · rw [hj', settle_monitor, effect_monitor _ heff] at hmon
      exact hterm (hj.timedOut hmon)

/-- How the monitor comes to cancel the token. -/
theorem MonitorPc.step_cancelToken {a a' : JobHandle} {registered exited : Bool}
    {pc : MonitorPc} {e : MonitorEvent} {hs : List HANDLE}
    (h : pc.step a registered exited e = some (a', .cancelToken, hs)) :
    (registered = false ∧ a' = a) ∨ ∃ now, e = .step now ∧ pc = .toTimedOut .commit ∧
      a' = a.commit .timedOut now := by
  unfold MonitorPc.step at h
  split at h
  case h_7 =>
    cases registered
    · cases h
      exact .inl ⟨rfl, rfl⟩
    · cases h
  case h_8 now =>
    cases h
    exact .inr ⟨now, rfl, rfl, rfl⟩
  all_goals
    (try split at h) <;> (try split at h) <;>
      simp only [Option.some.injEq, Prod.mk.injEq, reduceCtorEq, false_and, and_false] at h

/-- The monitor comes to cancel the token only on a job that has ended. -/
theorem Orderly.monitor {j j' : Job} {e : MonitorEvent} (hj : j.Orderly)
    (hc : j.undisputed (.monitor e) = true) (h : j.step (.monitor e) = some j') :
    j'.handle.state.isTerminal = true ∨ j'.monitor ≠ .cancelToken := by
  obtain ⟨a, pc, hs, hm, rfl⟩ := step_monitor h
  rw [settle_state, settle_monitor]
  by_cases hpc : pc = .cancelToken
  · left
    subst hpc
    rcases MonitorPc.step_cancelToken hm with ⟨hr, rfl⟩ | ⟨now, rfl, hpc, rfl⟩
    · exact hj.unregistered hr
    · have hne : j.handle.state ≠ .exiting := by simpa [undisputed, hpc] using hc
      exact isTerminal_commit_timedOut (hj.up (.inr (by rw [hpc]; simp))) hne
  · exact .inr hpc

theorem Call.step_cleans {a a' : JobHandle} {registered registered' : Bool}
    {last : SystemTime} {c c' : Call} {e : CallEvent}
    (h : c.step a registered last e = some (a', registered', c')) (hc : c.cleans = false) :
    c'.cleans = false ∧ registered' = registered := by
  unfold Call.step at h
  split at h
  case h_1 | h_2 =>
    simp only [Option.map_eq_some_iff] at h
    obtain ⟨_, -, heq⟩ := h
    cases heq
    exact ⟨rfl, rfl⟩
  case h_5 => cases h
  all_goals cases hc

/-- The monitor, seen from the other tasks. -/
theorem step_monitor_cases {j j' : Job} {e : Event} (h : j.step e = some j')
    (hne : ∀ e', e ≠ .run e') : j'.monitor = j.monitor ∨
      (∃ e', e = .monitor e') ∧ j.monitor ≠ .notSpawned := by
  by_cases hm : ∃ e', e = .monitor e'
  · right
    refine ⟨hm, ?_⟩
    obtain ⟨e', rfl⟩ := hm
    obtain ⟨a, pc, hs, hstep, -⟩ := step_monitor h
    intro hnot
    rw [hnot] at hstep
    cases hstep
  · exact .inl ((step_frame h hne).monitor fun e' he => hm ⟨e', he⟩)

/-- The calls on the job stay free of cleanups, and so the job stays
registered. -/
theorem Orderly.calls_step {j j' : Job} {e : Event} (hj : j.Orderly)
    (hc : uncleaned e = true) (h : j.step e = some j') (hne : ∀ e', e ≠ .run e') :
    (∀ c ∈ j'.calls, c.cleans = false) ∧ j'.registered = j.registered := by
  by_cases hcall : ∃ i e', e = .call i e'
  · obtain ⟨i, e', rfl⟩ := hcall
    obtain ⟨c, a, registered, c', hget, hs, rfl⟩ := step_call h
    obtain ⟨hclean, hreg⟩ := Call.step_cleans hs (hj.calls c (List.mem_of_getElem? hget))
    rw [settle_calls, settle_registered]
    refine ⟨?_, hreg⟩
    intro x hx
    rcases List.mem_or_eq_of_mem_set hx with hx | rfl
    · exact hj.calls x hx
    · exact hclean
  · have hf := step_frame h hne
    have hcall' : ∀ i e', e ≠ .call i e' := fun i e' he => hcall ⟨i, e', he⟩
    refine ⟨?_, hf.registered hcall'⟩
    by_cases hbegin : ∃ op, e = .begin op
    · obtain ⟨op, rfl⟩ := hbegin
      rw [step_begin h, settle_calls]
      intro c hcmem
      rcases List.mem_append.mp hcmem with hcmem | hcmem
      · exact hj.calls c hcmem
      · rw [List.mem_singleton.mp hcmem]
        cases op <;> first | rfl | cases hc
    · rw [hf.calls hcall' fun op he => hbegin ⟨op, he⟩]
      exact hj.calls

theorem Orderly.step {j j' : Job} {e : Event} (hst : j.Staged) (hj : j.Orderly)
    (hc : j.Undisputed e) (h : j.step e = some j') : j'.Orderly := by
  rcases e.run_or_ne with ⟨e', rfl⟩ | hne
  · exact hj.run h
  have hterm : j.handle.state.isTerminal = true → j'.handle.state.isTerminal = true := by
    intro ht
    rw [step_terminal h ht]
    exact ht
  have hearly := step_not_early h
  have hf := step_frame h hne
  obtain ⟨hcalls, hreg⟩ := hj.calls_step hc.1 h hne
  refine ⟨hcalls, ?_, ?_, ?_, ?_, ?_⟩
  · rw [hreg]
    exact fun hr => hterm (hj.unregistered hr)
  · rw [hf.run]
    exact fun hpc => hterm (hj.failed hpc)
  · rw [hf.run]
    intro hpc
    rcases hj.launching hpc with hs | ht
    · -- before the launch is over only a cancellation can move the state
      rcases step_moves h with hsame | ⟨-, hmove⟩
      · rw [hsame]
        exact .inl hs
      · have hunlaunched : j.run.monitorUp = false ∧ j.run.watcherUp = false := by
          cases hr : j.run <;> rw [hr] at hpc <;> first | exact ⟨rfl, rfl⟩ | cases hpc
        have hmon := hst.monitor (.inl hunlaunched.1)
        have hwat := hst.watcher (.inl hunlaunched.2)
        right
        generalize j'.handle.state = new at hmove
        cases hmove with
        | timedOut now hp => rfl
        | exiting now code hp =>
          rw [hwat] at hp
          cases hp
        | completed now hp => rfl
        | canceled now i hp => rfl
        | _ => exact absurd rfl (hne _)
    · exact .inr (hterm ht)
  · rw [hf.run]
    rintro (hpc | hmon)
    · exact hearly (hj.up (.inl hpc))
    · rcases step_monitor_cases h hne with heq | ⟨-, hm⟩
      · rw [heq] at hmon
        exact hearly (hj.up (.inr hmon))
      · exact hearly (hj.up (.inr hm))
  · intro hmon
    rcases step_monitor_cases h hne with heq | ⟨⟨e', rfl⟩, -⟩
    · rw [heq] at hmon
      exact hterm (hj.timedOut hmon)
    · rcases hj.monitor hc.2 h with ht | hm
      · exact ht
      · exact absurd hmon hm

theorem orderly_reachable {j : Job} (h : machine.Reach Undisputed j) : j.Orderly := by
  refine h.invariant_of (J := fun j => j.Staged) (fun _ hr => staged_reachable hr) ?_ ?_
  · rintro _ ⟨jobId, timeout, now, last, rfl⟩
    exact ⟨fun c hc => absurd hc List.not_mem_nil, fun hr => (by cases hr),
      fun hr => (by cases hr), fun hr => (by cases hr),
      fun hr => (by rcases hr with hr | hr <;> simp_all [create, RunPc.up]),
      fun hr => (by cases hr)⟩
  · intro s e u hst hs hc hstep
    exact Orderly.step hst hs hc hstep

/-! ## From the token to the end -/

/-- The cancellation is recorded, or a `cancel_job` call is about to record
it. -/
def Called (j : Job) : Prop :=
  j.handle.state = .canceled ∨ j.handle.state = .timedOut ∨
    j.handle.state.isTerminal = false ∧ j.canceling = true

theorem Called.recorded {j : Job} (h : j.Called) : j.CancelRecorded := by
  rcases h with h | h | ⟨hlive, hpending⟩
  · exact ⟨fun _ => .inl h, fun _ => .inl h⟩
  · exact ⟨fun _ => .inr h, fun _ => .inr h⟩
  · refine ⟨fun ht => ?_, fun hno => ?_⟩
    · rw [hlive] at ht
      cases ht
    · -- a call between its two writes is under way
      obtain ⟨c, hc, hcan⟩ := List.any_eq_true.mp hpending
      have hun : c.unfinished = true := by
        unfold Call.canceling at hcan
        split at hcan
        · rfl
        · cases hcan
      rw [List.any_eq_false] at hno
      exact absurd hun (hno c hc)

/-- A call between its two writes stays there until it has recorded the
cancellation. -/
theorem canceling_step {j j' : Job} {e : Event} (h : j.step e = some j')
    (hreg : j.registered = true) (hlive : j.handle.state.isTerminal = false)
    (hpending : j.canceling = true) :
    j'.canceling = true ∨ j'.handle.state = .canceled := by
  obtain ⟨c, hc, hcan⟩ := List.any_eq_true.mp hpending
  by_cases hcall : ∃ i e', e = .call i e'
  · obtain ⟨i, e', rfl⟩ := hcall
    obtain ⟨c₀, a, registered, c', hget, hs, rfl⟩ := step_call h
    by_cases heq : c₀ = c
    · -- the call itself moves
      subst heq
      cases hc₀ : c₀ with
      | cancelJob pc =>
        rw [hc₀] at hcan hs
        cases pc with
        | toCanceled pc =>
          cases e' with
          | othersActive => cases hs
          | step now =>
            cases pc with
            | getJob =>
              rw [hreg] at hs
              cases hs
              left
              refine List.any_eq_true.mpr ⟨.cancelJob (.toCanceled .commit), ?_, rfl⟩
              rw [settle_calls]
              exact List.mem_set (List.getElem?_eq_some_iff.mp hget).1 _
            | commit =>
              cases hs
              right
              rw [settle_state]
              show (j.handle.commit .canceled now).state = .canceled
              have hcan' := (JobManager.JobState.canTransitionTo_canceled_iff _).mpr hlive
              rw [JobHandle.commit_state, if_pos hcan']
        | _ => cases hcan
      | _ =>
        rw [hc₀] at hcan
        cases hcan
    · left
      refine List.any_eq_true.mpr ⟨c, ?_, hcan⟩
      rw [settle_calls]
      obtain ⟨k, hk⟩ := List.mem_iff_getElem?.mp hc
      have hne : k ≠ i := by
        rintro rfl
        rw [hget] at hk
        exact heq (Option.some.inj hk)
      refine List.mem_iff_getElem?.mpr ⟨k, ?_⟩
      show (j.calls.set i c')[k]? = some c
      rw [List.getElem?_set_ne (Ne.symm hne)]
      exact hk
  · left
    refine List.any_eq_true.mpr ⟨c, ?_, hcan⟩
    by_cases hbegin : ∃ op, e = .begin op
    · obtain ⟨op, rfl⟩ := hbegin
      rw [step_begin h, settle_calls]
      exact List.mem_append_left _ hc
    · rcases e.run_or_ne with ⟨e', rfl⟩ | hne
      · obtain ⟨a, pc, eff, -, rfl⟩ := step_run h
        have hcalls := effect_calls { j with handle := a, run := pc } eff
        rw [settle_calls, hcalls]
        exact hc
      · rw [(step_frame h hne).calls
          (fun i e' he => hcall ⟨i, e', he⟩) fun op he => hbegin ⟨op, he⟩]
        exact hc

theorem Called.step {j j' : Job} {e : Event} (ho : j.Orderly) (hj : j.Called)
    (hc : j.Undisputed e) (h : j.step e = some j') : j'.Called := by
  rcases hj with hs | hs | ⟨hlive, hpending⟩
  · left
    rw [step_terminal h (by rw [hs]; rfl)]
    exact hs
  · right
    left
    rw [step_terminal h (by rw [hs]; rfl)]
    exact hs
  · have hreg : j.registered = true := by
      by_contra hr
      rw [ho.unregistered (by simpa using hr)] at hlive
      cases hlive
    rcases canceling_step h hreg hlive hpending with hpending' | hs
    · rcases step_moves h with hsame | ⟨-, hmove⟩
      · right
        right
        rw [hsame]
        exact ⟨hlive, hpending'⟩
      · generalize hnew : j'.handle.state = new at hmove
        unfold Called
        rw [hnew]
        cases hmove with
        | failed now msg hpc =>
          have := hc.2
          simp [undisputed, hpc, hpending] at this
        | completed now hpc =>
          have := hc.2
          simp [undisputed, hpc, hpending] at this
        | timedOut now hpc => exact .inr (.inl rfl)
        | canceled now i hpc => exact .inl rfl
        | _ => exact .inr (.inr ⟨rfl, hpending'⟩)
    · exact .inl hs

/-- The step that cancels the token of a job that has not ended. -/
theorem called_of_cancelsToken {j j' : Job} {e : Event} (ho : j.Orderly)
    (h : j.step e = some j') (hcancel : j.cancelsToken e = true)
    (hlive : j.handle.state.isTerminal = false) : j'.Called := by
  unfold cancelsToken at hcancel
  split at hcancel
  · rename_i i now
    have hget : j.calls[i]? = some (.cancelJob .cancelToken) := by simpa using hcancel
    obtain ⟨c, a, registered, c', hget', hs, rfl⟩ := step_call h
    rw [hget] at hget'
    cases hget'
    cases hs
    right
    right
    rw [settle_state]
    refine ⟨hlive, List.any_eq_true.mpr ⟨.cancelJob (.toCanceled .getJob), ?_, rfl⟩⟩
    rw [settle_calls]
    exact List.mem_set (List.getElem?_eq_some_iff.mp hget).1 _
  · -- the monitor cancels the token after it has ended the job
    have hmon : j.monitor = .cancelToken := by simpa using hcancel
    rw [ho.timedOut hmon] at hlive
    cases hlive
  · cases hcancel

/-- In every run without cleanup in which nobody gets between the two writes of
`cancel_job` and no timeout comes while the job is Exiting: once `cancel_job` or
`terminate_job` has cancelled the token of a job that has not ended, the job ends
as Canceled or TimedOut and never as Completed. -/
theorem cancel_recorded {s s' t : Job} {e : Event} {ls : List Event}
    (hs : machine.Reach Undisputed s) (hc : s.Undisputed e) (hstep : s.step e = some s')
    (hcancel : s.cancelsToken e = true) (hlive : s.handle.state.isTerminal = false)
    (hp : machine.Path Undisputed s' ls t) : t.CancelRecorded := by
  have hs' : machine.Reach Undisputed s' := hs.step hc hstep
  have hcalled : s'.Called := called_of_cancelsToken (orderly_reachable hs) hstep hcancel hlive
  have hinv : machine.Reach Undisputed t ∧ t.Called := by
    refine hp.invariant (I := fun u => machine.Reach Undisputed u ∧ u.Called) ?_ ⟨hs', hcalled⟩
    rintro u e u' ⟨hr, hu⟩ hc hstep
    exact ⟨hr.step hc hstep, hu.step (orderly_reachable hr) hc hstep⟩
  exact hinv.2.recorded

instance (j : Job) (e : Event) : Decidable (j.Undisputed e) :=
  inferInstanceAs (Decidable (_ ∧ _))

/-- A launched job on which a `cancel_job` call is about to cancel the token. -/
def cancelBegun : List Event :=
  launchEvents 0 ++ [.watcher (.step 0), .begin .cancelJob, .call 0 (.step 1),
    .call 0 (.step 1)]

/-- `cancel_job` records the cancellation, then the watcher runs to its end. -/
def cancelThenWatcher : List Event :=
  [.call 0 (.step 3), .call 0 (.step 3), .watcher .cancelled] ++
    List.replicate 4 (.watcher (.step 4)) ++
    [.watcher .sent, .watcher (.step 5), .watcher (.step 5)]

theorem cancel_recorded_running :
    ∃ s s' t, machine.Reach Undisputed s ∧ s.step (.call 0 (.step 2)) = some s' ∧
      (s.cancelsToken (.call 0 (.step 2)) = true ∧ s.handle.state = .running) ∧
      machine.Path Undisputed s' cancelThenWatcher t ∧
      t.handle.state = .canceled ∧ t.CancelRecorded := by
  obtain ⟨s, hr, hp⟩ := StepMachine.reach_of_runIf machine Undisputed
    ⟨1, none, 0, 0, rfl⟩ cancelBegun
    (fun s => s.cancelsToken (.call 0 (.step 2)) && s.handle.state = .running &&
      (s.step (.call 0 (.step 2))).any fun s' =>
        (machine.runIf Undisputed s' cancelThenWatcher).any fun t =>
          t.handle.state = .canceled)
    (by decide +kernel)
  have hp' : (s.cancelsToken (.call 0 (.step 2)) = true ∧ s.handle.state = .running) ∧
      ∃ s', s.step (.call 0 (.step 2)) = some s' ∧
        ∃ t, machine.runIf Undisputed s' cancelThenWatcher = some t ∧
          t.handle.state = .canceled := by
    simpa [Option.any_eq_true] using hp
  obtain ⟨hs, s', hstep, t, hrun, ht⟩ := hp'
  have hpath := StepMachine.path_of_runIf hrun
  refine ⟨s, s', t, hr, hstep, hs, hpath, ht, ?_⟩
  exact cancel_recorded hr ⟨rfl, rfl⟩ hstep hs.1 (by rw [hs.2]; rfl) hpath

/-- The watcher completes the job, then `cancel_job` comes too late. -/
def watcherThenCancel : List Event :=
  [.watcher .cancelled] ++ List.replicate 4 (.watcher (.step 3)) ++
    [.watcher .sent, .watcher (.step 4), .watcher (.step 4), .call 0 (.step 5),
      .call 0 (.step 5)]

/-- `cancel_job` cancels the token of a running job, and the job ends as
Completed. -/
theorem cancel_then_completed :
    ∃ s s' t, machine.Reach (fun _ e => uncleaned e = true) s ∧
      s.step (.call 0 (.step 2)) = some s' ∧
      (s.cancelsToken (.call 0 (.step 2)) = true ∧ s.handle.state = .running) ∧
      machine.Path (fun _ e => uncleaned e = true) s' watcherThenCancel t ∧
      t.handle.state = .completed ∧ ¬ t.CancelRecorded := by
  obtain ⟨s, hr, hp⟩ := StepMachine.reach_of_runIf machine
    (fun _ e => uncleaned e = true) ⟨1, none, 0, 0, rfl⟩ cancelBegun
    (fun s => s.cancelsToken (.call 0 (.step 2)) && s.handle.state = .running &&
      (s.step (.call 0 (.step 2))).any fun s' =>
        (machine.runIf (fun _ e => uncleaned e = true) s' watcherThenCancel).any fun t =>
          t.handle.state = .completed)
    (by decide +kernel)
  have hp' : (s.cancelsToken (.call 0 (.step 2)) = true ∧ s.handle.state = .running) ∧
      ∃ s', s.step (.call 0 (.step 2)) = some s' ∧
        ∃ t, machine.runIf (fun _ e => uncleaned e = true) s' watcherThenCancel = some t ∧
          t.handle.state = .completed := by
    simpa [Option.any_eq_true] using hp
  obtain ⟨hs, s', hstep, t, hrun, ht⟩ := hp'
  refine ⟨s, s', t, hr, hstep, hs, StepMachine.path_of_runIf hrun, ht, ?_⟩
  intro hrec
  rcases hrec.1 (by rw [ht]; rfl) with h | h <;> rw [ht] at h <;> cases h

end RemoteAgent.Job
