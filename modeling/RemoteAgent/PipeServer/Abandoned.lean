import RemoteAgent.PipeServer.Session

/-!
# A RUN that starts nothing

`handle_run` registers its job before four more steps that can fail: the send of
RUN_ACK, the move to Starting, the launch, and the move to Running.  Only the branch
of a failed launch calls `cleanup_job`.

* `RunPc.step_ends` lists the steps with which `handle_run` ends, and what each of
  them leaves of the registration.  `Job.step_ends` is the same for a job whose other
  tasks run beside it.
* `Job.abandons` is the step that ends `handle_run` with the job still registered.
* `Session.RunCall` is one call of `handle_run`, from the RUN frame to its end, with
  the steps of all other tasks in between.  `leaves_registry_iff` says that a call that
  has not spawned its watcher leaves the registry as it was exactly if it has not
  abandoned the job.
-/

namespace RemoteAgent

open CodeLib Protocol IoPump PipeServer
open JobManager (SystemTime Duration JobState JobHandle)

namespace Job

/-! ## The registration of a job -/

theorem CleanupPc.step_registered {a a' : JobHandle} {registered registered' : Bool}
    {pc pc' : CleanupPc} (h : pc.step a registered = some (a', registered', pc')) :
    registered' = registered ∨ registered' = false := by
  cases pc <;> cases h
  · exact Or.inl rfl
  · exact Or.inl rfl
  · exact Or.inr rfl

theorem SweepPc.step_registered {a a' : JobHandle} {registered registered' : Bool}
    {pc pc' : SweepPc} (h : pc.step a registered = some (a', registered', pc')) :
    registered' = registered ∨ registered' = false := by
  unfold SweepPc.step at h
  split at h
  · cases h
    exact Or.inl rfl
  · cases h
    exact Or.inl rfl
  · obtain ⟨⟨b, r, q⟩, hs, heq⟩ := Option.map_eq_some_iff.mp h
    cases heq
    exact CleanupPc.step_registered hs
  · cases h

/-- A call removes the job, or leaves its registration alone. -/
theorem Call.step_registered {a a' : JobHandle} {registered registered' : Bool}
    {last : SystemTime} {c c' : Call} {e : CallEvent}
    (h : c.step a registered last e = some (a', registered', c')) :
    registered' = registered ∨ registered' = false := by
  unfold Call.step at h
  split at h
  · obtain ⟨⟨b, q⟩, -, heq⟩ := Option.map_eq_some_iff.mp h
    cases heq
    exact Or.inl rfl
  · obtain ⟨⟨b, q⟩, -, heq⟩ := Option.map_eq_some_iff.mp h
    cases heq
    exact Or.inl rfl
  · obtain ⟨⟨b, r, q⟩, hs, heq⟩ := Option.map_eq_some_iff.mp h
    cases heq
    unfold IdlePc.step at hs
    split at hs
    case h_7 =>
      obtain ⟨⟨b', r', q'⟩, hs', heq⟩ := Option.map_eq_some_iff.mp hs
      cases heq
      exact SweepPc.step_registered hs'
    all_goals cases hs <;> exact Or.inl rfl
  · obtain ⟨⟨b, r, q⟩, hs, heq⟩ := Option.map_eq_some_iff.mp h
    cases heq
    exact SweepPc.step_registered hs
  · cases h

/-- The effects of `handle_run` on the registration: `cleanup_job` removes the job,
and no other action is about it. -/
theorem RunPc.step_registered {a a' : JobHandle} {registered : Bool} {pc pc' : RunPc}
    {e : RunEvent} {eff : RunEffect} (h : pc.step a registered e = some (a', pc', eff))
    {registered' : Bool} (heff : eff = .register registered') :
    registered' = registered ∨ registered' = false := by
  subst heff
  unfold RunPc.step at h
  split at h
  case h_23 =>
    split at h
    · rename_i hs
      cases h
      exact CleanupPc.step_registered hs
    · cases h
  all_goals (try split at h) <;> cases h

theorem effect_registered (j : Job) {eff : RunEffect} (h : ∀ r, eff ≠ .register r) :
    (j.effect eff).registered = j.registered := by
  cases eff with
  | register r => exact absurd rfl (h r)
  | _ => rfl

/-- A step removes the job from the registry, or leaves its registration alone. -/
theorem step_registered {j j' : Job} {e : Event} (h : j.step e = some j') :
    j'.registered = j.registered ∨ j'.registered = false := by
  cases e with
  | run e =>
    obtain ⟨a, pc, eff, hs, rfl⟩ := step_run h
    rw [settle_registered]
    by_cases heff : ∃ r, eff = .register r
    · obtain ⟨r, rfl⟩ := heff
      exact RunPc.step_registered hs rfl
    · exact Or.inl (effect_registered _ fun r hr => heff ⟨r, hr⟩)
  | call i e =>
    obtain ⟨c, a, registered, c', -, hs, rfl⟩ := step_call h
    rw [settle_registered]
    exact Call.step_registered hs
  | _ => exact Or.inl ((step_frame h (by simp)).registered (by simp))

/-! ## The end of `handle_run` -/

/-- `handle_run` ends in this step and does not take its job out of the registry: the
channel has not taken RUN_ACK, or a transition is refused. -/
def abandons (j : Job) : Event → Bool
  | .run .closed => j.registered && j.run = .sendAck
  | .run (.step _) =>
    j.registered &&
      match j.run with
      | .toStarting .commit => !j.handle.state.canTransitionTo .starting
      | .toRunning _ .commit => !j.handle.state.canTransitionTo .running
      | _ => false
  | _ => false

/-- After `cleanup_job` the job is not registered. -/
def Cleaned (j : Job) : Prop := j.run = .cleanup .returned → j.registered = false

theorem RunPc.step_cleaned {a a' : JobHandle} {registered : Bool} {pc : RunPc}
    {e : RunEvent} {eff : RunEffect}
    (h : pc.step a registered e = some (a', .cleanup .returned, eff)) :
    eff = .register false := by
  unfold RunPc.step at h
  split at h
  case h_23 c now hc =>
    split at h
    · rename_i hs
      cases h
      cases c with
      | getJob =>
        cases registered
        · cases hs
          rfl
        · cases hs
      | cancelToken => cases hs
      | remove =>
        cases hs
        rfl
      | returned => cases hs
    · cases h
  all_goals (try split at h) <;> simp at h

theorem Cleaned.step {j j' : Job} {e : Event} (hj : j.Cleaned) (h : j.step e = some j') :
    j'.Cleaned := by
  intro hrun
  rcases e.run_or_ne with ⟨e', rfl⟩ | hne
  · obtain ⟨a, pc, eff, hs, rfl⟩ := step_run h
    rw [settle_run, effect_run] at hrun
    obtain rfl : pc = .cleanup .returned := hrun
    obtain rfl := RunPc.step_cleaned hs
    rw [settle_registered]
    rfl
  · rw [(step_frame h hne).run] at hrun
    rcases step_registered h with hreg | hreg
    · rw [hreg]
      exact hj hrun
    · exact hreg

theorem cleaned_reachable {C : Job → Event → Prop} {j : Job} (h : machine.Reach C j) :
    j.Cleaned := by
  refine h.invariant ?_ ?_
  · rintro _ ⟨jobId, timeout, now, last, rfl⟩ hrun
    cases hrun
  · intro j e j' hj _ hstep
    exact hj.step hstep

/-- The steps with which `handle_run` ends. -/
inductive RunPc.Ends (a : JobHandle) (registered : Bool) :
    RunPc → RunEvent → RunEffect → Prop where
  | unsent : Ends a registered .sendAck .closed .none
  | notFound (now : SystemTime) (h : registered = false) :
    Ends a registered (.toStarting .getJob) (.step now) .none
  | refused (now : SystemTime) (h : a.state.canTransitionTo .starting = false) :
    Ends a registered (.toStarting .commit) (.step now) .none
  | lost (p : LaunchedProcess) (now : SystemTime) (h : registered = false) :
    Ends a registered (.toRunning p .getJob) (.step now) (.closeThread p)
  | stopped (p : LaunchedProcess) (now : SystemTime)
    (h : a.state.canTransitionTo .running = false) :
    Ends a registered (.toRunning p .commit) (.step now) (.closeThread p)
  | watched (p : LaunchedProcess) (now : SystemTime) :
    Ends a registered (.spawnWatcher p) (.step now) (.spawnWatcher p)
  | cleaned (now : SystemTime) : Ends a registered (.cleanup .returned) (.step now) .none

theorem RunPc.step_ends {a a' : JobHandle} {registered : Bool} {pc : RunPc}
    {e : RunEvent} {r : Except Error Unit} {eff : RunEffect}
    (h : pc.step a registered e = some (a', .returned r, eff)) :
    Ends a registered pc e eff := by
  -- a transition that is refused is one that the table does not have
  have hrefused : ∀ {new : JobState} {now : SystemTime} {err : Error},
      a.transition new now = .error err → a.state.canTransitionTo new = false := by
    intro new now err herr
    unfold JobHandle.transition at herr
    split at herr
    · cases herr
    · rename_i hcan
      simpa using hcan
  unfold RunPc.step at h
  split at h
  case h_3 =>
    cases h
    exact .unsent
  case h_4 now =>
    split at h
    · cases h
    · rename_i hreg
      cases h
      exact .notFound now (by simpa using hreg)
  case h_5 now =>
    split at h
    · cases h
    · rename_i herr
      cases h
      exact .refused now (hrefused herr)
  case h_10 p now =>
    split at h
    · cases h
    · rename_i hreg
      cases h
      exact .lost p now (by simpa using hreg)
  case h_11 p now =>
    split at h
    · cases h
    · rename_i herr
      cases h
      exact .stopped p now (hrefused herr)
  case h_17 p now =>
    cases h
    exact .watched p now
  case h_22 now =>
    cases h
    exact .cleaned now
  all_goals (try split at h) <;> simp at h

/-- When `handle_run` ends without a watcher, the job is still registered exactly if
the step abandons it. -/
theorem step_ends {j j' : Job} {e : Event} (hj : j.Cleaned) (h : j.step e = some j')
    (hon : j.run.holdsArc = true) (hend : j'.run.holdsArc = false)
    (hnone : j'.watcher = .notSpawned) : j'.registered = j.abandons e := by
  rcases e.run_or_ne with ⟨e', rfl⟩ | hne
  · obtain ⟨a, pc, eff, hs, rfl⟩ := step_run h
    rw [settle_run, effect_run] at hend
    obtain ⟨r, rfl⟩ : ∃ r, pc = .returned r := by
      cases pc <;> simp [RunPc.holdsArc] at hend
      exact ⟨_, rfl⟩
    rw [settle_registered]
    have hends := RunPc.step_ends hs
    generalize hpc : j.run = pc at hends
    cases hends with
    | unsent => simp [effect, abandons, hpc]
    | notFound now hreg => simp [effect, abandons, hpc, hreg]
    | refused now hcan => simp [effect, abandons, hpc, hcan]
    | lost p now hreg => simp [effect, abandons, hpc, hreg]
    | stopped p now hcan => simp [effect, abandons, hpc, hcan]
    | watched p now =>
      rw [settle_watcher] at hnone
      cases hnone
    | cleaned now => simp [effect, abandons, hpc, hj hpc]
  · rw [(step_frame h hne).run, hon] at hend
    cases hend

theorem holdsArc_of_abandons {j : Job} {e : Event} (ha : j.abandons e = true) :
    j.run.holdsArc = true := by
  by_contra hrun
  obtain ⟨r, hpc⟩ : ∃ r, j.run = .returned r := by
    cases hpc : j.run <;> simp [RunPc.holdsArc, hpc] at hrun
    exact ⟨_, rfl⟩
  unfold abandons at ha
  split at ha <;> simp [hpc] at ha

/-- A job that is abandoned is one whose `handle_run` ends. -/
theorem ends_of_abandons {j j' : Job} {e : Event} (h : j.step e = some j')
    (ha : j.abandons e = true) : j'.run.holdsArc = false := by
  cases e with
  | run e =>
    obtain ⟨a, pc, eff, hs, rfl⟩ := step_run h
    rw [settle_run, effect_run]
    cases e with
    | closed =>
      obtain ⟨-, hpc⟩ : j.registered = true ∧ j.run = .sendAck := by
        simpa [abandons] using ha
      rw [hpc] at hs
      cases hs
      rfl
    | step now =>
      simp only [abandons, Bool.and_eq_true] at ha
      obtain ⟨-, ha⟩ := ha
      split at ha
      · rename_i hpc
        rw [hpc] at hs
        simp [RunPc.step, JobHandle.transition, show _ = false by simpa using ha] at hs
        rw [← hs.2.1]
        rfl
      · rename_i p hpc
        rw [hpc] at hs
        simp [RunPc.step, JobHandle.transition, show _ = false by simpa using ha] at hs
        rw [← hs.2.1]
        rfl
      · cases ha
    | _ => cases ha
  | _ => cases ha

end Job

namespace Session

/-! ## One call of `handle_run` -/

/-- The ids that the registry has for the jobs of the session. -/
def registry (s : Session) (i : Nat) : Option UInt32 :=
  (s.jobs[i]?).bind fun j => if j.registered then some j.handle.jobId else none

/-- `handle_run` is under way: it is in `create_job`, or at work with its job. -/
def handlesRun (s : Session) : Bool :=
  match s.requests with
  | .creating _ => true
  | .running i => (s.jobs[i]?).any fun j => j.run.holdsArc
  | _ => false

/-- One call of `handle_run`, for the frame `f`.  The steps `es` are those of all tasks,
until `handle_run` ends. -/
structure RunCall (serde : Serde) (s : Session) (f : Frame) (es : List Event)
    (s' : Session) : Prop where
  isRun : f.frameType = .run
  path : ∃ u, s.step serde (.read (.ok f)) = some u ∧
    (machine serde).Path (fun u _ => u.handlesRun = true) u es s'
  ends : s'.handlesRun = false

/-- The call has not spawned the exit watcher of a job.  The job of the call is the one
after those that were there before. -/
def Unwatched (s s' : Session) : Prop :=
  ∀ j, s'.jobs[s.jobs.length]? = some j → j.watcher = .notSpawned

/-- The registry is as it was, apart from jobs that a call of another task has
removed. -/
def SameRegistry (s : Session) (es : List Event) (s' : Session) : Prop :=
  ∀ i, s'.registry i = s.registry i ∨
    s'.registry i = none ∧ ∃ c e, Event.job i (.call c e) ∈ es

/-- `handle_run` abandons its job in this step. -/
def abandons (s : Session) : Event → Bool
  | .job i e => (s.jobs[i]?).any fun j => j.abandons e
  | _ => false

/-! ## The request loop awaits `handle_run` -/

/-- The request loop waits for the `handle_run` that is at work. -/
def Awaited (s : Session) : Prop :=
  ∀ (i : Nat) (j : Job), s.jobs[i]? = some j → j.run.holdsArc = true →
    s.requests = .running i

/-- When the request loop goes on by itself, no `handle_run` is at work. -/
theorem Awaited.idle {serde : Serde} {s s' : Session} {e : Event} (hs : s.Awaited)
    (h : s.step serde e = some s') (hjob : ∀ i je, e ≠ .job i je)
    (hwriter : ∀ we, e ≠ .writer we) {i : Nat} {j : Job} (hget : s.jobs[i]? = some j) :
    j.run.holdsArc = false := by
  by_contra hrun
  have hpc := hs i j hget (by simpa using hrun)
  cases e with
  | read r => simp [step, hpc] at h
  | created jobId now last => simp [step, hpc] at h
  | refused e => simp [step, hpc] at h
  | resume =>
    simp only [step, resume, hpc, hget, Option.map_some] at h
    split at h
    · rename_i hret
      simp [show j.run = _ by simpa using hret, Job.RunPc.holdsArc] at hrun
    · rename_i hret
      simp [show j.run = _ by simpa using hret, Job.RunPc.holdsArc] at hrun
    · cases h
  | job i e => exact hjob i e rfl
  | writer e => exact hwriter e rfl

theorem holdsArc_of_job_step {j j' : Job} {e : Job.Event} (h : j.step e = some j')
    (hrun : j'.run.holdsArc = true) : j.run.holdsArc = true := by
  rcases e.run_or_ne with ⟨e', rfl⟩ | hne
  · obtain ⟨a, pc, eff, hs, -⟩ := Job.step_run h
    by_contra hret
    obtain ⟨r, hpc⟩ : ∃ r, j.run = .returned r := by
      cases hpc : j.run <;> simp [Job.RunPc.holdsArc, hpc] at hret
      exact ⟨_, rfl⟩
    simp [Job.RunPc.step, hpc] at hs
  · rwa [(Job.step_frame h hne).run] at hrun

/-- A step of a job starts no `handle_run`. -/
theorem Awaited.set_job {s s' : Session} {k : Nat} {j j' : Job} {e : Job.Event}
    (hs : s.Awaited) (hget : s.jobs[k]? = some j) (hstep : j.step e = some j')
    (hjobs : s'.jobs = s.jobs.set k j') (hreq : s'.requests = s.requests) : s'.Awaited := by
  intro i x hx hrun
  rw [hjobs] at hx
  rw [hreq]
  by_cases hi : i = k
  · subst hi
    rw [List.getElem?_set_self (List.getElem?_eq_some_iff.mp hget).1] at hx
    cases hx
    exact hs i j hget (holdsArc_of_job_step hstep hrun)
  · rw [List.getElem?_set_ne (Ne.symm hi)] at hx
    exact hs i x hx hrun

theorem Awaited.step {serde : Serde} {s s' : Session} {e : Event} (hs : s.Awaited)
    (h : s.step serde e = some s') : s'.Awaited := by
  by_cases hjob : ∃ k je, e = .job k je
  · obtain ⟨k, je, rfl⟩ := hjob
    obtain ⟨j, j', hget, -, hstep, rfl⟩ := stepJob_eq h
    exact hs.set_job hget hstep rfl rfl
  by_cases hwriter : ∃ we, e = .writer we
  · obtain ⟨we, rfl⟩ := hwriter
    have hsame : s'.jobs = s.jobs ∧ s'.requests = s.requests := by
      cases stepWriter_move h <;> exact ⟨rfl, rfl⟩
    intro i j hget hrun
    rw [hsame.1] at hget
    rw [hsame.2]
    exact hs i j hget hrun
  -- the request loop has moved, so no `handle_run` was at work
  have hidle : ∀ (i : Nat) (j : Job), s.jobs[i]? = some j → j.run.holdsArc = false :=
    fun i j => hs.idle h (fun k je he => hjob ⟨k, je, he⟩) (fun we he => hwriter ⟨we, he⟩)
  rcases step_cases h with ⟨hr, -⟩ | ⟨jobId, now, last, timeout, -, -, rfl⟩ |
    ⟨k, je, he, -⟩ | ⟨we, he, -⟩
  · cases hr with
    | goes requests handled =>
      intro i j hget hrun
      rw [hidle i j hget] at hrun
      cases hrun
    | begins k j j' op requests handled hget hstep =>
      intro i x hx hrun
      rcases List.mem_or_eq_of_mem_set (List.mem_of_getElem? hx) with hx | rfl
      · obtain ⟨n, hn⟩ := List.mem_iff_getElem?.mp hx
        rw [hidle n x hn] at hrun
        cases hrun
      · have hold := holdsArc_of_job_step hstep hrun
        rw [hidle k j hget] at hold
        cases hold
  · intro i j hget hrun
    by_cases hi : i = s.jobs.length
    · rw [hi]
    · rw [getElem?_concat_ne hi] at hget
      rw [hidle i j hget] at hrun
      cases hrun
  · exact absurd ⟨k, je, he⟩ hjob
  · exact absurd ⟨we, he⟩ hwriter

theorem awaited_reachable {serde : Serde} {C : Session → Event → Prop} {s : Session}
    (h : (machine serde).Reach C s) : s.Awaited := by
  refine h.invariant ?_ ?_
  · rintro _ ⟨hello, ack, -, -, rfl⟩ i j hget
    cases hget
  · intro s e s' hs _ hstep
    exact hs.step hstep

/-! ## The registry during a call -/

/-- What a step of a job does to the registry. -/
theorem registry_set {s s' : Session} {k : Nat} {j j' : Job} {e : Job.Event}
    (hget : s.jobs[k]? = some j) (hstep : j.step e = some j')
    (hjobs : s'.jobs = s.jobs.set k j') :
    s'.registry = Function.update s.registry k
      (if j'.registered then some j.handle.jobId else none) := by
  funext i
  unfold registry
  rw [hjobs]
  by_cases hi : i = k
  · subst hi
    rw [Function.update_self, List.getElem?_set_self (List.getElem?_eq_some_iff.mp hget).1,
      Option.bind_some, Job.step_jobId hstep]
  · rw [Function.update_of_ne hi, List.getElem?_set_ne (Ne.symm hi)]

/-- Where a call stands whose job gets the index `n`. -/
structure During (n : Nat) (s : Session) : Prop where
  creating : ∀ t, s.requests = .creating t → s.jobs.length = n
  running : ∀ i, s.requests = .running i → i = n
  length : s.jobs.length ≤ n + 1

section call

variable {serde : Serde} {u v : Session} {e : Event} {n : Nat}

/-- Who moves during a call: `create_job`, which refuses or creates the job, a task of a
job, or the writer. -/
theorem handlesRun_step (hon : u.handlesRun = true) (h : u.step serde e = some v) :
    (∃ err t, e = .refused err ∧ u.requests = .creating t ∧
        v = { u with requests := .returned (.error err) }) ∨
      (∃ jobId now last t, e = .created jobId now last ∧ u.requests = .creating t ∧
        v = { u with
          jobs := u.jobs ++ [Job.create jobId t now last]
          requests := .running u.jobs.length }) ∨
      (∃ k je, e = .job k je ∧ u.stepJob k je = some v) ∨
      ∃ we, e = .writer we ∧ v.jobs = u.jobs ∧ v.requests = u.requests := by
  cases e with
  | read r =>
    simp only [step] at h
    split at h
    · rename_i hpc
      simp [handlesRun, hpc] at hon
    · cases h
  | created jobId now last =>
    simp only [step] at h
    split at h
    · rename_i t hpc
      cases h
      exact Or.inr (Or.inl ⟨jobId, now, last, t, rfl, hpc, rfl⟩)
    · cases h
  | refused err =>
    simp only [step] at h
    split at h
    · rename_i t hpc
      cases h
      exact Or.inl ⟨err, t, rfl, hpc, rfl⟩
    · cases h
  | resume =>
    -- `handle_run` has not returned, so the loop does not go on
    simp only [step, resume] at h
    unfold handlesRun at hon
    split at h
    · rename_i i hpc
      rw [hpc] at hon
      cases hget : u.jobs[i]? with
      | none => simp [hget] at h
      | some j =>
        have hrun : j.run.holdsArc = true := by simpa [hget] using hon
        cases hj : j.run <;> simp [hget, hj] at h
        simp [hj, Job.RunPc.holdsArc] at hrun
    · rename_i hpc
      simp [hpc] at hon
    · rename_i hpc
      simp [hpc] at hon
    · cases h
  | job k je => exact Or.inr (Or.inr (Or.inl ⟨k, je, rfl, h⟩))
  | writer we =>
    refine Or.inr (Or.inr (Or.inr ⟨we, rfl, ?_⟩))
    cases stepWriter_move h <;> exact ⟨rfl, rfl⟩

theorem During.step (hn : u.During n) (hon : u.handlesRun = true)
    (h : u.step serde e = some v) : v.During n := by
  rcases handlesRun_step hon h with ⟨err, t, -, -, rfl⟩ |
    ⟨jobId, now, last, t, -, hpc, rfl⟩ | ⟨k, je, -, hs⟩ | ⟨we, -, hjobs, hreq⟩
  · exact ⟨fun t ht => (by cases ht), fun i hi => (by cases hi), hn.length⟩
  · have hlen := hn.creating t hpc
    refine ⟨fun t ht => (by cases ht), fun i hi => ?_, ?_⟩
    · cases hi
      exact hlen
    · simp [hlen]
  · obtain ⟨j, j', -, -, -, rfl⟩ := stepJob_eq hs
    refine ⟨fun t ht => ?_, hn.running, ?_⟩
    · rw [List.length_set]
      exact hn.creating t ht
    · rw [List.length_set]
      exact hn.length
  · refine ⟨fun t ht => ?_, fun i hi => hn.running i (hreq ▸ hi), ?_⟩
    · rw [hjobs]
      exact hn.creating t (hreq ▸ ht)
    · rw [hjobs]
      exact hn.length

/-- A step of a job whose `handle_run` is over changes its registration only by a
call. -/
theorem registered_of_ended {j j' : Job} {e : Job.Event} (h : j.step e = some j')
    (hrun : j.run.holdsArc = false) :
    j'.registered = j.registered ∨ j'.registered = false ∧ ∃ c ce, e = .call c ce := by
  cases e with
  | run e =>
    obtain ⟨a, pc, eff, hs, -⟩ := Job.step_run h
    obtain ⟨r, hpc⟩ : ∃ r, j.run = .returned r := by
      cases hpc : j.run <;> simp [Job.RunPc.holdsArc, hpc] at hrun
      exact ⟨_, rfl⟩
    simp [Job.RunPc.step, hpc] at hs
  | call c ce =>
    rcases Job.step_registered h with hreg | hreg
    · exact Or.inl hreg
    · exact Or.inr ⟨hreg, c, ce, rfl⟩
  | _ => exact Or.inl ((Job.step_frame h (by simp)).registered (by simp))

/-- The jobs from before the call change their registration only by a call of another
task. -/
theorem registry_step (hs : u.Awaited) (hn : u.During n) (hon : u.handlesRun = true)
    (h : u.step serde e = some v) {i : Nat} (hi : i < n) :
    v.registry i = u.registry i ∨
      v.registry i = none ∧ ∃ c ce, e = .job i (.call c ce) := by
  rcases handlesRun_step hon h with ⟨err, t, -, -, rfl⟩ |
    ⟨jobId, now, last, t, -, hpc, rfl⟩ | ⟨k, je, rfl, hjob⟩ | ⟨we, -, hjobs, -⟩
  · exact Or.inl rfl
  · have hne : i ≠ u.jobs.length := by
      have hlen := hn.creating t hpc
      omega
    exact Or.inl (by simp only [registry, getElem?_concat_ne hne])
  · obtain ⟨j, j', hget, -, hstep, rfl⟩ := stepJob_eq hjob
    rw [registry_set hget hstep rfl]
    by_cases hk : i = k
    · subst hk
      have hrun : j.run.holdsArc = false := by
        by_contra hrun
        have hreq := hn.running i (hs i j hget (by simpa using hrun))
        omega
      rw [Function.update_self]
      rcases registered_of_ended hstep hrun with hreg | ⟨hreg, c, ce, rfl⟩
      · left
        simp [registry, hget, hreg]
      · exact Or.inr ⟨by simp [hreg], c, ce, rfl⟩
    · exact Or.inl (Function.update_of_ne hk _ _)
  · exact Or.inl (by simp only [registry, hjobs])

/-- With the step that ends a call without a watcher, the job of the call is out of the
registry exactly if the step does not abandon it. -/
theorem registry_ends (hclean : ∀ j ∈ u.jobs, j.Cleaned) (hn : u.During n)
    (hon : u.handlesRun = true) (h : u.step serde e = some v)
    (hend : v.handlesRun = false)
    (hnone : ∀ j, v.jobs[n]? = some j → j.watcher = .notSpawned) :
    v.registry n = none ↔ u.abandons e = false := by
  rcases handlesRun_step hon h with ⟨err, t, rfl, hpc, rfl⟩ |
    ⟨jobId, now, last, t, -, hpc, rfl⟩ | ⟨k, je, rfl, hjob⟩ | ⟨we, -, hjobs, hreq⟩
  · -- no job has been created
    have hlen := hn.creating t hpc
    simp [registry, abandons, ← hlen]
  · simp [handlesRun, Job.create, Job.RunPc.holdsArc] at hend
  · obtain ⟨j, j', hget, -, hstep, rfl⟩ := stepJob_eq hjob
    have hlt := (List.getElem?_eq_some_iff.mp hget).1
    unfold handlesRun at hon hend
    cases hpc : u.requests with
    | running i =>
      obtain rfl := hn.running i hpc
      simp only [hpc] at hon hend
      by_cases hk : k = i
      · subst hk
        rw [List.getElem?_set_self hlt] at hend hnone
        have hreg := Job.step_ends (hclean j (List.mem_of_getElem? hget)) hstep
          (by simpa [hget] using hon) (by simpa using hend) (hnone j' rfl)
        rw [registry_set hget hstep rfl, Function.update_self, hreg]
        cases hab : j.abandons je <;> simp [abandons, hget, hab]
      · rw [List.getElem?_set_ne hk, hon] at hend
        cases hend
    | creating t => simp [hpc] at hend
    | _ => simp [hpc] at hon
  · have hsame : v.handlesRun = u.handlesRun := by simp only [handlesRun, hjobs, hreq]
    rw [hsame, hon] at hend
    cases hend

/-- A call that abandons its job has ended. -/
theorem handlesRun_of_abandons (hs : u.Awaited) (h : u.step serde e = some v)
    (hab : u.abandons e = true) : v.handlesRun = false := by
  cases e with
  | job k je =>
    obtain ⟨j, j', hget, -, hstep, rfl⟩ := stepJob_eq h
    have hj : j.abandons je = true := by simpa [abandons, hget] using hab
    have hpc := hs k j hget (Job.holdsArc_of_abandons hj)
    simp [handlesRun, hpc, (List.getElem?_eq_some_iff.mp hget).1,
      Job.ends_of_abandons hstep hj]
  | _ => cases hab

/-- The registry over the rest of a call. -/
theorem registry_path {s' : Session} {es : List Event}
    (hp : (machine serde).Path (fun u _ => u.handlesRun = true) u es s')
    (hreach : (machine serde).Reachable u) (hn : u.During n) :
    s'.jobs.length ≤ n + 1 ∧ ∀ i < n, s'.registry i = u.registry i ∨
      s'.registry i = none ∧ ∃ c e, Event.job i (.call c e) ∈ es := by
  induction hp with
  | nil u => exact ⟨hn.length, fun i _ => Or.inl rfl⟩
  | @cons u v t e es hon hstep tail ih =>
    obtain ⟨hlen, hrest⟩ := ih (hreach.step trivial hstep) (hn.step hon hstep)
    refine ⟨hlen, fun i hi => ?_⟩
    rcases registry_step (awaited_reachable hreach) hn hon hstep hi with
      hsame | ⟨hgone, c, ce, rfl⟩
    · rcases hrest i hi with htail | ⟨htail, c, ce, hmem⟩
      · exact Or.inl (htail.trans hsame)
      · exact Or.inr ⟨htail, c, ce, List.mem_cons_of_mem _ hmem⟩
    · refine Or.inr ⟨?_, c, ce, List.mem_cons_self⟩
      rcases hrest i hi with htail | ⟨htail, -⟩
      · exact htail.trans hgone
      · exact htail

/-- The job of a call that ends without a watcher is out of the registry exactly if no
step abandons it. -/
theorem registry_path_iff {s' : Session} {es : List Event}
    (hp : (machine serde).Path (fun u _ => u.handlesRun = true) u es s')
    (hreach : (machine serde).Reachable u) (hn : u.During n) (hon : u.handlesRun = true)
    (hend : s'.handlesRun = false)
    (hnone : ∀ j, s'.jobs[n]? = some j → j.watcher = .notSpawned) :
    s'.registry n = none ↔
      (machine serde).Path (fun u e => u.abandons e = false) u es s' := by
  induction hp with
  | nil u =>
    rw [hon] at hend
    cases hend
  | @cons u v t e es _ hstep tail ih =>
    have hs := awaited_reachable hreach
    cases hv : v.handlesRun with
    | true =>
      have hkeeps : u.abandons e = false := by
        by_contra hab
        rw [handlesRun_of_abandons hs hstep (by simpa using hab)] at hv
        cases hv
      rw [ih (hreach.step trivial hstep) (hn.step hon hstep) hv hend hnone,
        StepMachine.path_cons_iff hstep]
      exact ⟨fun htail => ⟨hkeeps, htail⟩, fun hall => hall.2⟩
    | false =>
      -- the call has ended with this step
      cases tail with
      | cons hon' _ _ =>
        rw [hv] at hon'
        cases hon'
      | nil _ =>
        have hclean : ∀ j ∈ u.jobs, j.Cleaned := fun j hj =>
          Job.cleaned_reachable (jobs_reachable hreach j hj)
        rw [registry_ends hclean hn hon hstep hend hnone, StepMachine.path_cons_iff hstep]
        exact ⟨fun hkeeps => ⟨hkeeps, .nil v⟩, fun hall => hall.1⟩

end call

/-- A RUN frame creates no job by itself. -/
theorem step_read_run {serde : Serde} {s u : Session} {f : Frame}
    (hf : f.frameType = .run) (h : s.step serde (.read (.ok f)) = some u) :
    u.jobs = s.jobs ∧ (u.handlesRun = false ∨ ∃ t, u.requests = .creating t) ∧
      ∀ i, u.requests ≠ .running i := by
  simp only [step] at h
  split at h
  · simp only [dispatch, hf] at h
    split at h
    · cases h
      exact ⟨rfl, Or.inl rfl, fun i hi => by cases hi⟩
    · cases h
      exact ⟨rfl, Or.inr ⟨_, rfl⟩, fun i hi => by cases hi⟩
  · cases h

/-- A call of `handle_run` that ends without its watcher leaves the registry as it was
exactly if none of its steps abandons the job. -/
theorem leaves_registry_iff {serde : Serde} {s s' : Session} {f : Frame}
    {es : List Event} (hreach : (machine serde).Reachable s)
    (hcall : RunCall serde s f es s') (hnone : Unwatched s s') :
    SameRegistry s es s' ↔
      (machine serde).Path (fun u e => u.abandons e = false) s (.read (.ok f) :: es) s' := by
  obtain ⟨u, hread, hp⟩ := hcall.path
  obtain ⟨hjobs, hnew, hrunning⟩ := step_read_run hcall.isRun hread
  have hu : (machine serde).Reachable u := hreach.step (l := .read (.ok f)) trivial hread
  have hn : u.During s.jobs.length := by
    refine ⟨fun t _ => by rw [hjobs], fun i hi => absurd hi (hrunning i), ?_⟩
    rw [hjobs]
    omega
  have hstart : u.registry = s.registry := by
    unfold registry
    rw [hjobs]
  obtain ⟨hlen, holder⟩ := registry_path hp hu hn
  -- what is left is the job of the call
  have hown : SameRegistry s es s' ↔ s'.registry s.jobs.length = none := by
    have hbefore : s.registry s.jobs.length = none := by simp [registry]
    constructor
    · intro hsame
      rcases hsame s.jobs.length with h | ⟨h, -⟩
      · exact h.trans hbefore
      · exact h
    · intro hgone i
      rcases Nat.lt_trichotomy i s.jobs.length with hi | rfl | hi
      · rw [← hstart]
        exact holder i hi
      · exact Or.inl (hgone.trans hbefore.symm)
      · left
        have hi' : s'.jobs.length ≤ i := by omega
        simp [registry, List.getElem?_eq_none hi', List.getElem?_eq_none (Nat.le_of_lt hi)]
  have hcons : (machine serde).Path (fun u e => u.abandons e = false) s
      (.read (.ok f) :: es) s' ↔
      (machine serde).Path (fun u e => u.abandons e = false) u es s' := by
    rw [StepMachine.path_cons_iff hread]
    exact ⟨fun hall => hall.2, fun htail => ⟨rfl, htail⟩⟩
  rw [hown, hcons]
  rcases hnew with hoff | ⟨t, ht⟩
  · -- the payload does not parse
    cases hp with
    | cons hon _ _ =>
      rw [hoff] at hon
      cases hon
    | nil _ =>
      have hgone : s'.registry s.jobs.length = none := by
        rw [hstart]
        simp [registry]
      exact ⟨fun _ => .nil s', fun _ => hgone⟩
  · exact registry_path_iff hp hu hn (by simp [handlesRun, ht]) hcall.ends hnone

def runFrame : Frame := (Frame.new .run .control).withPayload runJson

/-- The launch fails, and `cleanup_job` takes the job out of the registry. -/
def launchFails : List Event :=
  let steps : List Job.RunEvent :=
    [.step 0, .sent, .step 0, .step 0, .launchFailed "CreateProcessW", .step 0, .step 0,
      .sent, .step 0, .step 0, .step 0, .step 0]
  .created 1 0 0 :: steps.map fun e => .job 0 (.run e)

theorem leaves_registry_iff_launch_fails :
    ∃ s', RunCall sampleSerde (start helloAckFrame) runFrame launchFails s' ∧
      Unwatched (start helloAckFrame) s' ∧ s'.jobs.length = 1 ∧ s'.registry 0 = none ∧
      SameRegistry (start helloAckFrame) launchFails s' := by
  have hrun : ((machine sampleSerde).runIf
      (fun u e => u.handlesRun = true ∧ u.abandons e = false)
      { start helloAckFrame with handled := [runFrame], requests := .creating none }
      launchFails).any (fun s' =>
        !s'.handlesRun && s'.jobs.length = 1 && s'.registry 0 = none &&
          (s'.jobs[0]?).all fun j => j.watcher = .notSpawned) = true := by
    decide +kernel
  obtain ⟨s', hs, hp⟩ := (Option.any_eq_true _ _).mp hrun
  obtain ⟨⟨⟨hend, hlen⟩, hgone⟩, hnone⟩ : ((s'.handlesRun = false ∧ s'.jobs.length = 1) ∧
      s'.registry 0 = none) ∧ (s'.jobs[0]?).all (fun j => j.watcher = .notSpawned) = true := by
    simpa using hp
  have hall := StepMachine.path_of_runIf hs
  have hcall : RunCall sampleSerde (start helloAckFrame) runFrame launchFails s' :=
    ⟨rfl, ⟨_, by rfl, hall.mono fun _ _ h => h.1⟩, hend⟩
  have hunwatched : Unwatched (start helloAckFrame) s' := by
    intro j hj
    have hget : s'.jobs[0]? = some j := hj
    simpa [hget] using hnone
  refine ⟨s', hcall, hunwatched, hlen, hgone, ?_⟩
  refine (leaves_registry_iff ⟨_, [], initial_sample, .nil _⟩ hcall hunwatched).mpr ?_
  exact .cons rfl (by rfl) (hall.mono fun _ _ h => h.2)

/-- The client has closed its end when RUN_ACK of its first RUN is written, and its
second RUN still waits in the pipe. -/
def clientGoneEarly : List Event :=
  runEvents 0 1 ++ [.writer .received, .writer (.writeFailed 232 0)]

/-- `handle_run` of the second RUN finds the channel closed. -/
def ackUnsent : List Event :=
  [.created 2 0 0, .job 1 (.run (.step 0)), .job 1 (.run .closed)]

/-- The second RUN has started nothing, and its job stays registered. -/
theorem ack_unsent_leaves_job :
    ∃ s s', (machine sampleSerde).Reachable s ∧ RunCall sampleSerde s runFrame ackUnsent s' ∧
      Unwatched s s' ∧ s.registry 1 = none ∧ s'.registry 1 = some 2 ∧
      ¬ SameRegistry s ackUnsent s' := by
  have hrun : ((machine sampleSerde).run (start helloAckFrame) clientGoneEarly).any (fun s =>
      s.jobs.length = 1 && (s.step sampleSerde (.read (.ok runFrame))).any fun u =>
        ((machine sampleSerde).runIf (fun u _ => u.handlesRun = true) u ackUnsent).any
          fun s' => !s'.handlesRun && s'.registry 1 = some 2 &&
            (s'.jobs[1]?).all fun j => j.watcher = .notSpawned) = true := by
    decide +kernel
  obtain ⟨s, hs, hp⟩ := (Option.any_eq_true _ _).mp hrun
  obtain ⟨hlen, hp⟩ := Bool.and_eq_true_iff.mp hp
  obtain ⟨u, hu, hp⟩ := (Option.any_eq_true _ _).mp hp
  obtain ⟨s', hs', hp⟩ := (Option.any_eq_true _ _).mp hp
  obtain ⟨⟨hend, hstays⟩, hnone⟩ : (s'.handlesRun = false ∧ s'.registry 1 = some 2) ∧
      (s'.jobs[1]?).all (fun j => j.watcher = .notSpawned) = true := by simpa using hp
  have hlen' : s.jobs.length = 1 := by simpa using hlen
  have hbefore : s.registry 1 = none := by simp [registry, ← hlen']
  refine ⟨s, s', ⟨_, _, initial_sample, StepMachine.path_of_run hs⟩,
    ⟨rfl, ⟨u, hu, StepMachine.path_of_runIf hs'⟩, hend⟩, ?_, hbefore, hstays, ?_⟩
  · intro j hj
    rw [hlen'] at hj
    simpa [hj] using hnone
  · intro hsame
    rcases hsame 1 with h | ⟨h, -⟩
    · rw [hstays, hbefore] at h
      cases h
    · rw [hstays] at h
      cases h

end Session

end RemoteAgent
