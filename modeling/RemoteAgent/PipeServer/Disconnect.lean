import RemoteAgent.Job.Over
import RemoteAgent.PipeServer.Answer

/-!
# The jobs of a session that ends

`handle_client` returns when the request loop has returned and the writer has
stopped.  Nothing in it cancels the jobs of the session.  A job is over all the same if
the writer has stopped because nobody can send any more: then `handle_run` and the
watcher of every job have come to their ends (`Job.Tracked.isOver_of_ended`).  A writer
that stops on an error waits for nobody.

* `keepsWriter` is the condition on a step: the writer stops on an error only when all
  jobs are over, and no job is created after it has stopped.
* `Attended` is what such steps keep, and `over_of_clientReturned` is the result.
  `client_gone_job_runs` is a session whose client goes away while its job runs.
-/

namespace RemoteAgent.Session

open CodeLib Protocol IoPump PipeServer
open JobManager (SystemTime Duration)

/-- `handle_client` has returned. -/
def clientReturned (s : Session) : Bool := s.requests.finished && !s.writer.receiving

/-- Every job of the session has ended or is told to. -/
def allOver (s : Session) : Bool := s.jobs.all fun j => Job.isOver j.handle

/-- The frame that the writer receives next can be written. -/
def nextEncodes (s : Session) : Bool :=
  (s.enqueued[s.taken]?).all fun f => f.encode.isOk

/-- The writer stops on an error only when all jobs are over, and jobs are created only
while there is a writer. -/
def keepsWriter (s : Session) : Event → Bool
  | .writer (.writeFailed _ _) => s.allOver
  | .writer .received => s.nextEncodes || s.allOver
  | .created _ _ _ => s.writer.receiving
  | _ => true

/-- With a writer the jobs are tracked, without one they are over. -/
structure Attended (s : Session) : Prop where
  tracked : s.writer.receiving = true → ∀ j ∈ s.jobs, j.Tracked
  ended : s.writer.receiving = false → ∀ j ∈ s.jobs, Job.isOver j.handle = true

theorem allOver_iff {s : Session} :
    s.allOver = true ↔ ∀ j ∈ s.jobs, Job.isOver j.handle = true := List.all_eq_true

theorem Attended.congr {s s' : Session} (hs : s.Attended) (hjobs : s'.jobs = s.jobs)
    (hwriter : s'.writer.receiving = s.writer.receiving) : s'.Attended := by
  constructor
  · rw [hwriter, hjobs]
    exact hs.tracked
  · rw [hwriter, hjobs]
    exact hs.ended

/-- The writer has stopped, and all jobs are over. -/
theorem Attended.stopped {s : Session} (hwriter : s.writer.receiving = false)
    (hover : ∀ j ∈ s.jobs, Job.isOver j.handle = true) : s.Attended := by
  constructor
  · intro hw
    rw [hwriter] at hw
    cases hw
  · exact fun _ => hover

/-- A step of one job. -/
theorem Attended.set_job {s s' : Session} {i : Nat} {j j' : Job} {e : Job.Event}
    (hs : s.Attended) (hreach : ∀ j ∈ s.jobs, Job.machine.Reachable j)
    (hget : s.jobs[i]? = some j) (hstep : j.step e = some j')
    (hallows : s.allows e = true) (hjobs : s'.jobs = s.jobs.set i j')
    (hwriter : s'.writer = s.writer) : s'.Attended := by
  have hj : j ∈ s.jobs := List.mem_of_getElem? hget
  constructor
  · rw [hwriter, hjobs]
    intro hw x hx
    rcases List.mem_or_eq_of_mem_set hx with hx | rfl
    · exact hs.tracked hw x hx
    · -- a writer that receives keeps the channel open
      have hopen : e ≠ .run .closed := by
        rintro rfl
        simp [allows, hw] at hallows
      exact (hs.tracked hw j hj).step (Job.staged_reachable (hreach j hj)) hstep hopen
  · rw [hwriter, hjobs]
    intro hw x hx
    rcases List.mem_or_eq_of_mem_set hx with hx | rfl
    · exact hs.ended hw x hx
    · exact Job.isOver_step hstep (hs.ended hw j hj)

/-- Nobody can send, so every job is over. -/
theorem Attended.over_of_senders {s : Session} (hs : s.Attended)
    (hw : s.writer.receiving = true) (hsenders : s.hasSenders = false) :
    ∀ j ∈ s.jobs, Job.isOver j.handle = true := by
  intro j hj
  obtain ⟨-, hjobs⟩ := hasSenders_eq_false.mp hsenders
  obtain ⟨⟨r, hrun⟩, hwatcher, -⟩ := holdsSender_eq_false.mp (hjobs j hj)
  exact (hs.tracked hw j hj).isOver_of_ended hrun hwatcher

theorem receiving_afterWrite (rest : List UInt8) (next : Option (List UInt8)) :
    (WriterPc.afterWrite rest next).receiving = true := by
  unfold WriterPc.afterWrite
  split
  · cases next <;> rfl
  · rfl

theorem Attended.stepWriter {s s' : Session} {e : WriterEvent} (hs : s.Attended)
    (hc : s.keepsWriter (.writer e) = true) (h : s.stepWriter e = some s') :
    s'.Attended := by
  unfold Session.stepWriter at h
  split at h
  · rename_i hpc
    have hw : s.writer.receiving = true := by rw [hpc]; rfl
    obtain ⟨f, hget, rfl⟩ := Option.map_eq_some_iff.mp h
    cases henc : f.encode with
    | ok data =>
      refine hs.congr rfl ?_
      rw [hw]
      rfl
    | error err =>
      have hover : s.allOver = true := by
        simpa [keepsWriter, nextEncodes, hget, henc, Except.isOk, Except.toBool] using hc
      exact .stopped rfl (allOver_iff.mp hover)
  · rename_i hpc
    have hw : s.writer.receiving = true := by rw [hpc]; rfl
    split at h
    · rename_i hend
      cases h
      exact .stopped rfl (hs.over_of_senders hw hend.2)
    · cases h
  · rename_i rest next n hpc
    split at h
    · cases h
      have hw : s.writer.receiving = true := by rw [hpc]; rfl
      refine hs.congr rfl ?_
      rw [hw]
      exact receiving_afterWrite _ _
    · cases h
  · split at h
    · cases h
      exact .stopped rfl (allOver_iff.mp hc)
    · cases h
  · cases h

theorem Attended.step {serde : Serde} {s s' : Session} {e : Event} (hs : s.Attended)
    (hreach : ∀ j ∈ s.jobs, Job.machine.Reachable j) (hc : s.keepsWriter e = true)
    (h : s.step serde e = some s') : s'.Attended := by
  rcases step_cases h with ⟨hr, -⟩ | ⟨jobId, now, last, timeout, rfl, -, rfl⟩ |
    ⟨i, je, rfl, hstep⟩ | ⟨we, rfl, hstep⟩
  · cases hr with
    | goes requests handled => exact hs.congr rfl rfl
    | begins i j j' op requests handled hget hstep =>
      exact hs.set_job hreach hget hstep rfl rfl rfl
  · have hw : s.writer.receiving = true := hc
    constructor
    · intro _ j hj
      rcases List.mem_append.mp hj with hj | hj
      · exact hs.tracked hw j hj
      · rw [List.mem_singleton.mp hj]
        exact Job.tracked_create jobId timeout now last
    · intro hno
      have hno' : s.writer.receiving = false := hno
      rw [hw] at hno'
      cases hno'
  · obtain ⟨j, j', hget, hallows, hjob, rfl⟩ := stepJob_eq hstep
    exact hs.set_job hreach hget hjob hallows rfl rfl
  · exact hs.stepWriter hc hstep

theorem attended_reachable {serde : Serde} {s : Session}
    (h : (machine serde).Reach (fun s e => s.keepsWriter e = true) s) : s.Attended := by
  refine h.invariant_of (fun _ hr => jobs_reachable hr) ?_ ?_
  · rintro _ ⟨hello, ack, -, -, rfl⟩
    constructor
    · intro _ j hj
      cases hj
    · intro hw
      cases hw
  · intro u e v hreach hu hc hstep
    exact hu.step hreach hc hstep

/-- In a session whose writer stops on an error only when all jobs are over, and which
creates no job after that, every job is over when `handle_client` has returned. -/
theorem over_of_clientReturned {serde : Serde} {s : Session}
    (h : (machine serde).Reach (fun s e => s.keepsWriter e = true) s)
    (hret : s.clientReturned = true) :
    ∀ j ∈ s.jobs, j.handle.state.isTerminal = true ∨ j.handle.cancellationToken = true := by
  intro j hj
  have hw : s.writer.receiving = false := by
    simp only [clientReturned, Bool.and_eq_true, Bool.not_eq_true'] at hret
    exact hret.2
  exact Job.isOver_iff.mp ((attended_reachable h).ended hw j hj)

/-- The job runs to its end before the client says goodbye. -/
theorem over_of_clientReturned_exit :
    ∃ s, (machine sampleSerde).Reach (fun s e => s.keepsWriter e = true) s ∧
      s.clientReturned = true ∧ s.jobs.map (fun j => j.handle.state) = [.completed] ∧
      ∀ j ∈ s.jobs, j.handle.state.isTerminal = true ∨
        j.handle.cancellationToken = true := by
  obtain ⟨s, hr, hp⟩ := StepMachine.reach_of_runIf (machine sampleSerde)
    (fun s e => s.keepsWriter e = true) initial_sample runToExit
    (fun s => s.clientReturned && s.jobs.map (fun j => j.handle.state) = [.completed])
    (by decide +kernel)
  obtain ⟨hret, hjobs⟩ : s.clientReturned = true ∧
      s.jobs.map (fun j => j.handle.state) = [.completed] := by simpa using hp
  exact ⟨s, hr, hret, hjobs, over_of_clientReturned hr hret⟩

/-- The client goes away while its job runs: the writer cannot write RUN_ACK, and the
request loop reads the end of the pipe. -/
def clientGone : List Event :=
  runEvents 0 1 ++ ([.writer .received, .writer (.writeFailed 232 0),
    .read (.error (.io (.rawOs errorBrokenPipe.toInt32)))] : List Event)

/-- `handle_client` has returned, and nobody has told the job to stop. -/
theorem client_gone_job_runs :
    ∃ s, (machine sampleSerde).Reachable s ∧ s.clientReturned = true ∧
      ∃ j ∈ s.jobs, j.handle.state = .running ∧ j.handle.cancellationToken = false := by
  obtain ⟨s, hr, hp⟩ := StepMachine.reach_of_runIf (machine sampleSerde) StepMachine.Any
    initial_sample clientGone
    (fun s => s.clientReturned && s.jobs.any fun j =>
      j.handle.state = .running && !j.handle.cancellationToken)
    (by decide +kernel)
  refine ⟨s, hr, ?_⟩
  simpa using hp

end RemoteAgent.Session
