import RemoteAgent.Job.Answer
import RemoteAgent.PipeServer.Connection
import RemoteAgent.PipeServer.Transcript

/-!
# Every RUN and its answer

When the client of a session stays connected, and all tasks of the session are
over, has each RUN that the request loop has dispatched got its answer?

* `step_placed` counts the RUN frames: each one is placed, that is it has a job or
  is about to get one, or the step turns it away.
* `holdsSender_step` says that a job without a sender sends nothing more, so the
  writer has written everything when it stops.
* `Answering` is what holds as long as every step accepts (`answering_reachable`),
  and `Unheard` what holds from the first step on that does not
  (`unheard_of_not_accepts`, `Unheard.step`).
* `answered_iff` puts the two together: the session answers every RUN exactly if
  every step of its run accepts.
-/

namespace RemoteAgent.Session

open CodeLib Protocol IoPump PipeServer
open JobManager (SystemTime Duration)

/-! ## The RUN frames of a session -/

/-- The RUN frames that the request loop has dispatched. -/
def runs (s : Session) : List Frame := s.handled.filter fun f => f.frameType = .run

/-- The RUN frames that have a job, or are about to get one. -/
def placed (s : Session) : Nat :=
  s.jobs.length + match s.requests with | .creating _ => 1 | _ => 0

/-- The step turns a RUN away: its payload does not parse, or `create_job`
refuses the job. -/
def rejects (serde : Serde) : Event → Bool
  | .read (.ok f) =>
    f.frameType = .run && (match serde.runFromSlice f.payload with
      | .error _ => true
      | .ok _ => false)
  | .refused _ => true
  | _ => false

/-- A RUN that is dispatched comes on top, and no other frame does. -/
theorem length_runs_concat {s s' : Session} {f : Frame}
    (h : s'.handled = s.handled ++ [f]) :
    s'.runs.length = s.runs.length + if f.frameType = .run then 1 else 0 := by
  unfold runs
  rw [h, List.filter_append, List.length_append]
  by_cases hrun : f.frameType = .run
  · simp [hrun]
  · simp [hrun]

theorem placed_of_same {s s' : Session} (hj : s'.jobs.length = s.jobs.length)
    (hold : ∀ t, s.requests ≠ .creating t) (hnew : ∀ t, s'.requests ≠ .creating t) :
    s'.placed = s.placed := by
  have hnone : ∀ x : Session, (∀ t, x.requests ≠ .creating t) →
      x.placed = x.jobs.length := by
    intro x hx
    unfold placed
    split
    · rename_i t ht
      exact absurd ht (hx t)
    · rfl
  rw [hnone s hold, hnone s' hnew, hj]

/-- A frame other than RUN places nothing. -/
theorem updateActivity_placed {s s' : Session} {jobId : UInt32} {cancel : Bool}
    {handled : List Frame} (hpc : s.requests = .reading)
    (h : ({ s with handled := handled } : Session).updateActivity jobId cancel =
      some s') : s'.handled = handled ∧ s'.placed = s.placed := by
  obtain ⟨hh, hr⟩ := updateActivity_requests h
  refine ⟨hh, placed_of_same ?_ (fun t => by simp [hpc]) (fun t => ?_)⟩
  · cases updateActivity_move h with
    | goes requests handled => rfl
    | begins i j j' op requests handled hget hstep => exact List.length_set
  · rcases hr with hr | ⟨i, c, hr⟩
    · simp [hr, hpc]
    · simp [hr]

theorem resume_placed {s s' : Session} (h : s.resume = some s') :
    s'.handled = s.handled ∧ s'.placed = s.placed := by
  unfold resume at h
  split at h
  · rename_i i hpc
    split at h
    · cases h
      exact ⟨rfl, by simp [placed, hpc]⟩
    · cases h
      exact ⟨rfl, by simp [placed, hpc]⟩
    · cases h
  · rename_i i c cancel hpc
    split at h
    · split at h
      · obtain ⟨s'', hs, rfl⟩ := Option.map_eq_some_iff.mp h
        obtain ⟨j, j', -, -, -, rfl⟩ := stepJob_eq hs
        exact ⟨rfl, by simp [placed, hpc]⟩
      · cases h
        exact ⟨rfl, by simp [placed, hpc]⟩
    · cases h
  · rename_i i c hpc
    split at h
    · cases h
      exact ⟨rfl, by simp [placed, hpc]⟩
    · cases h
  · cases h

theorem dispatch_placed {serde : Serde} {s s' : Session} {f : Frame}
    (hpc : s.requests = .reading) (h : s.dispatch serde (.ok f) = some s') :
    s'.handled = s.handled ++ [f] ∧
      (if f.frameType = .run then 1 else 0) + s.placed =
        s'.placed + if rejects serde (.read (.ok f)) then 1 else 0 := by
  -- a frame that is not RUN is neither placed nor turned away
  have hother : f.frameType ≠ .run → s'.placed = s.placed →
      (if f.frameType = .run then 1 else 0) + s.placed =
        s'.placed + if rejects serde (.read (.ok f)) then 1 else 0 := by
    intro hrun hsame
    simp [rejects, hrun, hsame]
  simp only [dispatch] at h
  split at h
  · rename_i hrun
    split at h
    · rename_i e he
      cases h
      refine ⟨rfl, ?_⟩
      simp [placed, rejects, hrun, he, hpc]
      omega
    · rename_i payload hp
      cases h
      refine ⟨rfl, ?_⟩
      simp [placed, rejects, hrun, hp, hpc]
      omega
  · rename_i hcancel
    obtain ⟨hh, hsame⟩ := updateActivity_placed hpc h
    exact ⟨hh, hother (by simp [hcancel]) hsame⟩
  · rename_i hwindow
    obtain ⟨hh, hsame⟩ := updateActivity_placed hpc h
    exact ⟨hh, hother (by simp [hwindow]) hsame⟩
  · rename_i hbye
    cases h
    exact ⟨rfl, hother (by simp [hbye]) (by simp [placed, hpc])⟩
  · rename_i hrun _ _ _
    split at h
    · obtain ⟨hh, hsame⟩ := updateActivity_placed hpc h
      exact ⟨hh, hother hrun hsame⟩
    · cases h
      exact ⟨rfl, hother hrun (by simp [placed, hpc])⟩

/-- A RUN is placed or turned away. -/
theorem step_placed {serde : Serde} {s s' : Session} {e : Event}
    (h : s.step serde e = some s') :
    s'.runs.length + s.placed =
      s.runs.length + s'.placed + if rejects serde e then 1 else 0 := by
  cases e with
  | read r =>
    simp only [step] at h
    split at h
    · rename_i hpc
      cases r with
      | error e =>
        cases h
        simp [runs, placed, rejects, hpc]
      | ok f =>
        obtain ⟨hh, hcount⟩ := dispatch_placed hpc h
        rw [length_runs_concat hh]
        omega
    · cases h
  | created jobId now last =>
    simp only [step] at h
    split at h
    · rename_i timeout hpc
      cases h
      simp [runs, placed, rejects, hpc]
    · cases h
  | refused e =>
    simp only [step] at h
    split at h
    · rename_i timeout hpc
      cases h
      simp [runs, placed, rejects, hpc]
      omega
    · cases h
  | resume =>
    obtain ⟨hh, hsame⟩ := resume_placed h
    simp [runs, rejects, hh, hsame]
  | job i e =>
    obtain ⟨j, j', -, -, -, rfl⟩ := stepJob_eq h
    simp [runs, placed, rejects]
  | writer e =>
    have hsame : s'.handled = s.handled ∧ s'.requests = s.requests ∧ s'.jobs = s.jobs := by
      cases stepWriter_move h <;> exact ⟨rfl, rfl, rfl⟩
    simp [runs, placed, rejects, hsame]

/-! ## When the tasks of a session are over -/

/-- All tasks of the session have finished: the request loop, the writer, and
for each job `handle_run`, the pumps, the monitor and the watcher. -/
def finished (s : Session) : Bool :=
  s.requests.finished && !s.writer.receiving &&
    s.jobs.all fun j => !holdsSender j && !j.monitor.holdsArc

theorem hasSenders_eq_false {s : Session} :
    s.hasSenders = false ↔
      (∃ r, s.requests = .returned r) ∧ ∀ j ∈ s.jobs, holdsSender j = false := by
  unfold hasSenders
  rw [Bool.or_eq_false_iff, List.any_eq_false]
  constructor
  · rintro ⟨hr, hj⟩
    refine ⟨?_, fun j hm => by simpa using hj j hm⟩
    cases hpc : s.requests <;> simp [hpc] at hr
    exact ⟨_, rfl⟩
  · rintro ⟨⟨r, hr⟩, hj⟩
    exact ⟨by rw [hr], fun j hm => by simp [hj j hm]⟩

/-- The tasks of a job that hold no sender are over, or were never spawned. -/
theorem holdsSender_eq_false {j : Job} :
    holdsSender j = false ↔
      (∃ r, j.run = .returned r) ∧ (j.watcher = .notSpawned ∨ j.watcher = .returned) ∧
        ∀ o, (j.pump o).pc = .notSpawned ∨ ∃ r, (j.pump o).pc = .returned r := by
  unfold holdsSender
  simp only [List.any_cons, List.any_nil, Bool.or_false, Bool.or_eq_false_iff]
  constructor
  · rintro ⟨⟨hrun, hwatcher⟩, hout, herr⟩
    refine ⟨?_, ?_, ?_⟩
    · cases hpc : j.run <;> simp [hpc] at hrun
      exact ⟨_, rfl⟩
    · cases hpc : j.watcher <;> simp [hpc] at hwatcher <;> simp
    · intro o
      cases o with
      | stdout => cases hpc : (j.pump .stdout).pc <;> simp [hpc] at hout <;> simp
      | stderr => cases hpc : (j.pump .stderr).pc <;> simp [hpc] at herr <;> simp
  · rintro ⟨⟨r, hrun⟩, hwatcher, hpump⟩
    refine ⟨⟨by rw [hrun], ?_⟩, ?_, ?_⟩
    · rcases hwatcher with hpc | hpc <;> rw [hpc]
    · rcases hpump .stdout with hpc | ⟨r, hpc⟩ <;> rw [hpc]
    · rcases hpump .stderr with hpc | ⟨r, hpc⟩ <;> rw [hpc]

/-- A job without a sender sends nothing more. -/
theorem holdsSender_step {j j' : Job} {e : Job.Event} (h : holdsSender j = false)
    (hstep : j.step e = some j') : holdsSender j' = false ∧ j'.sent = j.sent := by
  obtain ⟨⟨r, hrun⟩, hwatcher, hpump⟩ := holdsSender_eq_false.mp h
  cases e with
  | run e =>
    obtain ⟨a, pc, eff, hs, -⟩ := Job.step_run hstep
    simp [Job.RunPc.step, hrun] at hs
  | watcher e =>
    obtain ⟨a, pc, waiter, fs, hw, -⟩ := Job.step_watcher hstep
    rcases hwatcher with hpc | hpc <;> simp [Job.WatcherPc.step, hpc] at hw
  | pump o e =>
    obtain ⟨p, w, q, fs, -, hs, -⟩ := Job.step_pump hstep
    rcases hpump o with hpc | ⟨r, hpc⟩ <;> simp [Pump.step, hpc] at hs
  | _ =>
    have hf := Job.step_frame hstep (by simp)
    refine ⟨holdsSender_eq_false.mpr ?_, hf.sent (by simp) (by simp)⟩
    rw [hf.run, hf.watcher (by simp), hf.pump (by simp)]
    exact ⟨⟨r, hrun⟩, hwatcher, hpump⟩

/-! ## The channel and the jobs -/

/-- The channel has the frames of each job in the job's order, and no others. -/
structure Carried (s : Session) : Prop where
  sent : ∀ (i : Nat) (j : Job), s.jobs[i]? = some j → j.sent.Sublist s.enqueued
  owned : ∀ f ∈ s.enqueued, ∃ (i : Nat) (j : Job), s.jobs[i]? = some j ∧ f ∈ j.sent

theorem Carried.job {s : Session} {i : Nat} {j j' : Job} {e : Job.Event} (hs : s.Carried)
    (hget : s.jobs[i]? = some j) (hstep : j.step e = some j') (requests : RequestPc)
    (handled : List Frame) :
    Carried { s with
      jobs := s.jobs.set i j'
      enqueued := s.enqueued ++ j'.sent.drop j.sent.length
      requests := requests
      handled := handled } := by
  obtain ⟨fs, -, hsent⟩ := Job.step_sends hstep
  have hdrop : j'.sent.drop j.sent.length = fs := by rw [hsent, List.drop_left]
  have hset : (s.jobs.set i j')[i]? = some j' :=
    List.getElem?_set_self (List.getElem?_eq_some_iff.mp hget).1
  rw [hdrop]
  refine ⟨?_, ?_⟩
  · intro k x hk
    rcases getElem?_set_cases hk with ⟨-, rfl⟩ | ⟨-, hk⟩
    · rw [hsent]
      exact (hs.sent i j hget).append (List.Sublist.refl fs)
    · exact (hs.sent k x hk).trans (List.sublist_append_left _ _)
  · intro f hf
    rcases List.mem_append.mp hf with hf | hf
    · obtain ⟨k, x, hk, hx⟩ := hs.owned f hf
      by_cases hki : k = i
      · subst hki
        obtain rfl : j = x := Option.some.inj (hget.symm.trans hk)
        refine ⟨k, j', hset, ?_⟩
        rw [hsent]
        exact List.mem_append_left _ hx
      · exact ⟨k, x, by rw [List.getElem?_set_ne (Ne.symm hki)]; exact hk, hx⟩
    · refine ⟨i, j', hset, ?_⟩
      rw [hsent]
      exact List.mem_append_right _ hf

theorem carried_reachable {serde : Serde} {C : Session → Event → Prop} {s : Session}
    (h : (machine serde).Reach C s) : s.Carried := by
  refine h.invariant ?_ ?_
  · rintro _ ⟨hello, ack, -, -, rfl⟩
    exact ⟨fun i j hj => absurd hj (by simp [start]),
      fun f hf => absurd hf List.not_mem_nil⟩
  · intro s e s' hs _ hstep
    cases step_move hstep with
    | request requests handled => exact ⟨hs.sent, hs.owned⟩
    | job i j j' e requests handled hget hallows hjob =>
      exact hs.job hget hjob requests handled
    | create jobId timeout now last requests =>
      refine ⟨?_, ?_⟩
      · intro k x hk
        rcases getElem?_concat_cases hk with hk | ⟨-, rfl⟩
        · exact hs.sent k x hk
        · exact List.nil_sublist _
      · intro f hf
        obtain ⟨k, x, hk, hx⟩ := hs.owned f hf
        exact ⟨k, x, getElem?_concat_of_some hk, hx⟩
    | writer e s' hw =>
      obtain ⟨hj, he⟩ := stepWriter_keeps hw
      refine ⟨?_, ?_⟩
      · rw [hj, he]
        exact hs.sent
      · rw [hj, he]
        exact hs.owned

/-! ## Answers -/

/-- What the client has got of a job, out of all frames that it has got: the
frames of the job are there in their order, no others have its id if ids differ,
and they answer the RUN. -/
structure Answers (s : Session) (fs : List Frame) (j : Job) : Prop where
  sent : j.sent.Sublist fs
  alone : s.jobIds.Nodup → ofJob j.handle.jobId fs = j.sent
  answer : Job.Answer j.handle.jobId j.sent

/-- Every RUN has its answer on the pipe.  The request loop finishes with a RUN
before it reads on, and a RUN that it turns away is its last; so the job of a RUN
is the one at the same place.  A RUN without such a job would be answered by an
ERROR that no job has sent. -/
def Answered (s : Session) : Prop :=
  ∃ k, s.Written k [] ∧ ∀ n < s.runs.length,
    (∃ j, s.jobs[n]? = some j ∧ s.Answers (s.enqueued.take k) j) ∨
      ∃ f ∈ s.enqueued.take k, f.frameType = .error ∧ ∀ j ∈ s.jobs, f ∉ j.sent

/-- The client stays connected and reads, so no write fails. -/
def connected : Event → Bool
  | .writer (.writeFailed _ _) => false
  | _ => true

/-- Whether the step leaves every RUN on its way to an answer. -/
def accepts (serde : Serde) (s : Session) (e : Event) : Bool :=
  !rejects serde e &&
    match e with
    | .job i je => (s.jobs[i]?).all fun j => j.proceeds je
    | _ => true

/-- What holds as long as all steps accept and the client is connected. -/
structure Answering (s : Session) : Prop where
  jobs : ∀ j ∈ s.jobs, j.Answering
  fits : ∀ f ∈ s.enqueued, f.payload.length ≤ maxPayloadSize
  closing : s.writer.receiving = false →
    s.hasSenders = false ∧ s.Written s.enqueued.length []

/-- A task that finds the channel closed holds a sender. -/
theorem holdsSender_of_closed {j j' : Job} {e : Job.Event} (h : j.step e = some j')
    (he : e = .run .closed ∨ e = .watcher .closed) : holdsSender j = true := by
  by_contra hno
  obtain ⟨⟨r, hrun⟩, hwatcher, -⟩ := holdsSender_eq_false.mp (by simpa using hno)
  rcases he with rfl | rfl
  · obtain ⟨a, pc, eff, hs, -⟩ := Job.step_run h
    simp [Job.RunPc.step, hrun] at hs
  · obtain ⟨a, pc, waiter, fs, hw, -⟩ := Job.step_watcher h
    rcases hwatcher with hpc | hpc <;> simp [Job.WatcherPc.step, hpc] at hw

section job

variable {s : Session} {i : Nat} {j j' : Job} {e : Job.Event}

/-- While someone can send, the channel is open. -/
theorem Answering.channel_open (hs : s.Answering) (hget : s.jobs[i]? = some j)
    (hallows : s.allows e = true) (hstep : j.step e = some j') :
    e ≠ .run .closed ∧ e ≠ .watcher .closed := by
  have hclosed : e = .run .closed ∨ e = .watcher .closed → False := by
    intro he
    have hwriter : s.writer.receiving = false := by
      rcases he with rfl | rfl <;> simpa [allows] using hallows
    obtain ⟨-, hjobs⟩ := hasSenders_eq_false.mp (hs.closing hwriter).1
    have hnone := hjobs j (List.mem_of_getElem? hget)
    rw [holdsSender_of_closed hstep he] at hnone
    cases hnone
  exact ⟨fun he => hclosed (.inl he), fun he => hclosed (.inr he)⟩

theorem Answering.step_job (hs : s.Answering) (hreach : Job.machine.Reachable j)
    (hget : s.jobs[i]? = some j) (hallows : s.allows e = true)
    (hstep : j.step e = some j') (hproceeds : j.proceeds e = true) :
    Answering { s with
      jobs := s.jobs.set i j'
      enqueued := s.enqueued ++ j'.sent.drop j.sent.length } := by
  have hj : j ∈ s.jobs := List.mem_of_getElem? hget
  obtain ⟨hrun, hwatcher⟩ := hs.channel_open hget hallows hstep
  obtain ⟨fs, hsends, hsent⟩ := Job.step_sends hstep
  have hdrop : j'.sent.drop j.sent.length = fs := by rw [hsent, List.drop_left]
  refine ⟨?_, ?_, ?_⟩
  · intro x hx
    rcases List.mem_or_eq_of_mem_set hx with hx | rfl
    · exact hs.jobs x hx
    · exact (hs.jobs j hj).step (Job.staged_reachable hreach)
        (Job.speaking_reachable hreach) hstep hproceeds hrun hwatcher
  · intro f hf
    rw [hdrop] at hf
    rcases List.mem_append.mp hf with hf | hf
    · exact hs.fits f hf
    · exact hsends.fits (Job.metered_reachable hreach) (hs.jobs j hj).message f hf
  · intro hwriter
    obtain ⟨hnone, hwritten⟩ := hs.closing hwriter
    obtain ⟨hreturned, hjobs⟩ := hasSenders_eq_false.mp hnone
    -- nobody sends any more, so the channel stays as it is
    obtain ⟨hnone', hsame⟩ := holdsSender_step (hjobs j hj) hstep
    have hnil : fs = [] := by
      rw [hsame] at hsent
      exact List.self_eq_append_right.mp hsent
    refine ⟨hasSenders_eq_false.mpr ⟨hreturned, ?_⟩, ?_⟩
    · intro x hx
      rcases List.mem_or_eq_of_mem_set hx with hx | rfl
      · exact hjobs x hx
      · exact hnone'
    · rw [hdrop, hnil, List.append_nil]
      exact hwritten.mono rfl rfl (List.prefix_refl _)

end job

/-- The writer stops when everyone has finished and everything is written. -/
theorem Answering.step_writer {s s' : Session} {e : WriterEvent} (hs : s.Answering)
    (hpiped : s.Piped) (h : s.stepWriter e = some s')
    (hconnected : connected (.writer e) = true) : s'.Answering := by
  obtain ⟨hj, he⟩ := stepWriter_keeps h
  refine ⟨by rw [hj]; exact hs.jobs, by rw [he]; exact hs.fits, ?_⟩
  intro hwriter
  unfold stepWriter at h
  split at h
  · -- a frame that fits is encoded
    obtain ⟨f, hget, rfl⟩ := Option.map_eq_some_iff.mp h
    have henc := Frame.encode_of_le (hs.fits f (List.mem_of_getElem? hget))
    simp [henc, WriterPc.receiving] at hwriter
  · rename_i hw
    split at h
    · rename_i hdone
      cases h
      refine ⟨hdone.2, ?_⟩
      unfold Piped at hpiped
      rw [hw, hdone.1] at hpiped
      exact hpiped.mono rfl rfl (List.prefix_refl _)
    · cases h
  · rename_i rest next n hw
    split at h
    · cases h
      unfold WriterPc.afterWrite at hwriter
      split at hwriter
      · split at hwriter <;> cases hwriter
      · cases hwriter
    · cases h
  · cases hconnected
  · cases h

theorem Answering.step {serde : Serde} {s s' : Session} {e : Event} (hs : s.Answering)
    (hreach : ∀ j ∈ s.jobs, Job.machine.Reachable j) (hpiped : s.Piped)
    (h : s.step serde e = some s') (hconnected : connected e = true)
    (haccepts : s.accepts serde e = true) : s'.Answering := by
  -- as long as the request loop runs, the channel is open
  have hrunning : (∀ r, s.requests ≠ .returned r) → s.writer.receiving = true := by
    intro hreq
    by_contra hwriter
    obtain ⟨⟨r, hr⟩, -⟩ := hasSenders_eq_false.mp (hs.closing (by simpa using hwriter)).1
    exact hreq r hr
  rcases step_cases h with ⟨hmove, hreq⟩ | ⟨jobId, now, last, timeout, -, hreq, rfl⟩ |
    ⟨i, je, rfl, hjob⟩ | ⟨we, rfl, hw⟩
  · have hwriter := hrunning hreq
    cases hmove with
    | goes requests handled =>
      refine ⟨hs.jobs, hs.fits, fun hclosed => ?_⟩
      rw [hwriter] at hclosed
      cases hclosed
    | begins i j j' op requests handled hget hstep =>
      have hnew := hs.step_job (hreach j (List.mem_of_getElem? hget)) hget rfl hstep rfl
      refine ⟨hnew.jobs, hnew.fits, fun hclosed => ?_⟩
      rw [hwriter] at hclosed
      cases hclosed
  · have hwriter := hrunning fun r => by simp [hreq]
    refine ⟨?_, hs.fits, fun hclosed => ?_⟩
    · intro x hx
      rcases List.mem_append.mp hx with hx | hx
      · exact hs.jobs x hx
      · rw [List.mem_singleton.mp hx]
        exact Job.answering_create jobId timeout now last
    · rw [hwriter] at hclosed
      cases hclosed
  · obtain ⟨j, j', hget, hallows, hstep, rfl⟩ := stepJob_eq hjob
    have hproceeds : j.proceeds je = true := by
      simpa [accepts, rejects, hget] using haccepts
    exact hs.step_job (hreach j (List.mem_of_getElem? hget)) hget hallows hstep hproceeds
  · exact hs.step_writer hpiped hw hconnected

theorem answering_reachable {serde : Serde} {s : Session}
    (h : (machine serde).Reach
      (fun s e => connected e = true ∧ s.accepts serde e = true) s) : s.Answering := by
  refine h.invariant_of
    (J := fun s => (∀ j ∈ s.jobs, Job.machine.Reachable j) ∧ s.Piped)
    (fun _ hr => ⟨jobs_reachable hr, piped_reachable hr⟩) ?_ ?_
  · rintro _ ⟨hello, ack, -, -, rfl⟩
    refine ⟨fun j hj => absurd hj List.not_mem_nil,
      fun f hf => absurd hf List.not_mem_nil, ?_⟩
    intro hwriter
    cases hwriter
  · rintro s e s' ⟨hreach, hpiped⟩ hs ⟨hconnected, haccepts⟩ hstep
    exact hs.step hreach hpiped hstep hconnected haccepts

/-! ## RUN frames without a job -/

theorem placed_le {serde : Serde} {C : Session → Event → Prop} {s : Session}
    (h : (machine serde).Reach C s) : s.placed ≤ s.runs.length := by
  refine h.invariant (I := fun s => s.placed ≤ s.runs.length) ?_ ?_
  · rintro _ ⟨hello, ack, -, -, rfl⟩
    exact Nat.le_refl 0
  · intro s e s' hs _ hstep
    have hcount := step_placed hstep
    omega

/-- When no RUN is turned away, all have a job or are about to get one. -/
theorem placed_eq {serde : Serde} {s : Session}
    (h : (machine serde).Reach
      (fun s e => connected e = true ∧ s.accepts serde e = true) s) :
    s.placed = s.runs.length := by
  refine h.invariant (I := fun s => s.placed = s.runs.length) ?_ ?_
  · rintro _ ⟨hello, ack, -, -, rfl⟩
    rfl
  · rintro s e s' hs ⟨-, haccepts⟩ hstep
    have hcount := step_placed hstep
    have hrejects : rejects serde e = false := by
      simp only [accepts, Bool.and_eq_true, Bool.not_eq_true'] at haccepts
      exact haccepts.1
    rw [hrejects] at hcount
    simp only [Bool.false_eq_true, if_false] at hcount
    omega

theorem placed_of_finished {s : Session} (h : s.requests.finished = true) :
    s.placed = s.jobs.length := by
  unfold placed
  cases hpc : s.requests <;> simp [hpc, RequestPc.finished] at h ⊢

/-- A RUN will never be answered: it has no job, or its job is mute. -/
def Unheard (s : Session) : Prop :=
  s.placed < s.runs.length ∨ ∃ (i : Nat) (j : Job), s.jobs[i]? = some j ∧ j.Mute

theorem Unheard.step {serde : Serde} {s s' : Session} {e : Event}
    (hreach : ∀ j ∈ s.jobs, Job.machine.Reachable j) (hs : s.Unheard)
    (h : s.step serde e = some s') : s'.Unheard := by
  rcases hs with hlt | ⟨i, j, hget, hmute⟩
  · have hcount := step_placed h
    exact Or.inl (by omega)
  · refine Or.inr ?_
    cases step_move h with
    | request requests handled => exact ⟨i, j, hget, hmute⟩
    | job k x x' je requests handled hk hallows hstep =>
      by_cases hki : k = i
      · subst hki
        obtain rfl : j = x := Option.some.inj (hget.symm.trans hk)
        have hsp := Job.speaking_reachable (hreach j (List.mem_of_getElem? hget))
        exact ⟨k, x', List.getElem?_set_self (List.getElem?_eq_some_iff.mp hget).1,
          hmute.step hsp hstep⟩
      · exact ⟨i, j, (List.getElem?_set_ne hki).trans hget, hmute⟩
    | create jobId timeout now last requests =>
      exact ⟨i, j, getElem?_concat_of_some hget, hmute⟩
    | writer we s' hw =>
      rw [(stepWriter_keeps hw).1]
      exact ⟨i, j, hget, hmute⟩

/-- A step that does not accept leaves a RUN unheard. -/
theorem unheard_of_not_accepts {serde : Serde} {s s' : Session} {e : Event}
    (hreach : ∀ j ∈ s.jobs, Job.machine.Reachable j) (hplaced : s.placed ≤ s.runs.length)
    (h : s.step serde e = some s') (haccepts : ¬ s.accepts serde e = true) :
    s'.Unheard := by
  cases hrejects : rejects serde e with
  | true =>
    have hcount := step_placed h
    rw [hrejects] at hcount
    simp only [if_true] at hcount
    exact Or.inl (by omega)
  | false =>
    cases e with
    | job i je =>
      obtain ⟨j, j', hget, hallows, hstep, rfl⟩ := stepJob_eq h
      have hproceeds : j.proceeds je = false := by
        simpa [accepts, hrejects, hget] using haccepts
      have hr := hreach j (List.mem_of_getElem? hget)
      exact Or.inr ⟨i, j', List.getElem?_set_self (List.getElem?_eq_some_iff.mp hget).1,
        Job.mute_of_not_proceeds (Job.staged_reachable hr) (Job.speaking_reachable hr) hstep
          hproceeds⟩
    | _ => exact absurd (by simp [accepts, hrejects]) haccepts

/-- A session with a RUN that is unheard does not answer all. -/
theorem Unheard.not_answered {s : Session} (hs : s.Unheard) (hcarried : s.Carried)
    (hplaced : s.placed ≤ s.runs.length) (hfin : s.requests.finished = true) :
    ¬ s.Answered := by
  rintro ⟨k, hwritten, hall⟩
  -- every frame on the pipe is one of a job
  have howned : ¬ ∃ f ∈ s.enqueued.take k, f.frameType = .error ∧
      ∀ j ∈ s.jobs, f ∉ j.sent := by
    rintro ⟨f, hf, -, hnone⟩
    obtain ⟨i, j, hget, hsent⟩ := hcarried.owned f (List.mem_of_mem_take hf)
    exact hnone j (List.mem_of_getElem? hget) hsent
  have hcount := placed_of_finished hfin
  rcases hs with hlt | ⟨i, j, hget, hmute⟩
  · rcases hall s.jobs.length (by omega) with ⟨j, hget, -⟩ | herror
    · rw [List.getElem?_eq_none (Nat.le_refl _)] at hget
      cases hget
    · exact howned herror
  · have hi : i < s.jobs.length := (List.getElem?_eq_some_iff.mp hget).1
    rcases hall i (by omega) with ⟨x, hx, hanswers⟩ | herror
    · obtain rfl : j = x := Option.some.inj (hget.symm.trans hx)
      refine hmute.not_answer ?_ hanswers.answer
      intro f hf
      have henc := hwritten.encoded f (hanswers.sent.subset hf)
      exact (Frame.encode_eq_ok_iff.mp henc).1
    · exact howned herror

/-! ## Every RUN -/

theorem Answering.answered {s : Session} (hs : s.Answering) (hcarried : s.Carried)
    (hwoven : s.Woven) (hreach : ∀ j ∈ s.jobs, Job.machine.Reachable j)
    (hplaced : s.placed = s.runs.length) (hfin : s.finished = true) : s.Answered := by
  simp only [finished, Bool.and_eq_true, Bool.not_eq_true', List.all_eq_true] at hfin
  obtain ⟨⟨hreq, hwriter⟩, hjobs⟩ := hfin
  have hcount := placed_of_finished hreq
  refine ⟨s.enqueued.length, (hs.closing hwriter).2, ?_⟩
  rw [List.take_length]
  intro n hn
  have hlt : n < s.jobs.length := by omega
  have hmem : s.jobs[n] ∈ s.jobs := List.getElem_mem hlt
  have hget : s.jobs[n]? = some s.jobs[n] := List.getElem?_eq_getElem hlt
  obtain ⟨⟨r, hrun⟩, hwatcher, -⟩ := holdsSender_eq_false.mp (hjobs _ hmem).1
  refine Or.inl ⟨s.jobs[n], hget, hcarried.sent n _ hget,
    fun hids => hwoven.sent hids n _ hget, ?_⟩
  exact (hs.jobs _ hmem).answer (Job.speaking_reachable (hreach _ hmem)) hrun hwatcher

theorem unheard_path {serde : Serde} {C : Session → Event → Prop} {s s' : Session}
    {es : List Event} (hr : (machine serde).Reach C s) (hs : s.Unheard)
    (hp : (machine serde).Path C s es s') : s'.Unheard := by
  have key := hp.invariant (I := fun s => (machine serde).Reach C s ∧ s.Unheard) ?_ ⟨hr, hs⟩
  · exact key.2
  · rintro u e v ⟨hu, hunheard⟩ hc hstep
    exact ⟨hu.step hc hstep, hunheard.step (jobs_reachable hu) hstep⟩

/-- In a session whose client stays connected, every RUN is answered by the time
all tasks have finished exactly if every step accepts: each RUN parses and
`create_job` takes it, `handle_run` finds the job registered and in the state
before wherever it moves it on, and the text of a failed launch fits a frame. -/
theorem answered_iff {serde : Serde} {s₀ s : Session} {es : List Event}
    (h0 : Initial serde s₀)
    (hp : (machine serde).Path (fun _ e => connected e = true) s₀ es s)
    (hfin : s.finished = true) :
    s.Answered ↔
      (machine serde).Path (fun s e => connected e = true ∧ s.accepts serde e = true)
        s₀ es s := by
  have hreach : (machine serde).Reach (fun _ e => connected e = true) s := ⟨s₀, es, h0, hp⟩
  constructor
  · intro hanswered
    rcases hp.meets_or_breaks (fun s e => s.accepts serde e = true) with hall | hbreak
    · exact hall
    · obtain ⟨u, e, v, es₁, es₂, hpre, hc, hnot, hstep, hpost⟩ := hbreak
      have hu : (machine serde).Reach (fun _ e => connected e = true) u :=
        ⟨s₀, es₁, h0, hpre⟩
      have hv : v.Unheard :=
        unheard_of_not_accepts (jobs_reachable hu) (placed_le hu) hstep hnot
      have hs : s.Unheard := unheard_path (hu.step hc hstep) hv hpost
      have hreq : s.requests.finished = true := by
        simp only [finished, Bool.and_eq_true] at hfin
        exact hfin.1.1
      exact absurd hanswered
        (hs.not_answered (carried_reachable hreach) (placed_le hreach) hreq)
  · intro hall
    have hr : (machine serde).Reach
        (fun s e => connected e = true ∧ s.accepts serde e = true) s := ⟨s₀, es, h0, hall⟩
    exact (answering_reachable hr).answered (carried_reachable hr) (woven_reachable hr)
      (jobs_reachable hr) (placed_eq hr) hfin

/-- The process of a job exits, and its pumps, its watcher and its monitor come to
their ends. -/
def exitEvents : List Job.Event :=
  [.os (.exit 0), .os (.closeWriters .stdout), .os (.closeWriters .stderr)] ++
    Job.pumpEvents .stdout (.err errorBrokenPipe []) ++
    Job.pumpEvents .stderr (.err errorBrokenPipe []) ++ Job.exitEvents 0 ++
    [.watcher .sent, .watcher (.step 0), .watcher (.step 0), .monitor (.step 0)]

/-- The writer writes a frame with as many bytes. -/
def writeEvents (n : Nat) : List Event :=
  [.writer .received, .writer (.wrote 4), .writer (.wrote n)]

/-- A client runs one command to its end and says goodbye. -/
def runToExit : List Event :=
  runEvents 0 1 ++ exitEvents.map (.job 0) ++
    [.read (.ok (Frame.new .goodbye .control))] ++ writeEvents 12 ++ writeEvents 12 ++
    writeEvents 12 ++ writeEvents 27 ++ [.writer .hungUp]

theorem answered_iff_exit :
    ∃ s, (machine sampleSerde).Path (fun _ e => connected e = true)
        (start helloAckFrame) runToExit s ∧ s.finished = true ∧ s.runs.length = 1 ∧
      s.enqueued.map (fun f => (f.jobId, f.frameType)) =
        [(1, .runAck), (1, .output), (1, .output), (1, .exit)] ∧ s.Answered := by
  have hrun : ((machine sampleSerde).runIf
      (fun s e => connected e = true ∧ s.accepts sampleSerde e = true)
      (start helloAckFrame) runToExit).any (fun s =>
        s.finished && s.runs.length = 1 &&
          s.enqueued.map (fun f => (f.jobId, f.frameType)) =
            [(1, .runAck), (1, .output), (1, .output), (1, .exit)]) = true := by
    decide +kernel
  obtain ⟨s, hs, hp⟩ := (Option.any_eq_true _ _).mp hrun
  obtain ⟨⟨hfin, hone⟩, henq⟩ : (s.finished = true ∧ s.runs.length = 1) ∧
      s.enqueued.map (fun f => (f.jobId, f.frameType)) =
        [(1, .runAck), (1, .output), (1, .output), (1, .exit)] := by simpa using hp
  have hall := StepMachine.path_of_runIf hs
  have hpath := hall.mono fun _ _ h => h.1
  exact ⟨s, hpath, hfin, hone, henq,
    (answered_iff initial_sample hpath hfin).mpr hall⟩

/-- A RUN that comes when the limit on jobs is reached. -/
def runAtLimit : List Event :=
  [.read (.ok ((Frame.new .run .control).withPayload runJson)),
    .refused (.service "Maximum concurrent jobs (32) reached"), .writer .hungUp]

/-- The client has got nothing after HELLO_ACK when the session is over. -/
theorem run_at_limit_unanswered :
    ∃ s, (machine sampleSerde).Reach (fun _ e => connected e = true) s ∧
      s.finished = true ∧ s.runs.length = 1 ∧ s.pipeOut = wire helloAckFrame ∧
      ¬ s.Answered := by
  obtain ⟨s, hr, hp⟩ := StepMachine.reach_of_runIf (machine sampleSerde)
    (fun _ e => connected e = true) initial_sample runAtLimit
    (fun s => s.finished && s.runs.length = 1 && s.pipeOut = wire helloAckFrame &&
      s.enqueued = [] && s.jobs.isEmpty)
    (by decide +kernel)
  obtain ⟨⟨⟨⟨hfin, hone⟩, hout⟩, henq⟩, hjobs⟩ : (((s.finished = true ∧
      s.runs.length = 1) ∧ s.pipeOut = wire helloAckFrame) ∧ s.enqueued = []) ∧
      s.jobs = [] := by simpa using hp
  refine ⟨s, hr, hfin, hone, hout, ?_⟩
  rintro ⟨k, -, hall⟩
  rcases hall 0 (by omega) with ⟨j, hget, -⟩ | ⟨f, hf, -⟩
  · rw [hjobs] at hget
    cases hget
  · rw [henq, List.take_nil] at hf
    cases hf

end RemoteAgent.Session
