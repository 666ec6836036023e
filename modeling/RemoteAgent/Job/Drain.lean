import RemoteAgent.Job.Exit

/-!
# Output that is not lost

A pump ends its stream in two ways.  It reads to the end of the pipe, or it finds
the token cancelled and stops where it is.  The exit watcher records Completed
without a look at the pumps, and once the job is Completed the quiet branch of
`cleanup_idle_jobs` may cancel the token of a pump that still has data to read.
A pump also takes a successful read of zero bytes, which a write of length zero
causes, for the end of the pipe.

* `eos_complete`: in every run in which the token is only cancelled when both
  streams are read to their ends, and in which no read returns zero bytes, the
  frames before the end-of-stream frame carry exactly the bytes that were written
  to the stream, and nothing can be written to it any more.
* `eos_with_loss` is a run of a job that completes, with no other disturbance
  than one call of `cleanup_idle_jobs`, in which bytes are lost.
-/

namespace RemoteAgent.Job

open CodeLib Protocol IoPump
open JobManager (SystemTime Duration HANDLE JobState JobHandle)

/-! ## Reading a pipe -/

namespace Pipe

theorem written_of_atEnd {p : Pipe} (h : p.atEnd = true) : p.written = p.consumed := by
  have hnil : p.unread = [] := by
    unfold atEnd at h
    simp only [Bool.and_eq_true, List.isEmpty_iff] at h
    exact h.1
  unfold written
  rw [hnil]
  exact List.append_nil _

/-- A write goes to what waits, and only before the end. -/
theorem write_spec {p p' : Pipe} {data : List UInt8} (h : p.write data = some p') :
    p'.consumed = p.consumed ∧ p.atEnd = false := by
  unfold write at h
  split at h
  · rename_i hw
    cases h
    refine ⟨rfl, ?_⟩
    unfold atEnd
    rw [hw]
    simp
  · cases h

theorem take_spec {p p' : Pipe} {data : List UInt8} (h : p.take data = some p') :
    p'.consumed = p.consumed ++ data ∧ data.length ≤ maxPayloadSize ∧
      (p.atEnd = true → p'.atEnd = true) := by
  unfold take at h
  split at h
  · rename_i hcond
    simp only [Bool.and_eq_true, decide_eq_true_eq] at hcond
    cases h
    refine ⟨rfl, hcond.2, fun hat => ?_⟩
    unfold atEnd at hat ⊢
    simp only [Bool.and_eq_true, List.isEmpty_iff] at hat ⊢
    refine ⟨?_, hat.2⟩
    rw [hat.1, List.drop_nil]
  · cases h

end Pipe

/-- The bytes that come with the outcome of a read. -/
def bytesOf : ReadOutcome → List UInt8
  | .ok data => data
  | .err _ data => data

namespace Pipe

/-- A read moves its bytes, which fit the buffer, to what was consumed, and a pipe
that is at its end stays so. -/
theorem readFile_spec {p p' : Pipe} {r : ReadOutcome} (h : p.readFile r = some p') :
    p'.consumed = p.consumed ++ bytesOf r ∧ (bytesOf r).length ≤ maxPayloadSize ∧
      (p.atEnd = true → p'.atEnd = true) := by
  -- a read without bytes that leaves the pipe as it is
  have hsame : bytesOf r = [] → p' = p → p'.consumed = p.consumed ++ bytesOf r ∧
      (bytesOf r).length ≤ maxPayloadSize ∧ (p.atEnd = true → p'.atEnd = true) := by
    intro hr hp
    rw [hr, hp]
    exact ⟨(List.append_nil _).symm, Nat.zero_le _, id⟩
  unfold readFile at h
  split at h
  · -- a write of length zero
    split at h
    · rename_i rest heq
      cases h
      refine ⟨(List.append_nil _).symm, Nat.zero_le _, fun hat => ?_⟩
      rw [atEnd, heq] at hat
      cases hat
    · cases h
  · exact take_spec h
  · rename_i code data
    split at h
    · split at h
      · rename_i hcond
        simp only [Bool.and_eq_true, List.isEmpty_iff] at hcond
        exact hsame hcond.2 (Option.some.inj h).symm
      · cases h
    · split at h
      · exact take_spec h
      · split at h
        · rename_i hcond
          simp only [List.isEmpty_iff] at hcond
          exact hsame hcond.2 (Option.some.inj h).symm
        · cases h

/-- A read that the pump takes for a broken pipe has found the end and brings
nothing. -/
theorem readFile_broken {p p' : Pipe} {code : UInt32} {data : List UInt8}
    (h : p.readFile (.err code data) = some p')
    (hcode : hresultFromWin32 code = hresultFromWin32 errorBrokenPipe) :
    p.atEnd = true ∧ data = [] := by
  have hbroken : IsWin32Error errorBrokenPipe := by decide
  have hmore : IsWin32Error errorMoreData := by decide
  unfold readFile at h
  simp only at h
  split at h
  · split at h
    · rename_i hcond
      unfold atEnd
      simp only [Bool.and_eq_true, List.isEmpty_iff] at hcond ⊢
      exact hcond
    · cases h
  · rename_i hne
    split at h
    · rename_i heq
      rw [heq] at hcode
      exact absurd (hresultFromWin32_inj hmore hbroken hcode) (by decide)
    · split at h
      · rename_i hcond
        exact absurd (hresultFromWin32_inj hcond.1 hbroken hcode) hne
      · cases h

end Pipe

/-! ## Cancelling the token -/

/-- The call cancels the token in its next action. -/
def Call.cancels : Call → Bool
  | .cancelJob .cancelToken => true
  | .cleanupIdleJobs (.sweep (.cleanup .cancelToken)) => true
  | .forceCleanupAll (.cleanup .cancelToken) => true
  | _ => false

/-- The step cancels the token of a job that may have a process. -/
def cancels (j : Job) : Event → Bool
  | .call i _ => (j.calls[i]?).any Call.cancels
  | .monitor _ => j.monitor = .cancelToken
  | _ => false

theorem RunPc.step_token {a a' : JobHandle} {registered : Bool} {pc pc' : RunPc}
    {e : RunEvent} {eff : RunEffect}
    (h : pc.step a registered e = some (a', pc', eff)) :
    a'.cancellationToken = a.cancellationToken ∨ pc = .cleanup .cancelToken := by
  unfold RunPc.step at h
  split at h
  case h_5 | h_11 =>
    split at h
    · rename_i heq
      cases h
      obtain ⟨-, rfl⟩ := JobHandle.commit_of_transition heq
      exact .inl (by simp)
    · cases h
      exact .inl rfl
  case h_23 =>
    split at h
    · rename_i pc _ _ _ _ _ _ heq
      cases h
      cases pc with
      | cancelToken => exact .inr rfl
      | _ => cases heq <;> exact .inl rfl
    · cases h
  all_goals (try split at h) <;> cases h <;> first | exact .inl rfl | exact .inl (by simp)

theorem MonitorPc.step_token {a a' : JobHandle} {registered exited : Bool}
    {pc pc' : MonitorPc} {e : MonitorEvent} {hs : List HANDLE}
    (h : pc.step a registered exited e = some (a', pc', hs)) :
    a'.cancellationToken = a.cancellationToken ∨ pc = .cancelToken := by
  unfold MonitorPc.step at h
  split at h
  case h_8 =>
    cases h
    exact .inl (by simp)
  case h_9 => exact .inr rfl
  all_goals (try split at h) <;> (try split at h) <;> cases h <;> exact .inl rfl

theorem WatcherPc.step_token {a a' : JobHandle} {registered : Bool}
    {waiter waiter' : WaiterPc} {pc pc' : WatcherPc} {e : WatcherEvent}
    {fs : List Frame} (h : pc.step a registered waiter e = some (a', pc', waiter', fs)) :
    a'.cancellationToken = a.cancellationToken := by
  unfold WatcherPc.step at h
  split at h <;> (try split at h) <;> cases h <;> first | rfl | simp

theorem SweepPc.step_token {a a' : JobHandle} {registered registered' : Bool}
    {pc pc' : SweepPc} (h : pc.step a registered = some (a', registered', pc')) :
    a'.cancellationToken = a.cancellationToken ∨ pc = .cleanup .cancelToken := by
  cases pc with
  | collect =>
    cases h
    exact .inl rfl
  | cleanup pc =>
    cases pc with
    | cancelToken => exact .inr rfl
    | _ =>
      cases h
      exact .inl rfl
  | returned => cases h

theorem Call.step_token {a a' : JobHandle} {registered registered' : Bool}
    {last : SystemTime} {c c' : Call} {e : CallEvent}
    (h : c.step a registered last e = some (a', registered', c')) :
    a'.cancellationToken = a.cancellationToken ∨ c.cancels = true := by
  unfold Call.step at h
  split at h
  · simp only [Option.map_eq_some_iff] at h
    obtain ⟨⟨b, q⟩, hs, heq⟩ := h
    cases heq
    unfold ActivityPc.step at hs
    split at hs <;> cases hs <;> exact .inl rfl
  · simp only [Option.map_eq_some_iff] at h
    obtain ⟨⟨b, q⟩, hs, heq⟩ := h
    cases heq
    unfold CancelPc.step at hs
    split at hs
    case h_3 => exact .inr rfl
    case h_5 =>
      cases hs
      exact .inl (by simp)
    all_goals cases hs <;> exact .inl rfl
  · simp only [Option.map_eq_some_iff] at h
    obtain ⟨⟨b, r, q⟩, hs, heq⟩ := h
    cases heq
    unfold IdlePc.step at hs
    split at hs
    case h_7 =>
      simp only [Option.map_eq_some_iff] at hs
      obtain ⟨⟨b', r', q'⟩, hs', heq⟩ := hs
      cases heq
      rcases SweepPc.step_token hs' with h | rfl
      · exact .inl h
      · exact .inr rfl
    all_goals cases hs <;> exact .inl rfl
  · simp only [Option.map_eq_some_iff] at h
    obtain ⟨⟨b, r, q⟩, hs, heq⟩ := h
    cases heq
    rcases SweepPc.step_token hs with h | rfl
    · exact .inl h
    · exact .inr rfl
  · cases h

/-- The token changes only in a step that cancels it, or when `handle_run`
cleans up after a launch that failed. -/
theorem step_token {j j' : Job} {e : Event} (h : j.step e = some j') :
    j'.handle.cancellationToken = j.handle.cancellationToken ∨ j.cancels e = true ∨
      (∃ e', e = .run e') ∧ j.run = .cleanup .cancelToken := by
  cases e with
  | run e =>
    obtain ⟨a, pc, eff, hs, rfl⟩ := step_run h
    have hhandle := effect_handle { j with handle := a, run := pc } eff
    rw [settle_token, hhandle]
    rcases RunPc.step_token hs with hsame | hpc
    · exact .inl hsame
    · exact .inr (.inr ⟨⟨e, rfl⟩, hpc⟩)
  | pump o e =>
    obtain ⟨p, w, q, fs, -, -, rfl⟩ := step_pump h
    exact .inl (by simp)
  | monitor e =>
    obtain ⟨a, pc, hs, hm, rfl⟩ := step_monitor h
    rw [settle_token]
    rcases MonitorPc.step_token hm with hsame | hpc
    · exact .inl hsame
    · exact .inr (.inl (by simp [cancels, hpc]))
  | watcher e =>
    obtain ⟨a, pc, waiter, fs, hw, rfl⟩ := step_watcher h
    rw [settle_token]
    exact .inl (WatcherPc.step_token hw)
  | waiter e =>
    obtain ⟨pc, -, rfl⟩ := step_waiter h
    exact .inl (by simp)
  | begin op =>
    rw [step_begin h]
    exact .inl (by simp)
  | call i e =>
    obtain ⟨c, a, registered, c', hget, hs, rfl⟩ := step_call h
    rw [settle_token]
    rcases Call.step_token hs with hsame | hc
    · exact .inl hsame
    · exact .inr (.inl (by simp [cancels, hget, hc]))
  | os e =>
    left
    rcases step_os h with ⟨o, data, p, -, -, -, rfl⟩ | ⟨o, -, rfl⟩ | ⟨code, p, -, -, rfl⟩ |
      ⟨now, -, rfl⟩ <;> simp

/-! ## The invariant -/

/-- The pump has left its read loop. -/
def leftLoop (p : Pump) : Bool :=
  match p.pc with
  | .trySend true _ _ | .returned _ => true
  | _ => false

/-- The stream is read to its end, as far as it will be read. -/
def streamDone (j : Job) (o : Out) : Bool := leftLoop (j.pump o) || (j.pipe o).atEnd

/-- The token is cancelled only when both streams are done, and no read
succeeds with zero bytes. -/
def cancelsDrained (j : Job) (e : Event) : Bool :=
  match e with
  | .pump _ (.readDone (.ok [])) => false
  | e => !j.cancels e || (j.streamDone .stdout && j.streamDone .stderr)

/-- The bytes that the pump has read and not yet sent. -/
def pending (p : Pump) : List UInt8 :=
  match p.pc with
  | .trySend false f _ => f.payload
  | _ => []

/-- What is pending does not depend on where `try_send_frame` stands. -/
theorem pending_trySend {p p' : Pump} {last : Bool} {f : Frame} {pc pc' : SendPc}
    (h : p.pc = .trySend last f pc) (h' : p'.pc = .trySend last f pc') :
    pending p' = pending p := by
  unfold pending
  rw [h, h']
  cases last <;> rfl

/-- The bytes that the frames of a stream carry. -/
def payloads (o : Out) (fs : List Frame) : List UInt8 :=
  (stream o fs).flatMap Frame.payload

theorem payloads_append (o : Out) (fs gs : List Frame) :
    payloads o (fs ++ gs) = payloads o fs ++ payloads o gs := by
  unfold payloads
  rw [stream_append, List.flatMap_append]

/-- What the pumps have read is sent or about to be, and a pump that ends its
stream is at the end of its pipe. -/
structure Draining (j : Job) : Prop where
  token : j.handle.cancellationToken = true →
    (j.process = none ∧ j.run.errorSent = true) ∨ ∀ o, j.streamDone o = true
  sent : ∀ o, hasReturned (j.pump o) = false →
    payloads o j.sent ++ pending (j.pump o) = (j.pipe o).consumed
  ended : ∀ o f pc, (j.pump o).pc = .trySend true f pc → (j.pipe o).atEnd = true

theorem streamDone_of_cancels {j : Job} {e : Event} (hc : j.cancelsDrained e = true)
    (h : j.cancels e = true) (o : Out) : j.streamDone o = true := by
  unfold cancelsDrained at hc
  split at hc
  · cases hc
  · rw [h] at hc
    simp only [Bool.not_true, Bool.false_or, Bool.and_eq_true] at hc
    cases o
    · exact hc.1
    · exact hc.2

/-- A pump that has left its loop stays out of it. -/
theorem leftLoop_step {jobId : UInt32} {streamId : StreamId} {token : Bool}
    {w w' : StreamPump} {p p' : Pump} {e : PumpEvent} {fs : List Frame}
    (h : p.step jobId streamId token w e = some (w', p', fs)) (hp : leftLoop p = true) :
    leftLoop p' = true := by
  unfold leftLoop at hp
  split at hp
  · rename_i hpc
    cases Pump.step_move h <;> simp_all [leftLoop, Pump.afterSend]
  · rename_i hpc
    cases Pump.step_move h <;> simp_all
  · cases hp

/-- A pipe that is at its end stays so. -/
theorem atEnd_step {j j' : Job} {e : Event} (h : j.step e = some j') {o : Out}
    (hat : (j.pipe o).atEnd = true) : (j'.pipe o).atEnd = true := by
  cases e with
  | run e =>
    obtain ⟨a, pc, eff, hs, rfl⟩ := step_run h
    have hpipe := effect_pipe { j with handle := a, run := pc } eff
    rw [settle_pipe, hpipe]
    exact hat
  | pump o' e =>
    obtain ⟨p, w, q, fs, hp, hs, rfl⟩ := step_pump h
    rw [settle_pipe]
    show (Function.update j.pipe o' p o).atEnd = true
    by_cases heq : o = o'
    · subst heq
      rw [Function.update_self]
      unfold readPipe at hp
      split at hp
      · exact (Pipe.readFile_spec hp).2.2 hat
      · cases hp
      · cases hp
        exact hat
    · rw [Function.update_of_ne heq]
      exact hat
  | os e =>
    rcases step_os h with ⟨o', data, p, -, -, hw, rfl⟩ | ⟨o', -, rfl⟩ | ⟨code, p, -, -, rfl⟩ |
      ⟨now, -, rfl⟩ <;> rw [settle_pipe]
    · show (Function.update j.pipe o' p o).atEnd = true
      by_cases heq : o = o'
      · subst heq
        rw [(Pipe.write_spec hw).2] at hat
        cases hat
      · rw [Function.update_of_ne heq]
        exact hat
    · show (Function.update j.pipe o' _ o).atEnd = true
      by_cases heq : o = o'
      · subst heq
        rw [Function.update_self]
        unfold Pipe.atEnd at hat ⊢
        simp only [Bool.and_eq_true] at hat ⊢
        exact ⟨hat.1, rfl⟩
      · rw [Function.update_of_ne heq]
        exact hat
    · exact hat
    · exact hat
  | _ =>
    have hf := step_frame h (by simp)
    rw [hf.pipe (by simp) (by simp)]
    exact hat

theorem streamDone_step {j j' : Job} {e : Event} (hst : j.Staged) (h : j.step e = some j')
    {o : Out} (hd : j.streamDone o = true) : j'.streamDone o = true := by
  have hcases : leftLoop (j.pump o) = true ∨ (j.pipe o).atEnd = true := by
    simpa [streamDone] using hd
  have hgoal : leftLoop (j'.pump o) = true ∨ (j'.pipe o).atEnd = true →
      j'.streamDone o = true := by
    intro hor
    simpa [streamDone] using hor
  apply hgoal
  rcases hcases with hl | hat
  · left
    cases e with
    | run e =>
      obtain ⟨a, pc, eff, hs, rfl⟩ := step_run h
      rw [settle_pump]
      rw [effect_pump]
      · exact hl
      · intro hspawn
        rw [hst.pumps o (.inl ((RunPc.step_follows hs).spawnPump o hspawn))] at hl
        cases hl
    | pump o' e =>
      obtain ⟨p, w, q, fs, hp, hs, rfl⟩ := step_pump h
      rw [settle_pump]
      show leftLoop (Function.update j.pump o' q o) = true
      by_cases heq : o = o'
      · subst heq
        rw [Function.update_self]
        exact leftLoop_step hs hl
      · rw [Function.update_of_ne heq]
        exact hl
    | _ =>
      rw [(step_frame h (by simp)).pump (by simp)]
      exact hl
  · exact .inr (atEnd_step h hat)

theorem Draining.token_step {j j' : Job} {e : Event} (hst : j.Staged) (hj : j.Draining)
    (hc : j.cancelsDrained e = true) (h : j.step e = some j') :
    j'.handle.cancellationToken = true →
      (j'.process = none ∧ j'.run.errorSent = true) ∨ ∀ o, j'.streamDone o = true := by
  intro ht
  have hfailed : j.process = none ∧ j.run.errorSent = true →
      j'.process = none ∧ j'.run.errorSent = true := by
    rintro ⟨hp, hr⟩
    constructor
    · by_contra hne
      have hsome : j'.process.isSome = true := Option.isSome_iff_ne_none.mpr hne
      rcases step_process_isSome h hsome with hp' | hl
      · rw [hp] at hp'
        cases hp'
      · rw [hl] at hr
        cases hr
    · rcases e.run_or_ne with ⟨e', rfl⟩ | hne
      · obtain ⟨a, pc, eff, hs, rfl⟩ := step_run h
        have hpc := effect_run { j with handle := a, run := pc } eff
        rw [settle_run, hpc]
        exact (RunPc.step_frames hs).2.2.2 hr
      · rw [(step_frame h hne).run]
        exact hr
  rcases step_token h with hsame | hcan | ⟨hrun, hpc⟩
  · rw [hsame] at ht
    rcases hj.token ht with hf | hd
    · exact .inl (hfailed hf)
    · exact .inr fun o => streamDone_step hst h (hd o)
  · exact .inr fun o => streamDone_step hst h (streamDone_of_cancels hc hcan o)
  · left
    exact hfailed ⟨hst.unlaunched (by rw [hpc]; rfl), by rw [hpc]; rfl⟩

/-- A frame that goes out for another task than the pump of the stream carries
nothing for the stream. -/
theorem payloads_of_sends {j : Job} {e : Event} {fs : List Frame} (hsp : j.Speaking)
    (h : Sends j e fs) {o : Out} (hne : e ≠ .pump o .sent) : payloads o fs = [] := by
  unfold payloads
  rw [stream_of_sends hsp h hne]
  rfl

theorem payloads_singleton {jobId : UInt32} {o : Out} {f : Frame}
    (hf : OfStream jobId o.streamId f) : payloads o [f] = f.payload := by
  unfold payloads
  rw [stream_singleton hf, if_pos rfl]
  exact List.append_nil _

/-- What a read brings is pending after it, unless the pump returns. -/
theorem pending_read {jobId : UInt32} {streamId : StreamId} {p p' : Pump}
    {pipe pipe' : Pipe} {r : ReadOutcome} (hr : pipe.readFile r = some pipe')
    (hm : ReadMove jobId streamId p r p') (hret : hasReturned p' = false) :
    pending p' = bytesOf r := by
  cases hm with
  | error code data e => cases hret
  | eof r heof =>
    rcases heof with rfl | ⟨code, data, rfl, hcode⟩
    · rfl
    · exact (Pipe.readFile_broken hr hcode).2.symm
  | nothing code => rfl
  | data r data hne hdata =>
    rcases hdata with rfl | ⟨code, rfl, -⟩ <;> rfl

/-- A step of the pump carries what it has read on to the frames. -/
theorem Draining.sent_pump {j : Job} {o : Out} {e : PumpEvent} {p : Pipe}
    {w : StreamPump} {q : Pump} {fs : List Frame} (hsp : j.Speaking) (hj : j.Draining)
    (hp : readPipe (j.pipe o) e = some p)
    (hs : (j.pump o).step j.handle.jobId o.streamId j.handle.cancellationToken j.window e =
      some (w, q, fs)) (hret : hasReturned q = false) :
    payloads o (j.sent ++ fs) ++ pending q = p.consumed := by
  have hsent : hasReturned (j.pump o) = false →
      payloads o j.sent ++ pending (j.pump o) = (j.pipe o).consumed := hj.sent o
  have hat := (hsp.pumps o).at_pc
  cases Pump.step_move hs with
  | read r q hpc hm =>
    obtain ⟨hconsumed, -⟩ := Pipe.readFile_spec hp
    rw [pending_read hp hm hret, hconsumed, ← hsent (by simp [hasReturned, hpc]),
      List.append_nil]
    simp [pending, hpc]
  | send last f hpc =>
    cases hp
    cases last with
    | true => cases hret
    | false =>
      rw [payloads_append, payloads_singleton (hat.frame hpc).1,
        ← hsent (by simp [hasReturned, hpc])]
      simp [pending, hpc, Pump.afterSend]
  | refused last f hpc => cases hret
  | drop last f inFlight hpc hd =>
    rw [hsp.window] at hd
    cases hd
  | notified last f hpc => cases hp
  | cancelled hpc ht | goOn hpc ht =>
    cases hp
    rw [List.append_nil, ← hsent (by simp [hasReturned, hpc])]
    simp [pending, Pump.finish, hpc]
  | load last f hpc | pass last f inFlight hpc hg | block last f inFlight hpc
  | reserve last f hpc =>
    cases hp
    rw [List.append_nil, ← hsent (by simp [hasReturned, hpc]), pending_trySend hpc rfl]

theorem Draining.sent_step {j j' : Job} {e : Event} (hst : j.Staged) (hsp : j.Speaking)
    (hj : j.Draining) (h : j.step e = some j') {o : Out}
    (hret : hasReturned (j'.pump o) = false) :
    payloads o j'.sent ++ pending (j'.pump o) = (j'.pipe o).consumed := by
  obtain ⟨fs, hsends, hsent⟩ := step_sends h
  -- a step that is not one of this stream's pump
  have hother : e ≠ .pump o .sent → hasReturned (j.pump o) = false →
      pending (j'.pump o) = pending (j.pump o) →
      (j'.pipe o).consumed = (j.pipe o).consumed →
      payloads o j'.sent ++ pending (j'.pump o) = (j'.pipe o).consumed := by
    intro hne hret hpend hcons
    rw [hsent, payloads_append, payloads_of_sends hsp hsends hne, List.append_nil, hpend,
      hcons]
    exact hj.sent o hret
  cases e with
  | run e =>
    obtain ⟨a, pc, eff, hs, rfl⟩ := step_run h
    have hpipe := effect_pipe { j with handle := a, run := pc } eff
    have hcons : ((settle (effect { j with handle := a, run := pc } eff)).pipe o).consumed =
        (j.pipe o).consumed := by rw [settle_pipe, hpipe]
    by_cases hspawn : eff = .spawnPump o
    · have hfresh := hst.pumps o (.inl ((RunPc.step_follows hs).spawnPump o hspawn))
      refine hother (by simp) (by rw [hfresh]; rfl) ?_ hcons
      rw [settle_pump, hspawn, hfresh]
      simp [effect, pending, Pump.fresh]
    · rw [settle_pump, effect_pump _ hspawn] at hret
      refine hother (by simp) hret ?_ hcons
      rw [settle_pump, effect_pump _ hspawn]
  | pump o' e =>
    obtain ⟨p, w, q, fs', hp, hs, rfl⟩ := step_pump h
    by_cases heq : o = o'
    · subst heq
      simp only [settle_pump, settle_pipe, settle_sent, Function.update_self] at hret ⊢
      exact hj.sent_pump hsp hp hs hret
    · simp only [settle_pump, Function.update_of_ne heq] at hret
      refine hother ?_ hret ?_ ?_
      · rintro ⟨⟩
        exact heq rfl
      · simp only [settle_pump, Function.update_of_ne heq]
      · simp only [settle_pipe, Function.update_of_ne heq]
  | os e =>
    have hpump := (step_frame h (by simp)).pump (by simp)
    rw [hpump] at hret
    refine hother (by simp) hret (by rw [hpump]) ?_
    rcases step_os h with ⟨o', data, p, -, -, hw, rfl⟩ | ⟨o', -, rfl⟩ | ⟨code, p, -, -, rfl⟩ |
      ⟨now, -, rfl⟩ <;> rw [settle_pipe]
    · show (Function.update j.pipe o' p o).consumed = _
      by_cases heq : o = o'
      · subst heq
        rw [Function.update_self]
        exact (Pipe.write_spec hw).1
      · rw [Function.update_of_ne heq]
    · show (Function.update j.pipe o' _ o).consumed = _
      by_cases heq : o = o'
      · subst heq
        rw [Function.update_self]
      · rw [Function.update_of_ne heq]
  | _ =>
    have hf := step_frame h (by simp)
    have hpump := hf.pump (by simp)
    rw [hpump] at hret
    exact hother (by simp) hret (by rw [hpump]) (by rw [hf.pipe (by simp) (by simp)])

/-- A pump that leaves its loop does so at the end of its pipe. -/
theorem Draining.ended_pump {j : Job} {o : Out} {e : PumpEvent} {p : Pipe}
    {w : StreamPump} {q : Pump} {fs : List Frame} (hst : j.Staged) (hj : j.Draining)
    (hc : j.cancelsDrained (.pump o e) = true) (hp : readPipe (j.pipe o) e = some p)
    (hs : (j.pump o).step j.handle.jobId o.streamId j.handle.cancellationToken j.window e =
      some (w, q, fs)) {f : Frame} {pc : SendPc} (hq : q.pc = .trySend true f pc) :
    (j.pipe o).atEnd = true := by
  cases Pump.step_move hs with
  | cancelled hpc ht =>
    rcases hj.token ht with ⟨hnone, -⟩ | hdone
    · have hsome := (hst.pump_up hs).2
      rw [hnone] at hsome
      cases hsome
    · simpa [streamDone, leftLoop, hpc] using hdone o
  | goOn hpc ht => cases hq
  | read r q hpc hm =>
    cases hm with
    | eof r heof =>
      rcases heof with rfl | ⟨code, data, rfl, hcode⟩
      · cases hc
      · exact (Pipe.readFile_broken hp hcode).1
    | _ => cases hq
  | load last g hpc | pass last g inFlight hpc hg | block last g inFlight hpc
  | reserve last g hpc | notified last g hpc =>
    cases hq
    exact hj.ended o _ _ hpc
  | drop last g inFlight hpc hd | send last g hpc =>
    cases last <;> cases hq
  | refused last g hpc => cases hq

theorem Draining.ended_step {j j' : Job} {e : Event} (hst : j.Staged) (hj : j.Draining)
    (hc : j.cancelsDrained e = true) (h : j.step e = some j') {o : Out} {f : Frame}
    {pc : SendPc} (hpc : (j'.pump o).pc = .trySend true f pc) :
    (j'.pipe o).atEnd = true := by
  apply atEnd_step h
  cases e with
  | run e =>
    obtain ⟨a, pc', eff, hs, rfl⟩ := step_run h
    rw [settle_pump] at hpc
    by_cases hspawn : eff = .spawnPump o
    · rw [hspawn] at hpc
      simp [effect] at hpc
    · rw [effect_pump _ hspawn] at hpc
      exact hj.ended o f pc hpc
  | pump o' e =>
    obtain ⟨p, w, q, fs, hp, hs, rfl⟩ := step_pump h
    rw [settle_pump] at hpc
    by_cases heq : o = o'
    · subst heq
      simp only [Function.update_self] at hpc
      exact hj.ended_pump hst hc hp hs hpc
    · simp only [Function.update_of_ne heq] at hpc
      exact hj.ended o f pc hpc
  | _ =>
    rw [(step_frame h (by simp)).pump (by simp)] at hpc
    exact hj.ended o f pc hpc

theorem draining_create (jobId : UInt32) (timeout : Option Duration)
    (now last : SystemTime) : (create jobId timeout now last).Draining where
  token := fun h => by cases h
  sent := fun _ _ => rfl
  ended := fun _ _ _ h => by cases h

theorem draining_reachable {j : Job}
    (h : machine.Reach (fun j e => j.cancelsDrained e = true) j) : j.Draining := by
  refine h.invariant_of (J := fun j => j.Staged ∧ j.Speaking)
    (fun _ hr => ⟨staged_reachable hr, speaking_reachable hr⟩) ?_ ?_
  · rintro _ ⟨jobId, timeout, now, last, rfl⟩
    exact draining_create jobId timeout now last
  · intro s e u hJ hs hc hstep
    exact ⟨hs.token_step hJ.1 hc hstep, fun o => hs.sent_step hJ.1 hJ.2 hstep,
      fun o f pc => hs.ended_step hJ.1 hc hstep⟩

/-! ## What the end of a stream promises -/

/-- The step ends a stream: it sends the frame with the end-of-stream flag. -/
def EndsStream (j j' : Job) (o : Out) : Prop :=
  ∃ f, j'.sent = j.sent ++ [f] ∧ f.frameType = .output ∧ f.streamId = o.streamId ∧
    f.hasFlag flagEos = true

/-- When a stream ends, the frames before its end carry exactly what was written
to it. -/
def EosComplete (j j' : Job) : Prop :=
  ∀ o, EndsStream j j' o → payloads o j.sent = (j'.pipe o).written

/-- In every run in which the token is cancelled only when both streams are done
and no read returns zero bytes, a stream that ends is complete, and nobody can
write to it any more. -/
theorem eos_complete {j j' : Job} {e : Event}
    (h : machine.Reach (fun j e => j.cancelsDrained e = true) j)
    (hstep : j.step e = some j') :
    EosComplete j j' ∧ ∀ o, EndsStream j j' o → (j'.pipe o).writersOpen = false := by
  have hdrain := draining_reachable h
  have hsp := speaking_reachable h
  -- the step is one of this stream's pump, with its last frame
  have hends : ∀ o, EndsStream j j' o → ∃ f, (j.pump o).pc = .trySend true f .send ∧
      e = .pump o .sent := by
    rintro o ⟨f, hsent, htype, hstream, hflag⟩
    obtain ⟨fs, hsends, hsent'⟩ := step_sends hstep
    obtain rfl : [f] = fs := List.append_cancel_left (hsent.symm.trans hsent')
    cases hsends with
    | runAck hpc | error msg hpc | exit code hpc => exact absurd htype (by simp)
    | output o' last f hpc =>
      obtain ⟨⟨-, hid, -⟩, -, hlast, -⟩ := (hsp.pumps o').at_pc.frame hpc
      rw [hlast] at hflag
      obtain rfl : o = o' := by
        rw [hstream] at hid
        cases o <;> cases o' <;> first | rfl | cases hid
      exact ⟨f, by rw [hflag] at hpc; exact hpc, rfl⟩
  have hpipe : ∀ o, e = .pump o .sent → j'.pipe o = j.pipe o := by
    rintro o rfl
    obtain ⟨p, w, q, fs, hp, -, rfl⟩ := step_pump hstep
    cases hp
    simp
  refine ⟨fun o ho => ?_, fun o ho => ?_⟩
  · obtain ⟨f, hpc, he⟩ := hends o ho
    have hsent := hdrain.sent o (by simp [hasReturned, hpc])
    rw [hpipe o he, Pipe.written_of_atEnd (hdrain.ended o f _ hpc), ← hsent]
    simp [pending, hpc]
  · obtain ⟨f, hpc, he⟩ := hends o ho
    have hat := hdrain.ended o f _ hpc
    rw [hpipe o he]
    simp only [Pipe.atEnd, Bool.and_eq_true, Bool.not_eq_true'] at hat
    exact hat.2

/-- A pump that stands before the send of its last frame can end its stream. -/
theorem exists_step_endsStream {j : Job} {o : Out} {jobId sequence : UInt32}
    (hpc : (j.pump o).pc = .trySend true (eosFrame jobId o.streamId sequence) .send) :
    ∃ j', j.step (.pump o .sent) = some j' ∧ EndsStream j j' o ∧ j'.pipe = j.pipe := by
  have hstep : j.step (.pump o .sent) = some (settle { j with
      pump := Function.update j.pump o ((j.pump o).afterSend true)
      sent := j.sent ++ [eosFrame jobId o.streamId sequence] }) := by
    simp [Job.step, act, readPipe, refuses, Pump.step, hpc]
  refine ⟨_, hstep, ⟨eosFrame jobId o.streamId sequence, ?_, rfl, rfl, ?_⟩, ?_⟩
  · exact settle_sent _
  · exact eosFrame_hasFlag ..
  · exact settle_pipe _

/-- The process writes two bytes and exits, and its stdout is read to the end. -/
theorem eos_complete_drained :
    ∃ j j', machine.Reach (fun j e => j.cancelsDrained e = true) j ∧
      j.step (.pump .stdout .sent) = some j' ∧ EndsStream j j' .stdout ∧
      payloads .stdout j.sent = [104, 105] ∧ EosComplete j j' := by
  obtain ⟨j, hr, hp⟩ := StepMachine.reach_of_runIf machine
    (fun j e => j.cancelsDrained e = true) ⟨1, none, 0, 0, rfl⟩
    (launchEvents 0 ++
      [.os (.write .stdout [104, 105]), .os (.exit 0), .os (.closeWriters .stdout)] ++
      pumpEvents .stdout (.ok [104, 105]) ++
      (pumpEvents .stdout (.err errorBrokenPipe [])).dropLast)
    (fun j => (j.pump .stdout).pc = .trySend true (eosFrame 1 .stdout 1) .send &&
      payloads .stdout j.sent = [104, 105])
    (by decide +kernel)
  obtain ⟨hpc, hsent⟩ :
      (j.pump .stdout).pc = .trySend true (eosFrame 1 .stdout 1) .send ∧
        payloads .stdout j.sent = [104, 105] := by simpa using hp
  obtain ⟨j', hstep, hends, -⟩ := exists_step_endsStream hpc
  exact ⟨j, j', hr, hstep, hends, hsent, (eos_complete hr hstep).1⟩

/-- The client does not cancel the job, its timeout does not elapse, its session
stays connected and the service is not stopped. -/
def leftAlone (j : Job) : Event → Bool
  | .run .closed | .pump _ .closed | .watcher .closed => false
  | .begin .cleanupIdleJobs => true
  | e => j.undisturbed e

/-- A job of 200 seconds writes a byte, which is read and sent, and another one,
and exits.  The watcher completes the job, and a `cleanup_idle_jobs` of that
moment comes before the pump's next look at the token. -/
def completeThenCleanUp : List Event :=
  launchEvents 0 ++ [.os (.write .stdout [104])] ++ pumpEvents .stdout (.ok [104]) ++
    [.os (.write .stdout [105]), .os (.exit 0), .os (.closeWriters .stdout),
      .os (.closeWriters .stderr)] ++
    exitEvents 200000000000 ++
    [.watcher .sent, .watcher (.step 200000000000), .watcher (.step 200000000000),
      .begin .cleanupIdleJobs] ++
    List.replicate 7 (.call 0 (.step 200000000000)) ++
    List.replicate 4 (.pump .stdout .step)

/-- A completed job that was left alone ends its stdout without the last byte
that the process wrote. -/
theorem eos_with_loss :
    ∃ j j', machine.Reach (fun j e => j.leftAlone e = true) j ∧
      j.handle.state = .completed ∧ j.step (.pump .stdout .sent) = some j' ∧
      EndsStream j j' .stdout ∧ payloads .stdout j.sent = [104] ∧
      (j'.pipe .stdout).written = [104, 105] ∧ ¬ EosComplete j j' := by
  obtain ⟨j, hr, hp⟩ := StepMachine.reach_of_runIf machine
    (fun j e => j.leftAlone e = true) ⟨1, none, 0, 0, rfl⟩ completeThenCleanUp
    (fun j => j.handle.state = .completed &&
      (j.pump .stdout).pc = .trySend true (eosFrame 1 .stdout 1) .send &&
      payloads .stdout j.sent = [104] && (j.pipe .stdout).written = [104, 105])
    (by decide +kernel)
  obtain ⟨⟨⟨hstate, hpc⟩, hsent⟩, hwritten⟩ :
      ((j.handle.state = .completed ∧
        (j.pump .stdout).pc = .trySend true (eosFrame 1 .stdout 1) .send) ∧
        payloads .stdout j.sent = [104]) ∧ (j.pipe .stdout).written = [104, 105] := by
    simpa using hp
  obtain ⟨j', hstep, hends, hpipe⟩ := exists_step_endsStream hpc
  have hwritten' : (j'.pipe .stdout).written = [104, 105] := by rw [hpipe]; exact hwritten
  refine ⟨j, j', hr, hstate, hstep, hends, hsent, hwritten', ?_⟩
  intro hcomplete
  have heq := hcomplete .stdout hends
  rw [hsent, hwritten'] at heq
  exact absurd heq (by decide)

end RemoteAgent.Job
