import RemoteAgent.Job.Machine

/-!
# The frames of one job

What the tasks of a job put on the session's channel, and what the sequence of
these frames looks like in every reachable state of the job.

* `Sends` says once which frame a step of the machine can send (`step_sends`).
* `Transcript` is the shape of a job's frames: RUN_ACK first and only once, at
  most one of EXIT and ERROR, and on each stream OUTPUT frames that are numbered
  from zero and end at the frame with the end-of-stream flag.
* `Speaking` is the invariant behind it.  It ties the position of each task to
  the frames that are already out, and `transcript_reachable` reads the
  transcript off it.
-/

namespace RemoteAgent.Job

open CodeLib Protocol IoPump
open JobManager (SystemTime Duration HANDLE JobState JobHandle)

@[simp] theorem runAckFrame_frameType (jobId : UInt32) :
    (runAckFrame jobId).frameType = .runAck := rfl

@[simp] theorem errorFrame_frameType (jobId : UInt32) (msg : String) :
    (errorFrame jobId msg).frameType = .error := rfl

@[simp] theorem exitFrame_frameType (jobId : UInt32) (code : Int32) :
    (exitFrame jobId code).frameType = .exit := rfl

/-! ## What a step sends -/

/-- The frames that a step can send. -/
inductive Sends (j : Job) : Event → List Frame → Prop where
  | nothing (e : Event) : Sends j e []
  | runAck (h : j.run = .sendAck) : Sends j (.run .sent) [runAckFrame j.handle.jobId]
  | error (msg : String) (h : j.run = .sendError msg) :
    Sends j (.run .sent) [errorFrame j.handle.jobId msg]
  | output (o : Out) (last : Bool) (f : Frame)
    (h : (j.pump o).pc = .trySend last f .send) : Sends j (.pump o .sent) [f]
  | exit (code : Int32) (h : j.watcher = .sendExit code) :
    Sends j (.watcher .sent) [exitFrame j.handle.jobId code]

theorem RunPc.step_send {a a' : JobHandle} {registered : Bool} {pc pc' : RunPc}
    {e : RunEvent} {f : Frame} (h : pc.step a registered e = some (a', pc', .send f)) :
    e = .sent ∧ a' = a ∧
      (pc = .sendAck ∧ pc' = .toStarting .getJob ∧ f = runAckFrame a.jobId ∨
        ∃ msg, pc = .sendError msg ∧ pc' = .cleanup .getJob ∧
          f = errorFrame a.jobId msg) := by
  unfold RunPc.step at h
  split at h <;> (try split at h) <;> cases h
  · exact ⟨rfl, rfl, .inl ⟨rfl, rfl, rfl⟩⟩
  · rename_i msg
    exact ⟨rfl, rfl, .inr ⟨msg, rfl, rfl, rfl⟩⟩

theorem effect_sent (j : Job) (eff : RunEffect) :
    (∃ f, eff = .send f ∧ (j.effect eff).sent = j.sent ++ [f]) ∨
      (∀ f, eff ≠ .send f) ∧ (j.effect eff).sent = j.sent := by
  cases eff with
  | send f => exact .inl ⟨f, rfl, rfl⟩
  | _ => exact .inr ⟨fun f h => (by cases h), rfl⟩

theorem WatcherPc.step_sent {a a' : JobHandle} {registered : Bool}
    {waiter waiter' : WaiterPc} {pc pc' : WatcherPc} {e : WatcherEvent}
    {fs : List Frame} (h : pc.step a registered waiter e = some (a', pc', waiter', fs)) :
    fs = [] ∨ ∃ code, pc = .sendExit code ∧ e = .sent ∧ pc' = .toCompleted .getJob ∧
      fs = [exitFrame a.jobId code] := by
  unfold WatcherPc.step at h
  split at h <;> (try split at h) <;> cases h
  case h_8 code => exact .inr ⟨code, rfl, rfl, rfl, rfl⟩
  all_goals exact .inl rfl

/-- A step appends what it sends to the frames of the job. -/
theorem step_sends {j j' : Job} {e : Event} (h : j.step e = some j') :
    ∃ fs, Sends j e fs ∧ j'.sent = j.sent ++ fs := by
  cases e with
  | run e =>
    obtain ⟨a, pc, eff, hs, rfl⟩ := step_run h
    rw [settle_sent]
    rcases effect_sent { j with handle := a, run := pc } eff with ⟨f, rfl, heq⟩ | ⟨-, heq⟩
    · rw [heq]
      obtain ⟨rfl, -, ⟨hpc, -, rfl⟩ | ⟨msg, hpc, -, rfl⟩⟩ := RunPc.step_send hs
      · exact ⟨_, .runAck hpc, rfl⟩
      · exact ⟨_, .error msg hpc, rfl⟩
    · rw [heq]
      exact ⟨[], .nothing _, (List.append_nil _).symm⟩
  | pump o e =>
    obtain ⟨p, w, q, fs, -, hs, rfl⟩ := step_pump h
    refine ⟨fs, ?_, by rw [settle_sent]⟩
    cases Pump.step_move hs with
    | send last f hpc => exact .output o last f hpc
    | _ => exact .nothing _
  | monitor e =>
    obtain ⟨a, pc, hs, -, rfl⟩ := step_monitor h
    exact ⟨[], .nothing _, by simp⟩
  | watcher e =>
    obtain ⟨a, pc, waiter, fs, hw, rfl⟩ := step_watcher h
    refine ⟨fs, ?_, by rw [settle_sent]⟩
    rcases WatcherPc.step_sent hw with rfl | ⟨code, hpc, rfl, -, rfl⟩
    · exact .nothing _
    · exact .exit code hpc
  | waiter e =>
    obtain ⟨pc, -, rfl⟩ := step_waiter h
    exact ⟨[], .nothing _, by simp⟩
  | begin op =>
    rw [step_begin h]
    exact ⟨[], .nothing _, by simp⟩
  | call i e =>
    obtain ⟨c, a, registered, c', -, -, rfl⟩ := step_call h
    exact ⟨[], .nothing _, by simp⟩
  | os e =>
    refine ⟨[], .nothing _, ?_⟩
    rcases step_os h with ⟨o, data, p, -, -, -, rfl⟩ | ⟨o, -, rfl⟩ | ⟨code, p, -, -, rfl⟩ |
      ⟨now, -, rfl⟩ <;> simp

/-! ## The transcript of a job -/

/-- The OUTPUT frames of one stream. -/
def stream (o : Out) (fs : List Frame) : List Frame :=
  fs.filter fun f => f.frameType = .output && f.streamId = o.streamId

def exits (fs : List Frame) : Nat := fs.countP fun f => f.frameType = .exit

def errors (fs : List Frame) : Nat := fs.countP fun f => f.frameType = .error

/-- The frames of a job, as a client may rely on them. -/
structure Transcript (jobId : UInt32) (fs : List Frame) : Prop where
  ack : fs = [] ∨
    ∃ rest, fs = runAckFrame jobId :: rest ∧ ∀ f ∈ rest, f.frameType ≠ .runAck
  ending : exits fs + errors fs ≤ 1
  numbered : ∀ o, Numbered (stream o fs)
  endsLast : ∀ o, EndsLast (stream o fs)

theorem stream_append (o : Out) (fs gs : List Frame) :
    stream o (fs ++ gs) = stream o fs ++ stream o gs := List.filter_append ..

theorem exits_append (fs gs : List Frame) : exits (fs ++ gs) = exits fs + exits gs :=
  List.countP_append

theorem errors_append (fs gs : List Frame) :
    errors (fs ++ gs) = errors fs + errors gs := List.countP_append

/-- A frame of one stream does not count for the other. -/
theorem stream_singleton {jobId : UInt32} {o : Out} {f : Frame}
    (hf : OfStream jobId o.streamId f) (o' : Out) :
    stream o' [f] = if o' = o then [f] else [] := by
  obtain ⟨ht, hs, -⟩ := hf
  cases o <;> cases o' <;> simp [stream, ht, hs, Out.streamId]

/-- A frame that is not OUTPUT is on no stream. -/
theorem stream_eq_nil {f : Frame} (hf : f.frameType ≠ .output) (o : Out) :
    stream o [f] = [] := by
  simp [stream, hf]

theorem stream_of_ofStream {jobId : UInt32} {o : Out} {fs : List Frame}
    (h : ∀ f ∈ fs, OfStream jobId o.streamId f) (o' : Out) :
    stream o' fs = if o' = o then fs else [] := by
  induction fs with
  | nil => simp [stream]
  | cons f fs ih =>
    rw [List.forall_mem_cons] at h
    have happend := stream_append o' [f] fs
    rw [stream_singleton h.1, ih h.2] at happend
    by_cases ho : o' = o
    · simpa [ho] using happend
    · simpa [ho] using happend

/-! ## The invariant -/

/-- `handle_run` has not sent RUN_ACK. -/
def RunPc.acking : RunPc → Bool
  | .inserted | .sendAck => true
  | _ => false

/-- `handle_run` may have sent ERROR. -/
def RunPc.errorSent : RunPc → Bool
  | .cleanup _ | .returned _ => true
  | _ => false

/-- The watcher may have sent EXIT. -/
def WatcherPc.exitSent : WatcherPc → Bool
  | .toCompleted _ | .returned => true
  | _ => false

/-- Whether EXIT or ERROR may be out. -/
def ended (j : Job) : Bool :=
  if j.process.isSome then j.watcher.exitSent else j.run.errorSent

/-- What an action of `handle_run` means for the frames that are out. -/
theorem RunPc.step_frames {a a' : JobHandle} {registered : Bool} {pc pc' : RunPc}
    {e : RunEvent} {eff : RunEffect}
    (h : pc.step a registered e = some (a', pc', eff)) :
    a'.jobId = a.jobId ∧ (pc'.acking = true → pc.acking = true) ∧
      (pc.acking = true → pc'.acking = false → pc'.watcherUp = true ∨ ∃ f, eff = .send f) ∧
      (pc.errorSent = true → pc'.errorSent = true) := by
  unfold RunPc.step at h
  split at h
  case h_5 | h_11 =>
    split at h
    · rename_i a'' heq
      cases h
      obtain ⟨-, rfl⟩ := JobHandle.commit_of_transition heq
      simp [RunPc.acking, RunPc.errorSent]
    · cases h
      simp [RunPc.acking, RunPc.errorSent]
  case h_23 =>
    split at h
    · rename_i heq
      cases h
      exact ⟨(CleanupPc.step_update heq).keeps.1, by simp [RunPc.acking],
        by simp [RunPc.acking], by simp [RunPc.errorSent]⟩
    · cases h
  all_goals (try split at h) <;> cases h <;>
    simp [RunPc.acking, RunPc.errorSent, RunPc.watcherUp, JobHandle.touch]

theorem step_jobId {j j' : Job} {e : Event} (h : j.step e = some j') :
    j'.handle.jobId = j.handle.jobId := by
  cases e with
  | run e =>
    obtain ⟨a, pc, eff, hs, rfl⟩ := step_run h
    have hhandle := effect_handle { j with handle := a, run := pc } eff
    rw [settle_jobId, hhandle]
    exact (RunPc.step_frames hs).1
  | pump o e =>
    obtain ⟨p, w, q, fs, -, -, rfl⟩ := step_pump h
    rw [settle_jobId]
  | monitor e =>
    obtain ⟨a, pc, hs, hm, rfl⟩ := step_monitor h
    rw [settle_jobId]
    exact (MonitorPc.step_update hm).keeps.1
  | watcher e =>
    obtain ⟨a, pc, waiter, fs, hw, rfl⟩ := step_watcher h
    rw [settle_jobId]
    exact (WatcherPc.step_update hw).keeps.1
  | waiter e =>
    obtain ⟨pc, -, rfl⟩ := step_waiter h
    rw [settle_jobId]
  | begin op =>
    rw [step_begin h, settle_jobId]
  | call i e =>
    obtain ⟨c, a, registered, c', -, hc, rfl⟩ := step_call h
    rw [settle_jobId]
    exact (Call.step_update hc).keeps.1
  | os e =>
    rcases step_os h with ⟨o, data, p, -, -, -, rfl⟩ | ⟨o, -, rfl⟩ | ⟨code, p, -, -, rfl⟩ |
      ⟨now, -, rfl⟩ <;> rw [settle_jobId]

/-- The positions of the tasks against the frames that are out. -/
structure Speaking (j : Job) : Prop where
  jobId : ∀ f ∈ j.sent, f.jobId = j.handle.jobId
  acking : j.run.acking = true → j.sent = []
  acked : j.run.acking = false → j.run.watcherUp = false ∨ j.process.isSome → j.sent ≠ []
  ack : j.sent = [] ∨ ∃ rest, j.sent = runAckFrame j.handle.jobId :: rest ∧
    ∀ f ∈ rest, f.frameType ≠ .runAck
  ending : exits j.sent + errors j.sent ≤ if j.ended then 1 else 0
  pumps : ∀ o, (j.pump o).Sound j.handle.jobId o.streamId (stream o j.sent)
  window : j.window.dropPolicy = false

theorem speaking_create (jobId : UInt32) (timeout : Option Duration)
    (now last : SystemTime) : (create jobId timeout now last).Speaking where
  jobId := fun _ h => absurd h List.not_mem_nil
  acking := fun _ => rfl
  acked := fun h => by cases h
  ack := .inl rfl
  ending := Nat.le_refl 0
  pumps := fun o => Pump.sound_fresh jobId o.streamId
  window := rfl

/-- What has ended stays ended, so the bound only grows. -/
theorem Speaking.ending_mono {j : Job} (hj : j.Speaking) {b : Bool}
    (hended : j.ended = true → b = true) :
    exits j.sent + errors j.sent ≤ if b then 1 else 0 := by
  have hend := hj.ending
  cases he : j.ended with
  | true =>
    rw [he] at hend
    rw [hended he]
    exact hend
  | false =>
    rw [he] at hend
    exact Nat.le_trans hend (Nat.zero_le _)

theorem Speaking.congr {j j' : Job} (hj : j.Speaking)
    (hid : j'.handle.jobId = j.handle.jobId) (hsent : j'.sent = j.sent)
    (hrun : j'.run = j.run) (hprocess : j'.process.isSome = j.process.isSome)
    (hended : j.ended = true → j'.ended = true) (hpump : j'.pump = j.pump)
    (hwindow : j'.window = j.window) : j'.Speaking := by
  have hending := hj.ending_mono hended
  obtain ⟨h1, h2, h3, h4, -, h6, h7⟩ := hj
  refine ⟨?_, ?_, ?_, ?_, ?_, ?_, ?_⟩
  · rwa [hsent, hid]
  · rwa [hsent, hrun]
  · rwa [hsent, hrun, hprocess]
  · rwa [hsent, hid]
  · rwa [hsent]
  · rwa [hpump, hid, hsent]
  · rwa [hwindow]

/-- The part of the invariant that only a new frame can break. -/
theorem Speaking.ack_append {j : Job} (hj : j.Speaking) (hne : j.sent ≠ []) {f : Frame}
    (hf : f.frameType ≠ .runAck) :
    ∃ rest, j.sent ++ [f] = runAckFrame j.handle.jobId :: rest ∧
      ∀ g ∈ rest, g.frameType ≠ .runAck := by
  rcases hj.ack with h | ⟨rest, h, hrest⟩
  · exact absurd h hne
  · refine ⟨rest ++ [f], by rw [h]; rfl, ?_⟩
    intro g hg
    rcases List.mem_append.mp hg with hg | hg
    · exact hrest g hg
    · rw [List.mem_singleton.mp hg]
      exact hf

theorem Speaking.jobId_append {j : Job} (hj : j.Speaking) {f : Frame}
    (hf : f.jobId = j.handle.jobId) : ∀ g ∈ j.sent ++ [f], g.jobId = j.handle.jobId := by
  intro g hg
  rcases List.mem_append.mp hg with hg | hg
  · exact hj.jobId g hg
  · rw [List.mem_singleton.mp hg]
    exact hf

theorem Speaking.pump {j j' : Job} {o : Out} {e : PumpEvent} (hst : j.Staged)
    (hj : j.Speaking) (h : j.step (.pump o e) = some j') : j'.Speaking := by
  obtain ⟨p, w, q, fs, -, hs, rfl⟩ := step_pump h
  obtain ⟨hup, hsome⟩ := hst.pump_up hs
  have hacking : j.run.acking = false := by
    cases hrun : j.run <;> simp [hrun, RunPc.pumpUp] at hup <;> rfl
  have hsent : j.sent ≠ [] := hj.acked hacking (.inr hsome)
  have hsound := (hj.pumps o).step hj.window hs
  -- the frame, if there is one, belongs to this stream
  have hfs : fs = [] ∨ ∃ f, fs = [f] ∧ OfStream j.handle.jobId o.streamId f := by
    cases Pump.step_move hs with
    | send last f hpc => exact .inr ⟨f, rfl, ((hj.pumps o).at_pc.frame hpc).1⟩
    | _ => exact .inl rfl
  have hstream : ∀ o', stream o' (j.sent ++ fs) =
      if o' = o then stream o j.sent ++ fs else stream o' j.sent := by
    intro o'
    rw [stream_append]
    rcases hfs with rfl | ⟨f, rfl, hf⟩
    · by_cases heq : o' = o
      · simp [heq, stream]
      · simp [heq, stream]
    · rw [stream_singleton hf]
      by_cases heq : o' = o
      · simp [heq]
      · simp [heq]
  have hpumps : ∀ o', (Function.update j.pump o q o').Sound j.handle.jobId o'.streamId
      (stream o' (j.sent ++ fs)) := by
    intro o'
    rw [hstream o']
    by_cases heq : o' = o
    · subst heq
      rw [Function.update_self, if_pos rfl]
      exact hsound
    · rw [Function.update_of_ne heq, if_neg heq]
      exact hj.pumps o'
  have hw : w.dropPolicy = false := (Pump.step_dropPolicy hs).trans hj.window
  refine ⟨?_, ?_, ?_, ?_, ?_, by simpa using hpumps, by simpa using hw⟩
  · rw [settle_sent, settle_jobId]
    rcases hfs with rfl | ⟨f, rfl, hf⟩
    · simpa using hj.jobId
    · exact hj.jobId_append hf.2.2
  · rw [settle_run]
    intro hack
    rw [hacking] at hack
    exact absurd hack (by simp)
  · intro _ _
    simp [hsent]
  · right
    rw [settle_sent, settle_jobId]
    rcases hfs with rfl | ⟨f, rfl, hf⟩
    · rcases hj.ack with hnil | hack
      · exact absurd hnil hsent
      · simpa using hack
    · exact hj.ack_append hsent (by rw [hf.1]; simp)
  · have hend := hj.ending
    unfold ended at hend ⊢
    rw [settle_sent, settle_process, settle_watcher, settle_run]
    rcases hfs with rfl | ⟨f, rfl, hf⟩
    · simpa using hend
    · rw [exits_append, errors_append]
      simpa [exits, errors, hf.1] using hend

theorem Speaking.watcher {j j' : Job} {e : WatcherEvent} (hst : j.Staged)
    (hj : j.Speaking) (h : j.step (.watcher e) = some j') : j'.Speaking := by
  obtain ⟨a, pc, waiter, fs, hw, rfl⟩ := step_watcher h
  have hid : a.jobId = j.handle.jobId := (WatcherPc.step_update hw).keeps.1
  have hne : j.watcher ≠ .notSpawned := by
    intro hnot
    simp [WatcherPc.step, hnot] at hw
  have hsome : j.process.isSome = true := by
    cases hp : j.process with
    | none => exact absurd (hst.watcher (.inr hp)) hne
    | some _ => rfl
  have hacking : j.run.acking = false := by
    cases hrun : j.run <;>
      first | rfl | exact absurd (hst.watcher (.inl (by rw [hrun]; rfl))) hne
  have hsent : j.sent ≠ [] := hj.acked hacking (.inr hsome)
  rcases WatcherPc.step_sent hw with rfl | ⟨code, hpc, rfl, rfl, rfl⟩
  · refine hj.congr (by simpa using hid) (by simp) (by simp) (by simp) ?_ (by simp)
      (by simp)
    unfold ended
    simp only [settle_process, settle_watcher, hsome, if_true]
    intro hexit
    unfold WatcherPc.step at hw
    split at hw <;> (try split at hw) <;> cases hw <;> simp_all [WatcherPc.exitSent]
  · -- EXIT goes out, and nothing ended the job before it
    have hzero : exits j.sent + errors j.sent = 0 := by
      have hend := hj.ending
      unfold ended at hend
      rw [hsome, hpc] at hend
      simpa [WatcherPc.exitSent] using hend
    refine ⟨?_, ?_, ?_, ?_, ?_, ?_, by simpa using hj.window⟩
    · rw [settle_sent, settle_jobId]
      show ∀ f ∈ j.sent ++ _, f.jobId = a.jobId
      rw [hid]
      exact hj.jobId_append rfl
    · rw [settle_run]
      intro hack
      rw [hacking] at hack
      exact absurd hack (by simp)
    · intro _ _
      simp [hsent]
    · right
      rw [settle_sent, settle_jobId]
      show ∃ rest, j.sent ++ _ = runAckFrame a.jobId :: rest ∧ _
      rw [hid]
      exact hj.ack_append hsent (by simp)
    · unfold ended
      rw [settle_sent, exits_append, errors_append, settle_process, settle_watcher]
      simp only [hsome, if_true, WatcherPc.exitSent]
      have h1 : exits [exitFrame j.handle.jobId code] = 1 := rfl
      have h2 : errors [exitFrame j.handle.jobId code] = 0 := rfl
      omega
    · intro o
      rw [settle_pump, settle_sent, settle_jobId, stream_append,
        stream_eq_nil (by simp), List.append_nil]
      show (j.pump o).Sound a.jobId o.streamId _
      rw [hid]
      exact hj.pumps o

/-- `handle_run` sends RUN_ACK or ERROR. -/
theorem Speaking.run_send {j j' : Job} {e : RunEvent} {a : JobHandle} {pc : RunPc}
    {f : Frame} (hst : j.Staged) (hj : j.Speaking)
    (hs : j.run.step j.handle j.registered e = some (a, pc, .send f))
    (h : j' = settle (effect { j with handle := a, run := pc } (.send f))) :
    j'.Speaking := by
  obtain ⟨-, rfl, hcase⟩ := RunPc.step_send hs
  have hsent' : j'.sent = j.sent ++ [f] := by rw [h, settle_sent]; rfl
  have hid' : j'.handle.jobId = j.handle.jobId := by rw [h, settle_jobId]; rfl
  have hrun' : j'.run = pc := by rw [h, settle_run]; rfl
  have hprocess' : j'.process = j.process := by rw [h, settle_process]; rfl
  have hwindow' : j'.window = j.window := by rw [h, settle_window]; rfl
  have hpump' : j'.pump = j.pump := by rw [h, settle_pump]; rfl
  have hnone : j.process = none := by
    apply hst.unlaunched
    rcases hcase with ⟨hpc, -⟩ | ⟨msg, hpc, -⟩ <;> rw [hpc] <;> rfl
  have hout : f.frameType ≠ .output := by
    rcases hcase with ⟨-, -, rfl⟩ | ⟨msg, -, -, rfl⟩ <;> simp
  have hfid : f.jobId = j.handle.jobId := by
    rcases hcase with ⟨-, -, rfl⟩ | ⟨msg, -, -, rfl⟩ <;> rfl
  have hnotAcking : pc.acking = false := by
    rcases hcase with ⟨-, rfl, -⟩ | ⟨msg, -, rfl, -⟩ <;> rfl
  refine ⟨?_, ?_, ?_, ?_, ?_, ?_, by rw [hwindow']; exact hj.window⟩
  · rw [hsent', hid']
    exact hj.jobId_append hfid
  · rw [hrun', hnotAcking]
    exact fun hack => absurd hack (by simp)
  · intro _ _
    rw [hsent']
    simp
  · right
    rw [hsent', hid']
    rcases hcase with ⟨hpc, -, rfl⟩ | ⟨msg, hpc, -, rfl⟩
    · have hnil : j.sent = [] := hj.acking (by rw [hpc]; rfl)
      exact ⟨[], by rw [hnil]; rfl, fun g hg => absurd hg List.not_mem_nil⟩
    · have hne : j.sent ≠ [] := hj.acked (by rw [hpc]; rfl) (.inl (by rw [hpc]; rfl))
      exact hj.ack_append hne (by simp)
  · have hend := hj.ending
    unfold ended at hend ⊢
    rw [hsent', exits_append, errors_append, hprocess', hrun', hnone]
    rw [hnone] at hend
    rcases hcase with ⟨hpc, rfl, rfl⟩ | ⟨msg, hpc, rfl, rfl⟩
    · rw [hpc] at hend
      simpa [exits, errors, RunPc.errorSent] using hend
    · rw [hpc] at hend
      have h1 : exits [errorFrame j.handle.jobId msg] = 0 := rfl
      have h2 : errors [errorFrame j.handle.jobId msg] = 1 := rfl
      simp only [Option.isSome_none, RunPc.errorSent] at hend ⊢
      simp only [Bool.false_eq_true, if_false, if_true] at hend ⊢
      omega
  · intro o
    rw [hpump', hsent', hid', stream_append, stream_eq_nil hout, List.append_nil]
    exact hj.pumps o

/-- While `handle_run` runs, what has ended stays ended. -/
theorem ended_run {j j' : Job} {e : RunEvent} (hst : j.Staged)
    (h : j.step (.run e) = some j') (hended : j.ended = true) : j'.ended = true := by
  obtain ⟨a, pc, eff, hs, hj'⟩ := step_run h
  have hwatcher : j.watcher = .notSpawned :=
    hst.watcher (.inl (RunPc.step_follows hs).watcherUp)
  unfold ended at hended ⊢
  rw [hwatcher] at hended
  cases hsome : j.process.isSome with
  | true =>
    rw [hsome] at hended
    exact absurd hended (by simp [WatcherPc.exitSent])
  | false =>
    rw [hsome] at hended
    have herror : j.run.errorSent = true := by simpa using hended
    have hnone : j'.process.isSome = false := by
      by_contra hcon
      rcases step_process_isSome h (eq_true_of_ne_false hcon) with hp | hl
      · rw [hsome] at hp
        exact absurd hp (by simp)
      · rw [hl] at herror
        exact absurd herror (by simp [RunPc.errorSent])
    have hrun : j'.run = pc := by rw [hj', settle_run, effect_run]
    rw [hnone, hrun]
    exact (RunPc.step_frames hs).2.2.2 herror

/-- When `handle_run` is past its acknowledgement and has sent nothing to get
there, RUN_ACK was out already. -/
theorem Speaking.acked_run {j j' : Job} {e : RunEvent} (hst : j.Staged) (hj : j.Speaking)
    (h : j.step (.run e) = some j') {a : JobHandle} {pc : RunPc} {eff : RunEffect}
    (hs : j.run.step j.handle j.registered e = some (a, pc, eff))
    (hsend : ∀ f, eff ≠ .send f) (hnot : pc.acking = false)
    (hor : pc.watcherUp = false ∨ j'.process.isSome = true) : j.sent ≠ [] := by
  cases hpc : j.run.acking with
  | false => exact hj.acked hpc (.inl (RunPc.step_follows hs).watcherUp)
  | true =>
    have hun : j.run.unlaunched = true := by
      cases hr : j.run <;> simp_all [RunPc.acking, RunPc.unlaunched]
    rcases (RunPc.step_frames hs).2.2.1 hpc hnot with hup | ⟨f, hf⟩
    · rcases hor with hdown | hsome
      · rw [hup] at hdown
        exact absurd hdown (by simp)
      · rcases step_process_isSome h hsome with hp | hl
        · rw [hst.unlaunched hun] at hp
          exact absurd hp (by simp)
        · rw [hl] at hpc
          exact absurd hpc (by simp [RunPc.acking])
    · exact absurd hf (hsend f)

theorem Speaking.run {j j' : Job} {e : RunEvent} (hst : j.Staged)
    (hj : j.Speaking) (h : j.step (.run e) = some j') : j'.Speaking := by
  obtain ⟨a, pc, eff, hs, hj'⟩ := step_run h
  by_cases hsend : ∃ f, eff = .send f
  · obtain ⟨f, rfl⟩ := hsend
    exact hj.run_send hst hs hj'
  have hne : ∀ f, eff ≠ .send f := fun f hf => hsend ⟨f, hf⟩
  have hsent' : j'.sent = j.sent := by
    rw [hj', settle_sent]
    rcases effect_sent { j with handle := a, run := pc } eff with ⟨f, heq, -⟩ | ⟨-, heq⟩
    · exact absurd heq (hne f)
    · exact heq
  have hid' : j'.handle.jobId = j.handle.jobId := step_jobId h
  have hrun' : j'.run = pc := by rw [hj', settle_run, effect_run]
  refine ⟨?_, ?_, ?_, ?_, ?_, ?_, ?_⟩
  · rw [hsent', hid']
    exact hj.jobId
  · rw [hsent', hrun']
    exact fun hack => hj.acking ((RunPc.step_frames hs).2.1 hack)
  · rw [hsent', hrun']
    exact hj.acked_run hst h hs hne
  · rw [hsent', hid']
    exact hj.ack
  · rw [hsent']
    exact hj.ending_mono (ended_run hst h)
  · intro o
    rw [hsent', hid', hj', settle_pump]
    by_cases hspawn : eff = .spawnPump o
    · have hfresh := hst.pumps o (.inl ((RunPc.step_follows hs).spawnPump o hspawn))
      have hsound := hj.pumps o
      rw [hspawn]
      show (Function.update j.pump o { j.pump o with pc := .checkToken } o).Sound _ _ _
      rw [Function.update_self]
      rw [hfresh] at hsound ⊢
      exact ⟨hsound.ofStream, hsound.numbered, hsound.at_pc⟩
    · rw [effect_pump _ hspawn]
      exact hj.pumps o
  · rw [hj', settle_window, effect_window]
    exact hj.window

theorem Speaking.step {j j' : Job} {e : Event} (hst : j.Staged) (hj : j.Speaking)
    (h : j.step e = some j') : j'.Speaking := by
  cases e with
  | run e => exact hj.run hst h
  | pump o e => exact hj.pump hst h
  | watcher e => exact hj.watcher hst h
  | _ =>
    have hf := step_frame h (by simp)
    refine hj.congr (step_jobId h) (hf.sent (by simp) (by simp)) hf.run hf.process ?_
      (hf.pump (by simp)) (hf.window (by simp))
    unfold ended
    rw [hf.process, hf.watcher (by simp), hf.run]
    exact id

/-- A frame that goes out for another task than the pump of a stream is not on it. -/
theorem stream_of_sends {j : Job} {e : Event} {fs : List Frame} (hj : j.Speaking)
    (h : Sends j e fs) {o : Out} (hne : e ≠ .pump o .sent) : stream o fs = [] := by
  cases h with
  | nothing => rfl
  | runAck hpc | error msg hpc | exit code hpc => exact stream_eq_nil (by simp) o
  | output o' last f hpc =>
    have hother : o ≠ o' := by
      rintro rfl
      exact hne rfl
    rw [stream_singleton ((hj.pumps o').at_pc.frame hpc).1, if_neg hother]

theorem speaking_reachable {C : Job → Event → Prop} {j : Job} (h : machine.Reach C j) :
    j.Speaking := by
  refine h.invariant_of (J := Staged) (fun _ hr => staged_reachable hr) ?_ ?_
  · rintro _ ⟨jobId, timeout, now, last, rfl⟩
    exact speaking_create jobId timeout now last
  · intro s e u hst hs _ hstep
    exact Speaking.step hst hs hstep

theorem Speaking.transcript {j : Job} (h : j.Speaking) :
    Transcript j.handle.jobId j.sent where
  ack := h.ack
  ending := by
    have := h.ending
    split at this <;> omega
  numbered := fun o => (h.pumps o).numbered
  endsLast := fun o => (h.pumps o).endsLast

/-- What came before some moment of a transcript is one too. -/
theorem Transcript.mono {jobId : UInt32} {fs gs : List Frame}
    (h : Transcript jobId gs) (hp : fs <+: gs) : Transcript jobId fs where
  ack := by
    rcases h.ack with rfl | ⟨rest, rfl, hrest⟩
    · exact .inl (List.prefix_nil.mp hp)
    · rcases List.prefix_cons_iff.mp hp with rfl | ⟨rest', rfl, hp'⟩
      · exact .inl rfl
      · exact .inr ⟨rest', rfl, fun f hf => hrest f (hp'.subset hf)⟩
  ending := by
    have hexits : exits fs ≤ exits gs := hp.sublist.countP_le
    have herrors : errors fs ≤ errors gs := hp.sublist.countP_le
    have hle := h.ending
    omega
  numbered := fun o => (h.numbered o).mono (hp.filter _)
  endsLast := fun o => (h.endsLast o).mono (hp.filter _)

/-- In every state that any interleaving of its tasks reaches, the frames of a
job form a transcript. -/
theorem transcript_reachable {C : Job → Event → Prop} {j : Job}
    (h : machine.Reach C j) : Transcript j.handle.jobId j.sent :=
  (speaking_reachable h).transcript

end RemoteAgent.Job
