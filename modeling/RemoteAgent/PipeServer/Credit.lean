import RemoteAgent.Job.Window
import RemoteAgent.PipeServer.Session

/-!
# Acknowledged output

A client acknowledges output by WINDOW_UPDATE frames.  The request loop answers
one with `update_activity` and does not look at its payload, so the window of the
job stays as it is.

* `acknowledged_canSend_iff`: whatever the client has acknowledged, the pumps of a
  job can send any next frame exactly as long as the job has offered at most
  32768 bytes.
* `acknowledged_and_stalled` is a session whose client has acknowledged every byte
  of a job that can no longer send.
-/

namespace RemoteAgent.Session

open CodeLib Protocol IoPump PipeServer
open Job (outputBytes CanSend offered)

/-- The bytes that WINDOW_UPDATE frames acknowledge for a job.  `parse` reads a
payload. -/
def acknowledged (parse : List UInt8 → Option WindowUpdatePayload) (jobId : UInt32)
    (fs : List Frame) : Nat :=
  (((fs.filter fun f => f.frameType = .windowUpdate && f.jobId = jobId).filterMap
    fun f => parse f.payload).map fun p => p.bytesConsumed.toNat).sum

theorem acknowledged_append (parse : List UInt8 → Option WindowUpdatePayload)
    (jobId : UInt32) (fs gs : List Frame) :
    acknowledged parse jobId (fs ++ gs) =
      acknowledged parse jobId fs + acknowledged parse jobId gs := by
  unfold acknowledged
  rw [List.filter_append, List.filterMap_append, List.map_append, List.sum_append]

/-- The request loop has handled acknowledgements of every byte that the job has
sent. -/
def Acknowledged (parse : List UInt8 → Option WindowUpdatePayload) (s : Session)
    (j : Job) : Prop :=
  outputBytes j.sent ≤ acknowledged parse j.handle.jobId s.handled

/-- In every state of every session, a job whose output is acknowledged can send
exactly if it has offered at most 32768 bytes. -/
theorem acknowledged_canSend_iff {serde : Serde} {C : Session → Event → Prop}
    {s : Session} {j : Job} (h : (machine serde).Reach C s) (hj : j ∈ s.jobs)
    (parse : List UInt8 → Option WindowUpdatePayload) :
    Acknowledged parse s j → (CanSend j ↔ offered j ≤ 32768) := by
  intro _
  have hreach : Job.machine.Reachable j := jobs_reachable h j hj
  exact (Job.metered_reachable hreach).canSend_iff

/-- The payload of a WINDOW_UPDATE, with a number in decimal. -/
def consumedJson (bytes : String) : List UInt8 :=
  Job.textBytes ("\x7b\"stream_id\":1,\"bytes_consumed\":" ++ bytes ++ "\x7d")

/-- The parser on two payloads. -/
def sampleParse (bs : List UInt8) : Option WindowUpdatePayload :=
  if bs = consumedJson "1" then some ⟨1, 1⟩
  else if bs = consumedJson "32769" then some ⟨1, 32769⟩
  else none

def windowUpdateFrame (bytes : String) : Frame :=
  ((Frame.new .windowUpdate .control).withJobId 1).withPayload (consumedJson bytes)

/-- The client acknowledges, and the request loop goes through with it. -/
def ackEvents (bytes : String) : List Event :=
  [.read (.ok (windowUpdateFrame bytes)),
    .job 0 (.call 0 (.step 0)), .job 0 (.call 0 (.step 0)), .resume]

/-- One byte is sent and acknowledged, and the job can go on. -/
theorem acknowledged_canSend_iff_one :
    ∃ s j, (machine sampleSerde).Reachable s ∧ j ∈ s.jobs ∧ s.requests = .reading ∧
      outputBytes j.sent = 1 ∧ Acknowledged sampleParse s j ∧ CanSend j := by
  obtain ⟨s, hr, hp⟩ := StepMachine.reach_of_runIf (machine sampleSerde) StepMachine.Any
    initial_sample
    (runEvents 0 1 ++ [.job 0 (.os (.write .stdout [104]))] ++
      (Job.pumpEvents .stdout (.ok [104])).map (.job 0) ++ ackEvents "1")
    (fun s => s.requests = .reading && s.jobs.any fun j =>
      outputBytes j.sent = 1 && offered j ≤ 32768 &&
        outputBytes j.sent ≤ acknowledged sampleParse j.handle.jobId s.handled)
    (by decide +kernel)
  simp only [Bool.and_eq_true, decide_eq_true_eq, List.any_eq_true] at hp
  obtain ⟨hreading, j, hj, ⟨hsent, hoffered⟩, hack⟩ := hp
  have hiff := acknowledged_canSend_iff hr hj sampleParse hack
  exact ⟨s, j, hr, hj, hreading, hsent, hack, hiff.mpr hoffered⟩

/-! ## A run of one job inside a session -/

/-- The event finds the channel closed. -/
def findsClosed : Job.Event → Bool
  | .run .closed | .pump _ .closed | .watcher .closed => true
  | _ => false

theorem allows_of_room {s : Session} {e : Job.Event} (hrecv : s.writer.receiving = true)
    (hroom : s.enqueued.length < s.taken + channelCapacity)
    (he : findsClosed e = false) : s.allows e = true := by
  unfold allows
  split
  case h_4 | h_5 | h_6 => cases he
  all_goals simp [hrecv, hroom]

theorem sent_of_path {C : Job → Job.Event → Prop} {j j' : Job} {es : List Job.Event}
    (h : Job.machine.Path C j es j') : ∃ fs, j'.sent = j.sent ++ fs := by
  induction h with
  | nil => exact ⟨[], (List.append_nil _).symm⟩
  | cons _ hstep _ ih =>
    obtain ⟨fs, -, hfs⟩ := Job.step_sends hstep
    obtain ⟨gs, hgs⟩ := ih
    exact ⟨fs ++ gs, by rw [hgs, hfs, List.append_assoc]⟩

/-- A run of one job is a run of the session, as long as the channel has room. -/
theorem path_of_job (serde : Serde) {i : Nat} {j j' : Job} {es : List Job.Event}
    (h : Job.machine.Path StepMachine.Any j es j') {s : Session}
    (hget : s.jobs[i]? = some j) (hrecv : s.writer.receiving = true)
    (hroom : s.enqueued.length + es.length ≤ s.taken + channelCapacity)
    (hopen : ∀ e ∈ es, findsClosed e = false) :
    (machine serde).Path StepMachine.Any s (es.map (.job i)) { s with
      jobs := s.jobs.set i j'
      enqueued := s.enqueued ++ j'.sent.drop j.sent.length } := by
  induction h generalizing s with
  | nil =>
    obtain ⟨hlt, rfl⟩ := List.getElem?_eq_some_iff.mp hget
    rw [List.set_getElem_self, List.drop_length, List.append_nil]
    exact .nil s
  | @cons j u j' e es hc hstep tail ih =>
    obtain ⟨hlt, -⟩ := List.getElem?_eq_some_iff.mp hget
    obtain ⟨fs, hsends, hfs⟩ := Job.step_sends hstep
    obtain ⟨gs, hgs⟩ := sent_of_path tail
    have hone : fs.length ≤ 1 := by cases hsends <;> simp
    have hallows : s.allows e = true := by
      apply allows_of_room hrecv
      · simp only [List.length_cons] at hroom
        omega
      · exact hopen e List.mem_cons_self
    have hfirst : step serde s (.job i e) = some { s with
        jobs := s.jobs.set i u
        enqueued := s.enqueued ++ u.sent.drop j.sent.length } := by
      have hu : Job.step j e = some u := hstep
      simp [step, stepJob, hget, hallows, hu]
    have hdrop : u.sent.drop j.sent.length = fs := by rw [hfs, List.drop_left]
    have hdrop' : j'.sent.drop u.sent.length = gs := by rw [hgs, List.drop_left]
    have hrest := ih (s := { s with
        jobs := s.jobs.set i u
        enqueued := s.enqueued ++ u.sent.drop j.sent.length })
      (by simp [hlt]) hrecv
      (by
        rw [hdrop]
        simp only [List.length_append, List.length_cons] at hroom ⊢
        omega)
      (fun e he => hopen e (List.mem_cons_of_mem _ he))
    refine .cons trivial hfirst ?_
    have hjoin : j'.sent.drop j.sent.length = fs ++ gs := by
      rw [hgs, hfs, List.append_assoc, List.drop_left]
    rw [hjoin]
    simp only [hdrop, hdrop', List.set_set, List.append_assoc] at hrest
    rw [hdrop]
    exact hrest

/-! ## A job that stalls -/

/-- A session with one job that has been launched and has sent no output yet. -/
structure Launched (s : Session) (j : Job) : Prop where
  jobs : s.jobs = [j]
  requests : s.requests = .reading
  writer : s.writer = .recv
  room : s.enqueued.length + 14 ≤ s.taken + channelCapacity
  handled : acknowledged sampleParse 1 s.handled = 0
  jobId : j.handle.jobId = 1
  registered : j.registered = true
  process : j.process.isSome = true
  token : j.handle.cancellationToken = false
  calls : j.calls = []
  pump : (j.pump .stdout).pc = .checkToken
  pipe : j.pipe .stdout = Job.Pipe.fresh
  window : j.window = StreamPump.new 65536 false
  sent : outputBytes j.sent = 0

theorem exists_launched : ∃ s j, (machine sampleSerde).Reachable s ∧ Launched s j := by
  obtain ⟨s, hr, hp⟩ := StepMachine.reach_of_runIf (machine sampleSerde) StepMachine.Any
    initial_sample (runEvents 0 1)
    (fun s => s.jobs.length = 1 && s.jobs.all fun j =>
      s.requests = .reading && s.writer = .recv &&
        decide (s.enqueued.length + 14 ≤ s.taken + channelCapacity) &&
        acknowledged sampleParse 1 s.handled = 0 && j.handle.jobId = 1 &&
        j.registered && j.process.isSome && !j.handle.cancellationToken &&
        j.calls = [] && (j.pump .stdout).pc = .checkToken &&
        j.pipe .stdout = Job.Pipe.fresh && j.window = StreamPump.new 65536 false &&
        outputBytes j.sent = 0)
    (by decide +kernel)
  rw [Bool.and_eq_true, decide_eq_true_eq] at hp
  obtain ⟨hone, hall⟩ := hp
  obtain ⟨j, hjobs⟩ := List.length_eq_one_iff.mp hone
  have hj := List.all_eq_true.mp hall j (by rw [hjobs]; exact List.mem_singleton_self j)
  simp only [Bool.and_eq_true, decide_eq_true_eq, Bool.not_eq_true'] at hj
  obtain ⟨⟨⟨⟨⟨⟨⟨⟨⟨⟨⟨⟨h1, h2⟩, h3⟩, h4⟩, h5⟩, h6⟩, h7⟩, h8⟩, h9⟩, h10⟩, h11⟩, h12⟩, h13⟩ := hj
  exact ⟨s, j, hr, hjobs, h1, h2, h3, h4, h5, h6, h7, h8, h9, h10, h11, h12, h13⟩

/-- Handling an acknowledgement changes the last activity of the job and nothing
else about it. -/
theorem run_ackEvents {s : Session} {j : Job} (hjobs : s.jobs = [j])
    (hrequests : s.requests = .reading) (hid : j.handle.jobId = 1)
    (hreg : j.registered = true) (hcalls : j.calls = []) (bytes : String) :
    (machine sampleSerde).run s (ackEvents bytes) = some { s with
      handled := s.handled ++ [windowUpdateFrame bytes]
      jobs := [{ j with
        handle := j.handle.touch 0, calls := [.updateActivity .returned] }] } := by
  have htype : (windowUpdateFrame bytes).frameType = .windowUpdate := rfl
  have hframe : (windowUpdateFrame bytes).jobId = 1 := rfl
  simp [machine, StepMachine.run, ackEvents, step, hrequests, dispatch, htype, hframe,
    updateActivity, lookup, hjobs, hreg, hid, stepJob, allows, Job.step, Job.act,
    Job.settle_of_registered, hcalls, Job.Op.begin, callCount, Job.Call.step,
    Job.ActivityPc.step, resume, callReturned]

/-- A chunk, as its process writes it and a pump sends it. -/
def chunkEvents (data : List UInt8) : List Job.Event :=
  .os (.write .stdout data) :: Job.pumpEvents .stdout (.ok data)

/-- A chunk of full size and one more byte go out. -/
theorem Launched.path_chunks {s : Session} {j : Job} (hl : Launched s j)
    (data : List UInt8) (hlen : data.length = maxPayloadSize) :
    ∃ j', Job.machine.Path StepMachine.Any j (chunkEvents data ++ chunkEvents [0]) j' ∧
      j'.window = ⟨65536, 32769, false⟩ ∧ outputBytes j'.sent = 32769 ∧
      j'.handle = j.handle ∧ j'.registered = true ∧ j'.calls = [] := by
  have hne : data ≠ [] := by
    intro hnil
    rw [hnil] at hlen
    cases hlen
  have hready : j.Ready .stdout :=
    ⟨hl.registered, hl.process, hl.token, hl.pump, by rw [hl.pipe]; rfl,
      by rw [hl.pipe]; rfl, by rw [hl.window]; rfl⟩
  have hfirst := hready.run_delivered data hne (Nat.le_of_eq hlen)
    (by rw [hl.window, hlen]; decide)
  have hwindow : (j.delivered .stdout data).window = ⟨65536, 32768, false⟩ := by
    show (⟨_, j.window.bytesInFlight + UInt64.ofNat data.length, _⟩ : StreamPump) = _
    rw [hl.window, hlen]
    rfl
  have hsecond := (hready.delivered (o := .stdout) data).run_delivered [0] (by simp)
    (by decide) (by rw [hwindow]; decide)
  refine ⟨_, (StepMachine.path_of_run hfirst).append (StepMachine.path_of_run hsecond),
    ?_, ?_, rfl, hl.registered, hl.calls⟩
  · show (⟨_, (j.delivered .stdout data).window.bytesInFlight + UInt64.ofNat 1, _⟩ :
      StreamPump) = _
    rw [hwindow]
    rfl
  · show outputBytes (j.sent ++ [_] ++ [_]) = 32769
    rw [Job.outputBytes_append, Job.outputBytes_append, hl.sent,
      Job.outputBytes_singleton rfl, Job.outputBytes_singleton rfl]
    show 0 + data.length + 1 = 32769
    rw [hlen]
    rfl

/-- The client has acknowledged all 32769 bytes of a job, and the window of the job
has no room for a frame of full size. -/
theorem acknowledged_and_stalled :
    ∃ s j, (machine sampleSerde).Reachable s ∧ j ∈ s.jobs ∧ s.requests = .reading ∧
      outputBytes j.sent = 32769 ∧ Acknowledged sampleParse s j ∧ ¬ CanSend j := by
  obtain ⟨s, j, hr, hl⟩ := exists_launched
  obtain ⟨j', hpath, hwindow, hsent, hhandle, hreg, hcalls⟩ :=
    hl.path_chunks (List.replicate maxPayloadSize 0) List.length_replicate
  have hrun := path_of_job sampleSerde hpath (i := 0) (by rw [hl.jobs]; rfl)
    (by rw [hl.writer]; rfl) hl.room
    (by simp [chunkEvents, Job.pumpEvents, findsClosed])
  have hack := run_ackEvents (s := { s with
      jobs := s.jobs.set 0 j'
      enqueued := s.enqueued ++ j'.sent.drop j.sent.length })
    (by rw [hl.jobs]; rfl) hl.requests (by rw [hhandle]; exact hl.jobId) hreg hcalls "32769"
  refine ⟨_, _, (hr.path hrun).path (StepMachine.path_of_run hack), List.mem_singleton_self _,
    hl.requests, hsent, ?_, ?_⟩
  · -- all the bytes are acknowledged
    show outputBytes j'.sent ≤ acknowledged sampleParse j'.handle.jobId
      (s.handled ++ [windowUpdateFrame "32769"])
    have hone : acknowledged sampleParse 1 [windowUpdateFrame "32769"] = 32769 := by decide
    rw [hhandle, hl.jobId, acknowledged_append, hl.handled, hone, hsent]
  · intro hcan
    have hguard := hcan maxPayloadSize (Nat.le_refl _)
    simp only [hwindow] at hguard
    exact absurd hguard (by decide)

end RemoteAgent.Session
