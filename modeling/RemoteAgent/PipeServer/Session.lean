import RemoteAgent.CodeLib.Lists
import RemoteAgent.Job.Frames

/-!
# One session of the pipe server

`pipe_server.rs` from `handle_client` on: the handshake, the request loop
`process_requests`, the channel of frames and the writer task.  The jobs that
the session has started run beside them, each as a machine of its own, and put
their frames on the channel of the session.

* The request loop reads a frame and finishes with it before it reads the next
  one.  Its calls on a job are calls of the job's machine, for whose return the
  loop waits; other sessions, the cleanup task and the shutdown call at any time.
* The channel holds at most 256 frames.  `enqueued` are the frames that it has
  accepted, in order, and the writer has received the first `taken` of them.  A
  send waits while the channel is full, and it fails once the writer is gone.
* The writer encodes a frame and writes its length and its bytes with as many
  calls of `WriteFile` as it takes.

`step_cases` says who moves in a step of a session, `Move` what the step does to
its jobs and its channel, and `jobs_reachable` that each job of a session is a
state of the job's machine.  `ledger_step` is the refinement of the ledger of the
job manager, as far as the jobs of the session go.
-/

namespace RemoteAgent

open CodeLib CodeLib.ByteOrder Protocol IoPump
open JobManager (SystemTime Duration JobState Ledger)

namespace PipeServer

/-- What the session needs of `serde_json`. -/
structure Serde where
  helloFromSlice : List UInt8 → Except String HelloPayload
  helloToVec : HelloPayload → List UInt8
  runFromSlice : List UInt8 → Except String RunPayload

/-! ## The handshake -/

/-- What `handle_client` makes of the first frame: it answers with HELLO_ACK and
goes on, it answers with an ERROR frame and returns, or it only returns. -/
inductive Greeting where
  | accept (ack : Frame)
  | refuse (reply : Frame) (e : Error)
  | drop (e : Error)
  deriving DecidableEq

def versionMismatch (version : UInt8) : String :=
  "Version mismatch: " ++ toString version.toNat ++ " vs " ++
    toString protocolVersion.toNat

/-- The frame of `send_error_frame`. -/
def sendErrorFrame (jobId : UInt32) (message : String) : Frame :=
  ((Frame.new .error .control).withJobId jobId).withPayload (Job.textBytes message)

def negotiate (serde : Serde) (helloFrame : Frame) : Greeting :=
  if helloFrame.frameType ≠ .hello then .drop (.protocol "Expected HELLO frame")
  else
    match serde.helloFromSlice helloFrame.payload with
    | .error e => .drop (.protocol ("Invalid HELLO: " ++ e))
    | .ok hello =>
      if hello.version ≠ protocolVersion then
        .refuse (sendErrorFrame 0 (versionMismatch hello.version))
          (.protocol (versionMismatch hello.version))
      else
        .accept ((Frame.new .helloAck .control).withPayload
          (serde.helloToVec ⟨protocolVersion, hello.clientId⟩))

/-! ## The writer task -/

/-- The bytes that `write_frame_static` writes for a frame that `encode`
accepts: the length of the data, big-endian, and the data. -/
def wire (f : Frame) : List UInt8 :=
  beBytes32 (UInt32.ofNat f.bytes.length) ++ f.bytes

/-- Where the writer stands.  In `write` a call of `write_all` has `rest` to
write, and the data of the next call is `next`. -/
inductive WriterPc where
  | recv
  | write (rest : List UInt8) (next : Option (List UInt8))
  | returned (r : Except Error Unit)
  deriving DecidableEq

/-- `wrote` is a `WriteFile` that accepts the given number of bytes,
`writeFailed` one that fails after so many. -/
inductive WriterEvent where
  | received
  | hungUp
  | wrote (n : Nat)
  | writeFailed (code : UInt32) (n : Nat)
  deriving DecidableEq, Repr

def WriterPc.receiving : WriterPc → Bool
  | .returned _ => false
  | _ => true

/-- The writer after a `WriteFile` that left `rest` of the data. -/
def WriterPc.afterWrite (rest : List UInt8) (next : Option (List UInt8)) : WriterPc :=
  if rest.isEmpty then
    match next with
    | some data => .write data none
    | none => .recv
  else .write rest next

/-! ## The request loop -/

/-- Where `process_requests` stands.  In `running` it awaits `handle_run` of the
job at the index; in `updating` and `cancelling` it is inside a call on the job
at the first index, which is the call at the second. -/
inductive RequestPc where
  | reading
  | creating (timeout : Option Duration)
  | running (i : Nat)
  | updating (i c : Nat) (cancel : Bool)
  | cancelling (i c : Nat)
  | returned (r : Except Error Unit)
  deriving DecidableEq

end PipeServer

open PipeServer

/-- One session.  `handled` are the frames that the request loop has dispatched,
`jobs` those that `handle_run` has created for it, `pipeOut` what was written to
the client's pipe. -/
structure Session where
  helloAck : Frame
  requests : RequestPc
  handled : List Frame
  jobs : List Job
  enqueued : List Frame
  taken : Nat
  writer : WriterPc
  pipeOut : List UInt8

namespace Session

/-- A session after its handshake. -/
def start (helloAck : Frame) : Session where
  helloAck := helloAck
  requests := .reading
  handled := []
  jobs := []
  enqueued := []
  taken := 0
  writer := .recv
  pipeOut := wire helloAck

/-- `read` is the result of `read_frame`.  `created` and `refused` are the
results of `create_job`, the first with the id, the start time, and the time of
the last creation before it.  In `resume` the request loop goes on after
something that it has awaited. -/
inductive Event where
  | read (r : Except Error Frame)
  | created (jobId : UInt32) (now last : SystemTime)
  | refused (e : Error)
  | resume
  | job (i : Nat) (e : Job.Event)
  | writer (e : WriterEvent)
  deriving DecidableEq

def channelCapacity : Nat := 256

/-- Whether the channel lets a task of a job do its next action. -/
def allows (s : Session) : Job.Event → Bool
  | .run .sent | .pump _ .sent | .watcher .sent =>
    s.writer.receiving && s.enqueued.length < s.taken + channelCapacity
  | .run .closed | .pump _ .closed | .watcher .closed => !s.writer.receiving
  | _ => true

/-- A step of a job, whose frames go to the channel. -/
def stepJob (s : Session) (i : Nat) (e : Job.Event) : Option Session :=
  (s.jobs[i]?).bind fun j =>
    if s.allows e then
      (j.step e).map fun j' =>
        { s with
          jobs := s.jobs.set i j'
          enqueued := s.enqueued ++ j'.sent.drop j.sent.length }
    else none

/-! ## Requests -/

/-- The job that the registry has under an id, if it is one of the session. -/
def lookup (s : Session) (jobId : UInt32) : Option Nat :=
  s.jobs.findIdx? fun j => j.registered && j.handle.jobId = jobId

/-- The number of calls made on a job so far, which is the index of the next. -/
def callCount (s : Session) (i : Nat) : Nat :=
  ((s.jobs[i]?).map fun j => j.calls.length).getD 0

/-- Begin with `update_activity`.  A job that is not found is no job of this
session, and the calls return at once. -/
def updateActivity (s : Session) (jobId : UInt32) (cancel : Bool) : Option Session :=
  match s.lookup jobId with
  | some i =>
    (s.stepJob i (.begin .updateActivity)).map fun s' =>
      { s' with requests := .updating i (s.callCount i) cancel }
  | none => some s

def fromMillis (ms : UInt64) : Duration := ms.toNat * 1000000

/-- One round of `process_requests`, from the result of `read_frame` on. -/
def dispatch (serde : Serde) (s : Session) (r : Except Error Frame) : Option Session :=
  match r with
  | .error e =>
    some { s with
      requests := .returned
        (if e = .io (.rawOs errorBrokenPipe.toInt32) then .ok () else .error e) }
  | .ok f =>
    let s' := { s with handled := s.handled ++ [f] }
    match f.frameType with
    | .run =>
      match serde.runFromSlice f.payload with
      | .error e =>
        some { s' with
          requests := .returned (.error (.protocol ("Invalid RUN payload: " ++ e))) }
      | .ok payload =>
        some { s' with requests := .creating (payload.timeoutMs.map fromMillis) }
    | .cancel => s'.updateActivity f.jobId true
    | .windowUpdate => s'.updateActivity f.jobId false
    | .goodbye => some { s' with requests := .returned (.ok ()) }
    | _ => if f.jobId ≠ 0 then s'.updateActivity f.jobId false else some s'

/-- The call has returned. -/
def callReturned (s : Session) (i c : Nat) : Bool :=
  ((s.jobs[i]?).bind fun j => j.calls[c]?).any fun call =>
    call = .updateActivity .returned || call = .cancelJob .returned

/-- The request loop goes on after what it has awaited. -/
def resume (s : Session) : Option Session :=
  match s.requests with
  | .running i =>
    match (s.jobs[i]?).map Job.run with
    | some (.returned (.ok _)) => some { s with requests := .reading }
    | some (.returned (.error e)) => some { s with requests := .returned (.error e) }
    | _ => none
  | .updating i c cancel =>
    if s.callReturned i c then
      if cancel then
        (s.stepJob i (.begin .cancelJob)).map fun s' =>
          { s' with requests := .cancelling i (s.callCount i) }
      else some { s with requests := .reading }
    else none
  | .cancelling i c =>
    if s.callReturned i c then some { s with requests := .reading } else none
  | _ => none

/-! ## The writer -/

/-- A job's tasks that hold a sender of the channel. -/
def holdsSender (j : Job) : Bool :=
  (match j.run with | .returned _ => false | _ => true) ||
    (match j.watcher with | .notSpawned | .returned => false | _ => true) ||
    [Job.Out.stdout, .stderr].any fun o =>
      match (j.pump o).pc with | .notSpawned | .returned _ => false | _ => true

/-- Whether anyone can still send. -/
def hasSenders (s : Session) : Bool :=
  (match s.requests with | .returned _ => false | _ => true) || s.jobs.any holdsSender

/-- The writer receives a frame and starts to write it. -/
def receive (s : Session) : Option Session :=
  (s.enqueued[s.taken]?).map fun f =>
    { s with
      taken := s.taken + 1
      writer :=
        match f.encode with
        | .ok data => .write (beBytes32 (UInt32.ofNat data.length)) (some data)
        | .error e => .returned (.error e) }

def stepWriter (s : Session) (e : WriterEvent) : Option Session :=
  match s.writer, e with
  | .recv, .received => s.receive
  | .recv, .hungUp =>
    if s.taken = s.enqueued.length ∧ s.hasSenders = false then
      some { s with writer := .returned (.ok ()) }
    else none
  | .write rest next, .wrote n =>
    if n ≤ rest.length then
      some { s with
        pipeOut := s.pipeOut ++ rest.take n
        writer := .afterWrite (rest.drop n) next }
    else none
  | .write rest _, .writeFailed code n =>
    if n ≤ rest.length then
      some { s with
        pipeOut := s.pipeOut ++ rest.take n
        writer := .returned (.error (.io (.rawOs (hresultFromWin32 code)))) }
    else none
  | _, _ => none

/-! ## The machine -/

def step (serde : Serde) (s : Session) : Event → Option Session
  | .read r =>
    match s.requests with
    | .reading => s.dispatch serde r
    | _ => none
  | .created jobId now last =>
    match s.requests with
    | .creating timeout =>
      some { s with
        jobs := s.jobs ++ [Job.create jobId timeout now last]
        requests := .running s.jobs.length }
    | _ => none
  | .refused e =>
    match s.requests with
    | .creating _ => some { s with requests := .returned (.error e) }
    | _ => none
  | .resume => s.resume
  | .job i e => s.stepJob i e
  | .writer e => s.stepWriter e

/-- The session has passed the handshake, and HELLO_ACK is written. -/
def Initial (serde : Serde) (s : Session) : Prop :=
  ∃ hello ack, negotiate serde hello = .accept ack ∧ ack.encode = .ok ack.bytes ∧
    s = start ack

/-- The machine of one session. -/
def machine (serde : Serde) : StepMachine Session Event where
  Init := Initial serde
  step := step serde

/-! ## Parts of runs

What concrete runs of a session are put together from. -/

def helloJson : List UInt8 := Job.textBytes "\x7b\"version\":1,\"client_id\":null\x7d"

def runJson : List UInt8 := Job.textBytes "\x7b\"command\":\"whoami\"\x7d"

/-- `serde_json` on the two payloads. -/
def sampleSerde : Serde where
  helloFromSlice := fun bs => if bs = helloJson then .ok ⟨1, none⟩ else .error "EOF"
  helloToVec := fun p => if p = ⟨1, none⟩ then helloJson else []
  runFromSlice := fun bs =>
    if bs = runJson then .ok ⟨"whoami", none, none, none⟩ else .error "EOF"

def helloFrame : Frame := (Frame.new .hello .control).withPayload helloJson

def helloAckFrame : Frame := (Frame.new .helloAck .control).withPayload helloJson

theorem initial_sample : Initial sampleSerde (start helloAckFrame) :=
  ⟨helloFrame, helloAckFrame, by decide, Frame.encode_of_le (by decide), rfl⟩

/-- A RUN whose job gets the index `i` of the session and is launched. -/
def runEvents (i : Nat) (jobId : UInt32) : List Event :=
  [.read (.ok ((Frame.new .run .control).withPayload runJson)), .created jobId 0 0] ++
    (Job.launchEvents 0).map (.job i) ++ [.resume]

/-! ## What a step of a session can do -/

/-- The moves of a session: the request loop alone, a job with its frames, a new
job, or the writer. -/
inductive Move (s : Session) : Session → Prop where
  | request (requests : RequestPc) (handled : List Frame) :
    Move s { s with requests := requests, handled := handled }
  | job (i : Nat) (j j' : Job) (e : Job.Event) (requests : RequestPc)
    (handled : List Frame) (hget : s.jobs[i]? = some j) (hallows : s.allows e = true)
    (hstep : j.step e = some j') :
    Move s { s with
      jobs := s.jobs.set i j'
      enqueued := s.enqueued ++ j'.sent.drop j.sent.length
      requests := requests
      handled := handled }
  | create (jobId : UInt32) (timeout : Option Duration) (now last : SystemTime)
    (requests : RequestPc) :
    Move s { s with
      jobs := s.jobs ++ [Job.create jobId timeout now last], requests := requests }
  | writer (e : WriterEvent) (s' : Session) (h : s.stepWriter e = some s') : Move s s'

/-- The moves of the request loop, apart from the creation of a job.  It goes on,
and it may begin a call on a job. -/
inductive RequestMove (s : Session) : Session → Prop where
  | goes (requests : RequestPc) (handled : List Frame) :
    RequestMove s { s with requests := requests, handled := handled }
  | begins (i : Nat) (j j' : Job) (op : Job.Op) (requests : RequestPc)
    (handled : List Frame) (hget : s.jobs[i]? = some j)
    (hstep : j.step (.begin op) = some j') :
    RequestMove s { s with
      jobs := s.jobs.set i j'
      enqueued := s.enqueued ++ j'.sent.drop j.sent.length
      requests := requests
      handled := handled }

/-- The moves of the writer. -/
inductive WriterMove (s : Session) : Session → Prop where
  | receive (f : Frame) (hw : s.writer = .recv) (hget : s.enqueued[s.taken]? = some f)
    (henc : f.encode = .ok f.bytes) :
    WriterMove s { s with
      taken := s.taken + 1
      writer := .write (beBytes32 (UInt32.ofNat f.bytes.length)) (some f.bytes) }
  | refuse (f : Frame) (msg : String) (hw : s.writer = .recv)
    (hget : s.enqueued[s.taken]? = some f) :
    WriterMove s { s with
      taken := s.taken + 1, writer := .returned (.error (.protocol msg)) }
  | hungUp (hw : s.writer = .recv) :
    WriterMove s { s with writer := .returned (.ok ()) }
  | wrote (rest : List UInt8) (next : Option (List UInt8)) (n : Nat)
    (hw : s.writer = .write rest next) (hn : n ≤ rest.length) :
    WriterMove s { s with
      pipeOut := s.pipeOut ++ rest.take n, writer := .afterWrite (rest.drop n) next }
  | failed (rest : List UInt8) (next : Option (List UInt8)) (n : Nat) (e : IoError)
    (hw : s.writer = .write rest next) :
    WriterMove s { s with
      pipeOut := s.pipeOut ++ rest.take n, writer := .returned (.error (.io e)) }

section moves

variable {serde : Serde} {s s' : Session}

theorem stepJob_eq {i : Nat} {e : Job.Event} (h : s.stepJob i e = some s') :
    ∃ j j', s.jobs[i]? = some j ∧ s.allows e = true ∧ j.step e = some j' ∧
      s' = { s with
        jobs := s.jobs.set i j'
        enqueued := s.enqueued ++ j'.sent.drop j.sent.length } := by
  simp only [stepJob, Option.bind_eq_some_iff] at h
  obtain ⟨j, hget, h⟩ := h
  split at h
  · rename_i hallows
    obtain ⟨j', hstep, rfl⟩ := Option.map_eq_some_iff.mp h
    exact ⟨j, j', hget, hallows, hstep, rfl⟩
  · cases h

theorem stepJob_begins {i : Nat} {op : Job.Op} {requests : RequestPc}
    {handled : List Frame} (h : ({ s with handled := handled } : Session).stepJob i
      (.begin op) = some s') : RequestMove s { s' with requests := requests } := by
  obtain ⟨j, j', hget, -, hstep, rfl⟩ := stepJob_eq h
  exact .begins i j j' op requests handled hget hstep

theorem updateActivity_move {jobId : UInt32} {cancel : Bool} {handled : List Frame}
    (h : ({ s with handled := handled } : Session).updateActivity jobId cancel =
      some s') : RequestMove s s' := by
  unfold updateActivity at h
  split at h
  · obtain ⟨s'', hs, rfl⟩ := Option.map_eq_some_iff.mp h
    exact stepJob_begins hs
  · cases h
    exact .goes s.requests handled

theorem dispatch_move {r : Except Error Frame} (h : s.dispatch serde r = some s') :
    RequestMove s s' := by
  unfold dispatch at h
  split at h
  · cases h
    exact .goes _ s.handled
  · rename_i f
    simp only at h
    split at h
    · split at h <;> cases h <;> exact .goes _ _
    · exact updateActivity_move h
    · exact updateActivity_move h
    · cases h
      exact .goes _ _
    · split at h
      · exact updateActivity_move h
      · cases h
        exact .goes s.requests _

theorem resume_move (h : s.resume = some s') : RequestMove s s' := by
  unfold resume at h
  split at h
  · split at h
    · cases h
      exact .goes _ s.handled
    · cases h
      exact .goes _ s.handled
    · cases h
  · split at h
    · split at h
      · obtain ⟨s'', hs, rfl⟩ := Option.map_eq_some_iff.mp h
        exact stepJob_begins hs
      · cases h
        exact .goes _ s.handled
    · cases h
  · split at h
    · cases h
      exact .goes _ s.handled
    · cases h
  · cases h

/-- Who has moved: the request loop, which creates a job or not, a task of a job,
or the writer. -/
theorem step_cases {e : Event} (h : s.step serde e = some s') :
    RequestMove s s' ∧ (∀ r, s.requests ≠ .returned r) ∨
      (∃ jobId now last timeout, e = .created jobId now last ∧
        s.requests = .creating timeout ∧
        s' = { s with
          jobs := s.jobs ++ [Job.create jobId timeout now last]
          requests := .running s.jobs.length }) ∨
      (∃ i je, e = .job i je ∧ s.stepJob i je = some s') ∨
      ∃ we, e = .writer we ∧ s.stepWriter we = some s' := by
  cases e with
  | read r =>
    simp only [step] at h
    split at h
    · rename_i hpc
      exact Or.inl ⟨dispatch_move h, fun r => by simp [hpc]⟩
    · cases h
  | created jobId now last =>
    simp only [step] at h
    split at h
    · rename_i timeout hpc
      cases h
      exact Or.inr (Or.inl ⟨jobId, now, last, timeout, rfl, hpc, rfl⟩)
    · cases h
  | refused e =>
    simp only [step] at h
    split at h
    · rename_i hpc
      cases h
      exact Or.inl ⟨.goes _ s.handled, fun r => by simp [hpc]⟩
    · cases h
  | resume =>
    refine Or.inl ⟨resume_move h, ?_⟩
    intro r hpc
    simp [step, resume, hpc] at h
  | job i e => exact Or.inr (Or.inr (Or.inl ⟨i, e, rfl, h⟩))
  | writer e => exact Or.inr (Or.inr (Or.inr ⟨e, rfl, h⟩))

theorem step_move {e : Event} (h : s.step serde e = some s') : Move s s' := by
  rcases step_cases h with ⟨hr, -⟩ | ⟨jobId, now, last, timeout, -, -, rfl⟩ |
    ⟨i, je, -, hs⟩ | ⟨we, -, hw⟩
  · cases hr with
    | goes requests handled => exact .request requests handled
    | begins i j j' op requests handled hget hstep =>
      exact .job i j j' (.begin op) requests handled hget rfl hstep
  · exact .create jobId timeout now last _
  · obtain ⟨j, j', hget, hallows, hstep, rfl⟩ := stepJob_eq hs
    exact .job i j j' je s.requests s.handled hget hallows hstep
  · exact .writer we s' hw

theorem stepWriter_move {e : WriterEvent} (h : s.stepWriter e = some s') :
    WriterMove s s' := by
  unfold stepWriter at h
  split at h
  · rename_i hw
    obtain ⟨f, hget, rfl⟩ := Option.map_eq_some_iff.mp h
    cases henc : f.encode with
    | ok data =>
      obtain ⟨-, rfl⟩ := Frame.encode_eq_ok_iff.mp henc
      exact .receive f hw hget henc
    | error e =>
      obtain ⟨msg, rfl⟩ := Frame.encode_error henc
      exact .refuse f msg hw hget
  · rename_i hw
    split at h
    · cases h
      exact .hungUp hw
    · cases h
  · rename_i rest next n hw
    split at h
    · rename_i hn
      cases h
      exact .wrote rest next n hw hn
    · cases h
  · rename_i rest next code n hw
    split at h
    · cases h
      exact .failed rest next n _ hw
    · cases h
  · cases h

/-- The writer leaves the jobs and the sending side of the channel alone. -/
theorem stepWriter_keeps {e : WriterEvent} (h : s.stepWriter e = some s') :
    s'.jobs = s.jobs ∧ s'.enqueued = s.enqueued := by
  cases stepWriter_move h <;> exact ⟨rfl, rfl⟩

end moves

/-- Each job of a session is in a state that its own machine reaches. -/
theorem jobs_reachable {serde : Serde} {C : Session → Event → Prop} {s : Session}
    (h : (machine serde).Reach C s) : ∀ j ∈ s.jobs, Job.machine.Reachable j := by
  refine h.invariant (I := fun s => ∀ j ∈ s.jobs, Job.machine.Reachable j) ?_ ?_
  · rintro _ ⟨hello, ack, -, -, rfl⟩ j hj
    exact absurd hj List.not_mem_nil
  · intro s e s' hjobs _ hstep
    cases step_move hstep with
    | request requests handled => exact hjobs
    | job i j j' e requests handled hget hallows hjob =>
      intro k hk
      rcases List.mem_or_eq_of_mem_set hk with hk | rfl
      · exact hjobs k hk
      · exact (hjobs j (List.mem_of_getElem? hget)).step trivial hjob
    | create jobId timeout now last requests =>
      intro k hk
      rcases List.mem_append.mp hk with hk | hk
      · exact hjobs k hk
      · rw [List.mem_singleton.mp hk]
        exact ⟨_, [], ⟨jobId, timeout, now, last, rfl⟩, .nil _⟩
    | writer e s' hw =>
      intro k hk
      rw [(stepWriter_keeps hw).1] at hk
      exact hjobs k hk

/-! ## The jobs of a session in the ledger -/

/-- What the handles of the session's jobs say. -/
def ledger (s : Session) : Ledger Nat :=
  fun i => (s.jobs[i]?).bind fun j => j.handle.entry

/-- A step that leaves the jobs alone leaves the ledger alone. -/
theorem ledger_stay {s s' : Session} (h : s'.jobs = s.jobs) :
    Ledger.Step s.ledger s'.ledger := by
  have hsame : s'.ledger = s.ledger := by
    unfold ledger
    rw [h]
  rw [hsame]
  exact ⟨0, .stay _, fun _ _ => rfl⟩

/-- Every step of a session is a step of the ledger. -/
theorem ledger_step {serde : Serde} {s s' : Session} {e : Event}
    (h : s.step serde e = some s') : Ledger.Step s.ledger s'.ledger := by
  cases step_move h with
  | request requests handled => exact ledger_stay rfl
  | job i j j' e requests handled hget hallows hjob =>
    refine ⟨i, ?_, ?_⟩
    · obtain ⟨hlt, -⟩ := List.getElem?_eq_some_iff.mp hget
      simp only [ledger, hget, List.getElem?_set_self hlt, Option.bind_some]
      exact Job.step_entry hjob
    · intro k hk
      simp only [ledger, List.getElem?_set_ne (Ne.symm hk)]
  | create jobId timeout now last requests =>
    refine ⟨s.jobs.length, ?_, ?_⟩
    · simp only [ledger, List.getElem?_concat_length, List.getElem?_eq_none (Nat.le_refl _),
        Option.bind_some, Option.bind_none]
      exact .create
    · intro k hk
      simp only [ledger, getElem?_concat_ne hk]
  | writer e s' hw => exact ledger_stay (stepWriter_keeps hw).1

/-- A job that has ended keeps its state and its completion time to the end of
the session. -/
theorem ended_of_path {serde : Serde} {C : Session → Event → Prop} {s s' : Session}
    {es : List Event} (hp : (machine serde).Path C s es s') {i : Nat} {st : JobState}
    {hst : st.isTerminal = true} {t : SystemTime}
    (hi : s.ledger i = some (.ended st hst t)) : s'.ledger i = some (.ended st hst t) := by
  have hsteps : Relation.ReflTransGen Ledger.Step s.ledger s'.ledger :=
    hp.refines (I := fun _ => True) (fun _ _ _ _ _ _ => trivial)
      (fun _ _ _ _ _ hstep => ledger_step hstep) trivial
  exact Ledger.ended_of_steps hsteps hi

end Session

end RemoteAgent
