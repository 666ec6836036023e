import RemoteAgent.CodeLib.StepMachine
import RemoteAgent.IoPump.Pump
import RemoteAgent.JobManager.Calls

/-!
# The tasks of one job

What runs on behalf of one job, from its registration on: `handle_run` of the
session that started it, its exit watcher with the blocking wait thread, its
timeout monitor, and the calls that any session, the cleanup task or the
shutdown makes on it.  The output pumps are in `IoPump.Pump`.  Each task is an
inductive type of positions with a function for its next atomic action.  The
function gets what the action reads and returns what it writes, so its type
already says what a task leaves alone.

* A critical section under the job's state mutex is one action, and a lookup in
  the registry is an action of its own: a job may be removed between the lookup
  and the critical section.
* `registered` says whether the registry still maps the job's id to this
  handle.  The id is taken to have one owner: no older job with the same id
  still has a call under way (`JobManager.Ids` says when ids are unique).
* The clock values that `SystemTime::now()` returns, the outcomes of Win32 calls
  and of sends on the channel, and which ready branch a `select!` takes, come
  with the event.
-/

namespace RemoteAgent.Job

open CodeLib Protocol IoPump
open JobManager (SystemTime Duration HANDLE JobState JobHandle quietElapsed)

/-! ## The process and its pipes -/

/-- The two output streams of a process. -/
inductive Out where
  | stdout
  | stderr
  deriving DecidableEq, Repr

def Out.streamId : Out → StreamId
  | .stdout => .stdout
  | .stderr => .stderr

/-- `LaunchedProcess` as `launch` returns it.  A successful `CreateProcessW` and
`CreateJobObjectW` return handles that are not null, and handles that are open
at the same time differ. -/
structure LaunchedProcess where
  processHandle : HANDLE
  threadHandle : HANDLE
  processId : UInt32
  jobObject : HANDLE
  stdoutRead : HANDLE
  stderrRead : HANDLE
  stdinWrite : HANDLE
  process_valid : processHandle ≠ 0
  object_valid : jobObject ≠ 0
  thread_ne_object : threadHandle ≠ jobObject
  thread_ne_process : threadHandle ≠ processHandle
  process_ne_object : processHandle ≠ jobObject
  deriving DecidableEq

/-- A launched process, and its exit code once it has exited. -/
structure Process where
  launched : LaunchedProcess
  exitCode : Option UInt32
  deriving DecidableEq

/-- The pipe of one output stream: the bytes that were read out of it, what
waits in it, and whether anyone can still write.  A `none` among what waits is a
write of length zero. -/
structure Pipe where
  consumed : List UInt8
  unread : List (Option UInt8)
  writersOpen : Bool
  deriving DecidableEq, Repr

namespace Pipe

def fresh : Pipe := ⟨[], [], true⟩

/-- Everything that was written to the stream. -/
def written (p : Pipe) : List UInt8 := p.consumed ++ p.unread.reduceOption

/-- The process, or one that inherited the handle, writes. -/
def write (p : Pipe) (data : List UInt8) : Option Pipe :=
  if p.writersOpen then
    some { p with
      unread := p.unread ++ if data.isEmpty then [none] else data.map some }
  else none

/-- Take a chunk that fits the buffer out of the pipe. -/
def take (p : Pipe) (data : List UInt8) : Option Pipe :=
  if (data.map some).isPrefixOf p.unread && data.length ≤ maxPayloadSize then
    some { p with
      consumed := p.consumed ++ data
      unread := p.unread.drop data.length }
  else none

/-- The outcomes that `ReadFile` can have.  It succeeds with no bytes exactly
when it meets a write of length zero, and it reports a broken pipe exactly when
the pipe is empty and nobody can write any more. -/
def readFile (p : Pipe) : ReadOutcome → Option Pipe
  | .ok [] =>
    match p.unread with
    | none :: rest => some { p with unread := rest }
    | _ => none
  | .ok data => p.take data
  | .err code data =>
    if code = errorBrokenPipe then
      if p.unread.isEmpty && !p.writersOpen && data.isEmpty then some p else none
    else if code = errorMoreData then p.take data
    else if IsWin32Error code ∧ data.isEmpty then some p
    else none

/-- Everything that was written has been read, and nothing more can come. -/
def atEnd (p : Pipe) : Bool := p.unread.isEmpty && !p.writersOpen

end Pipe

/-! ## Positions of the tasks -/

/-- A call of `transition_state`: the lookup, then the critical section. -/
inductive CommitPc where
  | getJob
  | commit
  deriving DecidableEq, Repr

/-- A call of `cleanup_job`. -/
inductive CleanupPc where
  | getJob
  | cancelToken
  | remove
  | returned
  deriving DecidableEq, Repr

def CleanupPc.step (a : JobHandle) (registered : Bool) :
    CleanupPc → Option (JobHandle × Bool × CleanupPc)
  | .getJob => some (a, registered, if registered then .cancelToken else .returned)
  | .cancelToken => some (a.cancel, registered, .remove)
  | .remove => some (a, false, .returned)
  | .returned => none

def CleanupPc.holdsArc : CleanupPc → Bool
  | .cancelToken | .remove => true
  | _ => false

/-! ## `handle_run` -/

/-- `handle_run`, from the insertion of the job into the registry on. -/
inductive RunPc where
  | inserted
  | sendAck
  | toStarting (pc : CommitPc)
  | launch
  | storeProcess (p : LaunchedProcess)
  | storeJobObject (p : LaunchedProcess)
  | toRunning (p : LaunchedProcess) (pc : CommitPc)
  | activityGet (p : LaunchedProcess)
  | activityWrite (p : LaunchedProcess)
  | spawnPump (p : LaunchedProcess) (o : Out)
  | spawnMonitor (p : LaunchedProcess)
  | spawnWatcher (p : LaunchedProcess)
  | toFailed (msg : String) (pc : CommitPc)
  | sendError (msg : String)
  | cleanup (pc : CleanupPc)
  | returned (r : Except Error Unit)
  deriving DecidableEq

def RunPc.holdsArc : RunPc → Bool
  | .returned _ => false
  | _ => true

inductive RunEvent where
  | step (now : SystemTime)
  | sent
  | closed
  | launched (p : LaunchedProcess)
  | launchFailed (msg : String)
  deriving DecidableEq

/-- What an action of `handle_run` does apart from the handle and its own
position. -/
inductive RunEffect where
  | none
  | created
  | send (f : Frame)
  | start (p : LaunchedProcess)
  | spawnPump (o : Out)
  | spawnMonitor
  | spawnWatcher (p : LaunchedProcess)
  | closeThread (p : LaunchedProcess)
  | register (registered : Bool)
  deriving DecidableEq

def runAckFrame (jobId : UInt32) : Frame :=
  (Frame.new .runAck .control).withJobId jobId

/-- A string's bytes, as `Bytes::from` takes them. -/
def textBytes (s : String) : List UInt8 := s.toUTF8.data.toList

def errorFrame (jobId : UInt32) (msg : String) : Frame :=
  ((Frame.new .error .control).withJobId jobId).withPayload
    (textBytes ("Launch failed: " ++ msg))

/-- The error of a RUN_ACK that the closed channel did not take. -/
def ackError : Error := .protocol "Send ACK: channel closed"

/-- The next action of `handle_run`. -/
def RunPc.step (a : JobHandle) (registered : Bool) :
    RunPc → RunEvent → Option (JobHandle × RunPc × RunEffect)
  | .inserted, .step _ => some (a, .sendAck, .created)
  | .sendAck, .sent => some (a, .toStarting .getJob, .send (runAckFrame a.jobId))
  | .sendAck, .closed => some (a, .returned (.error ackError), .none)
  | .toStarting .getJob, .step _ =>
    if registered then some (a, .toStarting .commit, .none)
    else some (a, .returned (.error (.jobNotFound a.jobId)), .none)
  | .toStarting .commit, .step now =>
    match a.transition .starting now with
    | .ok a' => some (a', .launch, .none)
    | .error e => some (a, .returned (.error e), .none)
  | .launch, .launched p => some (a, .storeProcess p, .start p)
  | .launch, .launchFailed msg => some (a, .toFailed msg .getJob, .none)
  | .storeProcess p, .step _ =>
    some ({ a with processHandle := p.processHandle }, .storeJobObject p, .none)
  | .storeJobObject p, .step _ =>
    some ({ a with jobObject := p.jobObject }, .toRunning p .getJob, .none)
  | .toRunning p .getJob, .step _ =>
    if registered then some (a, .toRunning p .commit, .none)
    else some (a, .returned (.error (.jobNotFound a.jobId)), .closeThread p)
  | .toRunning p .commit, .step now =>
    match a.transition .running now with
    | .ok a' => some (a', .activityGet p, .none)
    | .error e => some (a, .returned (.error e), .closeThread p)
  | .activityGet p, .step _ =>
    some (a, if registered then .activityWrite p else .spawnPump p .stdout, .none)
  | .activityWrite p, .step now => some (a.touch now, .spawnPump p .stdout, .none)
  | .spawnPump p .stdout, .step _ => some (a, .spawnPump p .stderr, .spawnPump .stdout)
  | .spawnPump p .stderr, .step _ => some (a, .spawnMonitor p, .spawnPump .stderr)
  | .spawnMonitor p, .step _ => some (a, .spawnWatcher p, .spawnMonitor)
  | .spawnWatcher p, .step _ => some (a, .returned (.ok ()), .spawnWatcher p)
  | .toFailed msg .getJob, .step _ =>
    some (a, if registered then .toFailed msg .commit else .sendError msg, .none)
  | .toFailed msg .commit, .step now =>
    some (a.commit .failed now, .sendError msg, .none)
  | .sendError msg, .sent => some (a, .cleanup .getJob, .send (errorFrame a.jobId msg))
  | .sendError _, .closed => some (a, .cleanup .getJob, .none)
  | .cleanup .returned, .step _ => some (a, .returned (.ok ()), .none)
  | .cleanup pc, .step _ =>
    match pc.step a registered with
    | some (a', registered', pc') => some (a', .cleanup pc', .register registered')
    | none => none
  | _, _ => none

/-! ## `monitor_timeout` -/

/-- `monitor_timeout`, with `terminate_job` from `cancelToken` on. -/
inductive MonitorPc where
  | notSpawned
  | start
  | checkState
  | checkToken
  | checkElapsed
  | sleeping
  | toTimedOut (pc : CommitPc)
  | cancelToken
  | terminateObject
  | awaitExit
  | terminateProcess
  | returned
  deriving DecidableEq, Repr

def MonitorPc.holdsArc : MonitorPc → Bool
  | .notSpawned | .returned => false
  | _ => true

/-- `elapsed` carries what `start.elapsed()` returns, `terminated` whether the
call of `TerminateJobObject` or `TerminateProcess` succeeded. -/
inductive MonitorEvent where
  | step (now : SystemTime)
  | elapsed (d : Duration)
  | slept
  | cancelled
  | terminated (ok : Bool)
  | exitSeen
  | gaveUp
  deriving DecidableEq, Repr

/-- The next action of the monitor, with the handles that it asks the system to
terminate.  `exited` says whether the process has exited. -/
def MonitorPc.step (a : JobHandle) (registered exited : Bool) :
    MonitorPc → MonitorEvent → Option (JobHandle × MonitorPc × List HANDLE)
  | .start, .step _ =>
    some (a, if a.timeout.isSome then .checkState else .returned, [])
  | .checkState, .step _ =>
    some (a, if a.state.isTerminal then .returned else .checkToken, [])
  | .checkToken, .step _ =>
    some (a, if a.cancellationToken then .returned else .checkElapsed, [])
  | .checkElapsed, .elapsed d =>
    match a.timeout with
    | some timeout =>
      some (a, if d ≥ timeout then .toTimedOut .getJob else .sleeping, [])
    | none => none
  | .sleeping, .slept => some (a, .checkState, [])
  | .sleeping, .cancelled =>
    if a.cancellationToken then some (a, .returned, []) else none
  | .toTimedOut .getJob, .step _ =>
    some (a, if registered then .toTimedOut .commit else .cancelToken, [])
  | .toTimedOut .commit, .step now => some (a.commit .timedOut now, .cancelToken, [])
  | .cancelToken, .step _ => some (a.cancel, .terminateObject, [])
  | .terminateObject, .step _ =>
    if a.jobObject = 0 then some (a, .terminateProcess, []) else none
  | .terminateObject, .terminated ok =>
    if a.jobObject = 0 then none
    else if ok && a.processHandle ≠ 0 then some (a, .awaitExit, [a.jobObject])
    else some (a, .terminateProcess, [a.jobObject])
  | .awaitExit, .exitSeen => if exited then some (a, .returned, []) else none
  | .awaitExit, .gaveUp => some (a, .terminateProcess, [])
  | .terminateProcess, .step _ =>
    if a.processHandle = 0 then some (a, .returned, []) else none
  | .terminateProcess, .terminated _ =>
    if a.processHandle = 0 then none else some (a, .returned, [a.processHandle])
  | _, _ => none

/-! ## The exit watcher -/

/-- The blocking thread of `wait_for_process_exit`.  It keeps the raw handle and
no `Arc`.  `finished` carries the code that `GetExitCodeProcess` has given, if
it succeeded. -/
inductive WaiterPc where
  | notSpawned
  | waiting (h : HANDLE)
  | signaled (h : HANDLE)
  | finished (code : Option UInt32)
  deriving DecidableEq, Repr

/-- `wait` is one `WaitForSingleObject`, `query` one `GetExitCodeProcess`. -/
inductive WaiterEvent where
  | wait
  | query (ok : Bool)
  deriving DecidableEq, Repr

/-- The next action of the thread.  A wait on a handle that was closed fails, and
the loop goes on. -/
def WaiterPc.step (closed : List HANDLE) (process : Option Process) :
    WaiterPc → WaiterEvent → Option WaiterPc
  | .waiting h, .wait =>
    if h ∉ closed ∧ (process.bind Process.exitCode).isSome then some (.signaled h)
    else some (.waiting h)
  | .signaled _, .query ok =>
    some (.finished (if ok then process.bind Process.exitCode else none))
  | _, _ => none

/-- What `wait_for_process_exit` returns when the thread has finished. -/
def waitResult (code : Option UInt32) : Int32 :=
  match code with
  | some c => c.toInt32
  | none => -1

/-- The exit watcher. -/
inductive WatcherPc where
  | notSpawned
  | start
  | select
  | toExiting (code : Int32) (pc : CommitPc)
  | activityGet (code : Int32)
  | activityWrite (code : Int32)
  | sendExit (code : Int32)
  | toCompleted (pc : CommitPc)
  | returned
  deriving DecidableEq, Repr

def WatcherPc.holdsArc : WatcherPc → Bool
  | .notSpawned | .returned => false
  | _ => true

/-- `exited` and `cancelled` are the two branches of the `select!`. -/
inductive WatcherEvent where
  | step (now : SystemTime)
  | exited
  | cancelled
  | sent
  | closed
  deriving DecidableEq, Repr

/-- `serde_json::to_vec` of the payload: one field, written as a number. -/
def ExitPayload.toJson (p : ExitPayload) : List UInt8 :=
  textBytes ("\x7b\"exit_code\":" ++ toString p.exitCode.toInt ++ "\x7d")

def exitFrame (jobId : UInt32) (code : Int32) : Frame :=
  ((Frame.new .exit .control).withJobId jobId).withPayload (ExitPayload.toJson ⟨code⟩)

/-- The next action of the watcher, with the wait thread and the frame that the
channel has accepted. -/
def WatcherPc.step (a : JobHandle) (registered : Bool) (waiter : WaiterPc) :
    WatcherPc → WatcherEvent → Option (JobHandle × WatcherPc × WaiterPc × List Frame)
  | .start, .step _ => some (a, .select, .waiting a.processHandle, [])
  | .select, .exited =>
    match waiter with
    | .finished code => some (a, .toExiting (waitResult code) .getJob, waiter, [])
    | _ => none
  | .select, .cancelled =>
    -- the error of a cancelled wait becomes -1 through `unwrap_or`
    if a.cancellationToken then some (a, .toExiting (-1) .getJob, waiter, []) else none
  | .toExiting code .getJob, .step _ =>
    some (a, if registered then .toExiting code .commit else .activityGet code, waiter, [])
  | .toExiting code .commit, .step now =>
    some (a.commit .exiting now, .activityGet code, waiter, [])
  | .activityGet code, .step _ =>
    some (a, if registered then .activityWrite code else .sendExit code, waiter, [])
  | .activityWrite code, .step now => some (a.touch now, .sendExit code, waiter, [])
  | .sendExit code, .sent =>
    some (a, .toCompleted .getJob, waiter, [exitFrame a.jobId code])
  | .sendExit _, .closed => some (a, .toCompleted .getJob, waiter, [])
  | .toCompleted .getJob, .step _ =>
    some (a, if registered then .toCompleted .commit else .returned, waiter, [])
  | .toCompleted .commit, .step now =>
    some (a.commit .completed now, .returned, waiter, [])
  | _, _ => none

/-! ## Calls from elsewhere -/

inductive ActivityPc where
  | getJob
  | write
  | returned
  deriving DecidableEq, Repr

inductive CancelPc where
  | getJob
  | checkTerminal
  | cancelToken
  | toCanceled (pc : CommitPc)
  | returned
  deriving DecidableEq, Repr

/-- Collect the registered keys and call `cleanup_job` on each, as far as it
concerns this job. -/
inductive SweepPc where
  | collect
  | cleanup (pc : CleanupPc)
  | returned
  deriving DecidableEq, Repr

/-- `cleanup_idle_jobs`, as far as it concerns this job: the scan for a job that
is not terminal, the quiet test, the visit of the idle branch, and the calls of
`cleanup_job`. -/
inductive IdlePc where
  | begin
  | scan (now last : SystemTime)
  | quiet (now last : SystemTime)
  | visit (now : SystemTime)
  | sweep (pc : SweepPc)
  deriving DecidableEq, Repr

/-- A call that some other task makes on the job. -/
inductive Call where
  | updateActivity (pc : ActivityPc)
  | cancelJob (pc : CancelPc)
  | cleanupIdleJobs (pc : IdlePc)
  | forceCleanupAll (pc : SweepPc)
  deriving DecidableEq, Repr

/-- `othersActive`: the scan has met another job that is not terminal. -/
inductive CallEvent where
  | step (now : SystemTime)
  | othersActive
  deriving DecidableEq, Repr

/-- Nanoseconds of the service's thresholds. -/
def idleCleanupThreshold : Duration := 30 * 60 * 1000000000
def quietCleanupThreshold : Duration := 2 * 60 * 1000000000

def ActivityPc.step (a : JobHandle) (registered : Bool) (now : SystemTime) :
    ActivityPc → Option (JobHandle × ActivityPc)
  | .getJob => some (a, if registered then .write else .returned)
  | .write => some (a.touch now, .returned)
  | .returned => none

def CancelPc.step (a : JobHandle) (registered : Bool) (now : SystemTime) :
    CancelPc → Option (JobHandle × CancelPc)
  | .getJob => some (a, if registered then .checkTerminal else .returned)
  | .checkTerminal => some (a, if a.state.isTerminal then .returned else .cancelToken)
  | .cancelToken => some (a.cancel, .toCanceled .getJob)
  | .toCanceled .getJob =>
    some (a, if registered then .toCanceled .commit else .returned)
  | .toCanceled .commit => some (a.commit .canceled now, .returned)
  | .returned => none

def SweepPc.step (a : JobHandle) (registered : Bool) :
    SweepPc → Option (JobHandle × Bool × SweepPc)
  | .collect =>
    some (a, registered, if registered then .cleanup .getJob else .returned)
  | .cleanup .returned => some (a, registered, .returned)
  | .cleanup pc =>
    (pc.step a registered).map fun (a', registered', pc') =>
      (a', registered', .cleanup pc')
  | .returned => none

def IdlePc.step (a : JobHandle) (registered : Bool) (lastJobCreated : SystemTime) :
    IdlePc → CallEvent → Option (JobHandle × Bool × IdlePc)
  | .begin, .step now => some (a, registered, .scan now lastJobCreated)
  | .scan now last, .step _ =>
    some (a, registered,
      if registered && !a.state.isTerminal then .visit now else .quiet now last)
  | .scan now _, .othersActive => some (a, registered, .visit now)
  | .quiet now last, .step _ =>
    some (a, registered,
      if quietElapsed now last quietCleanupThreshold then .sweep .collect
      else .visit now)
  | .quiet now _, .othersActive => some (a, registered, .visit now)
  | .visit now, .step _ =>
    some (a, registered,
      if registered && a.shouldCleanup now idleCleanupThreshold then
        .sweep (.cleanup .getJob)
      else .sweep .returned)
  | .sweep pc, .step _ =>
    (pc.step a registered).map fun (a', registered', pc') =>
      (a', registered', .sweep pc')
  | _, _ => none

/-- The next action of a call. -/
def Call.step (a : JobHandle) (registered : Bool) (lastJobCreated : SystemTime) :
    Call → CallEvent → Option (JobHandle × Bool × Call)
  | .updateActivity pc, .step now =>
    (pc.step a registered now).map fun (a', pc') =>
      (a', registered, .updateActivity pc')
  | .cancelJob pc, .step now =>
    (pc.step a registered now).map fun (a', pc') => (a', registered, .cancelJob pc')
  | .cleanupIdleJobs pc, e =>
    (pc.step a registered lastJobCreated e).map fun (a', registered', pc') =>
      (a', registered', .cleanupIdleJobs pc')
  | .forceCleanupAll pc, .step _ =>
    (pc.step a registered).map fun (a', registered', pc') =>
      (a', registered', .forceCleanupAll pc')
  | _, _ => none

def SweepPc.holdsArc : SweepPc → Bool
  | .cleanup pc => pc.holdsArc
  | _ => false

def Call.holdsArc : Call → Bool
  | .updateActivity .write => true
  | .cancelJob .checkTerminal | .cancelJob .cancelToken => true
  | .cancelJob (.toCanceled _) => true
  | .cleanupIdleJobs (.sweep pc) => pc.holdsArc
  | .forceCleanupAll pc => pc.holdsArc
  | _ => false

/-- The calls that a task can make on the job. -/
inductive Op where
  | updateActivity
  | cancelJob
  | cleanupIdleJobs
  | forceCleanupAll
  deriving DecidableEq, Repr

def Op.begin : Op → Call
  | .updateActivity => .updateActivity .getJob
  | .cancelJob => .cancelJob .getJob
  | .cleanupIdleJobs => .cleanupIdleJobs .begin
  | .forceCleanupAll => .forceCleanupAll .collect

end RemoteAgent.Job
