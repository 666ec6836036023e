import RemoteAgent.CodeLib.StepMachine
import RemoteAgent.Job.Tasks
import RemoteAgent.JobManager.Ledger

/-!
# One job as a machine

A job with all its tasks, its process and its pipes.  A step lets one task do
its next atomic action, starts a call, or is a move of the environment: the
process writes or exits, the last writer of a pipe goes away, another job is
created.  Runs of the machine are therefore all interleavings.

A task holds an `Arc` to the handle from the moment it gets it to its end, and
so does the registry.  When the last one lets go, `Drop` closes the process
handle and the job object; `settle` does this at the end of every step.

* `step_run`, `step_pump`, … say what a step of each task does to the job.
* `step_entry` is the refinement: a step moves the entry of the job in the
  ledger of the job manager once, or not at all.
* `Staged` is what holds in every reachable state about what `handle_run` has
  spawned so far (`staged_reachable`).
-/

namespace RemoteAgent

open CodeLib Protocol IoPump Job
open JobManager (SystemTime Duration HANDLE JobState JobHandle Entry)

/-- One job with its tasks, its process, and what its tasks have done outside:
`sent` are the frames that the channel has accepted, `refused` the OUTPUT frames
that it refused, `terminated` the handles given to `TerminateJobObject` or
`TerminateProcess`, `closed` those given to `CloseHandle`. -/
structure Job where
  handle : JobHandle
  registered : Bool
  lastJobCreated : SystemTime
  run : RunPc
  pump : Out → Pump
  window : StreamPump
  monitor : MonitorPc
  watcher : WatcherPc
  waiter : WaiterPc
  calls : List Job.Call
  process : Option Process
  pipe : Out → Pipe
  sent : List Frame
  refused : List Frame
  terminated : List HANDLE
  closed : List HANDLE
  dropped : Bool

namespace Job

/-- A job that `create_job` has just inserted.  `handle_run` makes its window
with `StreamPump::new(65536, false)`. -/
def create (jobId : UInt32) (timeout : Option Duration)
    (now lastJobCreated : SystemTime) : Job where
  handle := JobHandle.create jobId timeout now
  registered := true
  lastJobCreated := lastJobCreated
  run := .inserted
  pump := fun _ => Pump.fresh
  window := StreamPump.new 65536 false
  monitor := .notSpawned
  watcher := .notSpawned
  waiter := .notSpawned
  calls := []
  process := none
  pipe := fun _ => Pipe.fresh
  sent := []
  refused := []
  terminated := []
  closed := []
  dropped := false

/-- Whether the process has exited. -/
def exitCode (j : Job) : Option UInt32 := j.process.bind Process.exitCode

/-- Moves of the environment. -/
inductive OsEvent where
  | write (o : Out) (data : List UInt8)
  | closeWriters (o : Out)
  | exit (code : UInt32)
  | otherCreated (now : SystemTime)
  deriving DecidableEq

inductive Event where
  | run (e : RunEvent)
  | pump (o : Out) (e : PumpEvent)
  | monitor (e : MonitorEvent)
  | watcher (e : WatcherEvent)
  | waiter (e : WaiterEvent)
  | begin (op : Op)
  | call (i : Nat) (e : CallEvent)
  | os (e : OsEvent)
  deriving DecidableEq

/-! ## Letting go of the handle -/

/-- Whether anyone holds an `Arc` to the handle. -/
def held (j : Job) : Bool :=
  j.registered || j.run.holdsArc || j.monitor.holdsArc || j.watcher.holdsArc ||
    j.calls.any Call.holdsArc

/-- `take` the handles that are not null, and close them. -/
def taken (a : JobHandle) : List HANDLE :=
  [a.processHandle, a.jobObject].filter (· ≠ 0)

/-- `Drop for JobHandle`, when the last `Arc` is gone. -/
def settle (j : Job) : Job :=
  if j.held || j.dropped then j
  else
    { j with
      handle := { j.handle with processHandle := 0, jobObject := 0 }
      closed := j.closed ++ taken j.handle
      dropped := true }

/-! ## Steps -/

/-- What an action of `handle_run` does apart from the handle. -/
def effect (j : Job) : RunEffect → Job
  | .none => j
  | .created => { j with lastJobCreated := j.handle.startTime }
  | .send f => { j with sent := j.sent ++ [f] }
  | .start p => { j with process := some ⟨p, none⟩ }
  | .spawnPump o =>
    { j with pump := Function.update j.pump o { j.pump o with pc := .checkToken } }
  | .spawnMonitor => { j with monitor := .start }
  | .spawnWatcher p =>
    { j with watcher := .start, closed := j.closed ++ [p.threadHandle] }
  | .closeThread p => { j with closed := j.closed ++ [p.threadHandle] }
  | .register registered => { j with registered := registered }

/-- The pipe after a pump's action, which is a read of it or leaves it alone. -/
def readPipe (p : Pipe) : PumpEvent → Option Pipe
  | .readDone r => p.readFile r
  -- nothing calls `update_window`, so nobody notifies
  | .notified => none
  | _ => some p

/-- The frame that the channel refuses when it is closed. -/
def refuses (p : Pump) : PumpEvent → List Frame
  | .closed =>
    match p.pc with
    | .trySend _ f .send => [f]
    | _ => []
  | _ => []

def osStep (j : Job) : OsEvent → Option Job
  | .write o data =>
    if j.process.isSome then
      ((j.pipe o).write data).map fun p => { j with pipe := Function.update j.pipe o p }
    else none
  | .closeWriters o =>
    some { j with pipe := Function.update j.pipe o { j.pipe o with writersOpen := false } }
  | .exit code =>
    match j.process with
    | some ⟨p, none⟩ => some { j with process := some ⟨p, some code⟩ }
    | _ => none
  | .otherCreated now => some { j with lastJobCreated := now }

/-- One action, before anyone lets go of the handle. -/
def act (j : Job) : Event → Option Job
  | .run e =>
    (j.run.step j.handle j.registered e).map fun (a, pc, eff) =>
      effect { j with handle := a, run := pc } eff
  | .pump o e =>
    (readPipe (j.pipe o) e).bind fun p =>
      ((j.pump o).step j.handle.jobId o.streamId j.handle.cancellationToken j.window e).map
        fun (w, q, fs) =>
          { j with
            window := w
            pump := Function.update j.pump o q
            pipe := Function.update j.pipe o p
            sent := j.sent ++ fs
            refused := j.refused ++ refuses (j.pump o) e }
  | .monitor e =>
    (j.monitor.step j.handle j.registered j.exitCode.isSome e).map fun (a, pc, hs) =>
      { j with handle := a, monitor := pc, terminated := j.terminated ++ hs }
  | .watcher e =>
    (j.watcher.step j.handle j.registered j.waiter e).map fun (a, pc, waiter, fs) =>
      { j with handle := a, watcher := pc, waiter := waiter, sent := j.sent ++ fs }
  | .waiter e =>
    (j.waiter.step j.closed j.process e).map fun pc => { j with waiter := pc }
  | .begin op => some { j with calls := j.calls ++ [op.begin] }
  | .call i e =>
    (j.calls[i]?).bind fun c =>
      (c.step j.handle j.registered j.lastJobCreated e).map fun (a, registered, c') =>
        { j with handle := a, registered := registered, calls := j.calls.set i c' }
  | .os e => j.osStep e

def step (j : Job) (e : Event) : Option Job := (j.act e).map settle

def Initial (j : Job) : Prop :=
  ∃ jobId timeout now last, j = create jobId timeout now last

/-- The machine of one job. -/
def machine : StepMachine Job Event where
  Init := Initial
  step := step

/-! ## Parts of runs

Lists of events from which concrete runs are put together. -/

/-- A process with its handles. -/
def shell : LaunchedProcess where
  processHandle := 100
  threadHandle := 101
  processId := 7
  jobObject := 102
  stdoutRead := 103
  stderrRead := 104
  stdinWrite := 105
  process_valid := by decide
  object_valid := by decide
  thread_ne_object := by decide
  thread_ne_process := by decide
  process_ne_object := by decide

/-- `handle_run` from the insertion to its return, with a launch that
succeeds. -/
def launchEvents (now : SystemTime) : List Event :=
  [.run (.step now), .run .sent, .run (.step now), .run (.step now),
    .run (.launched shell)] ++ List.replicate 10 (.run (.step now))

/-- A pump finds the token clear, reads, passes the guard and sends. -/
def pumpEvents (o : Out) (r : ReadOutcome) : List Event :=
  [.pump o .step, .pump o (.readDone r), .pump o .step, .pump o .step, .pump o .step,
    .pump o .sent]

/-- The wait thread sees the process exit, and the watcher moves the job to
Exiting and stands before EXIT. -/
def exitEvents (now : SystemTime) : List Event :=
  [.watcher (.step now), .waiter .wait, .waiter (.query true), .watcher .exited] ++
    List.replicate 4 (.watcher (.step now))

/-- A call of `cancel_job` that is the only call, from its start to its end. -/
def cancelEvents (now : SystemTime) : List Event :=
  .begin .cancelJob :: List.replicate 5 (.call 0 (.step now))

/-! ## What settling leaves alone -/

section settle

variable (j : Job)

@[simp] theorem settle_registered : j.settle.registered = j.registered := by
  unfold settle; split <;> rfl

@[simp] theorem settle_lastJobCreated : j.settle.lastJobCreated = j.lastJobCreated := by
  unfold settle; split <;> rfl

@[simp] theorem settle_run : j.settle.run = j.run := by
  unfold settle; split <;> rfl

@[simp] theorem settle_pump : j.settle.pump = j.pump := by
  unfold settle; split <;> rfl

@[simp] theorem settle_window : j.settle.window = j.window := by
  unfold settle; split <;> rfl

@[simp] theorem settle_monitor : j.settle.monitor = j.monitor := by
  unfold settle; split <;> rfl

@[simp] theorem settle_watcher : j.settle.watcher = j.watcher := by
  unfold settle; split <;> rfl

@[simp] theorem settle_waiter : j.settle.waiter = j.waiter := by
  unfold settle; split <;> rfl

@[simp] theorem settle_calls : j.settle.calls = j.calls := by
  unfold settle; split <;> rfl

@[simp] theorem settle_process : j.settle.process = j.process := by
  unfold settle; split <;> rfl

@[simp] theorem settle_exitCode : j.settle.exitCode = j.exitCode := by
  unfold settle; split <;> rfl

@[simp] theorem settle_pipe : j.settle.pipe = j.pipe := by
  unfold settle; split <;> rfl

@[simp] theorem settle_sent : j.settle.sent = j.sent := by
  unfold settle; split <;> rfl

@[simp] theorem settle_refused : j.settle.refused = j.refused := by
  unfold settle; split <;> rfl

@[simp] theorem settle_terminated : j.settle.terminated = j.terminated := by
  unfold settle; split <;> rfl

@[simp] theorem settle_jobId : j.settle.handle.jobId = j.handle.jobId := by
  unfold settle; split <;> rfl

@[simp] theorem settle_state : j.settle.handle.state = j.handle.state := by
  unfold settle; split <;> rfl

@[simp] theorem settle_entry : j.settle.handle.entry = j.handle.entry := by
  unfold settle; split <;> rfl

@[simp] theorem settle_token :
    j.settle.handle.cancellationToken = j.handle.cancellationToken := by
  unfold settle; split <;> rfl

end settle

/-! An action of `handle_run` leaves these parts of the job alone. -/

section effect

variable (j : Job) (eff : RunEffect)

@[simp] theorem effect_run : (j.effect eff).run = j.run := by
  cases eff <;> rfl

@[simp] theorem effect_handle : (j.effect eff).handle = j.handle := by
  cases eff <;> rfl

@[simp] theorem effect_waiter : (j.effect eff).waiter = j.waiter := by
  cases eff <;> rfl

@[simp] theorem effect_calls : (j.effect eff).calls = j.calls := by
  cases eff <;> rfl

@[simp] theorem effect_pipe : (j.effect eff).pipe = j.pipe := by
  cases eff <;> rfl

@[simp] theorem effect_window : (j.effect eff).window = j.window := by
  cases eff <;> rfl

@[simp] theorem effect_refused : (j.effect eff).refused = j.refused := by
  cases eff <;> rfl

@[simp] theorem effect_dropped : (j.effect eff).dropped = j.dropped := by
  cases eff <;> rfl

end effect

/-! ## What a step of each task does -/

section step

variable {j j' : Job}

theorem step_run {e : RunEvent} (h : j.step (.run e) = some j') :
    ∃ a pc eff, j.run.step j.handle j.registered e = some (a, pc, eff) ∧
      j' = settle (effect { j with handle := a, run := pc } eff) := by
  simp only [step, act, Option.map_map, Option.map_eq_some_iff] at h
  obtain ⟨⟨a, pc, eff⟩, hs, rfl⟩ := h
  exact ⟨a, pc, eff, hs, rfl⟩

theorem step_pump {o : Out} {e : PumpEvent} (h : j.step (.pump o e) = some j') :
    ∃ p w q fs, readPipe (j.pipe o) e = some p ∧
      (j.pump o).step j.handle.jobId o.streamId j.handle.cancellationToken j.window e =
        some (w, q, fs) ∧
      j' = settle { j with
        window := w
        pump := Function.update j.pump o q
        pipe := Function.update j.pipe o p
        sent := j.sent ++ fs
        refused := j.refused ++ refuses (j.pump o) e } := by
  simp only [step, act, Option.map_eq_some_iff, Option.bind_eq_some_iff] at h
  obtain ⟨_, ⟨p, hp, ⟨w, q, fs⟩, hs, rfl⟩, rfl⟩ := h
  exact ⟨p, w, q, fs, hp, hs, rfl⟩

theorem step_monitor {e : MonitorEvent} (h : j.step (.monitor e) = some j') :
    ∃ a pc hs, j.monitor.step j.handle j.registered j.exitCode.isSome e =
        some (a, pc, hs) ∧
      j' = settle { j with
        handle := a, monitor := pc, terminated := j.terminated ++ hs } := by
  simp only [step, act, Option.map_map, Option.map_eq_some_iff] at h
  obtain ⟨⟨a, pc, hs⟩, hm, rfl⟩ := h
  exact ⟨a, pc, hs, hm, rfl⟩

theorem step_watcher {e : WatcherEvent} (h : j.step (.watcher e) = some j') :
    ∃ a pc waiter fs, j.watcher.step j.handle j.registered j.waiter e =
        some (a, pc, waiter, fs) ∧
      j' = settle { j with
        handle := a, watcher := pc, waiter := waiter, sent := j.sent ++ fs } := by
  simp only [step, act, Option.map_map, Option.map_eq_some_iff] at h
  obtain ⟨⟨a, pc, waiter, fs⟩, hw, rfl⟩ := h
  exact ⟨a, pc, waiter, fs, hw, rfl⟩

theorem step_waiter {e : WaiterEvent} (h : j.step (.waiter e) = some j') :
    ∃ pc, j.waiter.step j.closed j.process e = some pc ∧
      j' = settle { j with waiter := pc } := by
  simp only [step, act, Option.map_map, Option.map_eq_some_iff] at h
  obtain ⟨pc, hw, rfl⟩ := h
  exact ⟨pc, hw, rfl⟩

theorem step_begin {op : Op} (h : j.step (.begin op) = some j') :
    j' = settle { j with calls := j.calls ++ [op.begin] } := by
  simp only [step, act, Option.map_some, Option.some.injEq] at h
  exact h.symm

theorem step_call {i : Nat} {e : CallEvent} (h : j.step (.call i e) = some j') :
    ∃ c a registered c', j.calls[i]? = some c ∧
      c.step j.handle j.registered j.lastJobCreated e = some (a, registered, c') ∧
      j' = settle { j with
        handle := a, registered := registered, calls := j.calls.set i c' } := by
  simp only [step, act, Option.map_eq_some_iff, Option.bind_eq_some_iff] at h
  obtain ⟨_, ⟨c, hc, ⟨a, registered, c'⟩, hs, rfl⟩, rfl⟩ := h
  exact ⟨c, a, registered, c', hc, hs, rfl⟩

/-- The environment moves only the pipes, the process and the time of the last
creation. -/
theorem step_os {e : OsEvent} (h : j.step (.os e) = some j') :
    (∃ o data p, e = .write o data ∧ j.process.isSome ∧
        (j.pipe o).write data = some p ∧
        j' = settle { j with pipe := Function.update j.pipe o p }) ∨
      (∃ o, e = .closeWriters o ∧ j' = settle { j with
        pipe := Function.update j.pipe o { j.pipe o with writersOpen := false } }) ∨
      (∃ code p, e = .exit code ∧ j.process = some ⟨p, none⟩ ∧
        j' = settle { j with process := some ⟨p, some code⟩ }) ∨
      ∃ now, e = .otherCreated now ∧ j' = settle { j with lastJobCreated := now } := by
  cases e with
  | write o data =>
    simp only [step, act, osStep] at h
    split at h
    · rename_i hp
      simp only [Option.map_map, Option.map_eq_some_iff] at h
      obtain ⟨p, hw, rfl⟩ := h
      exact .inl ⟨o, data, p, rfl, hp, hw, rfl⟩
    · exact absurd h (by simp)
  | closeWriters o =>
    simp only [step, act, osStep, Option.map_some, Option.some.injEq] at h
    exact .inr (.inl ⟨o, rfl, h.symm⟩)
  | exit code =>
    simp only [step, act, osStep] at h
    split at h
    · rename_i p hp
      simp only [Option.map_some, Option.some.injEq] at h
      exact .inr (.inr (.inl ⟨code, p, rfl, hp, h.symm⟩))
    · exact absurd h (by simp)
  | otherCreated now =>
    simp only [step, act, osStep, Option.map_some, Option.some.injEq] at h
    exact .inr (.inr (.inr ⟨now, rfl, h.symm⟩))

end step

/-- What a step of a task other than `handle_run` leaves alone. -/
structure StepFrame (j j' : Job) (e : Event) : Prop where
  run : j'.run = j.run
  process : j'.process.isSome = j.process.isSome
  monitor : (∀ e', e ≠ .monitor e') → j'.monitor = j.monitor
  watcher : (∀ e', e ≠ .watcher e') → j'.watcher = j.watcher
  waiter : (∀ e', e ≠ .watcher e') → (∀ e', e ≠ .waiter e') → j'.waiter = j.waiter
  exitCode : (∀ e', e ≠ .os e') → j'.exitCode = j.exitCode
  registered : (∀ i e', e ≠ .call i e') → j'.registered = j.registered
  calls : (∀ i e', e ≠ .call i e') → (∀ op, e ≠ .begin op) → j'.calls = j.calls
  pump : (∀ o e', e ≠ .pump o e') → j'.pump = j.pump
  pipe : (∀ o e', e ≠ .pump o e') → (∀ e', e ≠ .os e') → j'.pipe = j.pipe
  sent : (∀ o e', e ≠ .pump o e') → (∀ e', e ≠ .watcher e') → j'.sent = j.sent
  window : (∀ o e', e ≠ .pump o e') → j'.window = j.window
  refused : (∀ o e', e ≠ .pump o e') → j'.refused = j.refused

theorem Event.run_or_ne (e : Event) : (∃ e', e = .run e') ∨ ∀ e', e ≠ .run e' := by
  rw [← not_exists]
  exact em _

theorem Event.pump_or_ne (e : Event) : (∃ o e', e = .pump o e') ∨ ∀ o e', e ≠ .pump o e' := by
  simp only [← not_exists]
  exact em _

theorem step_frame {j j' : Job} {e : Event} (h : j.step e = some j')
    (hne : ∀ e', e ≠ .run e') : StepFrame j j' e := by
  cases e with
  | run e => exact absurd rfl (hne e)
  | pump o e =>
    obtain ⟨p, w, q', fs, -, -, rfl⟩ := step_pump h
    constructor <;> simp [exitCode]
  | monitor e =>
    obtain ⟨a, pc, hs, -, rfl⟩ := step_monitor h
    constructor <;> simp [exitCode]
  | watcher e =>
    obtain ⟨a, pc, waiter, fs, -, rfl⟩ := step_watcher h
    constructor <;> simp [exitCode]
  | waiter e =>
    obtain ⟨pc, -, rfl⟩ := step_waiter h
    constructor <;> simp [exitCode]
  | begin op =>
    rw [step_begin h]
    constructor <;> simp [exitCode]
  | call i e =>
    obtain ⟨c, a, registered, c', -, -, rfl⟩ := step_call h
    constructor <;> simp [exitCode]
  | os e =>
    rcases step_os h with ⟨o, data, p, -, -, -, rfl⟩ | ⟨o, -, rfl⟩ | ⟨code, p, -, hp, rfl⟩ |
      ⟨now, -, rfl⟩
    · constructor <;> simp [exitCode]
    · constructor <;> simp [exitCode]
    · constructor <;> simp [exitCode, hp]
    · constructor <;> simp [exitCode]

/-! ## Updates of the handle -/

theorem MonitorPc.step_update {a a' : JobHandle} {registered exited : Bool}
    {pc pc' : MonitorPc} {e : MonitorEvent} {hs : List HANDLE}
    (h : pc.step a registered exited e = some (a', pc', hs)) : a.Update a' := by
  unfold MonitorPc.step at h
  split at h <;> (try split at h) <;> (try split at h) <;>
    simp only [Option.some.injEq, Prod.mk.injEq, reduceCtorEq] at h <;>
    obtain ⟨rfl, -⟩ := h <;> constructor

theorem WatcherPc.step_update {a a' : JobHandle} {registered : Bool}
    {waiter waiter' : WaiterPc} {pc pc' : WatcherPc} {e : WatcherEvent}
    {fs : List Frame} (h : pc.step a registered waiter e = some (a', pc', waiter', fs)) :
    a.Update a' := by
  unfold WatcherPc.step at h
  split at h <;> (try split at h) <;>
    simp only [Option.some.injEq, Prod.mk.injEq, reduceCtorEq] at h <;>
    obtain ⟨rfl, -⟩ := h <;> constructor

theorem CleanupPc.step_update {a a' : JobHandle} {registered registered' : Bool}
    {pc pc' : CleanupPc} (h : pc.step a registered = some (a', registered', pc')) :
    a.Update a' := by
  unfold CleanupPc.step at h
  split at h <;> simp only [Option.some.injEq, Prod.mk.injEq, reduceCtorEq] at h <;>
    obtain ⟨rfl, -⟩ := h <;> constructor

theorem SweepPc.step_update {a a' : JobHandle} {registered registered' : Bool}
    {pc pc' : SweepPc} (h : pc.step a registered = some (a', registered', pc')) :
    a.Update a' := by
  unfold SweepPc.step at h
  split at h
  · cases h
    constructor
  · cases h
    constructor
  · simp only [Option.map_eq_some_iff] at h
    obtain ⟨⟨b, r, q⟩, hs, heq⟩ := h
    cases heq
    exact CleanupPc.step_update hs
  · exact absurd h (by simp)

theorem Call.step_update {a a' : JobHandle} {registered registered' : Bool}
    {last : SystemTime} {c c' : Call} {e : CallEvent}
    (h : c.step a registered last e = some (a', registered', c')) : a.Update a' := by
  unfold Call.step at h
  split at h
  · simp only [Option.map_eq_some_iff] at h
    obtain ⟨⟨b, q⟩, hs, heq⟩ := h
    cases heq
    unfold ActivityPc.step at hs
    split at hs <;> cases hs <;> constructor
  · simp only [Option.map_eq_some_iff] at h
    obtain ⟨⟨b, q⟩, hs, heq⟩ := h
    cases heq
    unfold CancelPc.step at hs
    split at hs <;> cases hs <;> constructor
  · simp only [Option.map_eq_some_iff] at h
    obtain ⟨⟨b, r, q⟩, hs, heq⟩ := h
    cases heq
    unfold IdlePc.step at hs
    split at hs
    case h_7 =>
      simp only [Option.map_eq_some_iff] at hs
      obtain ⟨⟨b', r', q'⟩, hs', heq⟩ := hs
      cases heq
      exact SweepPc.step_update hs'
    all_goals
      simp only [Option.some.injEq, Prod.mk.injEq, reduceCtorEq] at hs <;>
        obtain ⟨rfl, -⟩ := hs <;> constructor
  · simp only [Option.map_eq_some_iff] at h
    obtain ⟨⟨b, r, q⟩, hs, heq⟩ := h
    cases heq
    exact SweepPc.step_update hs
  · exact absurd h (by simp)

/-! ## Who moves the state -/

/-- The moves of the state: who makes them, and from which position. -/
inductive Moves (j : Job) : Event → JobState → Prop where
  | starting (now : SystemTime) (h : j.run = .toStarting .commit) :
    Moves j (.run (.step now)) .starting
  | running (now : SystemTime) (p : LaunchedProcess) (h : j.run = .toRunning p .commit) :
    Moves j (.run (.step now)) .running
  | failed (now : SystemTime) (msg : String) (h : j.run = .toFailed msg .commit) :
    Moves j (.run (.step now)) .failed
  | timedOut (now : SystemTime) (h : j.monitor = .toTimedOut .commit) :
    Moves j (.monitor (.step now)) .timedOut
  | exiting (now : SystemTime) (code : Int32) (h : j.watcher = .toExiting code .commit) :
    Moves j (.watcher (.step now)) .exiting
  | completed (now : SystemTime) (h : j.watcher = .toCompleted .commit) :
    Moves j (.watcher (.step now)) .completed
  | canceled (now : SystemTime) (i : Nat)
    (h : j.calls[i]? = some (.cancelJob (.toCanceled .commit))) :
    Moves j (.call i (.step now)) .canceled

theorem RunPc.step_state {a a' : JobHandle} {registered : Bool} {pc pc' : RunPc}
    {e : RunEvent} {eff : RunEffect}
    (h : pc.step a registered e = some (a', pc', eff)) :
    (a'.state = a.state ∧ a'.completedAt = a.completedAt) ∨ ∃ now, e = .step now ∧
      ((pc = .toStarting .commit ∧ a' = a.commit .starting now) ∨
        (∃ p, pc = .toRunning p .commit ∧ a' = a.commit .running now) ∨
        ∃ msg, pc = .toFailed msg .commit ∧ a' = a.commit .failed now) := by
  unfold RunPc.step at h
  split at h
  case h_5 now =>
    split at h
    · rename_i heq
      cases h
      exact .inr ⟨now, rfl, .inl ⟨rfl, (JobHandle.commit_of_transition heq).2⟩⟩
    · cases h
      exact .inl ⟨rfl, rfl⟩
  case h_11 p now =>
    split at h
    · rename_i heq
      cases h
      exact .inr ⟨now, rfl, .inr (.inl ⟨p, rfl, (JobHandle.commit_of_transition heq).2⟩)⟩
    · cases h
      exact .inl ⟨rfl, rfl⟩
  case h_19 msg now =>
    cases h
    exact .inr ⟨now, rfl, .inr (.inr ⟨msg, rfl, rfl⟩)⟩
  case h_23 =>
    split at h
    · rename_i heq
      cases h
      unfold CleanupPc.step at heq
      split at heq <;> cases heq <;> exact .inl ⟨rfl, rfl⟩
    · cases h
  all_goals (try split at h) <;> cases h <;> exact .inl ⟨rfl, rfl⟩

theorem MonitorPc.step_state {a a' : JobHandle} {registered exited : Bool}
    {pc pc' : MonitorPc} {e : MonitorEvent} {hs : List HANDLE}
    (h : pc.step a registered exited e = some (a', pc', hs)) :
    a'.state = a.state ∨ ∃ now, e = .step now ∧ pc = .toTimedOut .commit ∧
      pc' = .cancelToken ∧ a' = a.commit .timedOut now := by
  unfold MonitorPc.step at h
  split at h
  case h_8 now =>
    cases h
    exact .inr ⟨now, rfl, rfl, rfl, rfl⟩
  all_goals (try split at h) <;> (try split at h) <;> cases h <;> exact .inl rfl

theorem WatcherPc.step_state {a a' : JobHandle} {registered : Bool}
    {waiter waiter' : WaiterPc} {pc pc' : WatcherPc} {e : WatcherEvent}
    {fs : List Frame} (h : pc.step a registered waiter e = some (a', pc', waiter', fs)) :
    a'.state = a.state ∨ ∃ now, e = .step now ∧
      ((∃ code, pc = .toExiting code .commit ∧ a' = a.commit .exiting now) ∨
        pc = .toCompleted .commit ∧ a' = a.commit .completed now) := by
  unfold WatcherPc.step at h
  split at h
  case h_5 code now =>
    cases h
    exact .inr ⟨now, rfl, .inl ⟨code, rfl, rfl⟩⟩
  case h_11 now =>
    cases h
    exact .inr ⟨now, rfl, .inr ⟨rfl, rfl⟩⟩
  all_goals (try split at h) <;> cases h <;> exact .inl rfl

theorem CleanupPc.step_state {a a' : JobHandle} {registered registered' : Bool}
    {pc pc' : CleanupPc} (h : pc.step a registered = some (a', registered', pc')) :
    a'.state = a.state := by
  unfold CleanupPc.step at h
  split at h <;> cases h <;> rfl

theorem SweepPc.step_state {a a' : JobHandle} {registered registered' : Bool}
    {pc pc' : SweepPc} (h : pc.step a registered = some (a', registered', pc')) :
    a'.state = a.state := by
  unfold SweepPc.step at h
  split at h
  case h_3 =>
    simp only [Option.map_eq_some_iff] at h
    obtain ⟨⟨b, r, q⟩, hs, heq⟩ := h
    cases heq
    exact CleanupPc.step_state hs
  all_goals cases h <;> rfl

theorem Call.step_state {a a' : JobHandle} {registered registered' : Bool}
    {last : SystemTime} {c c' : Call} {e : CallEvent}
    (h : c.step a registered last e = some (a', registered', c')) :
    a'.state = a.state ∨ ∃ now, e = .step now ∧ c = .cancelJob (.toCanceled .commit) ∧
      c' = .cancelJob .returned ∧ a' = a.commit .canceled now := by
  unfold Call.step at h
  split at h
  · simp only [Option.map_eq_some_iff] at h
    obtain ⟨⟨b, q⟩, hs, heq⟩ := h
    cases heq
    unfold ActivityPc.step at hs
    split at hs <;> cases hs <;> exact .inl rfl
  · rename_i pc now
    simp only [Option.map_eq_some_iff] at h
    obtain ⟨⟨b, q⟩, hs, heq⟩ := h
    cases heq
    unfold CancelPc.step at hs
    split at hs
    case h_5 =>
      cases hs
      exact .inr ⟨now, rfl, rfl, rfl, rfl⟩
    all_goals cases hs <;> exact .inl rfl
  · simp only [Option.map_eq_some_iff] at h
    obtain ⟨⟨b, r, q⟩, hs, heq⟩ := h
    cases heq
    left
    unfold IdlePc.step at hs
    split at hs
    case h_7 =>
      simp only [Option.map_eq_some_iff] at hs
      obtain ⟨⟨b', r', q'⟩, hs', heq⟩ := hs
      cases heq
      exact SweepPc.step_state hs'
    all_goals cases hs <;> rfl
  · simp only [Option.map_eq_some_iff] at h
    obtain ⟨⟨b, r, q⟩, hs, heq⟩ := h
    cases heq
    exact .inl (SweepPc.step_state hs)
  · exact absurd h (by simp)

theorem commit_moves {j : Job} {e : Event} {new : JobState} {now : SystemTime}
    (h : Moves j e new) :
    (j.handle.commit new now).state = j.handle.state ∨
      j.handle.state.canTransitionTo (j.handle.commit new now).state = true ∧
        Moves j e (j.handle.commit new now).state := by
  rw [JobHandle.commit_state]
  cases hcan : j.handle.state.canTransitionTo new
  · exact .inl rfl
  · exact .inr ⟨hcan, h⟩

/-- A step leaves the state alone, or makes one of the moves as the table allows
it. -/
theorem step_moves {j j' : Job} {e : Event} (h : j.step e = some j') :
    j'.handle.state = j.handle.state ∨
      j.handle.state.canTransitionTo j'.handle.state = true ∧
        Moves j e j'.handle.state := by
  cases e with
  | run e =>
    obtain ⟨a, pc, eff, hs, rfl⟩ := step_run h
    rw [settle_state, effect_handle]
    rcases RunPc.step_state hs with
      ⟨hsame, -⟩ | ⟨now, rfl, ⟨hpc, rfl⟩ | ⟨p, hpc, rfl⟩ | ⟨msg, hpc, rfl⟩⟩
    · exact .inl hsame
    · exact commit_moves (.starting now hpc)
    · exact commit_moves (.running now p hpc)
    · exact commit_moves (.failed now msg hpc)
  | pump o e =>
    obtain ⟨p, w, q, fs, -, -, rfl⟩ := step_pump h
    exact .inl (by simp)
  | monitor e =>
    obtain ⟨a, pc, hs, hm, rfl⟩ := step_monitor h
    rw [settle_state]
    rcases MonitorPc.step_state hm with hsame | ⟨now, rfl, hpc, -, rfl⟩
    · exact .inl hsame
    · exact commit_moves (.timedOut now hpc)
  | watcher e =>
    obtain ⟨a, pc, waiter, fs, hw, rfl⟩ := step_watcher h
    rw [settle_state]
    rcases WatcherPc.step_state hw with hsame | ⟨now, rfl, ⟨code, hpc, rfl⟩ | ⟨hpc, rfl⟩⟩
    · exact .inl hsame
    · exact commit_moves (.exiting now code hpc)
    · exact commit_moves (.completed now hpc)
  | waiter e =>
    obtain ⟨pc, -, rfl⟩ := step_waiter h
    exact .inl (by simp)
  | begin op =>
    rw [step_begin h]
    exact .inl (by simp)
  | call i e =>
    obtain ⟨c, a, registered, c', hget, hs, rfl⟩ := step_call h
    rw [settle_state]
    rcases Call.step_state hs with hsame | ⟨now, rfl, rfl, -, rfl⟩
    · exact .inl hsame
    · exact commit_moves (.canceled now i hget)
  | os e =>
    left
    rcases step_os h with ⟨o, data, p, -, -, -, rfl⟩ | ⟨o, -, rfl⟩ | ⟨code, p, -, -, rfl⟩ |
      ⟨now, -, rfl⟩ <;> simp

/-- A terminal state is final. -/
theorem step_terminal {j j' : Job} {e : Event} (h : j.step e = some j')
    (ht : j.handle.state.isTerminal = true) : j'.handle.state = j.handle.state := by
  rcases step_moves h with hsame | ⟨hcan, -⟩
  · exact hsame
  · rw [JobManager.JobState.isTerminal_eq_false_of_canTransitionTo hcan] at ht
    exact absurd ht (by simp)

/-! ## The job in the ledger -/

theorem RunPc.step_entry {a a' : JobHandle} {registered : Bool} {pc pc' : RunPc}
    {e : RunEvent} {eff : RunEffect}
    (h : pc.step a registered e = some (a', pc', eff)) :
    Entry.Move a.entry a'.entry := by
  rcases RunPc.step_state h with
    ⟨hstate, htime⟩ | ⟨now, -, ⟨-, rfl⟩ | ⟨p, -, rfl⟩ | ⟨msg, -, rfl⟩⟩
  · rw [JobHandle.entry, JobHandle.entry, hstate, htime]
    exact .stay _
  · exact a.commit_entry _ _
  · exact a.commit_entry _ _
  · exact a.commit_entry _ _

/-- A step moves the entry of the job as the ledger allows. -/
theorem step_entry {j j' : Job} {e : Event} (h : j.step e = some j') :
    Entry.Move j.handle.entry j'.handle.entry := by
  cases e with
  | run e =>
    obtain ⟨a, pc, eff, hs, rfl⟩ := step_run h
    rw [settle_entry, effect_handle]
    exact RunPc.step_entry hs
  | pump o e =>
    obtain ⟨p, w, q, fs, -, -, rfl⟩ := step_pump h
    rw [settle_entry]
    exact .stay _
  | monitor e =>
    obtain ⟨a, pc, hs, hm, rfl⟩ := step_monitor h
    rw [settle_entry]
    exact (MonitorPc.step_update hm).entry
  | watcher e =>
    obtain ⟨a, pc, waiter, fs, hw, rfl⟩ := step_watcher h
    rw [settle_entry]
    exact (WatcherPc.step_update hw).entry
  | waiter e =>
    obtain ⟨pc, -, rfl⟩ := step_waiter h
    rw [settle_entry]
    exact .stay _
  | begin op =>
    rw [step_begin h, settle_entry]
    exact .stay _
  | call i e =>
    obtain ⟨c, a, registered, c', -, hs, rfl⟩ := step_call h
    rw [settle_entry]
    exact (Call.step_update hs).entry
  | os e =>
    rcases step_os h with ⟨o, data, p, -, -, -, rfl⟩ | ⟨o, -, rfl⟩ | ⟨code, p, -, -, rfl⟩ |
      ⟨now, -, rfl⟩ <;>
    · rw [settle_entry]
      exact .stay _

/-! ## What `handle_run` has spawned -/

/-- Before the launch has succeeded, or after it has failed. -/
def RunPc.unlaunched : RunPc → Bool
  | .inserted | .sendAck | .toStarting _ | .launch => true
  | .toFailed _ _ | .sendError _ | .cleanup _ => true
  | _ => false

/-- The process that `handle_run` has in its hands. -/
def RunPc.inHand : RunPc → Option LaunchedProcess
  | .storeProcess p | .storeJobObject p | .toRunning p _ => some p
  | .activityGet p | .activityWrite p | .spawnPump p _ => some p
  | .spawnMonitor p | .spawnWatcher p => some p
  | _ => none

/-- Whether `handle_run` may have spawned a pump. -/
def RunPc.pumpUp (o : Out) : RunPc → Bool
  | .spawnPump _ .stderr => o = .stdout
  | .spawnMonitor _ | .spawnWatcher _ | .returned _ => true
  | _ => false

/-- Whether `handle_run` may have spawned the monitor. -/
def RunPc.monitorUp : RunPc → Bool
  | .spawnWatcher _ | .returned _ => true
  | _ => false

/-- Whether `handle_run` may have spawned the watcher. -/
def RunPc.watcherUp : RunPc → Bool
  | .returned _ => true
  | _ => false

/-- Nothing runs that `handle_run` has not spawned, and nothing was spawned
without a process. -/
structure Staged (j : Job) : Prop where
  pumps : ∀ o, j.run.pumpUp o = false ∨ j.process = none → j.pump o = Pump.fresh
  monitor : j.run.monitorUp = false ∨ j.process = none → j.monitor = .notSpawned
  watcher : j.run.watcherUp = false ∨ j.process = none → j.watcher = .notSpawned
  waiter : j.watcher = .notSpawned ∨ j.watcher = .start → j.waiter = .notSpawned
  unlaunched : j.run.unlaunched = true → j.process = none
  inHand : ∀ p, j.run.inHand = some p → ∃ code, j.process = some ⟨p, code⟩

theorem staged_create (jobId : UInt32) (timeout : Option Duration)
    (now last : SystemTime) : (create jobId timeout now last).Staged where
  pumps := fun _ _ => rfl
  monitor := fun _ => rfl
  watcher := fun _ => rfl
  waiter := fun _ => rfl
  unlaunched := fun _ => rfl
  inHand := fun _ h => by cases h

/-- What an action of `handle_run` means for the stage it is in. -/
structure RunPc.Follows (pc pc' : RunPc) (eff : RunEffect) : Prop where
  pumpUp : ∀ o, pc'.pumpUp o = false → pc.pumpUp o = false ∧ eff ≠ .spawnPump o
  monitorUp : pc'.monitorUp = false → pc.monitorUp = false ∧ eff ≠ .spawnMonitor
  watcherUp : pc.watcherUp = false
  spawnPump : ∀ o, eff = .spawnPump o → pc.pumpUp o = false
  spawnMonitor : eff = .spawnMonitor → pc.monitorUp = false
  spawnWatcher : ∀ p, eff = .spawnWatcher p → pc'.watcherUp = true
  spawns : (∃ o, eff = .spawnPump o) ∨ eff = .spawnMonitor ∨ (∃ p, eff = .spawnWatcher p) →
    ∃ p, pc.inHand = some p
  start : ∀ p, eff = .start p → pc = .launch ∧ pc' = .storeProcess p
  unlaunched : pc'.unlaunched = true → pc.unlaunched = true
  inHand : ∀ p, pc'.inHand = some p → pc.inHand = some p ∨ eff = .start p

theorem RunPc.step_follows {a a' : JobHandle} {registered : Bool} {pc pc' : RunPc}
    {e : RunEvent} {eff : RunEffect}
    (h : pc.step a registered e = some (a', pc', eff)) : pc.Follows pc' eff := by
  unfold RunPc.step at h
  split at h <;> (try split at h) <;> cases h <;> constructor <;>
    simp [RunPc.pumpUp, RunPc.monitorUp, RunPc.watcherUp, RunPc.unlaunched, RunPc.inHand]
  exact fun o ho h => ho h.symm

theorem effect_pump (j : Job) {eff : RunEffect} {o : Out} (h : eff ≠ .spawnPump o) :
    (j.effect eff).pump o = j.pump o := by
  cases eff <;> simp_all [effect, eq_comm]

theorem effect_monitor (j : Job) {eff : RunEffect} (h : eff ≠ .spawnMonitor) :
    (j.effect eff).monitor = j.monitor := by
  cases eff <;> first | rfl | exact absurd rfl h

theorem effect_watcher (j : Job) {eff : RunEffect} (h : ∀ p, eff ≠ .spawnWatcher p) :
    (j.effect eff).watcher = j.watcher := by
  cases eff <;> first | rfl | exact absurd rfl (h _)

theorem effect_process (j : Job) {eff : RunEffect} (h : ∀ p, eff ≠ .start p) :
    (j.effect eff).process = j.process := by
  cases eff <;> first | rfl | exact absurd rfl (h _)

/-- A process that is missing after an action was missing before it, and the
action has spawned nothing. -/
theorem Staged.of_process_none {j : Job} {pc' : RunPc} {eff : RunEffect} (hj : j.Staged)
    (hf : j.run.Follows pc' eff) (h : (j.effect eff).process = none) :
    j.process = none ∧ (∀ o, eff ≠ .spawnPump o) ∧ eff ≠ .spawnMonitor ∧
      ∀ p, eff ≠ .spawnWatcher p := by
  have hstart : ∀ p, eff ≠ .start p := by
    rintro p rfl
    simp [effect] at h
  rw [effect_process j hstart] at h
  -- a spawn would need a process in hand
  have hspawn : ¬ ∃ p, j.run.inHand = some p := by
    rintro ⟨p, hp⟩
    obtain ⟨code, hcode⟩ := hj.inHand p hp
    rw [h] at hcode
    simp at hcode
  refine ⟨h, fun o ho => ?_, fun hm => ?_, fun p hp => ?_⟩
  · exact hspawn (hf.spawns (.inl ⟨o, ho⟩))
  · exact hspawn (hf.spawns (.inr (.inl hm)))
  · exact hspawn (hf.spawns (.inr (.inr ⟨p, hp⟩)))

theorem Staged.run {j j' : Job} {e : RunEvent} (hj : j.Staged)
    (h : j.step (.run e) = some j') : j'.Staged := by
  obtain ⟨a, pc, eff, hs, rfl⟩ := step_run h
  have hf := RunPc.step_follows hs
  have hwatcher : j.watcher = .notSpawned := hj.watcher (.inl hf.watcherUp)
  have hwaiter : j.waiter = .notSpawned := hj.waiter (.inl hwatcher)
  have hrun := effect_run { j with handle := a, run := pc } eff
  have hw := effect_waiter { j with handle := a, run := pc } eff
  have hnone : (effect { j with handle := a, run := pc } eff).process =
      (j.effect eff).process := by cases eff <;> rfl
  refine ⟨?_, ?_, ?_, ?_, ?_, ?_⟩
  · rw [settle_run, settle_process, settle_pump, hrun, hnone]
    rintro o (ho | ho)
    · obtain ⟨hup, hne⟩ := hf.pumpUp o ho
      rw [effect_pump _ hne]
      exact hj.pumps o (.inl hup)
    · obtain ⟨hp, hne, -⟩ := hj.of_process_none hf ho
      rw [effect_pump _ (hne o)]
      exact hj.pumps o (.inr hp)
  · rw [settle_run, settle_process, settle_monitor, hrun, hnone]
    rintro (ho | ho)
    · obtain ⟨hup, hne⟩ := hf.monitorUp ho
      rw [effect_monitor _ hne]
      exact hj.monitor (.inl hup)
    · obtain ⟨hp, -, hne, -⟩ := hj.of_process_none hf ho
      rw [effect_monitor _ hne]
      exact hj.monitor (.inr hp)
  · rw [settle_run, settle_process, settle_watcher, hrun, hnone]
    rintro (ho | ho)
    · have hne : ∀ p, eff ≠ .spawnWatcher p := by
        intro p hp
        rw [hf.spawnWatcher p hp] at ho
        simp at ho
      rw [effect_watcher _ hne]
      exact hwatcher
    · obtain ⟨-, -, -, hne⟩ := hj.of_process_none hf ho
      rw [effect_watcher _ hne]
      exact hwatcher
  · intro _
    rw [settle_waiter, hw]
    exact hwaiter
  · rw [settle_run, settle_process, hrun, hnone]
    intro hun
    have hstart : ∀ p, eff ≠ .start p := by
      intro p hp
      obtain ⟨-, rfl⟩ := hf.start p hp
      simp [RunPc.unlaunched] at hun
    rw [effect_process _ hstart]
    exact hj.unlaunched (hf.unlaunched hun)
  · rw [settle_run, settle_process, hrun, hnone]
    intro p hp
    by_cases hstart : ∃ q, eff = .start q
    · obtain ⟨q, rfl⟩ := hstart
      obtain ⟨-, rfl⟩ := hf.start q rfl
      obtain rfl : q = p := by simpa [RunPc.inHand] using hp
      exact ⟨none, rfl⟩
    · have hne : ∀ q, eff ≠ .start q := fun q hq => hstart ⟨q, hq⟩
      rw [effect_process _ hne]
      rcases hf.inHand p hp with hp | hp
      · exact hj.inHand p hp
      · exact absurd hp (hne p)

theorem Staged.congr {j j' : Job} (hj : j.Staged) (hrun : j'.run = j.run)
    (hpump : j'.pump = j.pump) (hmonitor : j'.monitor = j.monitor)
    (hwatcher : j'.watcher = j.watcher) (hwaiter : j'.waiter = j.waiter)
    (hprocess : j'.process = j.process) : j'.Staged := by
  obtain ⟨h1, h2, h3, h4, h5, h6⟩ := hj
  constructor
  · rwa [hrun, hprocess, hpump]
  · rwa [hrun, hprocess, hmonitor]
  · rwa [hrun, hprocess, hwatcher]
  · rwa [hwatcher, hwaiter]
  · rwa [hrun, hprocess]
  · rwa [hrun, hprocess]

/-- A pump that was not spawned does not move. -/
theorem pump_step_notSpawned {jobId : UInt32} {streamId : StreamId} {token : Bool}
    {w : StreamPump} {p : Pump} {e : PumpEvent} {r : StreamPump × Pump × List Frame}
    (h : p.step jobId streamId token w e = some r) : p.pc ≠ .notSpawned := by
  intro hpc
  simp [Pump.step, hpc] at h

/-- A pump that moves was spawned, for a process. -/
theorem Staged.pump_up {j : Job} {o : Out} {e : PumpEvent} {jobId : UInt32}
    {streamId : StreamId} {token : Bool} {w : StreamPump}
    {r : StreamPump × Pump × List Frame} (hj : j.Staged)
    (h : (j.pump o).step jobId streamId token w e = some r) :
    j.run.pumpUp o = true ∧ j.process.isSome = true := by
  have hne := pump_step_notSpawned h
  have hup : ¬ (j.run.pumpUp o = false ∨ j.process = none) := by
    intro hno
    rw [hj.pumps o hno] at hne
    exact hne rfl
  constructor
  · by_contra hdown
    exact hup (.inl (by simpa using hdown))
  · apply Option.isSome_iff_ne_none.mpr
    intro hnone
    exact hup (.inr hnone)

theorem Staged.step {j j' : Job} {e : Event} (hj : j.Staged) (h : j.step e = some j') :
    j'.Staged := by
  cases e with
  | run e => exact hj.run h
  | pump o e =>
    obtain ⟨p, w, q, fs, -, hs, rfl⟩ := step_pump h
    have hne := pump_step_notSpawned hs
    refine ⟨?_, by simpa using hj.monitor, by simpa using hj.watcher,
      by simpa using hj.waiter, by simpa using hj.unlaunched, by simpa using hj.inHand⟩
    intro o' ho'
    rw [settle_run, settle_process] at ho'
    rw [settle_pump]
    have hfresh := hj.pumps o' ho'
    by_cases heq : o' = o
    · subst heq
      rw [hfresh] at hne
      exact absurd rfl hne
    · show Function.update j.pump o q o' = Pump.fresh
      rw [Function.update_of_ne heq]
      exact hfresh
  | monitor e =>
    obtain ⟨a, pc, hs, hm, rfl⟩ := step_monitor h
    refine ⟨by simpa using hj.pumps, ?_, by simpa using hj.watcher,
      by simpa using hj.waiter, by simpa using hj.unlaunched, by simpa using hj.inHand⟩
    rw [settle_run, settle_process]
    intro hup
    have hnot := hj.monitor hup
    simp [MonitorPc.step, hnot] at hm
  | watcher e =>
    obtain ⟨a, pc, waiter, fs, hw, rfl⟩ := step_watcher h
    have hne : j.watcher ≠ .notSpawned := by
      intro hnot
      simp [WatcherPc.step, hnot] at hw
    have hpc : pc ≠ .notSpawned ∧ pc ≠ .start := by
      unfold WatcherPc.step at hw
      split at hw <;> (try split at hw) <;> cases hw <;> simp
    refine ⟨by simpa using hj.pumps, by simpa using hj.monitor, ?_, ?_,
      by simpa using hj.unlaunched, by simpa using hj.inHand⟩
    · rw [settle_run, settle_process]
      exact fun hup => absurd (hj.watcher hup) hne
    · rw [settle_watcher]
      rintro (hnot | hst)
      · exact absurd hnot hpc.1
      · exact absurd hst hpc.2
  | waiter e =>
    obtain ⟨pc, hw, rfl⟩ := step_waiter h
    refine ⟨by simpa using hj.pumps, by simpa using hj.monitor,
      by simpa using hj.watcher, ?_, by simpa using hj.unlaunched,
      by simpa using hj.inHand⟩
    rw [settle_watcher]
    intro hst
    simp [WaiterPc.step, hj.waiter hst] at hw
  | begin op =>
    rw [step_begin h]
    apply hj.congr <;> simp
  | call i e =>
    obtain ⟨c, a, registered, c', -, -, rfl⟩ := step_call h
    apply hj.congr <;> simp
  | os e =>
    rcases step_os h with ⟨o, data, p, -, -, -, rfl⟩ | ⟨o, -, rfl⟩ | ⟨code, p, -, hp, rfl⟩ |
      ⟨now, -, rfl⟩
    · apply hj.congr <;> simp
    · apply hj.congr <;> simp
    · have hun : j.run.unlaunched = false := by
        by_contra hun
        have := hj.unlaunched (by simpa using hun)
        rw [hp] at this
        simp at this
      refine ⟨?_, ?_, ?_, by simpa using hj.waiter, ?_, ?_⟩
      · rw [settle_run, settle_process, settle_pump]
        intro o ho
        exact hj.pumps o (.inl (by simpa using ho))
      · rw [settle_run, settle_process, settle_monitor]
        intro ho
        exact hj.monitor (.inl (by simpa using ho))
      · rw [settle_run, settle_process, settle_watcher]
        intro ho
        exact hj.watcher (.inl (by simpa using ho))
      · rw [settle_run]
        intro hun'
        rw [hun] at hun'
        simp at hun'
      · rw [settle_run, settle_process]
        intro q hq
        obtain ⟨c, hc⟩ := hj.inHand q hq
        rw [hp] at hc
        obtain ⟨rfl, -⟩ : p = q ∧ none = c := by simpa using hc
        exact ⟨some code, rfl⟩
    · apply hj.congr <;> simp

/-- A process appears only by the launch. -/
theorem step_process_isSome {j j' : Job} {e : Event} (h : j.step e = some j')
    (hp : j'.process.isSome = true) : j.process.isSome = true ∨ j.run = .launch := by
  rcases e.run_or_ne with ⟨e', rfl⟩ | hne
  · obtain ⟨a, pc, eff, hs, rfl⟩ := step_run h
    rw [settle_process] at hp
    by_cases hstart : ∃ p, eff = .start p
    · obtain ⟨p, rfl⟩ := hstart
      exact .inr ((RunPc.step_follows hs).start p rfl).1
    · rw [effect_process _ fun p hp => hstart ⟨p, hp⟩] at hp
      exact .inl hp
  · rw [(step_frame h hne).process] at hp
    exact .inl hp

theorem staged_reachable {C : Job → Event → Prop} {j : Job} (h : machine.Reach C j) :
    j.Staged := by
  refine h.invariant ?_ ?_
  · rintro _ ⟨jobId, timeout, now, last, rfl⟩
    exact staged_create jobId timeout now last
  · intro s e u hs _ hstep
    exact Staged.step hs hstep

end Job

end RemoteAgent
