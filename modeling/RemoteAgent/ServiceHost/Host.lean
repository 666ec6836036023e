import RemoteAgent.CodeLib.Watch
import RemoteAgent.FileIpc.Server
import RemoteAgent.JobManager.Numbering
import RemoteAgent.PipeServer.Listener

/-!
# The service and its tasks

`service_host.rs`: the service's main function with `ServiceHost::run`, the event handler,
and the tasks that `run` spawns.  The job manager, the pipe server and the file-based server
run inside as the machines that they are elsewhere.

* The shutdown channel is created with the host.  Its sender is used by the event handler,
  which Windows calls at any time once it is registered.  Everyone who waits for a shutdown
  has a clone of the one receiver of the host, which itself looks at nothing.
* `run` waits for the channel or for Ctrl+C, calls `force_cleanup_all`, sleeps for two
  seconds, aborts its three tasks and returns.  An aborted task is dropped where it awaits.
* The calls of the job manager that sessions make, and the steps of all calls, are events of
  the manager.  The calls of `run` and of the cleanup task are among its calls, at the
  places that they remember.
* The runtime is dropped when `run` has returned.  It drops every task where it awaits and
  every blocking task that has not begun, and waits for those that have.  The reads of the
  output pumps and the waits for processes, which it waits for as well, are no part of this.
* As a service the function reports to Windows that it is running before it creates the
  runtime, and that it has stopped before the runtime is dropped.  In console mode there is a
  runtime from the beginning, nobody to report to, and the host itself is dropped when `run`
  has returned.
-/

namespace RemoteAgent

open CodeLib PipeServer
open JobManager (Duration Metered Manager Op Call)

namespace ServiceHost

def maxConcurrentJobs : Nat := 50

def maxConnections : Nat := 100

def seconds (n : Nat) : Duration := n * 1000000000

def idleCleanupThreshold : Duration := seconds (30 * 60)

def quietCleanupThreshold : Duration := seconds (2 * 60)

/-! ## Reporting to Windows -/

inductive ServiceControl where
  | stop
  | shutdown
  | interrogate
  | other
  deriving DecidableEq, Repr

inductive HandlerResult where
  | noError
  | notImplemented
  deriving DecidableEq, Repr

/-- `event_handler`. -/
def eventHandler (shutdown : Watch Bool) : ServiceControl → HandlerResult × Watch Bool
  | .stop | .shutdown => (.noError, shutdown.send true)
  | .interrogate => (.noError, shutdown)
  | .other => (.notImplemented, shutdown)

inductive ServiceState where
  | running
  | stopped
  deriving DecidableEq, Repr

structure ServiceStatus where
  currentState : ServiceState
  controlsAccepted : List ServiceControl
  exitCode : UInt32
  deriving DecidableEq, Repr

def runningStatus : ServiceStatus := ⟨.running, [.stop, .shutdown], 0⟩

def stoppedStatus (result : Except Error Unit) : ServiceStatus :=
  ⟨.stopped, [], if result.isOk then 0 else 1⟩

/-! ## Positions -/

/-- Where the main function stands: `run_service`, from the registration of the handler on,
or the main function of the console mode, from `running` on.  At `running` it is inside
`ServiceHost::run`. -/
inductive MainPc where
  | registering
  | reportingRunning
  | creatingRuntime
  | running
  | reportingStopped (r : Except Error Unit)
  | droppingRuntime (r : Except Error Unit)
  | finished (r : Except Error Unit)
  deriving DecidableEq

/-- Where `ServiceHost::run` stands.  At `forcing` it is inside the call of
`force_cleanup_all` at the index. -/
inductive RunPc where
  | notStarted
  | waiting (rx : Watch.Receiver)
  | forcing (call : Nat)
  | sleeping
  | abortingCleanup
  | abortingServer
  | abortingFileIpc
  | returned (r : Except Error Unit)
  deriving DecidableEq

/-- Where the cleanup task stands. -/
inductive CleanupTask where
  | notSpawned
  | selecting (rx : Watch.Receiver)
  | cleaning (rx : Watch.Receiver) (call : Nat)
  | finished
  | dropped
  deriving DecidableEq

/-- Where the task of the file-based server stands.  While it is `running`, the server says
whether it is asleep or polls. -/
inductive FileIpcTask where
  | notSpawned
  | ensuring
  | running (rx : Watch.Receiver)
  | failed
  | finished
  | dropped
  deriving DecidableEq

/-- The tasks that `run` has aborted. -/
structure Aborts where
  cleanup : Bool
  server : Bool
  fileIpc : Bool
  deriving DecidableEq

end ServiceHost

open ServiceHost

/-- The process: the host, its tasks, and what it has reported. -/
structure ServiceHost (κ : Type) where
  console : Bool
  main : MainPc
  statuses : List ServiceStatus
  shutdownTx : Watch Bool
  shutdownRx : Watch.Receiver
  run : RunPc
  cleanup : CleanupTask
  fileIpcTask : FileIpcTask
  aborts : Aborts
  manager : Metered
  listener : Listener κ
  fileIpc : FileIpcServer

namespace ServiceHost

variable {ι κ ε : Type}

/-- `ServiceHost::new`, with the job manager that `run` will create. -/
def start (console : Bool) (manager : Metered) : ServiceHost κ where
  console := console
  main := if console then .running else .registering
  statuses := []
  shutdownTx := (Watch.channel false).1
  shutdownRx := (Watch.channel false).2
  run := .notStarted
  cleanup := .notSpawned
  fileIpcTask := .notSpawned
  aborts := ⟨false, false, false⟩
  manager := manager
  listener := Listener.start maxConnections
  fileIpc := FileIpcServer.start

/-! ## Events -/

/-- `changed` and `ctrlC` are the branches of the `select!` of `run`, and `forced` the return
of `force_cleanup_all`. -/
inductive RunEvent where
  | spawn
  | changed
  | ctrlC
  | forced
  | slept
  | abort
  deriving DecidableEq, Repr

/-- `tick` and `changed` are the branches of the `select!` of the cleanup task. -/
inductive CleanupEvent where
  | tick
  | cleaned
  | changed
  | drop
  deriving DecidableEq, Repr

/-- `ensured` is the result of `ensure_directories`. -/
inductive FileIpcEvent where
  | ensured (ok : Bool)
  | changed
  | drop
  deriving DecidableEq, Repr

/-- `main` carries the result of the call that the main function makes, `control` is a call
of the event handler. -/
inductive Event (ι ε : Type) where
  | main (r : Except String Unit)
  | control (c : ServiceControl)
  | run (e : RunEvent)
  | cleanup (e : CleanupEvent)
  | fileIpcTask (e : FileIpcEvent)
  | manager (l : Manager.Label)
  | listener (e : Listener.Event ι ε)
  | fileIpc (e : FileIpcServer.Event)

/-! ## Steps -/

/-- The runtime has been created and is not gone. -/
def hasRuntime (s : ServiceHost κ) : Bool :=
  match s.main with
  | .running | .reportingStopped _ | .droppingRuntime _ => true
  | _ => false

/-- The runtime is being dropped. -/
def dropping (s : ServiceHost κ) : Bool :=
  match s.main with
  | .droppingRuntime _ => true
  | _ => false

/-- Nothing is left that the drop of the runtime waits for. -/
def runtimeIdle (s : ServiceHost κ) : Bool :=
  (match s.cleanup with | .selecting _ | .cleaning _ _ => false | _ => true) &&
    (match s.fileIpcTask with | .ensuring | .running _ => false | _ => true) &&
    s.listener.listen.ended && s.listener.tasks.all fun t => !t.pc.hasPermit

def stepMain (s : ServiceHost κ) (r : Except String Unit) : Option (ServiceHost κ) :=
  match s.main with
  | .registering =>
    match r with
    | .ok () => some { s with main := .reportingRunning }
    | .error e => some { s with main := .finished (.error (.service ("Register handler: " ++ e))) }
  | .reportingRunning =>
    match r with
    | .ok () =>
      some { s with main := .creatingRuntime, statuses := s.statuses ++ [runningStatus] }
    | .error e => some { s with main := .finished (.error (.service ("Set status: " ++ e))) }
  | .creatingRuntime =>
    match r with
    | .ok () => some { s with main := .running }
    | .error e => some { s with main := .finished (.error (.service ("Runtime: " ++ e))) }
  | .running =>
    match s.run with
    | .returned result =>
      some (if s.console then
          { s with main := .droppingRuntime result, shutdownTx := s.shutdownTx.close }
        else { s with main := .reportingStopped result })
    | _ => none
  | .reportingStopped result =>
    match r with
    | .ok () =>
      some { s with
        main := .droppingRuntime result
        statuses := s.statuses ++ [stoppedStatus result] }
    | .error _ => some { s with main := .droppingRuntime result }
  | .droppingRuntime result =>
    if s.runtimeIdle then some { s with main := .finished result } else none
  | .finished _ => none

/-- Begin with a call of the job manager. -/
def begin (s : ServiceHost κ) (op : Op) : ServiceHost κ :=
  { s with
    manager :=
      { s.manager with
        manager := { s.manager.manager with calls := s.manager.manager.calls ++ [op.begin] } } }

/-- The index of the next call of the job manager. -/
def nextCall (s : ServiceHost κ) : Nat := s.manager.manager.calls.length

def stepRun (s : ServiceHost κ) : RunEvent → Option (ServiceHost κ) :=
  fun e =>
    match s.run, e with
    | .notStarted, .spawn =>
      some { s with
        run := .waiting s.shutdownRx
        cleanup := .selecting s.shutdownRx
        fileIpcTask := .ensuring }
    | .waiting rx, .changed =>
      (s.shutdownTx.changed rx).map fun _ =>
        { s.begin .forceCleanupAll with run := .forcing s.nextCall }
    | .waiting _, .ctrlC =>
      some { s.begin .forceCleanupAll with run := .forcing s.nextCall }
    | .forcing call, .forced =>
      match s.manager.manager.calls[call]? with
      | some (.forceCleanupAll .ret) => some { s with run := .sleeping }
      | _ => none
    | .sleeping, .slept => some { s with run := .abortingCleanup }
    | .abortingCleanup, .abort =>
      some { s with run := .abortingServer, aborts := { s.aborts with cleanup := true } }
    | .abortingServer, .abort =>
      some { s with run := .abortingFileIpc, aborts := { s.aborts with server := true } }
    | .abortingFileIpc, .abort =>
      some { s with run := .returned (.ok ()), aborts := { s.aborts with fileIpc := true } }
    | _, _ => none

def stepCleanup (s : ServiceHost κ) : CleanupEvent → Option (ServiceHost κ) :=
  fun e =>
    match s.cleanup, e with
    | .selecting rx, .tick =>
      some { s.begin (.cleanupIdleJobs idleCleanupThreshold quietCleanupThreshold) with
        cleanup := .cleaning rx s.nextCall }
    | .selecting rx, .changed =>
      (s.shutdownTx.changed rx).map fun _ => { s with cleanup := .finished }
    | .selecting _, .drop =>
      if s.aborts.cleanup || s.dropping then some { s with cleanup := .dropped } else none
    | .cleaning rx call, .cleaned =>
      match s.manager.manager.calls[call]? with
      | some (.cleanupIdleJobs _ _ (.ret _)) => some { s with cleanup := .selecting rx }
      | _ => none
    | _, _ => none

def stepFileIpcTask (serde : FileIpc.Serde) (s : ServiceHost κ) :
    FileIpcEvent → Option (ServiceHost κ) :=
  fun e =>
    match s.fileIpcTask, e with
    | .ensuring, .ensured true => some { s with fileIpcTask := .running s.shutdownRx }
    | .ensuring, .ensured false => some { s with fileIpcTask := .failed }
    | .running rx, .changed =>
      (s.shutdownTx.changed rx).bind fun _ =>
        (s.fileIpc.step serde .shutdown).map fun f =>
          { s with fileIpcTask := .finished, fileIpc := f }
    | .ensuring, .drop | .running _, .drop =>
      if s.aborts.fileIpc || s.dropping then some { s with fileIpcTask := .dropped } else none
    | _, _ => none

/-- Whether the pipe server may take the step.  Its loop is dropped when it was aborted, and
a task that has not begun while the runtime is dropped. -/
def allowsListener (s : ServiceHost κ) : Listener.Event ι ε → Bool
  | .abort => s.aborts.server || s.dropping
  | .task _ .run => !s.dropping
  | .task _ .discard => s.dropping
  | _ => true

/-- Whether the file-based server may take the step.  Only its task polls. -/
def allowsFileIpc (s : ServiceHost κ) : FileIpcServer.Event → Bool
  | .shutdown => false
  | .readDir | .entry _ | .listed => match s.fileIpcTask with | .running _ => true | _ => false
  | _ => true

/-- The tasks have been spawned, and there is a runtime for them. -/
def live (s : ServiceHost κ) : Bool :=
  s.hasRuntime && s.run ≠ .notStarted

def step (H : Handler ι κ ε) (serde : FileIpc.Serde) (s : ServiceHost κ) :
    Event ι ε → Option (ServiceHost κ)
  | .main r => s.stepMain r
  | .control c =>
    if s.console || s.main = .registering then none
    else some { s with shutdownTx := (eventHandler s.shutdownTx c).2 }
  | .run e => if s.main = .running then s.stepRun e else none
  | .cleanup e => if s.live then s.stepCleanup e else none
  | .fileIpcTask e => if s.live then s.stepFileIpcTask serde e else none
  | .manager l =>
    if s.live then (Metered.machine.step s.manager l).map fun m => { s with manager := m }
    else none
  | .listener e =>
    if s.live && s.allowsListener e then
      (s.listener.step H e).map fun l => { s with listener := l }
    else none
  | .fileIpc e =>
    if s.live && s.allowsFileIpc e then
      (s.fileIpc.step serde e).map fun f => { s with fileIpc := f }
    else none

/-- The job manager is new. -/
def Initial (s : ServiceHost κ) : Prop :=
  ∃ console manager, Metered.machine.Init manager ∧
    manager.manager.shared.maxConcurrentJobs = maxConcurrentJobs ∧ s = start console manager

/-- The machine of the process. -/
def machine (H : Handler ι κ ε) (serde : FileIpc.Serde) :
    StepMachine (ServiceHost κ) (Event ι ε) where
  Init := Initial
  step := step H serde

/-! ## What a step can do -/

section steps

variable {H : Handler ι κ ε} {serde : FileIpc.Serde} {s s' : ServiceHost κ}

/-- The main function gets to `run` or fails on the way, and when `run` has returned it
reports and drops the runtime. -/
inductive MainMove (s : ServiceHost κ) : ServiceHost κ → Prop where
  | registered (hpc : s.main = .registering) : MainMove s { s with main := .reportingRunning }
  | reported (hpc : s.main = .reportingRunning) :
    MainMove s { s with
      main := .creatingRuntime, statuses := s.statuses ++ [runningStatus] }
  | created (hpc : s.main = .creatingRuntime) : MainMove s { s with main := .running }
  | failed (e : Error) (hpc : s.main = .registering ∨ s.main = .reportingRunning ∨
      s.main = .creatingRuntime) : MainMove s { s with main := .finished (.error e) }
  | hostDropped (r : Except Error Unit) (hpc : s.main = .running)
    (hrun : s.run = .returned r) (hconsole : s.console = true) :
    MainMove s { s with main := .droppingRuntime r, shutdownTx := s.shutdownTx.close }
  | returned (r : Except Error Unit) (hpc : s.main = .running) (hrun : s.run = .returned r)
    (hservice : s.console = false) : MainMove s { s with main := .reportingStopped r }
  | stopped (r : Except Error Unit) (statuses : List ServiceStatus)
    (hpc : s.main = .reportingStopped r)
    (hstatuses : statuses = s.statuses ∨ statuses = s.statuses ++ [stoppedStatus r]) :
    MainMove s { s with main := .droppingRuntime r, statuses := statuses }
  | finished (r : Except Error Unit) (hpc : s.main = .droppingRuntime r)
    (hidle : s.runtimeIdle = true) : MainMove s { s with main := .finished r }

theorem stepMain_move {r : Except String Unit} (h : s.stepMain r = some s') : MainMove s s' := by
  unfold stepMain at h
  split at h
  · rename_i hpc
    split at h <;> cases h
    · exact .registered hpc
    · exact .failed _ (.inl hpc)
  · rename_i hpc
    split at h <;> cases h
    · exact .reported hpc
    · exact .failed _ (.inr (.inl hpc))
  · rename_i hpc
    split at h <;> cases h
    · exact .created hpc
    · exact .failed _ (.inr (.inr hpc))
  · rename_i hpc
    split at h <;> cases h
    rename_i result hrun
    split
    · rename_i hconsole
      exact .hostDropped result hpc hrun hconsole
    · rename_i hservice
      exact .returned result hpc hrun (Bool.eq_false_of_not_eq_true hservice)
  · rename_i result hpc
    split at h <;> cases h
    · exact .stopped result _ hpc (.inr rfl)
    · exact .stopped result _ hpc (.inl rfl)
  · rename_i result hpc
    split at h <;> cases h
    rename_i hidle
    exact .finished result hpc hidle
  · cases h

/-- `run` spawns its tasks, begins to shut down, or goes on. -/
inductive RunMove (s : ServiceHost κ) : RunEvent → ServiceHost κ → Prop where
  | spawn (hpc : s.run = .notStarted) :
    RunMove s .spawn { s with
      run := .waiting s.shutdownRx
      cleanup := .selecting s.shutdownRx
      fileIpcTask := .ensuring }
  | shutdown (e : RunEvent) (rx : Watch.Receiver) (hpc : s.run = .waiting rx)
    (he : e = .ctrlC ∨ e = .changed ∧ (s.shutdownTx.changed rx).isSome = true) :
    RunMove s e { s.begin .forceCleanupAll with run := .forcing s.nextCall }
  | forced (call : Nat) (hpc : s.run = .forcing call)
    (hret : s.manager.manager.calls[call]? = some (.forceCleanupAll .ret)) :
    RunMove s .forced { s with run := .sleeping }
  | slept (hpc : s.run = .sleeping) : RunMove s .slept { s with run := .abortingCleanup }
  | abortCleanup (hpc : s.run = .abortingCleanup) :
    RunMove s .abort { s with
      run := .abortingServer, aborts := { s.aborts with cleanup := true } }
  | abortServer (hpc : s.run = .abortingServer) :
    RunMove s .abort { s with
      run := .abortingFileIpc, aborts := { s.aborts with server := true } }
  | abortFileIpc (hpc : s.run = .abortingFileIpc) :
    RunMove s .abort { s with
      run := .returned (.ok ()), aborts := { s.aborts with fileIpc := true } }

theorem stepRun_move {e : RunEvent} (h : s.stepRun e = some s') : RunMove s e s' := by
  unfold stepRun at h
  split at h
  · rename_i hpc
    cases h
    exact .spawn hpc
  · rename_i rx hpc
    obtain ⟨r, hr, rfl⟩ := Option.map_eq_some_iff.mp h
    exact .shutdown _ rx hpc (.inr ⟨rfl, by rw [hr]; rfl⟩)
  · rename_i rx hpc
    cases h
    exact .shutdown _ rx hpc (.inl rfl)
  · rename_i call hpc
    split at h <;> cases h
    rename_i hret
    exact .forced call hpc hret
  · rename_i hpc
    cases h
    exact .slept hpc
  · rename_i hpc
    cases h
    exact .abortCleanup hpc
  · rename_i hpc
    cases h
    exact .abortServer hpc
  · rename_i hpc
    cases h
    exact .abortFileIpc hpc
  · cases h

/-- The cleanup task begins a call, goes on after it, or comes to its end. -/
inductive CleanupMove (s : ServiceHost κ) : CleanupEvent → ServiceHost κ → Prop where
  | tick (rx : Watch.Receiver) (hpc : s.cleanup = .selecting rx) :
    CleanupMove s .tick
      { s.begin (.cleanupIdleJobs idleCleanupThreshold quietCleanupThreshold) with
        cleanup := .cleaning rx s.nextCall }
  | cleaned (rx : Watch.Receiver) (call : Nat) (hpc : s.cleanup = .cleaning rx call) :
    CleanupMove s .cleaned { s with cleanup := .selecting rx }
  | changed (rx : Watch.Receiver) (hpc : s.cleanup = .selecting rx)
    (hchanged : (s.shutdownTx.changed rx).isSome = true) :
    CleanupMove s .changed { s with cleanup := .finished }
  | drop : CleanupMove s .drop { s with cleanup := .dropped }

theorem stepCleanup_move {e : CleanupEvent} (h : s.stepCleanup e = some s') :
    CleanupMove s e s' := by
  unfold stepCleanup at h
  split at h
  · rename_i rx hpc
    cases h
    exact .tick rx hpc
  · rename_i rx hpc
    obtain ⟨r, hr, rfl⟩ := Option.map_eq_some_iff.mp h
    exact .changed rx hpc (by rw [hr]; rfl)
  · split at h <;> cases h
    exact .drop
  · rename_i rx call hpc
    split at h <;> cases h
    exact .cleaned rx call hpc
  · cases h

/-- The task of the file-based server begins to poll, or comes to its end. -/
inductive FileIpcMove (serde : FileIpc.Serde) (s : ServiceHost κ) :
    FileIpcEvent → ServiceHost κ → Prop where
  | ensured : FileIpcMove serde s (.ensured true)
      { s with fileIpcTask := .running s.shutdownRx }
  | failed : FileIpcMove serde s (.ensured false) { s with fileIpcTask := .failed }
  | changed (rx : Watch.Receiver) (f : FileIpcServer) (hpc : s.fileIpcTask = .running rx)
    (hchanged : (s.shutdownTx.changed rx).isSome = true)
    (hstop : s.fileIpc.step serde .shutdown = some f) :
    FileIpcMove serde s .changed { s with fileIpcTask := .finished, fileIpc := f }
  | drop : FileIpcMove serde s .drop { s with fileIpcTask := .dropped }

theorem stepFileIpcTask_move {e : FileIpcEvent} (h : s.stepFileIpcTask serde e = some s') :
    FileIpcMove serde s e s' := by
  unfold stepFileIpcTask at h
  split at h
  · cases h
    exact .ensured
  · cases h
    exact .failed
  · rename_i rx hpc
    obtain ⟨r, hr, h⟩ := Option.bind_eq_some_iff.mp h
    obtain ⟨f, hf, rfl⟩ := Option.map_eq_some_iff.mp h
    exact .changed rx f hpc (by rw [hr]; rfl) hf
  · split at h <;> cases h
    exact .drop
  · split at h <;> cases h
    exact .drop
  · cases h

/-- Who has moved in a step. -/
inductive Move (H : Handler ι κ ε) (serde : FileIpc.Serde) (s : ServiceHost κ) :
    Event ι ε → ServiceHost κ → Prop where
  | main (r : Except String Unit) (s' : ServiceHost κ) (h : MainMove s s') :
    Move H serde s (.main r) s'
  | control (c : ServiceControl) :
    Move H serde s (.control c) { s with shutdownTx := (eventHandler s.shutdownTx c).2 }
  | run (e : RunEvent) (s' : ServiceHost κ) (hmain : s.main = .running)
    (h : RunMove s e s') : Move H serde s (.run e) s'
  | cleanup (e : CleanupEvent) (s' : ServiceHost κ) (hlive : s.live = true)
    (h : CleanupMove s e s') : Move H serde s (.cleanup e) s'
  | fileIpcTask (e : FileIpcEvent) (s' : ServiceHost κ) (hlive : s.live = true)
    (h : FileIpcMove serde s e s') : Move H serde s (.fileIpcTask e) s'
  | manager (l : Manager.Label) (m : Metered) (hlive : s.live = true)
    (h : Metered.machine.step s.manager l = some m) :
    Move H serde s (.manager l) { s with manager := m }
  | listener (e : Listener.Event ι ε) (l : Listener κ) (hlive : s.live = true)
    (hallows : s.allowsListener e = true) (h : s.listener.step H e = some l) :
    Move H serde s (.listener e) { s with listener := l }
  | fileIpc (e : FileIpcServer.Event) (f : FileIpcServer) (hlive : s.live = true)
    (hallows : s.allowsFileIpc e = true) (h : s.fileIpc.step serde e = some f) :
    Move H serde s (.fileIpc e) { s with fileIpc := f }

theorem step_move {e : Event ι ε} (h : s.step H serde e = some s') : Move H serde s e s' := by
  cases e with
  | main r => exact .main r s' (stepMain_move h)
  | control c =>
    simp only [step] at h
    split at h <;> cases h
    exact .control c
  | run e =>
    simp only [step] at h
    split at h
    · rename_i hmain
      exact .run e s' hmain (stepRun_move h)
    · cases h
  | cleanup e =>
    simp only [step] at h
    split at h
    · rename_i hlive
      exact .cleanup e s' hlive (stepCleanup_move h)
    · cases h
  | fileIpcTask e =>
    simp only [step] at h
    split at h
    · rename_i hlive
      exact .fileIpcTask e s' hlive (stepFileIpcTask_move h)
    · cases h
  | manager l =>
    simp only [step] at h
    split at h
    · rename_i hlive
      obtain ⟨m, hm, rfl⟩ := Option.map_eq_some_iff.mp h
      exact .manager l m hlive hm
    · cases h
  | listener e =>
    simp only [step] at h
    split at h
    · rename_i hcond
      obtain ⟨hlive, hallows⟩ := Bool.and_eq_true_iff.mp hcond
      obtain ⟨l, hl, rfl⟩ := Option.map_eq_some_iff.mp h
      exact .listener e l hlive hallows hl
    · cases h
  | fileIpc e =>
    simp only [step] at h
    split at h
    · rename_i hcond
      obtain ⟨hlive, hallows⟩ := Bool.and_eq_true_iff.mp hcond
      obtain ⟨f, hf, rfl⟩ := Option.map_eq_some_iff.mp h
      exact .fileIpc e f hlive hallows hf
    · cases h

/-- `run` and what it has aborted stay as they are, or `run` has moved. -/
theorem step_run {e : Event ι ε} (h : s.step H serde e = some s') :
    s'.run = s.run ∧ s'.aborts = s.aborts ∨ ∃ re, e = .run re ∧ RunMove s re s' := by
  cases step_move h with
  | main r s' hm => cases hm <;> exact Or.inl ⟨rfl, rfl⟩
  | run e s' hmain hr => exact Or.inr ⟨e, rfl, hr⟩
  | cleanup e s' hlive hc => cases hc <;> exact Or.inl ⟨rfl, rfl⟩
  | fileIpcTask e s' hlive hf => cases hf <;> exact Or.inl ⟨rfl, rfl⟩
  | _ => exact Or.inl ⟨rfl, rfl⟩

/-! ## The parts -/

/-- A call that begins is a step of the job manager. -/
theorem begin_step (s : ServiceHost κ) (op : Op) :
    Metered.machine.step s.manager (.call op) = some (s.begin op).manager := rfl

/-- The job manager stays as it is, or takes a step of its own. -/
theorem step_manager {e : Event ι ε} (h : s.step H serde e = some s') :
    s'.manager = s.manager ∨ ∃ l, Metered.machine.step s.manager l = some s'.manager ∧
      (e = .manager l ∨ ∃ op, l = .call op) := by
  cases step_move h with
  | main r s' hm => cases hm <;> exact Or.inl rfl
  | run e s' hmain hr =>
    cases hr with
    | shutdown e rx hpc he => exact Or.inr ⟨_, s.begin_step _, Or.inr ⟨_, rfl⟩⟩
    | _ => exact Or.inl rfl
  | cleanup e s' hlive hc =>
    cases hc with
    | tick rx hpc => exact Or.inr ⟨_, s.begin_step _, Or.inr ⟨_, rfl⟩⟩
    | _ => exact Or.inl rfl
  | fileIpcTask e s' hlive hf => cases hf <;> exact Or.inl rfl
  | manager l m hlive hm => exact Or.inr ⟨l, hm, Or.inl rfl⟩
  | _ => exact Or.inl rfl

/-- The same for the pipe server. -/
theorem step_listener {e : Event ι ε} (h : s.step H serde e = some s') :
    s'.listener = s.listener ∨ ∃ le, e = .listener le ∧ s.live = true ∧
      s.listener.step H le = some s'.listener := by
  cases step_move h with
  | main r s' hm => cases hm <;> exact Or.inl rfl
  | run e s' hmain hr => cases hr <;> exact Or.inl rfl
  | cleanup e s' hlive hc => cases hc <;> exact Or.inl rfl
  | fileIpcTask e s' hlive hf => cases hf <;> exact Or.inl rfl
  | listener e l hlive hallows hl => exact Or.inr ⟨e, rfl, hlive, hl⟩
  | _ => exact Or.inl rfl

/-- The same for the file-based server. -/
theorem step_fileIpc {e : Event ι ε} (h : s.step H serde e = some s') :
    s'.fileIpc = s.fileIpc ∨ ∃ fe, s.fileIpc.step serde fe = some s'.fileIpc := by
  cases step_move h with
  | main r s' hm => cases hm <;> exact Or.inl rfl
  | run e s' hmain hr => cases hr <;> exact Or.inl rfl
  | cleanup e s' hlive hc => cases hc <;> exact Or.inl rfl
  | fileIpcTask e s' hlive hf =>
    cases hf with
    | changed rx f hpc hchanged hstop => exact Or.inr ⟨_, hstop⟩
    | _ => exact Or.inl rfl
  | fileIpc e f hlive hallows hf => exact Or.inr ⟨e, hf⟩
  | _ => exact Or.inl rfl

/-- The counter of the job manager is incremented `2 ^ 32` times at most. -/
def InFirstTurn (s : ServiceHost κ) : Event ι ε → Prop
  | .manager l => s.manager.InFirstTurn l
  | _ => True

instance (s : ServiceHost κ) (e : Event ι ε) : Decidable (InFirstTurn s e) :=
  match e with
  | .manager l => inferInstanceAs (Decidable (s.manager.InFirstTurn l))
  | .main _ | .control _ | .run _ | .cleanup _ | .fileIpcTask _ | .listener _ | .fileIpc _ =>
    isTrue trivial

/-- The job manager, the pipe server and the file-based server are in states that their own
machines reach, so all that holds of them alone holds of them in the service. -/
structure Composed (H : Handler ι κ ε) (serde : FileIpc.Serde) (s : ServiceHost κ) : Prop where
  listener : (Listener.machine H maxConnections).Reachable s.listener
  fileIpc : (FileIpcServer.machine serde).Reachable s.fileIpc

theorem manager_reach (h : (machine H serde).Reach InFirstTurn s) :
    Metered.machine.Reach Metered.InFirstTurn s.manager := by
  refine h.invariant (I := fun s => Metered.machine.Reach Metered.InFirstTurn s.manager) ?_ ?_
  · rintro _ ⟨console, manager, hinit, -, rfl⟩
    exact ⟨manager, [], hinit, .nil _⟩
  · intro s e s' hs hturn hstep
    rcases step_manager hstep with hsame | ⟨l, hl, hcond⟩
    · rw [hsame]
      exact hs
    · refine hs.step ?_ hl
      rcases hcond with rfl | ⟨op, rfl⟩
      · exact hturn
      · intro hdraws
        cases hdraws

theorem composed_reachable {C : ServiceHost κ → Event ι ε → Prop}
    (h : (machine H serde).Reach C s) : Composed H serde s := by
  refine h.invariant ?_ ?_
  · rintro _ ⟨console, manager, -, -, rfl⟩
    exact ⟨⟨_, [], rfl, .nil _⟩, ⟨_, [], rfl, .nil _⟩⟩
  · intro s e s' hs _ hstep
    refine ⟨?_, ?_⟩
    · rcases step_listener hstep with hsame | ⟨le, -, -, hl⟩
      · rw [hsame]
        exact hs.listener
      · exact hs.listener.step trivial hl
    · rcases step_fileIpc hstep with hsame | ⟨fe, hf⟩
      · rw [hsame]
        exact hs.fileIpc
      · exact hs.fileIpc.step trivial hf

end steps

end ServiceHost

end RemoteAgent
