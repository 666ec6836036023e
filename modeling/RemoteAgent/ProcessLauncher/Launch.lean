import Mathlib.Data.List.Nodup
import RemoteAgent.Error
import RemoteAgent.JobManager.Handle

/-!
# Launching a process

`process_launcher.rs`: `ProcessLauncher::launch` with the calls of Win32 that it
makes, and the `Drop` implementations of the two structures that hold handles on
the way.

The outcomes of the calls are an argument (`Win32`).  What a launch does to the
outside is a `Ledger`: the handles that it was given, the handles that it gave to
`CloseHandle`, and the processes that it started.

* `Course` lists the eight ways that a launch can go, with the ledger of each, and
  `launch_course` says that there are no others.
* `leaves_nothing_iff`: a launch that fails gives everything back, unless it is
  one of four calls that fails.
* `hands_over`: no launch closes a handle twice, and one that succeeds hands over
  the six handles that are still open.
-/

namespace RemoteAgent.ProcessLauncher

open JobManager (HANDLE)

/-! ## Handles -/

/-- `HANDLE::is_invalid`. -/
def isInvalid (h : HANDLE) : Bool := h = 0xFFFFFFFFFFFFFFFF || h = 0

/-- What a launch has done. -/
structure Ledger where
  opened : List HANDLE
  closed : List HANDLE
  running : List UInt32
  deriving DecidableEq, Repr

namespace Ledger

def empty : Ledger := ⟨[], [], []⟩

def takes (w : Ledger) (hs : List HANDLE) : Ledger := { w with opened := w.opened ++ hs }

def closeHandle (w : Ledger) (h : HANDLE) : Ledger := { w with closed := w.closed ++ [h] }

/-- Close a handle and clear the variable that holds it, unless it is invalid. -/
def closeAndClear (w : Ledger) (h : HANDLE) : HANDLE × Ledger :=
  if isInvalid h then (h, w) else (0, w.closeHandle h)

end Ledger

structure ChildPipeHandles where
  stdinRead : HANDLE
  stdinWrite : HANDLE
  stdoutRead : HANDLE
  stdoutWrite : HANDLE
  stderrRead : HANDLE
  stderrWrite : HANDLE
  deriving DecidableEq, Repr

namespace ChildPipeHandles

/-- `close_all`, which is also `Drop`. -/
def closeAll (p : ChildPipeHandles) (w : Ledger) : ChildPipeHandles × Ledger :=
  let (stdinRead, w) := w.closeAndClear p.stdinRead
  let (stdinWrite, w) := w.closeAndClear p.stdinWrite
  let (stdoutRead, w) := w.closeAndClear p.stdoutRead
  let (stdoutWrite, w) := w.closeAndClear p.stdoutWrite
  let (stderrRead, w) := w.closeAndClear p.stderrRead
  let (stderrWrite, w) := w.closeAndClear p.stderrWrite
  (⟨stdinRead, stdinWrite, stdoutRead, stdoutWrite, stderrRead, stderrWrite⟩, w)

def drop (p : ChildPipeHandles) (w : Ledger) : Ledger := (p.closeAll w).2

end ChildPipeHandles

structure LaunchedProcess where
  processHandle : HANDLE
  threadHandle : HANDLE
  processId : UInt32
  jobObject : HANDLE
  stdoutRead : HANDLE
  stderrRead : HANDLE
  stdinWrite : HANDLE
  deriving DecidableEq, Repr

/-- `Drop for LaunchedProcess`. -/
def LaunchedProcess.drop (p : LaunchedProcess) (w : Ledger) : Ledger :=
  if isInvalid p.threadHandle then w else w.closeHandle p.threadHandle

/-! ## The calls of Win32 -/

/-- `OsStr::encode_wide`: UTF-16. -/
def encodeWide (s : String) : List UInt16 :=
  s.toList.flatMap fun c =>
    let n := c.toNat
    if n < 0x10000 then [UInt16.ofNat n]
    else
      [UInt16.ofNat (0xD800 + (n - 0x10000) / 0x400),
        UInt16.ofNat (0xDC00 + (n - 0x10000) % 0x400)]

/-- `build_env_block`, on the entries in the order in which the map yields
them. -/
def buildEnvBlock (env : List (String × String)) : List UInt16 :=
  (env.flatMap fun (k, v) => encodeWide (k ++ "=" ++ v) ++ [0]) ++ [0]

/-- What `CreateProcessW` is called with. -/
structure CreateProcessArgs where
  commandLine : List UInt16
  environment : Option (List UInt16)
  workingDirectory : Option (List UInt16)
  stdInput : HANDLE
  stdOutput : HANDLE
  stdError : HANDLE
  deriving DecidableEq, Repr

structure ProcessInformation where
  hProcess : HANDLE
  hThread : HANDLE
  dwProcessId : UInt32
  deriving DecidableEq, Repr

/-- The outcomes of the calls of one launch.  An error is its text. -/
structure Outcomes where
  createPipeStdin : Except String (HANDLE × HANDLE)
  createPipeStdout : Except String (HANDLE × HANDLE)
  createPipeStderr : Except String (HANDLE × HANDLE)
  createJobObject : Except String HANDLE
  setInformationJobObject : Except String Unit
  createProcess : CreateProcessArgs → Except String ProcessInformation
  assignProcessToJobObject : Except String Unit

namespace Outcomes

/-- The two ends of a pipe. -/
def ends : Except String (HANDLE × HANDLE) → List HANDLE
  | .ok (r, w) => [r, w]
  | .error _ => []

/-- The handles that the calls return. -/
def returned (os : Outcomes) (args : CreateProcessArgs) : List HANDLE :=
  ends os.createPipeStdin ++ ends os.createPipeStdout ++ ends os.createPipeStderr ++
    (match os.createJobObject with
      | .ok job => [job]
      | .error _ => []) ++
    match os.createProcess args with
    | .ok info => [info.hProcess, info.hThread]
    | .error _ => []

end Outcomes

/-- The outcomes that Win32 can have: a call that succeeds returns handles that
are valid and that are not open already.  A launch opens all its handles before it
closes the first, so they all differ. -/
structure Win32 extends Outcomes where
  valid : ∀ args, ∀ h ∈ toOutcomes.returned args, isInvalid h = false
  distinct : ∀ args, (toOutcomes.returned args).Nodup

/-! ## `launch` -/

section launch

variable (os : Outcomes) (commandLine : String) (workingDirectory : Option String)
  (environment : Option (List (String × String)))

def createPipes (w : Ledger) : Except Error ChildPipeHandles × Ledger :=
  match os.createPipeStdin with
  | .error e => (.error (.processLaunchFailed ("CreatePipe stdin: " ++ e)), w)
  | .ok (stdinRead, stdinWrite) =>
    let w := w.takes [stdinRead, stdinWrite]
    match os.createPipeStdout with
    | .error e => (.error (.processLaunchFailed ("CreatePipe stdout: " ++ e)), w)
    | .ok (stdoutRead, stdoutWrite) =>
      let w := w.takes [stdoutRead, stdoutWrite]
      match os.createPipeStderr with
      | .error e => (.error (.processLaunchFailed ("CreatePipe stderr: " ++ e)), w)
      | .ok (stderrRead, stderrWrite) =>
        (.ok ⟨stdinRead, stdinWrite, stdoutRead, stdoutWrite, stderrRead, stderrWrite⟩,
          w.takes [stderrRead, stderrWrite])

def createJobObject (w : Ledger) : Except Error HANDLE × Ledger :=
  match os.createJobObject with
  | .error e => (.error (.processLaunchFailed ("CreateJobObjectW: " ++ e)), w)
  | .ok job =>
    let w := w.takes [job]
    match os.setInformationJobObject with
    | .error e => (.error (.processLaunchFailed ("SetInformationJobObject: " ++ e)), w)
    | .ok () => (.ok job, w)

/-- What `do_launch` calls `CreateProcessW` with.  The texts end with a null. -/
def createProcessArgs (pipes : ChildPipeHandles) : CreateProcessArgs where
  commandLine := encodeWide commandLine ++ [0]
  environment := environment.map buildEnvBlock
  workingDirectory := workingDirectory.map fun wd => encodeWide wd ++ [0]
  stdInput := pipes.stdinRead
  stdOutput := pipes.stdoutWrite
  stdError := pipes.stderrWrite

def doLaunch (pipes : ChildPipeHandles) (w : Ledger) :
    Except Error LaunchedProcess × Ledger :=
  match os.createProcess
      (createProcessArgs commandLine workingDirectory environment pipes) with
  | .error e => (.error (.processLaunchFailed ("CreateProcessW: " ++ e)), w)
  | .ok info =>
    (.ok ⟨info.hProcess, info.hThread, info.dwProcessId, 0, 0, 0, 0⟩,
      { w.takes [info.hProcess, info.hThread] with
        running := w.running ++ [info.dwProcessId] })

/-- `launch`.  Every return drops what the function still owns: `proc` before
`pipes`. -/
def launch : Except Error LaunchedProcess × Ledger :=
  match createPipes os .empty with
  | (.error e, w) => (.error e, w)
  | (.ok pipes, w) =>
    match createJobObject os w with
    | (.error e, w) => (.error e, pipes.drop w)
    | (.ok jobObject, w) =>
      match doLaunch os commandLine workingDirectory environment pipes w with
      | (.error e, w) => (.error e, pipes.drop (w.closeHandle jobObject))
      | (.ok proc, w) =>
        match os.assignProcessToJobObject with
        | .error e => (.error (.windows e), pipes.drop (proc.drop w))
        | .ok () =>
          let (stdoutWrite, w) := w.closeAndClear pipes.stdoutWrite
          let (stderrWrite, w) := w.closeAndClear pipes.stderrWrite
          let (stdinRead, w) := w.closeAndClear pipes.stdinRead
          (.ok { proc with
              jobObject := jobObject
              stdoutRead := pipes.stdoutRead
              stderrRead := pipes.stderrRead
              stdinWrite := pipes.stdinWrite },
            (⟨stdinRead, 0, 0, stdoutWrite, 0, stderrWrite⟩ : ChildPipeHandles).drop w)

end launch

/-! ## The ways a launch can go -/

namespace ChildPipeHandles

/-- The handles in the order in which `close_all` goes over them. -/
def handles (p : ChildPipeHandles) : List HANDLE :=
  [p.stdinRead, p.stdinWrite, p.stdoutRead, p.stdoutWrite, p.stderrRead, p.stderrWrite]

/-- Valid handles are closed one after another. -/
theorem drop_of_valid {p : ChildPipeHandles} (h : ∀ x ∈ p.handles, isInvalid x = false)
    (w : Ledger) : p.drop w = { w with closed := w.closed ++ p.handles } := by
  simp only [handles, List.forall_mem_cons] at h
  obtain ⟨h1, h2, h3, h4, h5, h6, -⟩ := h
  simp [drop, closeAll, Ledger.closeAndClear, Ledger.closeHandle, h1, h2, h3, h4, h5, h6,
    handles]

/-- Cleared variables are left alone. -/
theorem drop_cleared (w : Ledger) : (⟨0, 0, 0, 0, 0, 0⟩ : ChildPipeHandles).drop w = w := rfl

end ChildPipeHandles

namespace Outcomes

/-- All three pipes are created. -/
def Pipes (os : Outcomes) (p : ChildPipeHandles) : Prop :=
  os.createPipeStdin = .ok (p.stdinRead, p.stdinWrite) ∧
    os.createPipeStdout = .ok (p.stdoutRead, p.stdoutWrite) ∧
    os.createPipeStderr = .ok (p.stderrRead, p.stderrWrite)

end Outcomes

/-- The courses of a launch, by the call that fails. -/
inductive Course (os : Outcomes) (commandLine : String) (workingDirectory : Option String)
    (environment : Option (List (String × String))) :
    Except Error LaunchedProcess → Ledger → Prop where
  | stdin (e : String) (h : os.createPipeStdin = .error e) :
    Course os commandLine workingDirectory environment
      (.error (.processLaunchFailed ("CreatePipe stdin: " ++ e))) ⟨[], [], []⟩
  | stdout (e : String) (stdinRead stdinWrite : HANDLE)
    (h₁ : os.createPipeStdin = .ok (stdinRead, stdinWrite))
    (h : os.createPipeStdout = .error e) :
    Course os commandLine workingDirectory environment
      (.error (.processLaunchFailed ("CreatePipe stdout: " ++ e)))
      ⟨[stdinRead, stdinWrite], [], []⟩
  | stderr (e : String) (stdinRead stdinWrite stdoutRead stdoutWrite : HANDLE)
    (h₁ : os.createPipeStdin = .ok (stdinRead, stdinWrite))
    (h₂ : os.createPipeStdout = .ok (stdoutRead, stdoutWrite))
    (h : os.createPipeStderr = .error e) :
    Course os commandLine workingDirectory environment
      (.error (.processLaunchFailed ("CreatePipe stderr: " ++ e)))
      ⟨[stdinRead, stdinWrite, stdoutRead, stdoutWrite], [], []⟩
  | jobObject (e : String) (p : ChildPipeHandles) (hp : os.Pipes p)
    (h : os.createJobObject = .error e) :
    Course os commandLine workingDirectory environment
      (.error (.processLaunchFailed ("CreateJobObjectW: " ++ e)))
      ⟨p.handles, p.handles, []⟩
  | setInformation (e : String) (p : ChildPipeHandles) (job : HANDLE) (hp : os.Pipes p)
    (hj : os.createJobObject = .ok job) (h : os.setInformationJobObject = .error e) :
    Course os commandLine workingDirectory environment
      (.error (.processLaunchFailed ("SetInformationJobObject: " ++ e)))
      ⟨p.handles ++ [job], p.handles, []⟩
  | createProcess (e : String) (p : ChildPipeHandles) (job : HANDLE) (hp : os.Pipes p)
    (hj : os.createJobObject = .ok job) (hs : os.setInformationJobObject = .ok ())
    (h : os.createProcess (createProcessArgs commandLine workingDirectory environment p) =
      .error e) :
    Course os commandLine workingDirectory environment
      (.error (.processLaunchFailed ("CreateProcessW: " ++ e)))
      ⟨p.handles ++ [job], job :: p.handles, []⟩
  | assign (e : String) (p : ChildPipeHandles) (job : HANDLE) (info : ProcessInformation)
    (hp : os.Pipes p) (hj : os.createJobObject = .ok job)
    (hs : os.setInformationJobObject = .ok ())
    (hc : os.createProcess (createProcessArgs commandLine workingDirectory environment p) =
      .ok info)
    (h : os.assignProcessToJobObject = .error e) :
    Course os commandLine workingDirectory environment (.error (.windows e))
      ⟨p.handles ++ [job, info.hProcess, info.hThread], info.hThread :: p.handles,
        [info.dwProcessId]⟩
  | ok (p : ChildPipeHandles) (job : HANDLE) (info : ProcessInformation)
    (hp : os.Pipes p) (hj : os.createJobObject = .ok job)
    (hs : os.setInformationJobObject = .ok ())
    (hc : os.createProcess (createProcessArgs commandLine workingDirectory environment p) =
      .ok info)
    (h : os.assignProcessToJobObject = .ok ()) :
    Course os commandLine workingDirectory environment
      (.ok ⟨info.hProcess, info.hThread, info.dwProcessId, job, p.stdoutRead, p.stderrRead,
        p.stdinWrite⟩)
      ⟨p.handles ++ [job, info.hProcess, info.hThread],
        [p.stdoutWrite, p.stderrWrite, p.stdinRead], [info.dwProcessId]⟩

section course

variable (os : Win32) (commandLine : String) (workingDirectory : Option String)
  (environment : Option (List (String × String)))

theorem Outcomes.returned_of_pipes {os : Outcomes} {p : ChildPipeHandles}
    (h : os.Pipes p) (args : CreateProcessArgs) :
    os.returned args = p.handles ++
      ((match os.createJobObject with
        | .ok job => [job]
        | .error _ => []) ++
      match os.createProcess args with
      | .ok info => [info.hProcess, info.hThread]
      | .error _ => []) := by
  obtain ⟨h1, h2, h3⟩ := h
  simp only [returned, h1, h2, h3, ends, ChildPipeHandles.handles, List.cons_append,
    List.nil_append]

theorem Win32.pipes_valid {os : Win32} {p : ChildPipeHandles} (h : os.Pipes p) :
    ∀ x ∈ p.handles, isInvalid x = false := by
  intro x hx
  apply os.valid (createProcessArgs "" none none p) x
  rw [Outcomes.returned_of_pipes h]
  exact List.mem_append_left _ hx

/-- The handles of a launch in which all calls that return handles succeed. -/
theorem Win32.returned_all {os : Win32} {p : ChildPipeHandles} {job : HANDLE}
    {info : ProcessInformation} {args : CreateProcessArgs} (hp : os.Pipes p)
    (hj : os.createJobObject = .ok job) (hc : os.createProcess args = .ok info) :
    os.returned args = p.handles ++ [job, info.hProcess, info.hThread] := by
  rw [Outcomes.returned_of_pipes hp]
  simp only [hj, hc, List.cons_append, List.nil_append]

theorem Win32.thread_valid {os : Win32} {p : ChildPipeHandles} {job : HANDLE}
    {info : ProcessInformation} {args : CreateProcessArgs} (hp : os.Pipes p)
    (hj : os.createJobObject = .ok job) (hc : os.createProcess args = .ok info) :
    isInvalid info.hThread = false := by
  apply os.valid args
  rw [Win32.returned_all hp hj hc]
  simp

theorem createPipes_of_pipes {os : Outcomes} {p : ChildPipeHandles} (h : os.Pipes p) :
    createPipes os .empty = (.ok p, ⟨p.handles, [], []⟩) := by
  obtain ⟨h1, h2, h3⟩ := h
  simp only [createPipes, h1, h2, h3]
  rfl

/-- The courses of a launch whose pipes are created. -/
theorem launch_course_of_pipes {p : ChildPipeHandles} (hp : os.Pipes p) :
    Course os.toOutcomes commandLine workingDirectory environment
      (launch os.toOutcomes commandLine workingDirectory environment).1
      (launch os.toOutcomes commandLine workingDirectory environment).2 := by
  have hdrop := ChildPipeHandles.drop_of_valid (Win32.pipes_valid hp)
  unfold launch
  rw [createPipes_of_pipes hp]
  simp only [createJobObject]
  cases hj : os.createJobObject with
  | error e =>
    simp only [hdrop]
    exact .jobObject e p hp hj
  | ok job =>
  cases hs : os.setInformationJobObject with
  | error e =>
    simp only [hdrop]
    exact .setInformation e p job hp hj hs
  | ok u =>
  simp only [doLaunch]
  cases hc : os.createProcess
      (createProcessArgs commandLine workingDirectory environment p) with
  | error e =>
    simp only [hdrop]
    exact .createProcess e p job hp hj hs hc
  | ok info =>
  cases ha : os.assignProcessToJobObject with
  | error e =>
    simp only [hdrop, LaunchedProcess.drop, Win32.thread_valid hp hj hc]
    exact .assign e p job info hp hj hs hc ha
  | ok u =>
    have hvalid := Win32.pipes_valid hp
    simp only [ChildPipeHandles.handles, List.forall_mem_cons] at hvalid
    obtain ⟨h1, -, -, h4, -, h6, -⟩ := hvalid
    simp only [Ledger.closeAndClear, h1, h4, h6, Bool.false_eq_true, if_false,
      ChildPipeHandles.drop_cleared]
    exact .ok p job info hp hj hs hc ha

theorem launch_course :
    Course os.toOutcomes commandLine workingDirectory environment
      (launch os.toOutcomes commandLine workingDirectory environment).1
      (launch os.toOutcomes commandLine workingDirectory environment).2 := by
  cases h1 : os.createPipeStdin with
  | error e =>
    simp only [launch, createPipes, h1]
    exact .stdin e h1
  | ok stdin =>
  cases h2 : os.createPipeStdout with
  | error e =>
    simp only [launch, createPipes, h1, h2]
    exact .stdout e _ _ h1 h2
  | ok stdout =>
  cases h3 : os.createPipeStderr with
  | error e =>
    simp only [launch, createPipes, h1, h2, h3]
    exact .stderr e _ _ _ _ h1 h2 h3
  | ok stderr =>
    exact launch_course_of_pipes os commandLine workingDirectory environment
      (p := ⟨stdin.1, stdin.2, stdout.1, stdout.2, stderr.1, stderr.2⟩) ⟨h1, h2, h3⟩

end course

/-! ## Launches that fail -/

inductive Win32Call where
  | createPipeStdin
  | createPipeStdout
  | createPipeStderr
  | createJobObject
  | setInformationJobObject
  | createProcess
  | assignProcessToJobObject
  deriving DecidableEq, Repr

/-- The first call that fails, in the order of the calls. -/
def Outcomes.firstFailure (os : Outcomes) (commandLine : String)
    (workingDirectory : Option String) (environment : Option (List (String × String))) :
    Option Win32Call :=
  match os.createPipeStdin, os.createPipeStdout, os.createPipeStderr with
  | .error _, _, _ => some .createPipeStdin
  | .ok _, .error _, _ => some .createPipeStdout
  | .ok _, .ok _, .error _ => some .createPipeStderr
  | .ok stdin, .ok stdout, .ok stderr =>
    match os.createJobObject, os.setInformationJobObject,
      os.createProcess (createProcessArgs commandLine workingDirectory environment
        ⟨stdin.1, stdin.2, stdout.1, stdout.2, stderr.1, stderr.2⟩),
      os.assignProcessToJobObject with
    | .error _, _, _, _ => some .createJobObject
    | .ok _, .error _, _, _ => some .setInformationJobObject
    | .ok _, .ok _, .error _, _ => some .createProcess
    | .ok _, .ok _, .ok _, .error _ => some .assignProcessToJobObject
    | .ok _, .ok _, .ok _, .ok _ => none

/-- The calls after whose failure something is left: the ends of the pipes that
exist so far, the job object, or the process with its handle and the job object. -/
def Win32Call.leaks : Win32Call → Bool
  | .createPipeStdout | .createPipeStderr => true
  | .setInformationJobObject | .assignProcessToJobObject => true
  | .createPipeStdin | .createJobObject | .createProcess => false

/-- Every handle was closed exactly once, and no process was left running. -/
def Ledger.LeavesNothing (w : Ledger) : Prop :=
  (∀ h ∈ w.opened, w.closed.count h = 1) ∧ w.running = []

namespace Ledger

theorem leavesNothing_of_nodup {opened closed : List HANDLE} (hnodup : closed.Nodup)
    (hsub : ∀ h ∈ opened, h ∈ closed) : LeavesNothing ⟨opened, closed, []⟩ :=
  ⟨fun h hmem => List.count_eq_one_of_mem hnodup (hsub h hmem), rfl⟩

theorem not_leavesNothing_of_open {w : Ledger} {h : HANDLE} (hopen : h ∈ w.opened)
    (hclosed : h ∉ w.closed) : ¬ w.LeavesNothing := by
  intro hnone
  have hone := hnone.1 h hopen
  rw [List.count_eq_zero_of_not_mem hclosed] at hone
  cases hone

end Ledger

theorem Outcomes.firstFailure_of_pipes {os : Outcomes} {p : ChildPipeHandles}
    (h : os.Pipes p) (commandLine : String) (workingDirectory : Option String)
    (environment : Option (List (String × String))) :
    os.firstFailure commandLine workingDirectory environment =
      match os.createJobObject, os.setInformationJobObject,
        os.createProcess (createProcessArgs commandLine workingDirectory environment p),
        os.assignProcessToJobObject with
      | .error _, _, _, _ => some .createJobObject
      | .ok _, .error _, _, _ => some .setInformationJobObject
      | .ok _, .ok _, .error _, _ => some .createProcess
      | .ok _, .ok _, .ok _, .error _ => some .assignProcessToJobObject
      | .ok _, .ok _, .ok _, .ok _ => none := by
  obtain ⟨h1, h2, h3⟩ := h
  simp only [firstFailure, h1, h2, h3]

theorem Win32.nodup_handles {os : Win32} {p : ChildPipeHandles} (h : os.Pipes p) :
    p.handles.Nodup := by
  have hall := os.distinct (createProcessArgs "" none none p)
  rw [Outcomes.returned_of_pipes h] at hall
  exact (List.nodup_append.mp hall).1

theorem Win32.nodup_job {os : Win32} {p : ChildPipeHandles} {job : HANDLE}
    (h : os.Pipes p) (hj : os.createJobObject = .ok job) : (job :: p.handles).Nodup := by
  have hall := os.distinct (createProcessArgs "" none none p)
  rw [Outcomes.returned_of_pipes h, hj, ← List.append_assoc] at hall
  exact (List.perm_append_singleton job p.handles).nodup (List.nodup_append.mp hall).1

theorem Win32.nodup_all {os : Win32} {p : ChildPipeHandles} {job : HANDLE}
    {info : ProcessInformation} {args : CreateProcessArgs} (hp : os.Pipes p)
    (hj : os.createJobObject = .ok job) (hc : os.createProcess args = .ok info) :
    (p.handles ++ [job, info.hProcess, info.hThread]).Nodup := by
  rw [← Win32.returned_all hp hj hc]
  exact os.distinct args

/-- A launch that fails leaves nothing behind, exactly if it is not the creation of
the second or third pipe, `SetInformationJobObject` or `AssignProcessToJobObject`
that fails. -/
theorem leaves_nothing_iff (os : Win32) (commandLine : String)
    (workingDirectory : Option String) (environment : Option (List (String × String))) :
    (∀ e, (launch os.toOutcomes commandLine workingDirectory environment).1 = .error e →
        (launch os.toOutcomes commandLine workingDirectory environment).2.LeavesNothing) ↔
      ∀ c, os.firstFailure commandLine workingDirectory environment = some c →
        c.leaks = false := by
  have hcourse := launch_course os commandLine workingDirectory environment
  generalize (launch os.toOutcomes commandLine workingDirectory environment).1 = r at *
  generalize (launch os.toOutcomes commandLine workingDirectory environment).2 = w at *
  cases hcourse with
  | stdin e h =>
    simp [Outcomes.firstFailure, h, Ledger.LeavesNothing, Win32Call.leaks]
  | stdout e stdinRead stdinWrite h₁ h =>
    have hleft : ¬ Ledger.LeavesNothing ⟨[stdinRead, stdinWrite], [], []⟩ :=
      Ledger.not_leavesNothing_of_open (List.mem_cons_self ..) List.not_mem_nil
    simpa [Outcomes.firstFailure, h₁, h, Win32Call.leaks] using hleft
  | stderr e stdinRead stdinWrite stdoutRead stdoutWrite h₁ h₂ h =>
    have hleft : ¬ Ledger.LeavesNothing
        ⟨[stdinRead, stdinWrite, stdoutRead, stdoutWrite], [], []⟩ :=
      Ledger.not_leavesNothing_of_open (List.mem_cons_self ..) List.not_mem_nil
    simpa [Outcomes.firstFailure, h₁, h₂, h, Win32Call.leaks] using hleft
  | jobObject e p hp h =>
    have hnone : Ledger.LeavesNothing ⟨p.handles, p.handles, []⟩ :=
      Ledger.leavesNothing_of_nodup (Win32.nodup_handles hp) fun _ hx => hx
    simpa [Outcomes.firstFailure_of_pipes hp, h, Win32Call.leaks] using hnone
  | setInformation e p job hp hj h =>
    have hleft : ¬ Ledger.LeavesNothing ⟨p.handles ++ [job], p.handles, []⟩ :=
      Ledger.not_leavesNothing_of_open (List.mem_append_right _ (List.mem_singleton_self job))
        (List.nodup_cons.mp (Win32.nodup_job hp hj)).1
    simpa [Outcomes.firstFailure_of_pipes hp, hj, h, Win32Call.leaks] using hleft
  | createProcess e p job hp hj hs h =>
    have hnone : Ledger.LeavesNothing ⟨p.handles ++ [job], job :: p.handles, []⟩ := by
      apply Ledger.leavesNothing_of_nodup (Win32.nodup_job hp hj)
      intro x hx
      exact (List.perm_append_singleton job p.handles).mem_iff.mp hx
    simpa [Outcomes.firstFailure_of_pipes hp, hj, hs, h, Win32Call.leaks] using hnone
  | assign e p job info hp hj hs hc h =>
    simp [Outcomes.firstFailure_of_pipes hp, hj, hs, hc, h, Ledger.LeavesNothing,
      Win32Call.leaks]
  | ok p job info hp hj hs hc h =>
    simp [Outcomes.firstFailure_of_pipes hp, hj, hs, hc, h]

/-- Calls that all succeed, up to the last one, whose outcome is given. -/
def sampleWin32 (assign : Except String Unit) : Win32 where
  createPipeStdin := .ok (106, 105)
  createPipeStdout := .ok (103, 107)
  createPipeStderr := .ok (104, 108)
  createJobObject := .ok 102
  setInformationJobObject := .ok ()
  createProcess := fun _ => .ok ⟨100, 101, 7⟩
  assignProcessToJobObject := assign
  valid := by
    intro _ h hh
    have hall : ([106, 105, 103, 107, 104, 108, 102, 100, 101] : List HANDLE).all
        (fun h => !isInvalid h) = true := by decide
    simpa using List.all_eq_true.mp hall h hh
  distinct := by
    intro _
    show ([106, 105, 103, 107, 104, 108, 102, 100, 101] : List HANDLE).Nodup
    decide

/-- `AssignProcessToJobObject` fails, and the process runs on. -/
theorem fails_and_leaves_process :
    ∃ e, (launch (sampleWin32 (.error "denied")).toOutcomes "cmd" none none).1 = .error e ∧
      ¬ (launch (sampleWin32 (.error "denied")).toOutcomes "cmd" none none).2.LeavesNothing ∧
      (launch (sampleWin32 (.error "denied")).toOutcomes "cmd" none none).2.running = [7] := by
  refine ⟨.windows "denied", rfl, ?_, rfl⟩
  intro hnone
  cases hnone.2

/-! ## Launches that succeed -/

/-- The handles that a launch hands over. -/
def LaunchedProcess.handles (p : LaunchedProcess) : List HANDLE :=
  [p.processHandle, p.threadHandle, p.jobObject, p.stdoutRead, p.stderrRead, p.stdinWrite]

/-- What a launch that succeeds has done: `ends` are the pipes that it created. -/
structure HandsOver (os : Outcomes) (commandLine : String)
    (workingDirectory : Option String) (environment : Option (List (String × String)))
    (ends : ChildPipeHandles) (p : LaunchedProcess) (w : Ledger) : Prop where
  pipes : os.Pipes ends
  stdin : p.stdinWrite = ends.stdinWrite
  stdout : p.stdoutRead = ends.stdoutRead
  stderr : p.stderrRead = ends.stderrRead
  jobObject : os.createJobObject = .ok p.jobObject
  process : os.createProcess
    (createProcessArgs commandLine workingDirectory environment ends) =
      .ok ⟨p.processHandle, p.threadHandle, p.processId⟩
  opened : w.opened = ends.handles ++ [p.jobObject, p.processHandle, p.threadHandle]
  closed : w.closed = [ends.stdoutWrite, ends.stderrWrite, ends.stdinRead]
  distinct : p.handles.Nodup
  still_open : ∀ h, h ∈ w.opened ∧ h ∉ w.closed ↔ h ∈ p.handles
  once : (p.drop w).closed.Nodup

/-- No launch gives a handle to `CloseHandle` twice, with the drops of the pipes
and of the launched process counted.  One that succeeds has closed the ends of the
child, and the handles that are still open are those of the process that it
returns, each in its own field. -/
theorem hands_over (os : Win32) (commandLine : String)
    (workingDirectory : Option String) (environment : Option (List (String × String))) :
    match launch os.toOutcomes commandLine workingDirectory environment with
    | (.ok p, w) =>
      ∃ ends, HandsOver os.toOutcomes commandLine workingDirectory environment ends p w
    | (.error _, w) => w.closed.Nodup := by
  have hcourse := launch_course os commandLine workingDirectory environment
  rw [← Prod.eta (launch os.toOutcomes commandLine workingDirectory environment)]
  generalize (launch os.toOutcomes commandLine workingDirectory environment).1 = r at *
  generalize (launch os.toOutcomes commandLine workingDirectory environment).2 = w at *
  cases hcourse with
  | stdin e h => exact List.nodup_nil
  | stdout e stdinRead stdinWrite h₁ h => exact List.nodup_nil
  | stderr e stdinRead stdinWrite stdoutRead stdoutWrite h₁ h₂ h => exact List.nodup_nil
  | jobObject e p hp h => exact Win32.nodup_handles hp
  | setInformation e p job hp hj h => exact Win32.nodup_handles hp
  | createProcess e p job hp hj hs h => exact Win32.nodup_job hp hj
  | assign e p job info hp hj hs hc h =>
    have hall := Win32.nodup_all hp hj hc
    have hsub : (p.handles ++ [info.hThread]).Nodup :=
      hall.sublist (List.Sublist.append_left (by simp) p.handles)
    exact (List.perm_append_singleton info.hThread p.handles).nodup hsub
  | ok p job info hp hj hs hc h =>
    have hall := Win32.nodup_all hp hj hc
    refine ⟨p, hp, rfl, rfl, rfl, hj, hc, rfl, rfl, ?_, ?_, ?_⟩
    · simp only [ChildPipeHandles.handles, LaunchedProcess.handles, List.cons_append,
        List.nil_append, List.nodup_cons, List.mem_cons, List.not_mem_nil, or_false,
        not_or] at hall ⊢
      grind
    · simp only [ChildPipeHandles.handles, LaunchedProcess.handles, List.cons_append,
        List.nil_append, List.nodup_cons, List.mem_cons, List.not_mem_nil, or_false,
        not_or] at hall ⊢
      grind
    · simp only [LaunchedProcess.drop, Win32.thread_valid hp hj hc, Bool.false_eq_true,
        if_false, Ledger.closeHandle, ChildPipeHandles.handles, List.cons_append,
        List.nil_append, List.nodup_cons, List.mem_cons, List.not_mem_nil, or_false,
        not_or] at hall ⊢
      grind

end RemoteAgent.ProcessLauncher
