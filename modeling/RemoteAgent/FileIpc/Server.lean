import Mathlib.Data.List.AList
import RemoteAgent.CodeLib.StepMachine

/-!
# The file-based IPC server

`file_ipc.rs` as a machine.  One loop polls the request directory and spawns a task
for every `.json` file that it sees while it can get a permit.  A task opens its
file, reads it, removes it, parses what it has read, runs the command and writes the
response.  The permit belongs to the task and is dropped when the task is over.

* The directory holds one file under a name.  Each file that a client puts there is a
  placement of its own, also under a name that was used before, and `executed` lists
  the placements for which `execute_command` was called.
* An open file stays readable when its name is removed.
* A poll goes through the names that `read_dir` found.  The directory changes in the
  meantime, so a name may be gone when its task opens it, and a name that has come
  in after `read_dir` may or may not be listed.
* A child runs until it exits by itself.  `wait_with_output` comes back when the
  child has exited; on a timeout or an error it is dropped with its `Child`, which
  leaves the process running.

The event of a step carries what the environment decides: names and contents, the
outcomes of file operations, the output and the exit of commands, and when time is
up.  `TaskMove` says once what a step of a task can do.
-/

namespace RemoteAgent.FileIpc

open CodeLib

/-! ## Names -/

/-- A unit of an `OsStr` on Windows: a character, or a lone surrogate. -/
inductive OsUnit where
  | char (c : Char)
  | surrogate (u : UInt16)
  deriving DecidableEq, Repr

def OsUnit.toChar : OsUnit → Option Char
  | .char c => some c
  | .surrogate _ => none

abbrev FileName := List OsUnit

namespace FileName

def ofString (s : String) : FileName := s.toList.map OsUnit.char

/-- `OsStr::to_str`. -/
def toStr (name : FileName) : Option String :=
  (name.mapM OsUnit.toChar).map String.ofList

/-- The name in front of its last dot and behind it.  A name whose only dot is its
first character has no extension. -/
def splitAtDot (name : FileName) : Option FileName × Option FileName :=
  let reversed := name.reverse
  match reversed.dropWhile (· ≠ OsUnit.char '.') with
  | [] => (none, some name)
  | _ :: before =>
    if before.isEmpty then (some name, none)
    else (some before.reverse, some (reversed.takeWhile (· ≠ OsUnit.char '.')).reverse)

/-- `Path::extension`. -/
def extension (name : FileName) : Option FileName :=
  match name.splitAtDot with
  | (some _, some after) => some after
  | _ => none

/-- `Path::file_stem`. -/
def fileStem (name : FileName) : Option FileName :=
  match name.splitAtDot with
  | (some before, _) => some before
  | (none, after) => after

/-- Only `.json` files are requests. -/
def isJson (name : FileName) : Bool := name.extension = some (ofString "json")

/-- The request id that an error response goes to. -/
def requestId (name : FileName) : String :=
  (name.fileStem.bind toStr).getD "unknown"

end FileName

example : (FileName.ofString "a.json").isJson = true := by decide

example : (FileName.ofString ".json").isJson = false := by decide

/-! ## Requests and responses -/

def maxConcurrentJobs : Nat := 10

/-- `Request`.  A missing `timeout_ms` is `defaultTimeout`. -/
structure Request where
  id : String
  command : String
  workingDir : Option String
  environment : Option (List (String × String))
  timeoutMs : UInt64
  deriving DecidableEq, Repr

def defaultTimeout : UInt64 := 300000

structure Response where
  id : String
  exitCode : Int32
  stdout : String
  stderr : String
  error : Option String
  deriving DecidableEq, Repr

/-- What the server needs of `serde_json`. -/
structure Serde where
  requestFromStr : String → Except String Request
  responseToString : Response → Except String String

/-- `Duration::from_millis(ms)` as `{:?}` prints it. -/
def debugMillis (ms : UInt64) : String :=
  let n := ms.toNat
  if n ≥ 1000 then
    let digits := (toString (n % 1000 + 1000)).toList.drop 1
    let fraction := (digits.reverse.dropWhile (· = '0')).reverse
    toString (n / 1000) ++
      (if fraction.isEmpty then "" else "." ++ String.ofList fraction) ++ "s"
  else if n > 0 then toString n ++ "ms"
  else "0ns"

example : debugMillis 1500 = "1.5s" := by decide

/-- The response to a command that has produced no output. -/
def failure (id error : String) : Response := ⟨id, -1, "", "", some error⟩

/-- The response to a command that has exited. -/
def completed (request : Request) (code : Option Int32) (stdout stderr : String) :
    Response :=
  ⟨request.id, code.getD (-1), stdout, stderr, none⟩

/-! ## Tasks -/

/-- Why `process_single_request` returns an error.  Nothing looks into it. -/
inductive Failure where
  | open
  | read
  | serialize (msg : String)
  | write
  deriving DecidableEq, Repr

/-- Where a task stands, with the placement that it has opened.  In `waiting` it
awaits the child at the index.  In `returned` it still holds its permit. -/
inductive TaskPc where
  | opening
  | reading (p : Nat)
  | removing (p : Nat) (content : String)
  | parsing (p : Nat) (content : String)
  | spawning (p : Nat) (request : Request)
  | waiting (p : Nat) (request : Request) (child : Nat)
  | responding (response : Response)
  | returned (r : Except Failure Unit)
  | dropped
  deriving DecidableEq

structure Task where
  path : FileName
  pc : TaskPc
  deriving DecidableEq

/-- The file operations of a task, the fate of its command, and the drop of its
permit.  `exited` is the end of `wait_with_output`, with the exit code and the output
as text. -/
inductive TaskEvent where
  | opened
  | openFailed
  | read
  | readFailed
  | removed
  | removeFailed
  | parse
  | spawned
  | spawnFailed (msg : String)
  | exited (code : Option Int32) (stdout stderr : String)
  | waitFailed (msg : String)
  | timedOut
  | written
  | writeFailed
  | dropPermit
  deriving DecidableEq, Repr

/-- The poll loop: asleep, going through the names that are left, or shut down. -/
inductive PollPc where
  | sleeping
  | listing (names : List FileName)
  | stopped
  deriving DecidableEq

end RemoteAgent.FileIpc

namespace RemoteAgent

open CodeLib FileIpc

/-- The server, the request directory, and the processes it has spawned.
`placements` are the contents of all files that were ever put into the directory,
`responses` the response files with their names. -/
structure FileIpcServer where
  directory : AList fun _ : FileName => Nat
  placements : List (List UInt8)
  poll : PollPc
  permits : Nat
  tasks : List Task
  children : List Bool
  executed : List Nat
  responses : List (String × String)

namespace FileIpcServer

/-- A server at its start, with an empty request directory. -/
def start : FileIpcServer where
  directory := ∅
  placements := []
  poll := .sleeping
  permits := maxConcurrentJobs
  tasks := []
  children := []
  executed := []
  responses := []

/-- `place` is a client, `childExit` a process.  `readDir` begins a poll, `entry` is a
name that `next_entry` gives, and `listed` ends the poll. -/
inductive Event where
  | place (name : FileName) (content : List UInt8)
  | readDir
  | entry (name : FileName)
  | listed
  | shutdown
  | task (i : Nat) (e : TaskEvent)
  | childExit (k : Nat)
  deriving DecidableEq

/-- The content of an open file as `read_to_string` reads it. -/
def readToString (s : FileIpcServer) (p : Nat) : Option String :=
  (s.placements[p]?).bind fun bytes => String.fromUTF8? ⟨bytes.toArray⟩

/-- `write_response`. -/
def writeResponse (serde : Serde) (s : FileIpcServer) (response : Response) :
    FileIpcServer × TaskPc :=
  match serde.responseToString response with
  | .error e => (s, .returned (.error (.serialize ("JSON serialize: " ++ e))))
  | .ok json =>
    ({ s with responses := s.responses ++ [(response.id ++ ".json", json)] },
      .returned (.ok ()))

/-- One step of a task. -/
def stepTask (serde : Serde) (s : FileIpcServer) (path : FileName) :
    TaskPc → TaskEvent → Option (FileIpcServer × TaskPc)
  | .opening, .opened => (s.directory.lookup path).map fun p => (s, .reading p)
  | .opening, .openFailed => some (s, .returned (.error .open))
  | .reading p, .read =>
    match s.readToString p with
    | some content => some (s, .removing p content)
    | none => some (s, .returned (.error .read))
  | .reading _, .readFailed => some (s, .returned (.error .read))
  | .removing p content, .removed =>
    if path ∈ s.directory then
      some ({ s with directory := s.directory.erase path }, .parsing p content)
    else none
  | .removing p content, .removeFailed => some (s, .parsing p content)
  | .parsing p content, .parse =>
    match serde.requestFromStr content with
    | .error e => some (s, .responding (failure path.requestId ("Invalid JSON: " ++ e)))
    | .ok request => some ({ s with executed := s.executed ++ [p] }, .spawning p request)
  | .spawning p request, .spawned =>
    some ({ s with children := s.children ++ [true] }, .waiting p request s.children.length)
  | .spawning _ request, .spawnFailed e =>
    some (s, .responding (failure request.id ("Failed to spawn process: " ++ e)))
  | .waiting _ request child, .exited code stdout stderr =>
    if s.children[child]? = some false then
      some (s, .responding (completed request code stdout stderr))
    else none
  | .waiting _ request _, .waitFailed e =>
    some (s, .responding (failure request.id ("Process error: " ++ e)))
  | .waiting _ request _, .timedOut =>
    some (s, .responding (failure request.id
      ("Command timed out after " ++ debugMillis request.timeoutMs)))
  | .responding response, .written => some (s.writeResponse serde response)
  | .responding _, .writeFailed => some (s, .returned (.error .write))
  | .returned _, .dropPermit => some ({ s with permits := s.permits + 1 }, .dropped)
  | _, _ => none

/-- What the poll does with a name: it spawns a task if it is a request and a permit
is left. -/
def processEntry (s : FileIpcServer) (name : FileName) : FileIpcServer :=
  if name.isJson then
    if 0 < s.permits then
      { s with permits := s.permits - 1, tasks := s.tasks ++ [⟨name, .opening⟩] }
    else s
  else s

def step (serde : Serde) (s : FileIpcServer) : Event → Option FileIpcServer
  | .place name content =>
    if name ∈ s.directory then none
    else
      some { s with
        directory := s.directory.insert name s.placements.length
        placements := s.placements ++ [content] }
  | .readDir =>
    match s.poll with
    | .sleeping => some { s with poll := .listing s.directory.keys }
    | _ => none
  | .entry name =>
    match s.poll with
    | .listing names =>
      if name ∈ names ∨ name ∈ s.directory then
        some ({ s with poll := .listing (names.erase name) }.processEntry name)
      else none
    | _ => none
  | .listed =>
    match s.poll with
    | .listing _ => some { s with poll := .sleeping }
    | _ => none
  | .shutdown =>
    match s.poll with
    | .sleeping => some { s with poll := .stopped }
    | _ => none
  | .task i e =>
    (s.tasks[i]?).bind fun t =>
      (s.stepTask serde t.path t.pc e).map fun r =>
        { r.1 with tasks := s.tasks.set i { t with pc := r.2 } }
  | .childExit k =>
    if s.children[k]? = some true then some { s with children := s.children.set k false }
    else none

/-- The machine of the server. -/
def machine (serde : Serde) : StepMachine FileIpcServer Event where
  Init s := s = start
  step := step serde

/-! ## Parts of runs

What concrete runs of the server are put together from. -/

def sampleName : FileName := .ofString "r1.json"

def sampleJson : String := "\x7b\"id\":\"r1\",\"command\":\"whoami\"\x7d"

def sampleContent : List UInt8 := sampleJson.toUTF8.data.toList

def sampleRequest : Request := ⟨"r1", "whoami", none, none, defaultTimeout⟩

/-- `serde_json` on the one request, and on responses. -/
def sampleSerde : Serde where
  requestFromStr := fun text =>
    if text = sampleJson then .ok sampleRequest else .error "expected value at line 1 column 1"
  responseToString := fun response => .ok ("\x7b\"id\": \"" ++ response.id ++ "\"\x7d")

/-! ## What a task can do -/

/-- The moves of a task. -/
inductive TaskMove (s : FileIpcServer) (path : FileName) :
    TaskPc → TaskEvent → FileIpcServer → TaskPc → Prop where
  | opened (p : Nat) (hp : s.directory.lookup path = some p) :
    TaskMove s path .opening .opened s (.reading p)
  | openFailed : TaskMove s path .opening .openFailed s (.returned (.error .open))
  | read (p : Nat) (content : String) :
    TaskMove s path (.reading p) .read s (.removing p content)
  | unreadable (p : Nat) (e : TaskEvent) :
    TaskMove s path (.reading p) e s (.returned (.error .read))
  | removed (p : Nat) (content : String) (hp : path ∈ s.directory) :
    TaskMove s path (.removing p content) .removed
      { s with directory := s.directory.erase path } (.parsing p content)
  | removeFailed (p : Nat) (content : String) :
    TaskMove s path (.removing p content) .removeFailed s (.parsing p content)
  | invalid (p : Nat) (content : String) (response : Response) :
    TaskMove s path (.parsing p content) .parse s (.responding response)
  | execute (p : Nat) (content : String) (request : Request) :
    TaskMove s path (.parsing p content) .parse
      { s with executed := s.executed ++ [p] } (.spawning p request)
  | spawned (p : Nat) (request : Request) :
    TaskMove s path (.spawning p request) .spawned
      { s with children := s.children ++ [true] }
      (.waiting p request s.children.length)
  | spawnFailed (p : Nat) (request : Request) (msg : String) (response : Response) :
    TaskMove s path (.spawning p request) (.spawnFailed msg) s (.responding response)
  | exited (p : Nat) (request : Request) (child : Nat) (e : TaskEvent)
    (response : Response) (hchild : s.children[child]? = some false) :
    TaskMove s path (.waiting p request child) e s (.responding response)
  | waitFailed (p : Nat) (request : Request) (child : Nat) (msg : String)
    (response : Response) :
    TaskMove s path (.waiting p request child) (.waitFailed msg) s (.responding response)
  | timedOut (p : Nat) (request : Request) (child : Nat) (response : Response) :
    TaskMove s path (.waiting p request child) .timedOut s (.responding response)
  | responded (response : Response) (e : TaskEvent) (responses : List (String × String))
    (r : Except Failure Unit) :
    TaskMove s path (.responding response) e { s with responses := responses }
      (.returned r)
  | dropPermit (r : Except Failure Unit) :
    TaskMove s path (.returned r) .dropPermit { s with permits := s.permits + 1 } .dropped

theorem stepTask_move {serde : Serde} {s s' : FileIpcServer} {path : FileName}
    {pc pc' : TaskPc} {e : TaskEvent}
    (h : s.stepTask serde path pc e = some (s', pc')) : TaskMove s path pc e s' pc' := by
  unfold stepTask at h
  split at h
  · obtain ⟨p, hp, hpair⟩ := Option.map_eq_some_iff.mp h
    cases hpair
    exact .opened p hp
  · cases h
    exact .openFailed
  · split at h <;> cases h
    · exact .read _ _
    · exact .unreadable _ _
  · cases h
    exact .unreadable _ _
  · split at h
    · rename_i hp
      cases h
      exact .removed _ _ hp
    · cases h
  · cases h
    exact .removeFailed _ _
  · split at h <;> cases h
    · exact .invalid _ _ _
    · exact .execute _ _ _
  · cases h
    exact .spawned _ _
  · cases h
    exact .spawnFailed _ _ _ _
  · split at h
    · rename_i hchild
      cases h
      exact .exited _ _ _ _ _ hchild
    · cases h
  · cases h
    exact .waitFailed _ _ _ _ _
  · cases h
    exact .timedOut _ _ _ _
  · rename_i response
    unfold writeResponse at h
    split at h <;> cases h
    · exact .responded response _ s.responses _
    · exact .responded response _ _ _
  · cases h
    exact .responded _ _ s.responses _
  · cases h
    exact .dropPermit _
  · cases h

theorem step_task_inv {serde : Serde} {s s' : FileIpcServer} {i : Nat} {e : TaskEvent}
    (h : s.step serde (.task i e) = some s') :
    ∃ t s₁ pc', s.tasks[i]? = some t ∧ TaskMove s t.path t.pc e s₁ pc' ∧
      s' = { s₁ with tasks := s.tasks.set i { t with pc := pc' } } := by
  simp only [step, Option.bind_eq_some_iff] at h
  obtain ⟨t, ht, h⟩ := h
  obtain ⟨⟨s₁, pc'⟩, hs, rfl⟩ := Option.map_eq_some_iff.mp h
  exact ⟨t, s₁, pc', ht, stepTask_move hs, rfl⟩

end FileIpcServer

end RemoteAgent
