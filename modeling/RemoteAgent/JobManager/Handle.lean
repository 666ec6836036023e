import RemoteAgent.Error

/-!
# Job states and job handles

`job_manager.rs`, the part that belongs to one job: the states with their
transition table, the handle with the fields that its mutexes protect, and the
critical section of `transition_state`.

The table is strict: no terminal state has a way out
(`isTerminal_eq_false_of_canTransitionTo`), and every state that is not
terminal may still go to `Canceled` (`canTransitionTo_canceled_iff`).  The
second fact is what makes a cancellation that reaches the handle in time
effective, whatever the other tasks have done to it.
-/

namespace RemoteAgent.JobManager

/-- Nanoseconds from an origin before every time that occurs.  The clock is the
system's wall clock, so nothing says that it only moves forward. -/
abbrev SystemTime := Nat

abbrev Duration := Nat

/-- `now.duration_since(earlier)`: an error when `earlier` is later. -/
def durationSince (now earlier : SystemTime) : Option Duration :=
  if earlier ≤ now then some (now - earlier) else none

/-- A Win32 handle as the integer that the source keeps; `0` is no handle. -/
abbrev HANDLE := UInt64

/-! ## States -/

inductive JobState where
  | created
  | starting
  | running
  | exiting
  | completed
  | failed
  | canceled
  | timedOut
  deriving DecidableEq, Repr

namespace JobState

def canTransitionTo : JobState → JobState → Bool
  | .created, .starting => true
  | .starting, .running => true
  | .starting, .failed => true
  | .running, .exiting => true
  | .running, .canceled => true
  | .running, .timedOut => true
  | .running, .failed => true
  | .exiting, .completed => true
  | .exiting, .failed => true
  | .created, .canceled => true
  | .starting, .canceled => true
  | .exiting, .canceled => true
  | _, _ => false

def isTerminal : JobState → Bool
  | .completed | .failed | .canceled | .timedOut => true
  | _ => false

/-- `Display for JobState`. -/
def display : JobState → String
  | .created => "Created"
  | .starting => "Starting"
  | .running => "Running"
  | .exiting => "Exiting"
  | .completed => "Completed"
  | .failed => "Failed"
  | .canceled => "Canceled"
  | .timedOut => "TimedOut"

/-- A state with a way out is not terminal. -/
theorem isTerminal_eq_false_of_canTransitionTo {old new : JobState}
    (h : old.canTransitionTo new = true) : old.isTerminal = false := by
  cases old <;> cases new <;> first | rfl | (exact absurd h (by decide))

/-- The states that a cancellation can end are the ones that have not ended. -/
theorem canTransitionTo_canceled_iff (s : JobState) :
    s.canTransitionTo .canceled = true ↔ s.isTerminal = false := by
  cases s <;> decide

end JobState

/-! ## Handles -/

/-- `JobHandle`.  A mutex-protected field is the value it protects; who holds
the mutex is part of the machine that runs the calls.  The cancellation token
is the flag that `cancel` raises and nothing lowers. -/
structure JobHandle where
  jobId : UInt32
  state : JobState
  processHandle : HANDLE
  jobObject : HANDLE
  cancellationToken : Bool
  startTime : SystemTime
  timeout : Option Duration
  completedAt : Option SystemTime
  lastActivity : SystemTime
  deriving DecidableEq, Repr

namespace JobHandle

/-- The handle that `create_job` builds. -/
def create (jobId : UInt32) (timeout : Option Duration) (now : SystemTime) :
    JobHandle where
  jobId := jobId
  state := .created
  processHandle := 0
  jobObject := 0
  cancellationToken := false
  startTime := now
  timeout := timeout
  completedAt := none
  lastActivity := now

/-- `cancellation_token.cancel()`. -/
def cancel (a : JobHandle) : JobHandle := { a with cancellationToken := true }

/-- The write of `update_activity`. -/
def touch (now : SystemTime) (a : JobHandle) : JobHandle :=
  { a with lastActivity := now }

/-- The message of a refused transition. -/
def transitionError (jobId : UInt32) (old new : JobState) : Error :=
  .invalidStateTransition
    ("Job " ++ toString jobId.toNat ++ ": cannot transition from " ++ old.display ++
      " to " ++ new.display)

/-- What `transition_state` does while it holds the state lock: refuse, or
write the activity time, the completion time of a terminal state, and the
state. -/
def transition (a : JobHandle) (new : JobState) (now : SystemTime) :
    Except Error JobHandle :=
  if a.state.canTransitionTo new then
    .ok { a with
      lastActivity := now
      completedAt := if new.isTerminal then some now else a.completedAt
      state := new }
  else .error (transitionError a.jobId a.state new)

/-- The handle after a transition whose result is discarded. -/
def commit (a : JobHandle) (new : JobState) (now : SystemTime) : JobHandle :=
  match a.transition new now with
  | .ok a' => a'
  | .error _ => a

/-- What a task may do to the handle of a job that is launched. -/
inductive Update (a : JobHandle) : JobHandle → Prop where
  | same : Update a a
  | cancel : Update a a.cancel
  | touch (now : SystemTime) : Update a (a.touch now)
  | commit (new : JobState) (now : SystemTime) : Update a (a.commit new now)

theorem commit_of_can {a : JobHandle} {new : JobState} {now : SystemTime}
    (h : a.state.canTransitionTo new = true) :
    a.commit new now = { a with
      lastActivity := now
      completedAt := if new.isTerminal then some now else a.completedAt
      state := new } := by
  simp [commit, transition, h]

theorem commit_of_not_can {a : JobHandle} {new : JobState} {now : SystemTime}
    (h : a.state.canTransitionTo new = false) : a.commit new now = a := by
  simp [commit, transition, h]

theorem commit_of_transition {a a' : JobHandle} {new : JobState} {now : SystemTime}
    (h : a.transition new now = .ok a') :
    a.state.canTransitionTo new = true ∧ a' = a.commit new now := by
  unfold transition at h
  split at h
  · rename_i hcan
    refine ⟨hcan, ?_⟩
    rw [commit_of_can hcan]
    exact (Except.ok.inj h).symm
  · exact absurd h (by simp)

@[simp] theorem commit_jobId (a : JobHandle) (new : JobState) (now : SystemTime) :
    (a.commit new now).jobId = a.jobId := by
  cases h : a.state.canTransitionTo new
  · rw [commit_of_not_can h]
  · rw [commit_of_can h]

@[simp] theorem commit_token (a : JobHandle) (new : JobState) (now : SystemTime) :
    (a.commit new now).cancellationToken = a.cancellationToken := by
  cases h : a.state.canTransitionTo new
  · rw [commit_of_not_can h]
  · rw [commit_of_can h]

@[simp] theorem commit_processHandle (a : JobHandle) (new : JobState) (now : SystemTime) :
    (a.commit new now).processHandle = a.processHandle := by
  cases h : a.state.canTransitionTo new
  · rw [commit_of_not_can h]
  · rw [commit_of_can h]

@[simp] theorem commit_jobObject (a : JobHandle) (new : JobState) (now : SystemTime) :
    (a.commit new now).jobObject = a.jobObject := by
  cases h : a.state.canTransitionTo new
  · rw [commit_of_not_can h]
  · rw [commit_of_can h]

/-- The state after a transition whose result is discarded. -/
theorem commit_state (a : JobHandle) (new : JobState) (now : SystemTime) :
    (a.commit new now).state =
      if a.state.canTransitionTo new then new else a.state := by
  cases h : a.state.canTransitionTo new
  · rw [commit_of_not_can h]
    rfl
  · rw [commit_of_can h]
    rfl

/-- An update keeps the id and the two Win32 handles. -/
theorem Update.keeps {a a' : JobHandle} (h : Update a a') :
    a'.jobId = a.jobId ∧ a'.processHandle = a.processHandle ∧
      a'.jobObject = a.jobObject := by
  cases h <;> simp [JobHandle.cancel, JobHandle.touch]

end JobHandle

end RemoteAgent.JobManager
