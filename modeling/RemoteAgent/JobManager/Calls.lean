import Mathlib.Data.List.AList
import RemoteAgent.CodeLib.StepMachine
import RemoteAgent.JobManager.Handle

/-!
# The job manager as a machine of lock-granular calls

`job_manager.rs`, the part that several threads run at once.  The machine holds
the manager's shared data and one entry for each call that some thread has
made.  A step starts a call or lets one call do its next atomic action: one
operation on the concurrent map, one `fetch_add`, one acquisition of a state
lock, one write of a field.

* A `DashMap` is a list of key-value pairs without repeated keys.  An iterator
  walks the shards in order: it locks a shard for reading, takes the entries
  that the shard holds at that moment, and keeps the lock until it moves on.  An
  insertion or a removal waits while an iterator holds its shard.
* A `JobHandle` lives as long as some `Arc` to it, also after its removal from
  the map.  `handles` lists every handle that was ever built, and a position in
  that list is an `Arc`.
* Who holds a state lock is read off the calls' positions: a call between its
  acquisition and its release holds the lock, and an acquisition waits for all
  of these.  The locks of `completed_at` and `last_activity` are taken for one
  read or write only, except in `cleanup_idle_jobs`, where they are taken under
  the state lock.

The label of a step carries the clock value that `SystemTime::now()` returns in
it.
-/

namespace RemoteAgent.JobManager

open CodeLib

/-- An `Arc<JobHandle>`: the position of the handle among all that were built. -/
abbrev JobRef := Nat

/-- How the map spreads its keys over its shards. -/
structure Sharding where
  count : Nat
  of : UInt32 → Nat
  of_lt : ∀ id, of id < count

/-- `JobManager`, with every handle that it ever built. -/
structure Shared where
  handles : List JobHandle
  jobs : AList fun _ : UInt32 => JobRef
  nextJobId : UInt32
  maxConcurrentJobs : Nat
  lastJobCreated : SystemTime
  shards : Sharding

namespace Shared

/-- `get_job`. -/
def getJob (s : Shared) (id : UInt32) : Option JobRef := s.jobs.lookup id

/-- Write fields of one handle. -/
def modify (s : Shared) (h : JobRef) (f : JobHandle → JobHandle) : Shared :=
  { s with handles := s.handles.modify h f }

/-- What a shard holds. -/
def shardEntries (s : Shared) (k : Nat) : List (UInt32 × JobRef) :=
  (s.jobs.entries.filter fun e => s.shards.of e.1 = k).map fun e => (e.1, e.2)

@[simp] theorem modify_jobs (s : Shared) (h : JobRef) (f : JobHandle → JobHandle) :
    (s.modify h f).jobs = s.jobs := rfl

@[simp] theorem modify_nextJobId (s : Shared) (h : JobRef)
    (f : JobHandle → JobHandle) : (s.modify h f).nextJobId = s.nextJobId := rfl

theorem modify_handles (s : Shared) (h : JobRef) (f : JobHandle → JobHandle)
    (k : JobRef) :
    (s.modify h f).handles[k]? =
      if h = k then (s.handles[k]?).map f else s.handles[k]? := by
  rw [modify, List.getElem?_modify]
  split <;> simp

end Shared

/-- The locks that calls hold: state locks of jobs, and shards of the map that
are locked for reading. -/
structure Held where
  states : List JobRef
  shards : List Nat

/-! ## `transition_state` -/

/-- Where a call of `transition_state` stands.  From `check` to `unlock` it
holds the state lock of `h`. -/
inductive TransitionPc where
  | getJob
  | lockState (h : JobRef)
  | check (h : JobRef)
  | writeActivity (h : JobRef) (old : JobState)
  | writeCompleted (h : JobRef) (old : JobState) (now : SystemTime)
  | writeState (h : JobRef) (old : JobState)
  | unlock (h : JobRef) (old : JobState)
  | ret (r : Except Error JobState)

def TransitionPc.step (held : Held) (now : SystemTime) (id : UInt32)
    (new : JobState) (s : Shared) : TransitionPc → Option (Shared × TransitionPc)
  | .getJob =>
    match s.getJob id with
    | none => some (s, .ret (.error (.jobNotFound id)))
    | some h => some (s, .lockState h)
  | .lockState h => if h ∈ held.states then none else some (s, .check h)
  | .check h =>
    match s.handles[h]? with
    | none => none
    | some a =>
      if a.state.canTransitionTo new then some (s, .writeActivity h a.state)
      else some (s, .ret (.error (JobHandle.transitionError id a.state new)))
  | .writeActivity h old =>
    some (s.modify h (JobHandle.touch now),
      if new.isTerminal then .writeCompleted h old now else .writeState h old)
  | .writeCompleted h old t =>
    some (s.modify h fun a => { a with completedAt := some t }, .writeState h old)
  | .writeState h old =>
    some (s.modify h fun a => { a with state := new }, .unlock h old)
  | .unlock _ old => some (s, .ret (.ok old))
  | .ret _ => none

def TransitionPc.holdsState : TransitionPc → Option JobRef
  | .check h | .writeActivity h _ | .writeCompleted h _ _ | .writeState h _
  | .unlock h _ => some h
  | _ => none

/-! ## `create_job` -/

inductive CreatePc where
  | lenCheck
  | fetchAdd
  | fetchAddAgain
  | containsKey (id : UInt32)
  | insert (id : UInt32)
  | setLastCreated (now : SystemTime) (h : JobRef)
  | ret (r : Except Error JobRef)

def CreatePc.step (held : Held) (now : SystemTime) (timeout : Option Duration)
    (s : Shared) : CreatePc → Option (Shared × CreatePc)
  | .lenCheck =>
    if s.jobs.entries.length ≥ s.maxConcurrentJobs then
      some (s, .ret (.error (.service ("Maximum concurrent jobs (" ++
        toString s.maxConcurrentJobs ++ ") reached"))))
    else some (s, .fetchAdd)
  | .fetchAdd =>
    let id := s.nextJobId
    some ({ s with nextJobId := id + 1 },
      if id = 0 then .fetchAddAgain else .containsKey id)
  | .fetchAddAgain =>
    let id := s.nextJobId
    some ({ s with nextJobId := id + 1 }, .containsKey id)
  | .containsKey id =>
    if id ∈ s.jobs then some (s, .ret (.error (.jobExists id)))
    else some (s, .insert id)
  | .insert id =>
    if s.shards.of id ∈ held.shards then none
    else
      some ({ s with
          handles := s.handles ++ [JobHandle.create id timeout now]
          jobs := s.jobs.insert id s.handles.length },
        .setLastCreated now s.handles.length)
  | .setLastCreated t h => some ({ s with lastJobCreated := t }, .ret (.ok h))
  | .ret _ => none

/-! ## `cancel_job`, `cleanup_job` and `update_activity` -/

/-- Where a call of `cancel_job` stands.  At `checkTerminal` it holds the state
lock of `h`. -/
inductive CancelPc where
  | getJob
  | lockState (h : JobRef)
  | checkTerminal (h : JobRef)
  | cancelToken (h : JobRef)
  | transition (pc : TransitionPc)
  | ret (r : Except Error Unit)

def CancelPc.step (held : Held) (now : SystemTime) (id : UInt32) (s : Shared) :
    CancelPc → Option (Shared × CancelPc)
  | .getJob =>
    match s.getJob id with
    | none => some (s, .ret (.error (.jobNotFound id)))
    | some h => some (s, .lockState h)
  | .lockState h => if h ∈ held.states then none else some (s, .checkTerminal h)
  | .checkTerminal h =>
    match s.handles[h]? with
    | none => none
    | some a =>
      if a.state.isTerminal then some (s, .ret (.ok ()))
      else some (s, .cancelToken h)
  | .cancelToken h =>
    some (s.modify h JobHandle.cancel, .transition .getJob)
  | .transition (.ret _) => some (s, .ret (.ok ()))
  | .transition pc =>
    (pc.step held now id .canceled s).map fun (s', pc') => (s', .transition pc')
  | .ret _ => none

inductive CleanupPc where
  | getJob
  | cancelToken (h : JobRef)
  | remove
  | ret (r : Except Error Unit)

def CleanupPc.step (held : Held) (id : UInt32) (s : Shared) :
    CleanupPc → Option (Shared × CleanupPc)
  | .getJob =>
    match s.getJob id with
    | none => some (s, .ret (.error (.jobNotFound id)))
    | some h => some (s, .cancelToken h)
  | .cancelToken h =>
    some (s.modify h JobHandle.cancel, .remove)
  | .remove =>
    if s.shards.of id ∈ held.shards then none
    else some ({ s with jobs := s.jobs.erase id }, .ret (.ok ()))
  | .ret _ => none

inductive ActivityPc where
  | getJob
  | write (h : JobRef)
  | ret

def ActivityPc.step (now : SystemTime) (id : UInt32) (s : Shared) :
    ActivityPc → Option (Shared × ActivityPc)
  | .getJob =>
    match s.getJob id with
    | none => some (s, .ret)
    | some h => some (s, .write h)
  | .write h => some (s.modify h (JobHandle.touch now), .ret)
  | .ret => none

/-! ## Iterating over the map -/

/-- An iterator over the map: the next shard to lock, and the entries that are
left of the shard it holds. -/
structure Iter where
  next : Nat
  entries : List (UInt32 × JobRef)

/-- The shard that the iterator holds. -/
def Iter.shard (it : Iter) : Option Nat :=
  if it.next = 0 then none else some (it.next - 1)

def Iter.start : Iter := ⟨0, []⟩

inductive Advance where
  | entry (id : UInt32) (h : JobRef) (it : Iter)
  | moved (it : Iter)
  | done

def Iter.advance (s : Shared) (it : Iter) : Advance :=
  match it.entries with
  | (id, h) :: rest => .entry id h { it with entries := rest }
  | [] =>
    if it.next < s.shards.count then .moved ⟨it.next + 1, s.shardEntries it.next⟩
    else .done

/-! ## `force_cleanup_all` and `cleanup_idle_jobs` -/

/-- Collect keys, and call `cleanup_job` on each of them.  `force_cleanup_all`
and the quiet branch of `cleanup_idle_jobs` start at `collect`, the idle branch
starts at `next` with the keys that it has chosen. -/
inductive SweepPc where
  | collect (it : Iter) (keys : List UInt32)
  | next (todo : List UInt32) (cleaned : Nat)
  | cleanup (id : UInt32) (pc : CleanupPc) (todo : List UInt32) (cleaned : Nat)

def SweepPc.step (held : Held) (s : Shared) : SweepPc → Option (Shared × SweepPc)
  | .collect it keys =>
    match it.advance s with
    | .entry id _ it' => some (s, .collect it' (keys ++ [id]))
    | .moved it' => some (s, .collect it' keys)
    | .done => some (s, .next keys 0)
  | .next (id :: todo) cleaned => some (s, .cleanup id .getJob todo cleaned)
  | .next [] _ => none
  | .cleanup _ (.ret (.ok ())) todo cleaned => some (s, .next todo (cleaned + 1))
  | .cleanup _ (.ret (.error _)) todo cleaned => some (s, .next todo cleaned)
  | .cleanup id pc todo cleaned =>
    (pc.step held id s).map fun (s', pc') => (s', .cleanup id pc' todo cleaned)

def SweepPc.holdsShard : SweepPc → Option Nat
  | .collect it _ => it.shard
  | _ => none

inductive ForcePc where
  | sweep (pc : SweepPc)
  | ret

def ForcePc.step (held : Held) (s : Shared) : ForcePc → Option (Shared × ForcePc)
  | .sweep (.next [] _) => some (s, .ret)
  | .sweep pc => (pc.step held s).map fun (s', pc') => (s', .sweep pc')
  | .ret => none

/-- The test that the idle branch makes of one job. -/
def JobHandle.shouldCleanup (a : JobHandle) (now : SystemTime) (idle : Duration) :
    Bool :=
  if a.state.isTerminal then
    match a.completedAt with
    | some completedTime =>
      match durationSince now completedTime with
      | some elapsed => elapsed ≥ idle
      | none => false
    | none => false
  else
    match durationSince now a.lastActivity with
    | some elapsed => elapsed ≥ idle
    | none => false

/-- The test that the quiet branch makes after its scan. -/
def quietElapsed (now last : SystemTime) (quiet : Duration) : Bool :=
  match durationSince now last with
  | some elapsed => elapsed ≥ quiet
  | none => false

/-- Where a call of `cleanup_idle_jobs` stands.  At `scanLocked`, `visitState`
and `visitCompleted` it holds the state lock of `h`, at `visitCompleted` also
the lock of `completed_at`. -/
inductive IdlePc where
  | begin
  | scan (now last : SystemTime) (it : Iter) (hasJobs : Bool)
  | scanEntry (now last : SystemTime) (it : Iter) (h : JobRef)
  | scanLocked (now last : SystemTime) (it : Iter) (h : JobRef)
  | visit (now : SystemTime) (it : Iter) (toRemove : List UInt32)
  | visitEntry (now : SystemTime) (it : Iter) (toRemove : List UInt32)
      (id : UInt32) (h : JobRef)
  | visitState (now : SystemTime) (it : Iter) (toRemove : List UInt32)
      (id : UInt32) (h : JobRef)
  | visitCompleted (now : SystemTime) (it : Iter) (toRemove : List UInt32)
      (id : UInt32) (h : JobRef)
  | sweep (pc : SweepPc)
  | ret (cleaned : Nat)

def IdlePc.step (held : Held) (time : SystemTime) (idle quiet : Duration)
    (s : Shared) : IdlePc → Option (Shared × IdlePc)
  | .begin => some (s, .scan time s.lastJobCreated .start false)
  | .scan now last it hasJobs =>
    match it.advance s with
    | .entry _ h it' => some (s, .scanEntry now last it' h)
    | .moved it' => some (s, .scan now last it' hasJobs)
    | .done =>
      if hasJobs && quietElapsed now last quiet then
        some (s, .sweep (.collect .start []))
      else some (s, .visit now .start [])
  | .scanEntry now last it h =>
    if h ∈ held.states then none else some (s, .scanLocked now last it h)
  | .scanLocked now last it h =>
    match s.handles[h]? with
    | none => none
    | some a =>
      if a.state.isTerminal then some (s, .scan now last it true)
      else some (s, .visit now .start [])
  | .visit now it toRemove =>
    match it.advance s with
    | .entry id h it' => some (s, .visitEntry now it' toRemove id h)
    | .moved it' => some (s, .visit now it' toRemove)
    | .done => some (s, .sweep (.next toRemove 0))
  | .visitEntry now it toRemove id h =>
    if h ∈ held.states then none else some (s, .visitState now it toRemove id h)
  | .visitState now it toRemove id h => some (s, .visitCompleted now it toRemove id h)
  | .visitCompleted now it toRemove id h =>
    match s.handles[h]? with
    | none => none
    | some a =>
      some (s, .visit now it
        (if a.shouldCleanup now idle then toRemove ++ [id] else toRemove))
  | .sweep (.next [] cleaned) => some (s, .ret cleaned)
  | .sweep pc => (pc.step held s).map fun (s', pc') => (s', .sweep pc')
  | .ret _ => none

def IdlePc.holdsState : IdlePc → Option JobRef
  | .scanLocked _ _ _ h | .visitState _ _ _ _ h | .visitCompleted _ _ _ _ h => some h
  | _ => none

def IdlePc.holdsShard : IdlePc → Option Nat
  | .scan _ _ it _ | .scanEntry _ _ it _ | .scanLocked _ _ it _ | .visit _ it _
  | .visitEntry _ it _ _ _ | .visitState _ it _ _ _ | .visitCompleted _ it _ _ _ =>
    it.shard
  | .sweep pc => pc.holdsShard
  | _ => none

/-! ## Calls and the machine -/

/-- A call that some thread has made, with its arguments and its position. -/
inductive Call where
  | createJob (timeout : Option Duration) (pc : CreatePc)
  | transitionState (id : UInt32) (new : JobState) (pc : TransitionPc)
  | cancelJob (id : UInt32) (pc : CancelPc)
  | cleanupJob (id : UInt32) (pc : CleanupPc)
  | cleanupIdleJobs (idle quiet : Duration) (pc : IdlePc)
  | forceCleanupAll (pc : ForcePc)
  | updateActivity (id : UInt32) (pc : ActivityPc)

def Call.step (held : Held) (now : SystemTime) (s : Shared) :
    Call → Option (Shared × Call)
  | .createJob timeout pc =>
    (pc.step held now timeout s).map fun (s', pc') => (s', .createJob timeout pc')
  | .transitionState id new pc =>
    (pc.step held now id new s).map fun (s', pc') => (s', .transitionState id new pc')
  | .cancelJob id pc =>
    (pc.step held now id s).map fun (s', pc') => (s', .cancelJob id pc')
  | .cleanupJob id pc =>
    (pc.step held id s).map fun (s', pc') => (s', .cleanupJob id pc')
  | .cleanupIdleJobs idle quiet pc =>
    (pc.step held now idle quiet s).map fun (s', pc') =>
      (s', .cleanupIdleJobs idle quiet pc')
  | .forceCleanupAll pc =>
    (pc.step held s).map fun (s', pc') => (s', .forceCleanupAll pc')
  | .updateActivity id pc =>
    (pc.step now id s).map fun (s', pc') => (s', .updateActivity id pc')

/-- The job whose state lock the call holds. -/
def Call.holdsState : Call → Option JobRef
  | .transitionState _ _ pc => pc.holdsState
  | .cancelJob _ (.checkTerminal h) => some h
  | .cancelJob _ (.transition pc) => pc.holdsState
  | .cleanupIdleJobs _ _ pc => pc.holdsState
  | _ => none

/-- The shard that the call holds for reading. -/
def Call.holdsShard : Call → Option Nat
  | .cleanupIdleJobs _ _ pc => pc.holdsShard
  | .forceCleanupAll (.sweep pc) => pc.holdsShard
  | _ => none

/-- The operations that a thread may call. -/
inductive Op where
  | createJob (timeout : Option Duration)
  | transitionState (id : UInt32) (new : JobState)
  | cancelJob (id : UInt32)
  | cleanupJob (id : UInt32)
  | cleanupIdleJobs (idle quiet : Duration)
  | forceCleanupAll
  | updateActivity (id : UInt32)

def Op.begin : Op → Call
  | .createJob timeout => .createJob timeout .lenCheck
  | .transitionState id new => .transitionState id new .getJob
  | .cancelJob id => .cancelJob id .getJob
  | .cleanupJob id => .cleanupJob id .getJob
  | .cleanupIdleJobs idle quiet => .cleanupIdleJobs idle quiet .begin
  | .forceCleanupAll => .forceCleanupAll (.sweep (.collect .start []))
  | .updateActivity id => .updateActivity id .getJob

structure Manager where
  shared : Shared
  calls : List Call

namespace Manager

def held (m : Manager) : Held where
  states := m.calls.filterMap Call.holdsState
  shards := m.calls.filterMap Call.holdsShard

/-- A thread makes a call, or call `i` takes its next atomic step at the time
`now`. -/
inductive Label where
  | call (op : Op)
  | step (i : Nat) (now : SystemTime)

def step (m : Manager) : Label → Option Manager
  | .call op => some { m with calls := m.calls ++ [op.begin] }
  | .step i now =>
    match m.calls[i]? with
    | none => none
    | some c =>
      match c.step m.held now m.shared with
      | none => none
      | some (s', c') => some { shared := s', calls := m.calls.set i c' }

/-- A manager without jobs and without calls.  `JobManager::new` starts the
counter at 1; here it starts anywhere. -/
def Initial (m : Manager) : Prop :=
  m.shared.handles = [] ∧ m.shared.jobs = ∅ ∧ m.calls = []

/-- The machine of the job manager. -/
def machine : StepMachine Manager Label where
  Init := Initial
  step := step

/-- What a step of a call does to the machine. -/
theorem step_call_inv {m m' : Manager} {i : Nat} {now : SystemTime}
    (h : m.step (.step i now) = some m') :
    ∃ c s' c', m.calls[i]? = some c ∧ c.step m.held now m.shared = some (s', c') ∧
      m' = { shared := s', calls := m.calls.set i c' } := by
  simp only [step] at h
  split at h
  · exact absurd h (by simp)
  · rename_i c hc
    split at h
    · exact absurd h (by simp)
    · rename_i s' c' hs
      exact ⟨c, s', c', hc, hs, (Option.some.inj h).symm⟩

end Manager

end RemoteAgent.JobManager
