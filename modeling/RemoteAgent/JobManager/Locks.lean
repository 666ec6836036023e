import Mathlib.Data.Prod.Lex
import RemoteAgent.CodeLib.LockProg
import RemoteAgent.JobManager.Calls

/-!
# The locks of the job manager

`job_manager.rs` once more, guard by guard.  In `Calls` an operation on the map is one
step and a field is read or written in one step.  Here every lock is taken and dropped
in steps of their own, in the order of the source and with the lifetimes that its
guards have there:

* A guard that is a temporary lives to the end of its statement.  A guard with a name
  lives to the end of its block, and guards are dropped in the reverse order.
* `get`, `contains_key`, `insert` and `remove` of the map hold the lock of one shard.
  `len` takes the shards one after the other.
* An iterator of the map takes the lock of the next shard before it drops the one that
  it holds, and holds one while the body of the loop runs.

`rank` is the order that all operations keep to: the shards by their index, then
`state`, `completed_at` and `last_activity` of a job, and `last_job_created`.
`transition_state` takes `last_activity` before `completed_at`, but not the one under
the other.  `deadlock_free` is the result, and `exists_step_of_running` what it is good
for.  `transitionState_eval` says that run on its own, guards and all, a transition does
to its handle what `Calls` lets it do in one step.
-/

namespace RemoteAgent.JobManager.Locks

open CodeLib LockProg

inductive Lock where
  | shard (k : Nat)
  | state (h : JobRef)
  | completedAt (h : JobRef)
  | lastActivity (h : JobRef)
  | lastJobCreated
  deriving DecidableEq

/-- Code of the manager.  What it asks for are readings of a clock. -/
abbrev Code := LockProg SystemTime Shared Lock

def read (k : Nat) : Guard Lock := ⟨.shard k, .shared⟩

def write (k : Nat) : Guard Lock := ⟨.shard k, .exclusive⟩

def mutex (l : Lock) : Guard Lock := ⟨l, .exclusive⟩

/-- What an `Arc` points to.  There is a handle behind every `Arc`. -/
def handleAt (h : JobRef) (s : Shared) : JobHandle :=
  (s.handles[h]?).getD (JobHandle.create 0 none 0)

/-! ## The map -/

/-- `get_job`. -/
def getJob (id : UInt32) : Code (Option JobRef) := do
  let shards ← reads Shared.shards
  locked (read (shards.of id)) (reads fun s => s.getJob id)

/-- `jobs.contains_key`. -/
def containsKey (id : UInt32) : Code Bool := do
  let shards ← reads Shared.shards
  locked (read (shards.of id)) (reads fun s => decide (id ∈ s.jobs))

/-- `jobs.insert` of a new handle. -/
def insert (id : UInt32) (a : JobHandle) : Code JobRef := do
  let shards ← reads Shared.shards
  locked (write (shards.of id))
    (update
      (fun s => { s with handles := s.handles ++ [a], jobs := s.jobs.insert id s.handles.length })
      fun s => s.handles.length)

/-- `jobs.remove`. -/
def remove (id : UInt32) : Code Unit := do
  let shards ← reads Shared.shards
  locked (write (shards.of id)) (modify fun s => { s with jobs := s.jobs.erase id })

/-- The sizes of some shards, one after the other. -/
def sumLen : List Nat → Code Nat
  | [] => pure 0
  | k :: ks => do
    let n ← locked (read k) (reads fun s => (s.shardEntries k).length)
    let rest ← sumLen ks
    pure (n + rest)

/-- `jobs.len`. -/
def len : Code Nat := do
  let shards ← reads Shared.shards
  sumLen (List.range shards.count)

/-- The body of a loop over the map: it gets an entry and what has been gathered, and
says whether the loop goes on. -/
abbrev Body (β : Type) := UInt32 → JobRef → β → Code (β × Bool)

/-- The entries of a shard that is held. -/
def visit {β : Type} (body : Body β) : List (UInt32 × JobRef) → β → Code (β × Bool)
  | [], b => pure (b, true)
  | (id, h) :: rest, b => do
    let r ← body id h b
    if r.2 then visit body rest r.1 else pure r

/-- The iterator before shard `k` drops the shard that it holds. -/
def release : Nat → Code Unit
  | 0 => pure ()
  | k + 1 => .drop (read k) (pure ())

/-- The next `n` shards from shard `k` on. -/
def iterFrom {β : Type} (body : Body β) : Nat → Nat → β → Code β
  | 0, k, b => do
    release k
    pure b
  | n + 1, k, b =>
    .acquire (read k) do
      release k
      let entries ← reads fun s => s.shardEntries k
      let r ← visit body entries b
      if r.2 then iterFrom body n (k + 1) r.1
      else do
        release (k + 1)
        pure r.1

/-- `for entry in self.jobs.iter()`. -/
def iter {β : Type} (body : Body β) (b : β) : Code β := do
  let shards ← reads Shared.shards
  iterFrom body shards.count 0 b

/-- `jobs.iter().map(|entry| *entry.key()).collect()`. -/
def collectKeys : Code (List UInt32) := iter (fun id _ keys => pure (keys ++ [id], true)) []

/-! ## Operations -/

/-- One `fetch_add` of the id counter. -/
def fetchAdd : Code UInt32 :=
  update (fun s => { s with nextJobId := s.nextJobId + 1 }) Shared.nextJobId

/-- A new id; `0` is skipped. -/
def newId : Code UInt32 := do
  let id ← fetchAdd
  if id = 0 then fetchAdd else pure id

/-- `create_job`. -/
def createJob (timeout : Option Duration) : Code (Except Error JobRef) := do
  let count ← len
  let max ← reads Shared.maxConcurrentJobs
  if count ≥ max then
    pure (.error (.service ("Maximum concurrent jobs (" ++ toString max ++ ") reached")))
  else do
    let id ← newId
    let taken ← containsKey id
    if taken then pure (.error (.jobExists id))
    else do
      let now ← input
      let h ← insert id (JobHandle.create id timeout now)
      locked (mutex .lastJobCreated) (modify fun s => { s with lastJobCreated := now })
      pure (.ok h)

/-- `last_activity` is written. -/
def touch (h : JobRef) (now : SystemTime) : Code Unit :=
  locked (mutex (.lastActivity h)) (modify fun s => s.modify h (JobHandle.touch now))

/-- `completed_at` is written if the job ends. -/
def complete (h : JobRef) (new : JobState) (now : SystemTime) : Code Unit :=
  if new.isTerminal then
    locked (mutex (.completedAt h))
      (modify fun s => s.modify h fun a => { a with completedAt := some now })
  else pure ()

/-- What `transition_state` does under the state lock. -/
def transitionLocked (id : UInt32) (new : JobState) (h : JobRef) :
    Code (Except Error JobState) := do
  let old ← reads fun s => (handleAt h s).state
  if old.canTransitionTo new then do
    let now ← input
    touch h now
    complete h new now
    modify fun s => s.modify h fun a => { a with state := new }
    pure (.ok old)
  else pure (.error (JobHandle.transitionError id old new))

/-- `transition_state`. -/
def transitionState (id : UInt32) (new : JobState) : Code (Except Error JobState) := do
  match ← getJob id with
  | none => pure (.error (.jobNotFound id))
  | some h => locked (mutex (.state h)) (transitionLocked id new h)

/-- The state lock is taken to look at the state. -/
def readTerminal (h : JobRef) : Code Bool :=
  locked (mutex (.state h)) (reads fun s => (handleAt h s).state.isTerminal)

/-- `cancel_job`. -/
def cancelJob (id : UInt32) : Code (Except Error Unit) := do
  match ← getJob id with
  | none => pure (.error (.jobNotFound id))
  | some h => do
    let terminal ← readTerminal h
    if terminal then pure (.ok ())
    else do
      modify fun s => s.modify h JobHandle.cancel
      let _ ← transitionState id .canceled
      pure (.ok ())

/-- `cleanup_job`. -/
def cleanupJob (id : UInt32) : Code (Except Error Unit) := do
  match ← getJob id with
  | none => pure (.error (.jobNotFound id))
  | some h => do
    modify fun s => s.modify h JobHandle.cancel
    remove id
    pure (.ok ())

/-- `cleanup_job` on each of the keys; the number of those that it found. -/
def cleanupEach : List UInt32 → Nat → Code Nat
  | [], cleaned => pure cleaned
  | id :: rest, cleaned => do
    match ← cleanupJob id with
    | .ok _ => cleanupEach rest (cleaned + 1)
    | .error _ => cleanupEach rest cleaned

/-- `force_cleanup_all`. -/
def forceCleanupAll : Code (Except Error Unit) := do
  let keys ← collectKeys
  let _ ← cleanupEach keys 0
  pure (.ok ())

/-- The loop that looks for a job that has not ended.  It gathers whether there are jobs
and whether all of them are terminal. -/
def scanBody : Body (Bool × Bool) := fun _ h b => do
  let terminal ← readTerminal h
  if terminal then pure ((true, b.2), true) else pure ((true, false), false)

/-- The loop that picks the idle jobs. -/
def idleBody (now : SystemTime) (idle : Duration) : Body (List UInt32) :=
  fun id h toRemove => do
    let should ← locked (mutex (.state h)) <| locked (mutex (.completedAt h)) <|
      locked (mutex (.lastActivity h)) (reads fun s => (handleAt h s).shouldCleanup now idle)
    pure (if should then toRemove ++ [id] else toRemove, true)

/-- `cleanup_idle_jobs`. -/
def cleanupIdleJobs (idle quiet : Duration) : Code Nat := do
  let now ← input
  let last ← locked (mutex .lastJobCreated) (reads Shared.lastJobCreated)
  let found ← iter scanBody (false, true)
  if found.1 && found.2 && quietElapsed now last quiet then do
    let keys ← collectKeys
    cleanupEach keys 0
  else do
    let toRemove ← iter (idleBody now idle) []
    cleanupEach toRemove 0

/-- `update_activity`. -/
def updateActivity (id : UInt32) : Code Unit := do
  match ← getJob id with
  | none => pure ()
  | some h => do
    let now ← input
    touch h now

/-- One pass of the loop of `monitor_timeout`, and whether there is another one.  What
is asked for is the time since the start. -/
def monitorTimeout (h : JobRef) : Code Bool := do
  let job ← reads (handleAt h)
  match job.timeout with
  | none => pure false
  | some timeout => do
    let terminal ← readTerminal h
    if terminal then pure false
    else do
      let cancelled ← reads fun s => (handleAt h s).cancellationToken
      if cancelled then pure false
      else do
        let elapsed ← input
        if elapsed ≥ timeout then do
          let _ ← transitionState job.jobId .timedOut
          modify fun s => s.modify h JobHandle.cancel
          pure false
        else pure true

/-- What a thread may call. -/
inductive Routine where
  | createJob (timeout : Option Duration)
  | getJob (id : UInt32)
  | transitionState (id : UInt32) (new : JobState)
  | cancelJob (id : UInt32)
  | cleanupJob (id : UInt32)
  | listActiveJobs
  | hasActiveJobs
  | forceCleanupAll
  | jobCount
  | cleanupIdleJobs (idle quiet : Duration)
  | updateActivity (id : UInt32)
  | monitorTimeout (h : JobRef)

/-- Nobody looks at the result. -/
def forget {α : Type} (p : Code α) : Code Unit := do
  let _ ← p
  pure ()

/-- The code of a call.  `has_active_jobs` and `job_count` call `len`. -/
def Routine.code : Routine → Code Unit
  | .createJob timeout => forget (Locks.createJob timeout)
  | .getJob id => forget (Locks.getJob id)
  | .transitionState id new => forget (Locks.transitionState id new)
  | .cancelJob id => forget (Locks.cancelJob id)
  | .cleanupJob id => forget (Locks.cleanupJob id)
  | .listActiveJobs => forget collectKeys
  | .hasActiveJobs => forget len
  | .forceCleanupAll => forget Locks.forceCleanupAll
  | .jobCount => forget len
  | .cleanupIdleJobs idle quiet => forget (Locks.cleanupIdleJobs idle quiet)
  | .updateActivity id => Locks.updateActivity id
  | .monitorTimeout h => forget (Locks.monitorTimeout h)

/-- Threads that call the manager, which has no jobs at first. -/
def machine : StepMachine (LockSystem SystemTime Shared Lock)
    (LockSystem.Event SystemTime Routine) :=
  LockSystem.machine (fun s => s.handles = [] ∧ s.jobs = ∅) Routine.code

/-! ## What the operations compute

Alone, the code with its guards does to a job what `JobHandle.transition` says. -/

theorem modify_modify (s : Shared) (h : JobRef) (f g : JobHandle → JobHandle) :
    (s.modify h f).modify h g = s.modify h fun a => g (f a) := by
  simp only [Shared.modify, List.modify_modify_eq]
  rfl

theorem modify_congr {s : Shared} {h : JobRef} {f g : JobHandle → JobHandle}
    (hfg : f (handleAt h s) = g (handleAt h s)) : s.modify h f = s.modify h g := by
  have hlist : s.handles.modify h f = s.handles.modify h g := by
    apply List.ext_getElem?
    intro k
    rw [List.getElem?_modify, List.getElem?_modify]
    by_cases hk : h = k
    · subst hk
      cases hget : s.handles[h]? with
      | none => rfl
      | some a =>
        rw [handleAt, hget, Option.getD_some] at hfg
        simp [hfg]
    · simp [hk]
  simp only [Shared.modify, hlist]

theorem modify_id (s : Shared) (h : JobRef) : s.modify h (fun a => a) = s := by
  have hlist : s.handles.modify h (fun a => a) = s.handles := List.modify_id h s.handles
  simp only [Shared.modify, hlist]

theorem complete_eval (h : JobRef) (new : JobState) (now : SystemTime) (s : Shared) :
    ((complete h new now).eval now s).1 = s.modify h fun a =>
      { a with completedAt := if new.isTerminal then some now else a.completedAt } := by
  unfold complete
  split
  · simp
  · exact (modify_id s h).symm

theorem transitionLocked_eval (id : UInt32) (new : JobState) (h : JobRef)
    (now : SystemTime) (s : Shared) :
    ((transitionLocked id new h).eval now s).1 = s.modify h fun a => a.commit new now := by
  cases hcan : (handleAt h s).state.canTransitionTo new with
  | true =>
    simp only [transitionLocked, touch, eval_bind, eval_reads, hcan, if_true, eval_input,
      eval_locked, eval_modify, complete_eval, eval_pure, modify_modify]
    apply modify_congr
    rw [JobHandle.commit_of_can hcan]
    rfl
  | false =>
    simp only [transitionLocked, eval_bind, eval_reads, hcan, Bool.false_eq_true, if_false,
      eval_pure]
    rw [modify_congr (g := fun a => a), modify_id]
    exact JobHandle.commit_of_not_can hcan

/-- `transition_state` moves the job as its table allows, or does nothing. -/
theorem transitionState_eval (id : UInt32) (new : JobState) (now : SystemTime)
    (s : Shared) :
    ((transitionState id new).eval now s).1 =
      match s.getJob id with
      | none => s
      | some h => s.modify h fun a => a.commit new now := by
  simp only [transitionState, getJob, eval_bind, eval_reads, eval_locked]
  cases s.getJob id with
  | none => rfl
  | some h => rw [eval_locked, transitionLocked_eval]

/-! ## The order -/

/-- Where a lock stands. -/
def rank : Lock → ℕ ×ₗ ℕ
  | .shard k => toLex (0, k)
  | .state _ => toLex (1, 0)
  | .completedAt _ => toLex (2, 0)
  | .lastActivity _ => toLex (3, 0)
  | .lastJobCreated => toLex (4, 0)

/-- The manager's locks are taken in the order of `rank`. -/
abbrev Ordered {α : Type} (held : List (Guard Lock)) (p : Code α) : Prop :=
  Steady rank held p

/-- An operation of the map that holds one shard. -/
theorem ordered_onShard {α : Type} {g : Sharding → Guard Lock} {p : Code α}
    (hp : ∀ g', Ordered [g'] p) :
    Ordered [] (reads Shared.shards >>= fun shards => locked (g shards) p) :=
  (Steady.reads _).bind fun _ => .lockedAlone (hp _)

theorem getJob_ordered (id : UInt32) : Ordered [] (getJob id) :=
  ordered_onShard fun _ => .reads _

theorem containsKey_ordered (id : UInt32) : Ordered [] (containsKey id) :=
  ordered_onShard fun _ => .reads _

theorem insert_ordered (id : UInt32) (a : JobHandle) : Ordered [] (insert id a) :=
  ordered_onShard fun _ => .update _ _

theorem remove_ordered (id : UInt32) : Ordered [] (remove id) :=
  ordered_onShard fun _ => .modify _

theorem sumLen_ordered (ks : List Nat) : Ordered [] (sumLen ks) := by
  induction ks with
  | nil => exact .pure 0
  | cons k ks ih =>
    apply Steady.bind (.lockedAlone (.reads _))
    intro n
    exact ih.bind fun rest => .pure (n + rest)

theorem len_ordered : Ordered [] len := (Steady.reads _).bind fun _ => sumLen_ordered _

/-! ### Iterators -/

/-- The guard that an iterator has before shard `k`. -/
def before : Nat → List (Guard Lock)
  | 0 => []
  | k + 1 => [read k]

/-- A body runs under the guard of the iterator. -/
def BodyOrdered {β : Type} (body : Body β) : Prop :=
  ∀ k id h b, Ordered [read k] (body id h b)

theorem visit_ordered {β : Type} {body : Body β} (hbody : BodyOrdered body) (k : Nat)
    (entries : List (UInt32 × JobRef)) (b : β) :
    Ordered [read k] (visit body entries b) := by
  induction entries generalizing b with
  | nil => exact .pure _
  | cons e rest ih =>
    apply (hbody k e.1 e.2 b).bind
    intro r
    exact .ite (ih r.1) (.pure r)

theorem rank_before {k : Nat} : ∀ g ∈ before k, rank g.lock < rank (read k).lock := by
  cases k with
  | zero => simp [before]
  | succ k => simp [before, read, rank, Prod.Lex.toLex_lt_toLex]

/-- The shard behind is dropped when the next one has been taken. -/
theorem release_wp (k : Nat) :
    (release k).wp rank (fun _ now => now = [read k]) (read k :: before k) := by
  cases k with
  | zero => rfl
  | succ k =>
    have hne : read (k + 1) ≠ read k := by simp [read]
    refine ⟨List.mem_cons_of_mem _ List.mem_cons_self, ?_⟩
    show (read (k + 1) :: [read k]).erase (read k) = [read (k + 1)]
    simp [hne]

/-- At its end an iterator drops the shard that it has. -/
theorem release_then {β : Type} (k : Nat) (b : β) :
    (do release k; pure b : Code β).wp rank (fun _ now => now = []) (before k) := by
  cases k with
  | zero => rfl
  | succ k => exact ⟨List.mem_cons_self, List.erase_cons_head _ _⟩

theorem iterFrom_wp {β : Type} {body : Body β} (hbody : BodyOrdered body) (n k : Nat)
    (b : β) : (iterFrom body n k b).wp rank (fun _ now => now = []) (before k) := by
  induction n generalizing k b with
  | zero => exact release_then k b
  | succ n ih =>
    refine ⟨rank_before, wp_bind.mpr (wp_mono ?_ (release_wp k))⟩
    rintro _ now rfl
    apply (Steady.reads _).wp_bind
    intro entries
    apply (visit_ordered hbody k entries b).wp_bind
    intro r
    split
    · exact ih (k + 1) r.1
    · exact release_then (k + 1) r.1

theorem iter_ordered {β : Type} {body : Body β} (hbody : BodyOrdered body) (b : β) :
    Ordered [] (iter body b) :=
  (Steady.reads _).bind fun shards => iterFrom_wp hbody shards.count 0 b

theorem collectKeys_ordered : Ordered [] collectKeys :=
  iter_ordered (fun _ _ _ _ => .pure _) []

/-! ### Operations -/

theorem newId_ordered : Ordered [] newId :=
  (Steady.update _ _).bind fun id => .ite (.update _ _) (.pure id)

theorem createJob_ordered (timeout : Option Duration) : Ordered [] (createJob timeout) := by
  apply len_ordered.bind
  intro count
  apply (Steady.reads _).bind
  intro max
  refine .ite (.pure _) (newId_ordered.bind fun id => ?_)
  apply (containsKey_ordered id).bind
  intro taken
  refine .ite (.pure _) (Steady.input.bind fun now => ?_)
  apply (insert_ordered id _).bind
  intro h
  exact Steady.bind (.lockedAlone (.modify _)) fun _ => .pure _

theorem transitionLocked_ordered (id : UInt32) (new : JobState) (h : JobRef) :
    Ordered [mutex (.state h)] (transitionLocked id new h) := by
  have htouch : ∀ now, Ordered [mutex (.state h)] (touch h now) := by
    intro now
    refine .locked ?_ (.modify _)
    simp [mutex, rank, Prod.Lex.toLex_lt_toLex]
  have hcomplete : ∀ now, Ordered [mutex (.state h)] (complete h new now) := by
    intro now
    refine .ite (.locked ?_ (.modify _)) (.pure ())
    simp [mutex, rank, Prod.Lex.toLex_lt_toLex]
  apply (Steady.reads _).bind
  intro old
  refine .ite (Steady.input.bind fun now => ?_) (.pure _)
  apply (htouch now).bind
  intro _
  apply (hcomplete now).bind
  intro _
  exact (Steady.modify _).bind fun _ => .pure _

theorem transitionState_ordered (id : UInt32) (new : JobState) :
    Ordered [] (transitionState id new) := by
  apply (getJob_ordered id).bind
  intro found
  cases found with
  | none => exact .pure _
  | some h => exact .lockedAlone (transitionLocked_ordered id new h)

/-- A state lock may be taken under the lock of a shard. -/
theorem rank_state {k : Nat} {h : JobRef} :
    ∀ g ∈ [read k], rank g.lock < rank (mutex (.state h)).lock := by
  simp [read, mutex, rank, Prod.Lex.toLex_lt_toLex]

theorem readTerminal_ordered {held : List (Guard Lock)} {h : JobRef}
    (hheld : ∀ g ∈ held, rank g.lock < rank (mutex (.state h)).lock) :
    Ordered held (readTerminal h) :=
  .locked hheld (.reads _)

theorem cancelJob_ordered (id : UInt32) : Ordered [] (cancelJob id) := by
  apply (getJob_ordered id).bind
  intro found
  cases found with
  | none => exact .pure _
  | some h =>
    apply (readTerminal_ordered (by simp)).bind
    intro terminal
    refine .ite (.pure _) ((Steady.modify _).bind fun _ => ?_)
    exact (transitionState_ordered id _).bind fun _ => .pure _

theorem cleanupJob_ordered (id : UInt32) : Ordered [] (cleanupJob id) := by
  apply (getJob_ordered id).bind
  intro found
  cases found with
  | none => exact .pure _
  | some h =>
    apply (Steady.modify _).bind
    intro _
    exact (remove_ordered id).bind fun _ => .pure _

theorem cleanupEach_ordered (ids : List UInt32) (cleaned : Nat) :
    Ordered [] (cleanupEach ids cleaned) := by
  induction ids generalizing cleaned with
  | nil => exact .pure _
  | cons id rest ih =>
    apply (cleanupJob_ordered id).bind
    intro r
    cases r with
    | ok u => exact ih (cleaned + 1)
    | error e => exact ih cleaned

theorem forceCleanupAll_ordered : Ordered [] forceCleanupAll := by
  apply collectKeys_ordered.bind
  intro keys
  exact (cleanupEach_ordered keys 0).bind fun _ => .pure _

theorem scanBody_ordered : BodyOrdered scanBody := by
  intro k id h b
  apply (readTerminal_ordered rank_state).bind
  intro terminal
  exact .ite (.pure _) (.pure _)

/-- Three locks of a job under the lock of a shard. -/
theorem idleBody_ordered (now : SystemTime) (idle : Duration) :
    BodyOrdered (idleBody now idle) := by
  intro k id h toRemove
  refine Steady.bind (.locked rank_state (.locked ?_ (.locked ?_ (.reads _)))) fun _ => .pure _
  · simp [read, mutex, rank, Prod.Lex.toLex_lt_toLex]
  · simp [read, mutex, rank, Prod.Lex.toLex_lt_toLex]

theorem cleanupIdleJobs_ordered (idle quiet : Duration) :
    Ordered [] (cleanupIdleJobs idle quiet) := by
  apply Steady.input.bind
  intro now
  apply Steady.bind (.lockedAlone (.reads _))
  intro last
  apply (iter_ordered scanBody_ordered _).bind
  intro found
  refine .ite ?_ ?_
  · exact collectKeys_ordered.bind fun keys => cleanupEach_ordered keys 0
  · apply (iter_ordered (idleBody_ordered now idle) _).bind
    intro toRemove
    exact cleanupEach_ordered toRemove 0

theorem updateActivity_ordered (id : UInt32) : Ordered [] (updateActivity id) := by
  apply (getJob_ordered id).bind
  intro found
  cases found with
  | none => exact .pure _
  | some h => exact Steady.input.bind fun now => .lockedAlone (.modify _)

theorem monitorTimeout_ordered (h : JobRef) : Ordered [] (monitorTimeout h) := by
  apply (Steady.reads _).bind
  intro job
  cases job.timeout with
  | none => exact .pure _
  | some timeout =>
    apply (readTerminal_ordered (by simp)).bind
    intro terminal
    refine .ite (.pure _) ((Steady.reads _).bind fun cancelled => ?_)
    refine .ite (.pure _) (Steady.input.bind fun elapsed => ?_)
    refine .ite ?_ (.pure _)
    apply (transitionState_ordered job.jobId _).bind
    intro _
    exact (Steady.modify _).bind fun _ => .pure _

theorem forget_ordered {α : Type} {p : Code α} (hp : Ordered [] p) : Ordered [] (forget p) :=
  hp.bind fun _ => .pure ()

theorem code_ordered (r : Routine) : Ordered [] r.code := by
  cases r with
  | createJob timeout => exact forget_ordered (createJob_ordered timeout)
  | getJob id => exact forget_ordered (getJob_ordered id)
  | transitionState id new => exact forget_ordered (transitionState_ordered id new)
  | cancelJob id => exact forget_ordered (cancelJob_ordered id)
  | cleanupJob id => exact forget_ordered (cleanupJob_ordered id)
  | listActiveJobs => exact forget_ordered collectKeys_ordered
  | hasActiveJobs => exact forget_ordered len_ordered
  | forceCleanupAll => exact forget_ordered forceCleanupAll_ordered
  | jobCount => exact forget_ordered len_ordered
  | cleanupIdleJobs idle quiet => exact forget_ordered (cleanupIdleJobs_ordered idle quiet)
  | updateActivity id => exact updateActivity_ordered id
  | monitorTimeout h => exact forget_ordered (monitorTimeout_ordered h)

/-! ## No deadlock -/

variable {s : LockSystem SystemTime Shared Lock}

/-- Whatever threads call the manager and however their calls interleave, there are
never threads that wait for each other's locks or for their own. -/
theorem deadlock_free (h : machine.Reachable s) : ¬ s.Deadlocked :=
  LockSystem.not_deadlocked code_ordered h

/-- A manager with two shards. -/
def sampleShared : Shared where
  handles := []
  jobs := ∅
  nextJobId := 1
  maxConcurrentJobs := 5
  lastJobCreated := 0
  shards := ⟨2, fun id => id.toNat % 2, fun _ => Nat.mod_lt _ (by decide)⟩

/-- One thread creates job 1 and goes on to `cleanup_idle_jobs`.  While it holds the
shard and the state lock of the job there, a second one comes to the state lock in
`transition_state` and a third one to the shard in `cleanup_job`. -/
def contention : List (LockSystem.Event SystemTime Routine) :=
  ([.spawn, .spawn, .spawn, .call 0 (.createJob none)] :
      List (LockSystem.Event SystemTime Routine)) ++
    List.replicate 21 (.step 0 0) ++
    ([.call 0 (.cleanupIdleJobs 0 0), .call 1 (.transitionState 1 .starting),
      .call 2 (.cleanupJob 1)] : List (LockSystem.Event SystemTime Routine)) ++
    List.replicate 4 (.step 1 0) ++ List.replicate 6 (.step 2 0) ++
    List.replicate 21 (.step 0 0)

/-- The locks of each thread and the lock that it waits for. -/
def lockTable (s : LockSystem SystemTime Shared Lock) : List (List Lock × Option Lock) :=
  s.threads.map fun t => (t.held.map Guard.lock, t.prog.wants.map Guard.lock)

theorem deadlock_free_contended :
    ∃ s, machine.Reachable s ∧ lockTable s =
        [([.state 0, .shard 1], some (.completedAt 0)), ([], some (.state 0)),
          ([], some (.shard 1))] ∧
      ¬ s.Deadlocked := by
  obtain ⟨s, hreach, hs⟩ := StepMachine.reach_of_runIf machine StepMachine.Any
    (s := ⟨sampleShared, []⟩) ⟨⟨rfl, rfl⟩, rfl⟩ contention
    (fun s => lockTable s =
      [([.state 0, .shard 1], some (.completedAt 0)), ([], some (.state 0)),
        ([], some (.shard 1))]) (by decide +kernel)
  exact ⟨s, hreach, of_decide_eq_true hs, deadlock_free hreach⟩

/-- Some call goes on while not all have returned. -/
theorem exists_step_of_running (h : machine.Reachable s)
    {t : LockThread SystemTime Shared Lock} (ht : t ∈ s.threads)
    (hrun : t.prog.returned = false) (now : SystemTime) :
    ∃ i s', machine.step s (.step i now) = some s' := by
  show ∃ i s', LockSystem.step Routine.code s (.step i now) = some s'
  exact (LockSystem.disciplined_of_reachable code_ordered h).exists_step now ht hrun

end RemoteAgent.JobManager.Locks
