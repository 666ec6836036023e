import RemoteAgent.CodeLib.Pool
import RemoteAgent.PipeServer.Connection
import RemoteAgent.PipeServer.Disconnect
import RemoteAgent.ProcessLauncher.Launch

/-!
# The listener and its clients

`start_listening` with the tasks that it spawns.  The loop creates an instance of the pipe,
waits for a permit, spawns a blocking task for the instance, and goes on to the next one
without waiting for a client.  The task waits for its client, handles it, disconnects and
closes the instance, and drops the permit.

* The handle of an instance goes from the loop to the task as an integer, so nothing closes
  it when either of them is dropped on the way.  The loop can be dropped before it runs at
  all and while it waits for a permit, a task only before it runs.
* Windows may give out the value of a handle again once it is closed.  It never returns one
  that is open.
* `Handler` is what a task does for its client; `Connection.handler` is `handle_client`.

`accounted_reachable` says where the open instances are: every one is in the hands of one
task or of the loop, or of one of those that were dropped with it.  `rationed_reachable`
says the same of the permits.

* `owns_instance`: whatever a task does to its handle, it does to an open instance that
  nobody else has.
* `instances_bounded`: how many instances there are, and that the loop only stands still
  while all permits are out.
* `instances_when_over`: what is left open when everything is over.
-/

namespace RemoteAgent

open CodeLib
open JobManager (HANDLE)
open ProcessLauncher (isInvalid)

namespace PipeServer

/-! ## Clients -/

inductive Outcome where
  | returned
  | panicked
  deriving DecidableEq, Repr

/-- What is done for one client, from what the client is on: it has come to its end when
there is an outcome. -/
structure Handler (ι κ ε : Type) where
  start : ι → κ
  step : κ → ε → Option κ
  outcome : κ → Option Outcome

variable {ι κ ε : Type}

/-- The machine of one client. -/
def Handler.machine (H : Handler ι κ ε) : StepMachine κ ε where
  Init c := ∃ i, c = H.start i
  step := H.step

/-! ## The loop and its tasks -/

/-- Where `start_listening` stands.  From `acquiring` on it has the handle of an instance;
at `spawning` it also has a permit. -/
inductive ListenPc where
  | notPolled
  | creating
  | acquiring (handle : HANDLE)
  | spawning (handle : HANDLE)
  | returned (e : Error)
  | aborted (handle : Option HANDLE)
  deriving DecidableEq

/-- Where a task stands.  At `queued` no thread has begun with it, at `discarded` none ever
will. -/
inductive ClientPc (κ : Type) where
  | queued
  | connecting
  | handling (c : κ)
  | disconnecting
  | closing
  | dropping
  | finished
  | panicked
  | discarded

structure ClientTask (κ : Type) where
  handle : HANDLE
  pc : ClientPc κ

/-- `connected` is the return of `ConnectNamedPipe`, whose result does not matter, and
`handled` the end of `handle_client`. -/
inductive ClientEvent (ι ε : Type) where
  | run
  | discard
  | connected (client : ι)
  | client (e : ε)
  | handled
  | disconnect
  | close
  | dropPermit

end PipeServer

open PipeServer

/-- The server with its semaphore.  `instances` are the instances of the pipe that are
open. -/
structure Listener (κ : Type) where
  permits : Nat
  listen : ListenPc
  tasks : List (ClientTask κ)
  instances : List HANDLE

namespace Listener

variable {ι κ ε : Type}

def start (maxConnections : Nat) : Listener κ := ⟨maxConnections, .notPolled, [], []⟩

/-- `created` is the result of `CreateNamedPipeW`. -/
inductive Event (ι ε : Type) where
  | poll
  | created (handle : HANDLE)
  | acquired
  | spawned
  | abort
  | task (i : Nat) (e : ClientEvent ι ε)

def createError : Error := .service "CreateNamedPipeW returned invalid handle"

def stepTask (H : Handler ι κ ε) (s : Listener κ) (t : ClientTask κ) :
    ClientEvent ι ε → Option (Listener κ × ClientPc κ) :=
  fun e =>
    match t.pc, e with
    | .queued, .run => some (s, .connecting)
    | .queued, .discard => some ({ s with permits := s.permits + 1 }, .discarded)
    | .connecting, .connected client => some (s, .handling (H.start client))
    | .handling c, .client e => (H.step c e).map fun c' => (s, .handling c')
    | .handling c, .handled =>
      match H.outcome c with
      | some .returned => some (s, .disconnecting)
      | some .panicked => some ({ s with permits := s.permits + 1 }, .panicked)
      | none => none
    | .disconnecting, .disconnect => some (s, .closing)
    | .closing, .close => some ({ s with instances := s.instances.erase t.handle }, .dropping)
    | .dropping, .dropPermit => some ({ s with permits := s.permits + 1 }, .finished)
    | _, _ => none

def step (H : Handler ι κ ε) (s : Listener κ) : Event ι ε → Option (Listener κ)
  | .poll =>
    match s.listen with
    | .notPolled => some { s with listen := .creating }
    | _ => none
  | .created handle =>
    match s.listen with
    | .creating =>
      if isInvalid handle then some { s with listen := .returned createError }
      else if handle ∈ s.instances then none
      else some { s with listen := .acquiring handle, instances := handle :: s.instances }
    | _ => none
  | .acquired =>
    match s.listen with
    | .acquiring handle =>
      if 0 < s.permits then
        some { s with permits := s.permits - 1, listen := .spawning handle }
      else none
    | _ => none
  | .spawned =>
    match s.listen with
    | .spawning handle =>
      some { s with listen := .creating, tasks := s.tasks ++ [⟨handle, .queued⟩] }
    | _ => none
  | .abort =>
    match s.listen with
    | .notPolled => some { s with listen := .aborted none }
    | .acquiring handle => some { s with listen := .aborted (some handle) }
    | _ => none
  | .task i e =>
    (s.tasks[i]?).bind fun t =>
      (s.stepTask H t e).map fun r =>
        { r.1 with tasks := s.tasks.set i { t with pc := r.2 } }

/-- The machine of a server for so many connections. -/
def machine (H : Handler ι κ ε) (maxConnections : Nat) :
    StepMachine (Listener κ) (Event ι ε) where
  Init s := s = start maxConnections
  step := step H

/-! ## Who has what -/

end Listener

namespace PipeServer

variable {κ : Type}

/-- The instance that the loop has, or had when it was dropped. -/
def ListenPc.instance? : ListenPc → Option HANDLE
  | .acquiring handle | .spawning handle => some handle
  | .aborted handle => handle
  | _ => none

/-- The permits that the loop has. -/
def ListenPc.permits : ListenPc → Nat
  | .spawning _ => 1
  | _ => 0

/-- The loop has come to its end. -/
def ListenPc.ended : ListenPc → Bool
  | .returned _ | .aborted _ => true
  | _ => false

/-- Until it has closed its instance, a task has it; one that was dropped keeps it. -/
def ClientPc.hasInstance : ClientPc κ → Bool
  | .dropping | .finished => false
  | _ => true

def ClientPc.hasPermit : ClientPc κ → Bool
  | .finished | .panicked | .discarded => false
  | _ => true

/-- A thread is between the beginning of the task and the return of `CloseHandle`. -/
def ClientPc.usesInstance : ClientPc κ → Bool
  | .connecting | .handling _ | .disconnecting | .closing => true
  | _ => false

/-- The task was dropped before it began. -/
def ClientPc.isDiscarded : ClientPc κ → Bool
  | .discarded => true
  | _ => false

/-- The task was dropped before it has closed its instance. -/
def ClientPc.dropped : ClientPc κ → Bool
  | .panicked | .discarded => true
  | _ => false

def ClientTask.instance? (t : ClientTask κ) : Option HANDLE :=
  if t.pc.hasInstance then some t.handle else none

theorem ClientPc.hasInstance_of_uses {pc : ClientPc κ} (h : pc.usesInstance = true) :
    pc.hasInstance = true := by
  cases pc <;> first | rfl | cases h

theorem ClientTask.instance?_of_uses {t : ClientTask κ} (h : t.pc.usesInstance = true) :
    t.instance? = some t.handle := by
  rw [instance?, ClientPc.hasInstance_of_uses h]
  rfl

/-- A task that has its instance has a permit, or was dropped with the instance. -/
theorem ClientPc.permit_or_dropped {pc : ClientPc κ} (h : pc.hasInstance = true) :
    pc.hasPermit = true ∨ pc.dropped = true := by
  cases pc <;> first | exact Or.inl rfl | exact Or.inr rfl | cases h

end PipeServer

namespace Listener

section run

variable {ι κ ε : Type} {H : Handler ι κ ε} {s s' : Listener κ}

/-- The instances that the loop and the tasks have. -/
def owned (s : Listener κ) : List HANDLE :=
  s.listen.instance?.toList ++ s.tasks.filterMap ClientTask.instance?

/-- What a step of a task does: it goes on, it closes its instance, or it drops its permit. -/
inductive TaskMove (s : Listener κ) (t : ClientTask κ) : Listener κ → ClientPc κ → Prop where
  | goes (pc : ClientPc κ) (hinstance : pc.hasInstance = t.pc.hasInstance)
    (hpermit : pc.hasPermit = t.pc.hasPermit) : TaskMove s t s pc
  | closes (hpc : t.pc = .closing) :
    TaskMove s t { s with instances := s.instances.erase t.handle } .dropping
  | gives (pc : ClientPc κ) (hinstance : pc.hasInstance = t.pc.hasInstance)
    (hpermit : t.pc.hasPermit = true) (hgiven : pc.hasPermit = false) :
    TaskMove s t { s with permits := s.permits + 1 } pc

theorem stepTask_move {t : ClientTask κ} {e : ClientEvent ι ε} {pc : ClientPc κ}
    (h : s.stepTask H t e = some (s', pc)) : TaskMove s t s' pc := by
  unfold stepTask at h
  split at h
  · rename_i hpc
    cases h
    exact .goes _ (by rw [hpc]; rfl) (by rw [hpc]; rfl)
  · rename_i hpc
    cases h
    exact .gives _ (by rw [hpc]; rfl) (by rw [hpc]; rfl) rfl
  · rename_i hpc
    cases h
    exact .goes _ (by rw [hpc]; rfl) (by rw [hpc]; rfl)
  · rename_i hpc
    obtain ⟨c, -, hpair⟩ := Option.map_eq_some_iff.mp h
    cases hpair
    exact .goes _ (by rw [hpc]; rfl) (by rw [hpc]; rfl)
  · rename_i hpc
    split at h <;> cases h
    · exact .goes _ (by rw [hpc]; rfl) (by rw [hpc]; rfl)
    · exact .gives _ (by rw [hpc]; rfl) (by rw [hpc]; rfl) rfl
  · rename_i hpc
    cases h
    exact .goes _ (by rw [hpc]; rfl) (by rw [hpc]; rfl)
  · rename_i hpc
    cases h
    exact .closes hpc
  · rename_i hpc
    cases h
    exact .gives _ (by rw [hpc]; rfl) (by rw [hpc]; rfl) rfl
  · cases h

theorem step_task {i : Nat} {e : ClientEvent ι ε} (h : s.step H (.task i e) = some s') :
    ∃ t u pc, s.tasks[i]? = some t ∧ s.stepTask H t e = some (u, pc) ∧
      s' = { u with tasks := s.tasks.set i { t with pc := pc } } := by
  obtain ⟨t, ht, h⟩ := Option.bind_eq_some_iff.mp h
  obtain ⟨⟨u, pc⟩, hu, rfl⟩ := Option.map_eq_some_iff.mp h
  exact ⟨t, u, pc, ht, hu, rfl⟩

/-! ## Instances -/

/-- The open instances are those that the loop and the tasks have, and no two of these are
the same. -/
structure Accounted (s : Listener κ) : Prop where
  nodup : s.instances.Nodup
  perm : s.instances.Perm s.owned

theorem Accounted.task {i : Nat} {t : ClientTask κ} {pc : ClientPc κ} {u : Listener κ}
    (hs : s.Accounted) (ht : s.tasks[i]? = some t) (hm : TaskMove s t u pc) :
    Accounted { u with tasks := s.tasks.set i { t with pc := pc } } := by
  have hset := filterMap_set_perm (f := ClientTask.instance?) ht { t with pc := pc }
  -- a task that keeps what it has
  have hkeeps : pc.hasInstance = t.pc.hasInstance →
      ((s.tasks.set i { t with pc := pc }).filterMap ClientTask.instance?).Perm
        (s.tasks.filterMap ClientTask.instance?) := by
    intro hpc
    have hsame : ClientTask.instance? { t with pc := pc } = t.instance? := by
      simp [ClientTask.instance?, hpc]
    rw [hsame] at hset
    exact (List.perm_append_left_iff _).mp hset
  cases hm with
  | goes pc hinstance hpermit =>
    exact ⟨hs.nodup, hs.perm.trans ((hkeeps hinstance).symm.append_left _)⟩
  | gives pc hinstance hpermit hgiven =>
    exact ⟨hs.nodup, hs.perm.trans ((hkeeps hinstance).symm.append_left _)⟩
  | closes hpc =>
    refine ⟨hs.nodup.erase _, ?_⟩
    have hold : t.instance? = some t.handle := by simp [ClientTask.instance?, hpc,
      ClientPc.hasInstance]
    have hnew : ({ t with pc := .dropping } : ClientTask κ).instance? = none := rfl
    rw [hold, hnew] at hset
    have hcons : s.instances.Perm (t.handle :: (s.listen.instance?.toList ++
        (s.tasks.set i { t with pc := .dropping }).filterMap ClientTask.instance?)) :=
      (hs.perm.trans (hset.symm.append_left _)).trans List.perm_middle
    have herase := hcons.erase t.handle
    rw [List.erase_cons_head] at herase
    exact herase

theorem Accounted.step {e : Event ι ε} (hs : s.Accounted) (h : s.step H e = some s') :
    s'.Accounted := by
  -- the loop goes on with the instance that it has
  have hlisten : ∀ (permits : Nat) (pc : ListenPc), pc.instance? = s.listen.instance? →
      Accounted { s with permits := permits, listen := pc } := by
    intro permits pc hpc
    refine ⟨hs.nodup, hs.perm.trans ?_⟩
    unfold owned
    rw [hpc]
  cases e with
  | poll =>
    simp only [Listener.step] at h
    split at h <;> cases h
    rename_i hpc
    exact hlisten _ _ (by rw [hpc]; rfl)
  | created handle =>
    simp only [Listener.step] at h
    split at h
    · rename_i hpc
      split at h
      · cases h
        exact hlisten _ _ (by rw [hpc]; rfl)
      · split at h <;> cases h
        rename_i hnew
        refine ⟨List.nodup_cons.mpr ⟨hnew, hs.nodup⟩, List.Perm.cons _ ?_⟩
        have hperm := hs.perm
        unfold owned at hperm
        rw [hpc] at hperm
        exact hperm
    · cases h
  | acquired =>
    simp only [Listener.step] at h
    split at h
    · rename_i hpc
      split at h <;> cases h
      exact hlisten _ _ (by rw [hpc]; rfl)
    · cases h
  | spawned =>
    simp only [Listener.step] at h
    split at h <;> cases h
    rename_i handle hpc
    refine ⟨hs.nodup, hs.perm.trans ?_⟩
    unfold owned
    rw [hpc, List.filterMap_append]
    exact List.perm_append_comm
  | abort =>
    simp only [Listener.step] at h
    split at h <;> cases h
    · rename_i hpc
      exact hlisten _ _ (by rw [hpc]; rfl)
    · rename_i hpc
      exact hlisten _ _ (by rw [hpc]; rfl)
  | task i e =>
    obtain ⟨t, u, pc, ht, hu, rfl⟩ := step_task h
    exact hs.task ht (stepTask_move hu)

theorem accounted_reachable {n : Nat} {C : Listener κ → Event ι ε → Prop}
    (h : (machine H n).Reach C s) : s.Accounted := by
  refine h.invariant ?_ fun _ _ _ hs _ hstep => hs.step hstep
  rintro _ rfl
  exact ⟨List.nodup_nil, List.Perm.refl _⟩

/-! ## Permits -/

/-- Every permit is free, or it is with the loop or a task. -/
def Rationed (n : Nat) (s : Listener κ) : Prop :=
  s.permits + s.listen.permits + s.tasks.countP (fun t => t.pc.hasPermit) = n

theorem Rationed.task {n i : Nat} {t : ClientTask κ} {pc : ClientPc κ} {u : Listener κ}
    (hs : s.Rationed n) (ht : s.tasks[i]? = some t) (hm : TaskMove s t u pc) :
    Rationed n { u with tasks := s.tasks.set i { t with pc := pc } } := by
  have hcount := countP_set_add (q := fun t : ClientTask κ => t.pc.hasPermit) ht
    { t with pc := pc }
  unfold Rationed at hs ⊢
  cases hm with
  | goes pc hinstance hpermit =>
    simp only [hpermit] at hcount ⊢
    omega
  | closes hpc =>
    have hold : t.pc.hasPermit = true := by rw [hpc]; rfl
    have hnew : (ClientPc.dropping : ClientPc κ).hasPermit = true := rfl
    simp only [hold, hnew] at hcount ⊢
    omega
  | gives pc hinstance hpermit hgiven =>
    simp only [hpermit, hgiven] at hcount ⊢
    simp at hcount
    omega

theorem Rationed.step {n : Nat} {e : Event ι ε} (hs : s.Rationed n)
    (h : s.step H e = some s') : s'.Rationed n := by
  unfold Rationed at hs
  cases e with
  | task i e =>
    obtain ⟨t, u, pc, ht, hu, rfl⟩ := step_task h
    exact Rationed.task hs ht (stepTask_move hu)
  | created handle =>
    simp only [Listener.step] at h
    split at h
    · rename_i hpc
      rw [hpc] at hs
      split at h
      · cases h
        exact hs
      · split at h <;> cases h
        exact hs
    · cases h
  | acquired =>
    simp only [Listener.step] at h
    split at h
    · rename_i handle hpc
      rw [hpc] at hs
      split at h <;> cases h
      rename_i hpos
      show s.permits - 1 + 1 + _ = n
      rw [Nat.sub_add_cancel hpos]
      exact hs
    · cases h
  | spawned =>
    simp only [Listener.step] at h
    split at h <;> cases h
    rename_i handle hpc
    rw [hpc] at hs
    show s.permits + 0 + (s.tasks ++ [(⟨handle, .queued⟩ : ClientTask κ)]).countP
      (fun t => t.pc.hasPermit) = n
    have hone : [(⟨handle, .queued⟩ : ClientTask κ)].countP (fun t => t.pc.hasPermit) = 1 := rfl
    simp only [ListenPc.permits] at hs
    rw [List.countP_append, hone]
    omega
  | poll | abort =>
    simp only [Listener.step] at h
    split at h <;> cases h <;> (rename_i hpc; rw [hpc] at hs; exact hs)

theorem rationed_reachable {n : Nat} {C : Listener κ → Event ι ε → Prop}
    (h : (machine H n).Reach C s) : s.Rationed n := by
  refine h.invariant ?_ fun _ _ _ hs _ hstep => hs.step hstep
  rintro _ rfl
  rfl

/-! ## The clients -/

/-- A step of the loop leaves the tasks alone, or adds one. -/
theorem step_loop {e : Event ι ε} (he : ∀ i te, e ≠ .task i te) (h : s.step H e = some s') :
    s'.tasks = s.tasks ∨ ∃ handle, s'.tasks = s.tasks ++ [⟨handle, .queued⟩] := by
  cases e with
  | task i te => exact absurd rfl (he i te)
  | spawned =>
    simp only [step] at h
    split at h <;> cases h
    exact Or.inr ⟨_, rfl⟩
  | created handle =>
    simp only [step] at h
    split at h
    · split at h
      · cases h
        exact Or.inl rfl
      · split at h <;> cases h
        exact Or.inl rfl
    · cases h
  | acquired =>
    simp only [step] at h
    split at h
    · split at h <;> cases h
      exact Or.inl rfl
    · cases h
  | poll | abort =>
    simp only [step] at h
    split at h <;> cases h <;> exact Or.inl rfl

/-- What holds of a task at its beginning and what its steps keep holds of all tasks. -/
theorem forall_tasks {n : Nat} {C : Listener κ → Event ι ε → Prop} {Q : ClientPc κ → Prop}
    (hqueued : Q .queued)
    (hkeep : ∀ (s u : Listener κ) (t : ClientTask κ) (e : ClientEvent ι ε) (pc : ClientPc κ),
      Q t.pc → s.stepTask H t e = some (u, pc) → Q pc)
    (h : (machine H n).Reach C s) : ∀ t ∈ s.tasks, Q t.pc := by
  refine h.invariant (I := fun s => ∀ t ∈ s.tasks, Q t.pc) ?_ ?_
  · rintro _ rfl t ht
    cases ht
  · intro s e s' hs _ hstep
    by_cases he : ∃ i te, e = .task i te
    · obtain ⟨i, te, rfl⟩ := he
      obtain ⟨t, u, pc, ht, hu, rfl⟩ := step_task hstep
      intro x hx
      rcases List.mem_or_eq_of_mem_set hx with hx | rfl
      · exact hs x hx
      · exact hkeep s u t te pc (hs t (List.mem_of_getElem? ht)) hu
    · rcases step_loop (fun i te heq => he ⟨i, te, heq⟩) hstep with hsame | ⟨handle, hnew⟩
      · rw [hsame]
        exact hs
      · rw [hnew]
        intro t ht
        rcases List.mem_append.mp ht with ht | ht
        · exact hs t ht
        · rw [List.mem_singleton.mp ht]
          exact hqueued

/-- The client that a task handles is in a state that its own machine reaches, so all that
holds of one client holds of it.  A task only panics when its client does. -/
def Serves (H : Handler ι κ ε) : ClientPc κ → Prop
  | .handling c => H.machine.Reachable c
  | .panicked => ∃ c, H.machine.Reachable c ∧ H.outcome c = some .panicked
  | _ => True

theorem serves_reachable {n : Nat} {C : Listener κ → Event ι ε → Prop}
    (h : (machine H n).Reach C s) : ∀ t ∈ s.tasks, Serves H t.pc := by
  refine forall_tasks trivial ?_ h
  intro s u t e pc ht hu
  unfold stepTask at hu
  split at hu
  · cases hu
    trivial
  · cases hu
    trivial
  · cases hu
    exact ⟨_, [], ⟨_, rfl⟩, .nil _⟩
  · rename_i c e hpc
    obtain ⟨c', hc', hpair⟩ := Option.map_eq_some_iff.mp hu
    cases hpair
    rw [hpc] at ht
    exact StepMachine.Reach.step (l := e) ht trivial hc'
  · rename_i c hpc
    rw [hpc] at ht
    split at hu <;> cases hu
    · trivial
    · rename_i hout
      exact ⟨c, ht, hout⟩
  · cases hu
    trivial
  · cases hu
    trivial
  · cases hu
    trivial
  · cases hu

end run

end Listener

/-! ## `handle_client` -/

/-- What `handle_client` does for a client: it returns from the handshake, or when the
request loop and the writer are at their ends. -/
def Connection.handler (serde : Serde) : Handler (Inbound × Outbound) Connection
    Connection.Event where
  start client := Connection.start client.1 client.2
  step := Connection.step serde
  outcome c :=
    match c.phase with
    | .greeting => none
    | .session s => if s.clientReturned then some .returned else none
    | .returned _ => some .returned
    | .panicked => some .panicked

theorem Connection.handler_safe {serde : Serde} {c : Connection}
    (h : (Connection.handler serde).machine.Reachable c) :
    (Connection.handler serde).outcome c ≠ some .panicked := by
  obtain ⟨_, es, ⟨client, rfl⟩, hp⟩ := h
  have hsound : Sound serde client.1 client.2 c :=
    hp.invariant (fun _ _ _ hs _ hstep => sound_step hs hstep) sound_start
  intro hout
  have hphase : c.phase = .panicked := by
    simp only [Connection.handler] at hout
    split at hout
    · cases hout
    · split at hout <;> cases hout
    · cases hout
    · assumption
  exact hsound.inRange hphase

namespace Listener

/-- The machine of the pipe server. -/
abbrev server (serde : Serde) (maxConnections : Nat) :
    StepMachine (Listener Connection) (Event (Inbound × Outbound) Connection.Event) :=
  machine (Connection.handler serde) maxConnections

variable {serde : Serde} {n : Nat} {s : Listener Connection}
  {C : Listener Connection → Event (Inbound × Outbound) Connection.Event → Prop}

theorem not_panicked (h : (server serde n).Reach C s) : ∀ t ∈ s.tasks, t.pc ≠ .panicked := by
  intro t ht hpc
  have hserves := serves_reachable h t ht
  rw [hpc] at hserves
  obtain ⟨c, hc, hout⟩ := hserves
  exact Connection.handler_safe hc hout

/-! ## A client that hangs up -/

/-- A client that connects and goes away at once. -/
def silentClient : Inbound × Outbound := (⟨⟨[]⟩, none⟩, Connection.sampleOutput)

theorem greet_silent (serde : Serde) : ∃ c e,
    (Connection.start silentClient.1 silentClient.2).step serde .greet = some c ∧
      c.phase = .returned (.error e) := by
  obtain ⟨input', hread, -, -⟩ := silentClient.1.readFrameStatic_spec
  have hnext : (nextFrame silentClient.1.endError silentClient.1.bytes).1 =
      .error (.io silentClient.1.endError) := rfl
  rw [hnext] at hread
  refine ⟨_, .io silentClient.1.endError, rfl, ?_⟩
  show (Connection.greet serde silentClient.2 silentClient.1.readFrameStatic.1).1 = _
  rw [hread]
  rfl

/-- The events of a task whose client hangs up. -/
def hangupEvents (i : Nat) : List (Event (Inbound × Outbound) Connection.Event) :=
  [.task i (.connected silentClient), .task i (.client .greet), .task i .handled,
    .task i .disconnect, .task i .close, .task i .dropPermit]

/-- The server with its task `i` at another position. -/
def moved (s : Listener Connection) (i : Nat) (handle : HANDLE) (pc : ClientPc Connection)
    (permits : Nat) (instances : List HANDLE) : Listener Connection :=
  { s with permits := permits, tasks := s.tasks.set i ⟨handle, pc⟩, instances := instances }

theorem step_moved {i : Nat} {handle : HANDLE} (hlt : i < s.tasks.length)
    {pc pc' : ClientPc Connection} {permits permits' : Nat} {instances instances' : List HANDLE}
    {e : ClientEvent (Inbound × Outbound) Connection.Event}
    (h : (s.moved i handle pc permits instances).stepTask (Connection.handler serde)
      ⟨handle, pc⟩ e = some (s.moved i handle pc permits' instances', pc')) :
    (server serde n).step (s.moved i handle pc permits instances) (.task i e) =
      some (s.moved i handle pc' permits' instances') := by
  show (((s.tasks.set i ⟨handle, pc⟩)[i]?).bind fun t => _) = _
  rw [List.getElem?_set_self hlt, Option.bind_some, h]
  simp [moved]

/-- A task that waits for its client gets to its end when the client hangs up: the instance
is closed, and the permit is back. -/
theorem hangup_path {i : Nat} {handle : HANDLE}
    (ht : s.tasks[i]? = some ⟨handle, .connecting⟩) :
    (server serde n).Path StepMachine.Any s (hangupEvents i)
      (s.moved i handle .finished (s.permits + 1) (s.instances.erase handle)) := by
  obtain ⟨c, e, hgreet, hphase⟩ := greet_silent serde
  obtain ⟨hlt, hget⟩ := List.getElem?_eq_some_iff.mp ht
  have hout : (Connection.handler serde).outcome c = some .returned := by
    simp only [Connection.handler, hphase]
  have hsame : s.moved i handle .connecting s.permits s.instances = s := by
    rw [moved, ← hget, List.set_getElem_self]
  have hclient : (s.moved i handle (.handling (Connection.start silentClient.1 silentClient.2))
      s.permits s.instances).stepTask (Connection.handler serde)
        ⟨handle, .handling (Connection.start silentClient.1 silentClient.2)⟩ (.client .greet) =
      some (s.moved i handle (.handling (Connection.start silentClient.1 silentClient.2))
        s.permits s.instances, .handling c) := by
    have hstep : (Connection.handler serde).step
        (Connection.start silentClient.1 silentClient.2) .greet = some c := hgreet
    simp only [stepTask, hstep, Option.map_some]
  have hhandled : (s.moved i handle (.handling c) s.permits s.instances).stepTask
      (Connection.handler serde) ⟨handle, .handling c⟩ .handled =
      some (s.moved i handle (.handling c) s.permits s.instances, .disconnecting) := by
    simp only [stepTask, hout]
  have hpath : (server serde n).Path StepMachine.Any
      (s.moved i handle .connecting s.permits s.instances) (hangupEvents i)
      (s.moved i handle .finished (s.permits + 1) (s.instances.erase handle)) := by
    refine .cons trivial (step_moved hlt rfl) ?_
    refine .cons trivial (step_moved hlt hclient) ?_
    refine .cons trivial (step_moved hlt hhandled) ?_
    refine .cons trivial (step_moved hlt rfl) ?_
    refine .cons trivial (step_moved hlt rfl) ?_
    exact .cons trivial (step_moved hlt rfl) (.nil _)
  rw [hsame] at hpath
  exact hpath

/-! ## What the tasks do to their instances -/

section owns

variable {ι κ ε : Type} {H : Handler ι κ ε} {n : Nat} {s : Listener κ}
  {C : Listener κ → Event ι ε → Prop}

/-- A task has its instance for itself.  In every state that the server reaches, with any
clients and whatever values Windows gives out again: while a task waits for its client,
handles it, disconnects or closes, its handle is that of an open instance, and neither the
loop nor any other task has the same one. -/
theorem owns_instance (h : (machine H n).Reach C s) {i : Nat} {t : ClientTask κ}
    (ht : s.tasks[i]? = some t) (huses : t.pc.usesInstance = true) :
    t.handle ∈ s.instances ∧ s.listen.instance? ≠ some t.handle ∧
      ∀ j t', s.tasks[j]? = some t' → t'.instance? = some t.handle → j = i := by
  obtain ⟨hnodup, hperm⟩ := accounted_reachable h
  have hhas := ClientTask.instance?_of_uses huses
  have howned : t.handle ∈ s.tasks.filterMap ClientTask.instance? :=
    List.mem_filterMap.mpr ⟨t, List.mem_of_getElem? ht, hhas⟩
  obtain ⟨-, htasks, hapart⟩ := List.nodup_append.mp (hperm.nodup hnodup)
  refine ⟨hperm.mem_iff.mpr (List.mem_append_right _ howned), ?_, ?_⟩
  · intro hlisten
    rw [hlisten] at hapart
    exact hapart t.handle (List.mem_singleton_self _) t.handle howned rfl
  · intro j t' ht' hhas'
    exact eq_of_nodup_filterMap htasks ht' ht hhas' hhas

end owns

/-- The client of the first instance hangs up, and Windows gives out the handle again. -/
theorem owns_instance_reused :
    ∃ s, (server Session.sampleSerde 2).Reachable s ∧ s.instances = [8, 4] ∧
      (∃ t, s.tasks[0]? = some t ∧ t.handle = 4 ∧ t.instance? = none) ∧
      ∃ t, s.tasks[1]? = some t ∧ t.handle = 4 ∧ t.pc.usesInstance = true ∧
        t.handle ∈ s.instances ∧ s.listen.instance? ≠ some t.handle ∧
        ∀ j t', s.tasks[j]? = some t' → t'.instance? = some t.handle → j = 1 := by
  have hfirst : (server Session.sampleSerde 2).Reachable ⟨1, .creating, [⟨4, .connecting⟩], [4]⟩ :=
    ⟨_, [.poll, .created 4, .acquired, .spawned, .task 0 .run], rfl,
      StepMachine.path_of_run rfl⟩
  have hagain : (server Session.sampleSerde 2).Path StepMachine.Any
      ⟨2, .creating, [⟨4, .finished⟩], []⟩
      [.created 4, .acquired, .spawned, .task 1 .run, .created 8]
      ⟨1, .acquiring 8, [⟨4, .finished⟩, ⟨4, .connecting⟩], [8, 4]⟩ :=
    StepMachine.path_of_run rfl
  have hsecond : (server Session.sampleSerde 2).Reachable
      ⟨1, .acquiring 8, [⟨4, .finished⟩, ⟨4, .connecting⟩], [8, 4]⟩ :=
    (hfirst.path (hangup_path (i := 0) rfl)).path hagain
  exact ⟨_, hsecond, rfl, ⟨_, rfl, rfl, rfl⟩, _, rfl, rfl, rfl,
    owns_instance hsecond (i := 1) rfl rfl⟩

/-! ## How many there are -/

section bounded

variable {ι κ ε : Type} {H : Handler ι κ ε} {n : Nat} {s : Listener κ}
  {C : Listener κ → Event ι ε → Prop}

/-- How many clients and instances there are.  No more clients are handled at a time than
there are permits.  Besides those that were dropped, there is at most one instance more than
permits, and the loop only waits for a permit while as many tasks are out. -/
theorem instances_bounded (h : (machine H n).Reach C s) :
    s.tasks.countP (fun t => t.pc.usesInstance) ≤ n ∧
      s.instances.length ≤ n + 1 + s.tasks.countP (fun t => t.pc.dropped) ∧
      (∀ handle, s.listen = .acquiring handle → s.step H .acquired = none →
        s.tasks.countP (fun t => t.pc.hasPermit) = n) := by
  have hrationed : s.permits + s.listen.permits + s.tasks.countP (fun t => t.pc.hasPermit) = n :=
    rationed_reachable h
  refine ⟨?_, ?_, ?_⟩
  · have huses : s.tasks.countP (fun t => t.pc.usesInstance) ≤
        s.tasks.countP (fun t => t.pc.hasPermit) := by
      refine List.countP_mono_left fun t _ ht => ?_
      cases hpc : t.pc <;> simp [hpc, ClientPc.usesInstance, ClientPc.hasPermit] at ht ⊢
    omega
  · have hlen : s.instances.length = s.listen.instance?.toList.length +
        s.tasks.countP (fun t => t.instance?.isSome) := by
      rw [(accounted_reachable h).perm.length_eq, owned, List.length_append,
        List.length_filterMap_eq_countP]
    have hloop : s.listen.instance?.toList.length ≤ 1 := by
      cases s.listen.instance? <;> simp
    have hsplit : s.tasks.countP (fun t => t.instance?.isSome) ≤
        s.tasks.countP (fun t => t.pc.hasPermit) + s.tasks.countP (fun t => t.pc.dropped) := by
      refine countP_le_add fun t _ ht => ClientPc.permit_or_dropped ?_
      unfold ClientTask.instance? at ht
      split at ht
      · assumption
      · cases ht
    omega
  · intro handle hpc hnone
    have hzero : s.permits = 0 := by
      by_contra hpos
      simp [Listener.step, hpc, Nat.pos_of_ne_zero hpos] at hnone
    rw [hpc, hzero] at hrationed
    simpa [ListenPc.permits] using hrationed

end bounded

/-- One client is handled, and the loop waits with the next instance. -/
theorem instances_bounded_full :
    ∃ s, (server Session.sampleSerde 1).Reachable s ∧ s.instances.length = 2 ∧
      s.listen = .acquiring 8 ∧ s.tasks.countP (fun t => t.pc.usesInstance) ≤ 1 ∧
      s.tasks.countP (fun t => t.pc.hasPermit) = 1 := by
  have hreach : (server Session.sampleSerde 1).Reachable
      ⟨0, .acquiring 8, [⟨4, .connecting⟩], [8, 4]⟩ :=
    ⟨_, [.poll, .created 4, .acquired, .spawned, .task 0 .run, .created 8], rfl,
      StepMachine.path_of_run rfl⟩
  obtain ⟨hclients, -, hwaits⟩ := instances_bounded hreach
  exact ⟨_, hreach, rfl, rfl, hclients, hwaits 8 rfl rfl⟩

/-- The loop is at its end, and so are all tasks. -/
def isOver (s : Listener Connection) : Bool :=
  s.listen.ended && s.tasks.all fun t => !t.pc.hasPermit

/-- What is left when everything is over.  All permits are back, and the instances that are
still open are the one that the loop had when it was dropped, and those of the tasks that
were dropped before they began. -/
theorem instances_when_over (h : (server serde n).Reach C s) (hover : s.isOver = true) :
    s.permits = n ∧ s.instances.Perm (s.listen.instance?.toList ++
      (s.tasks.filter fun t => t.pc.isDiscarded).map ClientTask.handle) := by
  simp only [isOver, Bool.and_eq_true, List.all_eq_true, Bool.not_eq_true'] at hover
  obtain ⟨hended, htasks⟩ := hover
  have hrationed : s.permits + s.listen.permits + s.tasks.countP (fun t => t.pc.hasPermit) = n :=
    rationed_reachable h
  refine ⟨?_, ?_⟩
  · have hloop : s.listen.permits = 0 := by
      cases hpc : s.listen <;> simp [hpc, ListenPc.ended, ListenPc.permits] at hended ⊢
    have hnone : s.tasks.countP (fun t => t.pc.hasPermit) = 0 := by
      rw [List.countP_eq_zero]
      intro t ht
      rw [htasks t ht]
      exact Bool.false_ne_true
    omega
  · have hdiscarded : s.tasks.filterMap ClientTask.instance? =
        (s.tasks.filter fun t => t.pc.isDiscarded).map ClientTask.handle := by
      have hwhere : ∀ t ∈ s.tasks, t.instance? =
          if t.pc.isDiscarded then some t.handle else none := by
        intro t ht
        have hpermit := htasks t ht
        have hsafe := not_panicked h t ht
        cases hpc : t.pc <;>
          simp [ClientTask.instance?, hpc, ClientPc.hasInstance, ClientPc.hasPermit,
            ClientPc.isDiscarded] at hpermit hsafe ⊢
      rw [List.filterMap_congr hwhere, ← List.filterMap_eq_map, List.filterMap_filter]
      rfl
    have hperm := (accounted_reachable h).perm
    rw [owned, hdiscarded] at hperm
    exact hperm

/-- The loop is dropped with an instance, one task before it begins, and one comes to its
end. -/
theorem instances_when_over_dropped :
    ∃ s, (server Session.sampleSerde 2).Reachable s ∧ s.isOver = true ∧ s.permits = 2 ∧
      s.instances.Perm [12, 8] := by
  have hfirst : (server Session.sampleSerde 2).Reachable
      ⟨0, .creating, [⟨4, .connecting⟩, ⟨8, .queued⟩], [8, 4]⟩ :=
    ⟨_, [.poll, .created 4, .acquired, .spawned, .task 0 .run, .created 8, .acquired, .spawned],
      rfl, StepMachine.path_of_run rfl⟩
  have hrest : (server Session.sampleSerde 2).Path StepMachine.Any
      ⟨1, .creating, [⟨4, .finished⟩, ⟨8, .queued⟩], [8]⟩
      [.created 12, .abort, .task 1 .discard]
      ⟨2, .aborted (some 12), [⟨4, .finished⟩, ⟨8, .discarded⟩], [12, 8]⟩ :=
    StepMachine.path_of_run rfl
  have hlast := (hfirst.path (hangup_path (i := 0) rfl)).path hrest
  obtain ⟨hpermits, hperm⟩ := instances_when_over hlast rfl
  exact ⟨_, hlast, rfl, hpermits, hperm⟩

end Listener

end RemoteAgent
