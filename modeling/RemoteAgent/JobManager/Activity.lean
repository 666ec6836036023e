import RemoteAgent.Job.Tasks
import RemoteAgent.JobManager.Expiry

/-!
# Output is no activity

`cleanup_idle_jobs` takes a job that has not finished for idle when nothing was written to
its `last_activity` for long enough.  State transitions and client frames write to it.
The output pumps and the writer task, which are at work when a job produces output, do
not.

* `Service` is the manager with the output side of its jobs: the pumps with their
  windows, the frames on the channels, and the writers.  All of them share a clock that
  does not go back.  `outputs` are the times at which an OUTPUT frame of a job was
  enqueued or written, and `producing` what each call of `cleanup_idle_jobs` had of
  them when it read the clock.
* `Touched` is what a step does to the times of last activity: they only grow.
* `IdlePc.Clear` is the invariant of one call and one job with recent activity, that was
  registered when the call began.  `Clear.step` is its step lemma for the call itself,
  `Clear.mono` the one for everyone else.
* `spares_producing`: no call removes a job that is producing output, in every run in
  which a job that is producing output has recent activity when a call reads the clock.
  `long_job_removed` is a run without that.
-/

namespace RemoteAgent.JobManager

open CodeLib Protocol IoPump

/-! ## Times of last activity -/

namespace Shared

/-- Handles stay, and a time of last activity stays or is the current time. -/
structure Touched (now : SystemTime) (s s' : Shared) : Prop where
  length : s.handles.length ≤ s'.handles.length
  activity : ∀ (h : JobRef) (a' : JobHandle), s'.handles[h]? = some a' →
    a'.lastActivity = now ∨
      ∃ a : JobHandle, s.handles[h]? = some a ∧ a'.lastActivity = a.lastActivity

theorem Touched.of_handles {now : SystemTime} {s s' : Shared}
    (h : s'.handles = s.handles) : s.Touched now s' := by
  refine ⟨by rw [h], fun r a ha => ?_⟩
  rw [h] at ha
  exact Or.inr ⟨a, ha, rfl⟩

theorem touched_modify {now : SystemTime} (s : Shared) (r : JobRef)
    {f : JobHandle → JobHandle}
    (hf : ∀ a, (f a).lastActivity = now ∨ (f a).lastActivity = a.lastActivity) :
    s.Touched now (s.modify r f) := by
  refine ⟨by simp [modify], fun h a' ha' => ?_⟩
  rw [modify_handles] at ha'
  split at ha'
  · obtain ⟨a, ha, rfl⟩ := Option.map_eq_some_iff.mp ha'
    exact (hf a).imp_right fun hsame => ⟨a, ha, hsame⟩
  · exact Or.inr ⟨a', ha', rfl⟩

end Shared

theorem Shared.touched_act (s : Shared) (now : SystemTime) (a : Action) :
    s.Touched now (s.act now a) := by
  cases a with
  | touch h => exact s.touched_modify h fun _ => Or.inl rfl
  | cancel h => exact s.touched_modify h fun _ => Or.inr rfl
  | complete h t => exact s.touched_modify h fun _ => Or.inr rfl
  | enter h new => exact s.touched_modify h fun _ => Or.inr rfl
  | stay | remove id | draw | created t => exact .of_handles rfl
  | insert id timeout =>
    -- the new handle comes last, and its time is that of the step
    refine ⟨by simp [act], fun h b hb => ?_⟩
    rcases getElem?_concat_cases hb with hold | ⟨-, rfl⟩
    · exact Or.inr ⟨b, hold, rfl⟩
    · exact Or.inl rfl

/-! ## A job with recent activity during a call -/

namespace IdlePc

/-- The clock value that the tests of the call use. -/
def now? : IdlePc → Option SystemTime
  | .scan now _ _ _ | .scanEntry now _ _ _ | .scanLocked now _ _ _ | .visit now _ _
  | .visitEntry now _ _ _ _ | .visitState now _ _ _ _ | .visitCompleted now _ _ _ _ =>
    some now
  | _ => none

/-- The entries of the shard that the call goes through. -/
def walks : IdlePc → List (UInt32 × JobRef)
  | .scan _ _ it _ | .scanEntry _ _ it _ | .scanLocked _ _ it _ | .visit _ it _ => it.entries
  | .visitEntry _ it _ id h | .visitState _ it _ id h | .visitCompleted _ it _ id h =>
    (id, h) :: it.entries
  | _ => []

/-- The scan has locked the shard of the id. -/
def scanned (shards : Sharding) (id : UInt32) : IdlePc → Bool
  | .scan _ _ it _ | .scanEntry _ _ it _ | .scanLocked _ _ it _ => shards.of id < it.next
  | _ => false

/-- The call is going to remove what is registered under the id. -/
def takes (id : UInt32) : IdlePc → Bool
  | .visit _ _ toRemove | .visitEntry _ _ toRemove _ _ | .visitState _ _ toRemove _ _
  | .visitCompleted _ _ toRemove _ _ => id ∈ toRemove
  | .sweep (.collect _ _) => true
  | .sweep pc => id ∈ pc.listed
  | _ => false

/-- Where the call stands with regard to a job that is registered under the id: the job
has finished, or it has recent activity, and the call sees both as they are. -/
structure Clear (s : Shared) (idle : Duration) (id : UInt32) (h : JobRef)
    (pc : IdlePc) : Prop where
  active : ∀ now, pc.now? = some now → s.finished h = true ∨
    ∃ a : JobHandle, s.handles[h]? = some a ∧ now < a.lastActivity + idle
  walks : ∀ r, (id, r) ∈ pc.walks → r = h
  scanned : pc.scanned s.shards id = true → pc.ahead id h ∨ s.finished h = true
  takes : pc.takes id = true → s.finished h = true

theorem clear_begin (s : Shared) (idle : Duration) (id : UInt32) (h : JobRef) :
    Clear s idle id h .begin := by
  refine ⟨fun now hnow => ?_, fun r hr => ?_, fun hs => ?_, fun ht => ?_⟩
  · cases hnow
  · cases hr
  · cases hs
  · cases ht

/-- A step of someone else. -/
theorem Clear.mono {s s' : Shared} {idle : Duration} {id : UInt32} {h : JobRef}
    {pc : IdlePc} (hc : Clear s idle id h pc) (hshards : s'.shards = s.shards)
    (hfin : s.finished h = true → s'.finished h = true)
    (hactive : ∀ a : JobHandle, s.handles[h]? = some a →
      ∃ a' : JobHandle, s'.handles[h]? = some a' ∧ a.lastActivity ≤ a'.lastActivity) :
    Clear s' idle id h pc := by
  refine ⟨fun now hnow => ?_, hc.walks, fun hs => ?_, fun ht => hfin (hc.takes ht)⟩
  · rcases hc.active now hnow with hdone | ⟨a, ha, hlt⟩
    · exact Or.inl (hfin hdone)
    · obtain ⟨a', ha', hle⟩ := hactive a ha
      exact Or.inr ⟨a', ha', Nat.lt_of_lt_of_le hlt (Nat.add_le_add_right hle idle)⟩
  · rw [hshards] at hs
    exact (hc.scanned hs).imp_right hfin

section steps

variable {held : Held} {time now last : SystemTime} {idle quiet : Duration} {s s' : Shared}
  {id : UInt32} {h : JobRef} {pc' : IdlePc}

/-- What is read from the shard of a registered job. -/
theorem walks_shardEntries (hget : s.getJob id = some h) {k : Nat} {r : JobRef}
    (hr : (id, r) ∈ s.shardEntries k) : r = h := by
  have hr' := (mem_shardEntries.mp hr).1
  exact Option.some.inj (hr'.symm.trans hget)

theorem clear_scan {it : Iter} {hasJobs : Bool} (hget : s.getJob id = some h)
    (hc : Clear s idle id h (.scan now last it hasJobs))
    (hstep : (IdlePc.scan now last it hasJobs).step held time idle quiet s =
      some (s', pc')) : s' = s ∧ Clear s idle id h pc' := by
  simp only [IdlePc.step] at hstep
  cases hentries : it.entries with
  | cons e rest =>
    obtain ⟨id₀, h₀⟩ := e
    simp only [Iter.advance, hentries] at hstep
    cases hstep
    refine ⟨rfl, hc.active, fun r hr => ?_, fun hs => ?_, fun ht => by cases ht⟩
    · refine hc.walks r ?_
      show (id, r) ∈ it.entries
      rw [hentries]
      exact List.mem_cons_of_mem _ hr
    · rcases hc.scanned hs with hahead | hfin
      · simp only [IdlePc.ahead, hentries, List.mem_cons, Prod.mk.injEq] at hahead ⊢
        tauto
      · exact Or.inr hfin
  | nil =>
    -- a shard whose entries are used up has been looked at
    have hpast : s.shards.of id < it.next → s.finished h = true := by
      intro hlt
      rcases hc.scanned (by simpa [IdlePc.scanned] using hlt) with hahead | hfin
      · simp [IdlePc.ahead, hentries] at hahead
      · exact hfin
    simp only [Iter.advance, hentries] at hstep
    by_cases hmore : it.next < s.shards.count
    · simp only [hmore, if_true] at hstep
      cases hstep
      refine ⟨rfl, hc.active, fun r hr => walks_shardEntries hget hr, fun hs => ?_,
        fun ht => by cases ht⟩
      have hle : s.shards.of id < it.next + 1 := by simpa [IdlePc.scanned] using hs
      by_cases hk : s.shards.of id = it.next
      · exact Or.inl (mem_shardEntries.mpr ⟨hget, hk⟩)
      · exact Or.inr (hpast (by omega))
    · simp only [hmore, if_false] at hstep
      have hfin : s.finished h = true := by
        have hlt := s.shards.of_lt id
        exact hpast (by omega)
      split at hstep
      · cases hstep
        exact ⟨rfl, fun _ hnow => (by cases hnow), fun _ hr => (by cases hr),
          fun hs => (by cases hs), fun _ => hfin⟩
      · cases hstep
        exact ⟨rfl, hc.active, fun _ hr => (by cases hr), fun hs => (by cases hs),
          fun _ => hfin⟩

theorem clear_scanLocked {it : Iter} {r : JobRef}
    (hc : Clear s idle id h (.scanLocked now last it r))
    (hstep : (IdlePc.scanLocked now last it r).step held time idle quiet s =
      some (s', pc')) : s' = s ∧ Clear s idle id h pc' := by
  simp only [IdlePc.step] at hstep
  split at hstep
  · cases hstep
  · rename_i a ha
    split at hstep
    · rename_i hterm
      cases hstep
      refine ⟨rfl, hc.active, hc.walks, fun hs => ?_, fun ht => by cases ht⟩
      rcases hc.scanned hs with (hmem | rfl) | hfin
      · exact Or.inl hmem
      · exact Or.inr (by simp [Shared.finished, ha, hterm])
      · exact Or.inr hfin
    · cases hstep
      exact ⟨rfl, hc.active, fun _ hr => (by cases hr), fun hs => (by cases hs),
        fun ht => (by cases ht)⟩

theorem clear_visit {it : Iter} {toRemove : List UInt32} (hget : s.getJob id = some h)
    (hc : Clear s idle id h (.visit now it toRemove))
    (hstep : (IdlePc.visit now it toRemove).step held time idle quiet s =
      some (s', pc')) : s' = s ∧ Clear s idle id h pc' := by
  simp only [IdlePc.step] at hstep
  cases hentries : it.entries with
  | cons e rest =>
    obtain ⟨id₀, h₀⟩ := e
    simp only [Iter.advance, hentries] at hstep
    cases hstep
    refine ⟨rfl, hc.active, fun r hr => hc.walks r ?_, fun hs => (by cases hs), hc.takes⟩
    show (id, r) ∈ it.entries
    rw [hentries]
    exact hr
  | nil =>
    simp only [Iter.advance, hentries] at hstep
    by_cases hmore : it.next < s.shards.count
    · simp only [hmore, if_true] at hstep
      cases hstep
      exact ⟨rfl, hc.active, fun r hr => walks_shardEntries hget hr, fun hs => (by cases hs),
        hc.takes⟩
    · simp only [hmore, if_false] at hstep
      cases hstep
      exact ⟨rfl, fun _ hnow => (by cases hnow), fun _ hr => (by cases hr),
        fun hs => (by cases hs), hc.takes⟩

/-- The test of the idle branch does not choose a job with recent activity. -/
theorem clear_visitCompleted {it : Iter} {toRemove : List UInt32} {id₀ : UInt32}
    {r : JobRef} (hc : Clear s idle id h (.visitCompleted now it toRemove id₀ r))
    (hstep : (IdlePc.visitCompleted now it toRemove id₀ r).step held time idle quiet s =
      some (s', pc')) : s' = s ∧ Clear s idle id h pc' := by
  simp only [IdlePc.step] at hstep
  split at hstep
  · cases hstep
  · rename_i a ha
    cases hstep
    refine ⟨rfl, hc.active, fun x hx => hc.walks x (List.mem_cons_of_mem _ hx),
      fun hs => (by cases hs), fun ht => ?_⟩
    have hmem : id ∈ if a.shouldCleanup now idle then toRemove ++ [id₀] else toRemove := by
      simpa [IdlePc.takes] using ht
    split at hmem
    · rename_i hidle
      rcases List.mem_append.mp hmem with hold | hnew
      · exact hc.takes (by simpa [IdlePc.takes] using hold)
      · obtain rfl := List.mem_singleton.mp hnew
        obtain rfl : r = h := hc.walks r List.mem_cons_self
        rcases hc.active now rfl with hfin | ⟨b, hb, hlt⟩
        · exact hfin
        · obtain rfl : a = b := Option.some.inj (ha.symm.trans hb)
          rcases (JobHandle.shouldCleanup_iff a now idle).mp hidle with ⟨hterm, -⟩ |
            ⟨-, hle, hold⟩
          · simp [Shared.finished, ha, hterm]
          · have hsum := (Nat.le_sub_iff_add_le hle).mp hold
            rw [Nat.add_comm] at hsum
            exact absurd hlt (Nat.not_lt.mpr hsum)
    · exact hc.takes (by simpa [IdlePc.takes] using hmem)

/-- A step of the sweep lists no id that was not listed before, unless it is the end of
the collection. -/
theorem listed_step {pc q : SweepPc} (hpc : ∀ it keys, pc ≠ .collect it keys)
    (hstep : pc.step held s = some (s', q)) :
    (∀ it keys, q ≠ .collect it keys) ∧
      ∀ id, id ∈ q.listed → id ∈ pc.listed := by
  cases pc with
  | collect it keys => exact absurd rfl (hpc it keys)
  | next todo cleaned =>
    cases todo with
    | nil => cases hstep
    | cons id₀ todo =>
      cases hstep
      exact ⟨by simp, fun id hid => hid⟩
  | cleanup id₀ pc todo cleaned =>
    cases pc with
    | ret r =>
      cases r <;> cases hstep <;> exact ⟨by simp, fun id hid => hid⟩
    | _ =>
      simp only [SweepPc.step, Option.map_eq_some_iff, Prod.mk.injEq] at hstep
      obtain ⟨⟨s₁, pc₁⟩, -, -, rfl⟩ := hstep
      refine ⟨by simp, fun id hid => ?_⟩
      cases pc₁ with
      | ret r => exact List.mem_cons_of_mem _ hid
      | _ => exact hid

/-- The sweep removes what it has taken. -/
theorem clear_sweep {pc : SweepPc} (hc : Clear s idle id h (.sweep pc))
    (hstep : (IdlePc.sweep pc).step held time idle quiet s = some (s', pc'))
    (hfin : s.finished h = true → s'.finished h = true) : Clear s' idle id h pc' := by
  rcases step_of_sweep hstep with ⟨n, rfl, rfl, rfl⟩ | ⟨q, hs, rfl⟩
  · exact ⟨fun _ hnow => (by cases hnow), fun _ hr => (by cases hr),
      fun hs => (by cases hs), fun ht => (by cases ht)⟩
  · refine ⟨fun _ hnow => (by cases hnow), fun _ hr => (by cases hr),
      fun hs => (by cases hs), fun ht => hfin (hc.takes ?_)⟩
    cases pc with
    | collect it keys => rfl
    | _ =>
      obtain ⟨hq, hlisted⟩ := listed_step (by simp) hs
      cases q with
      | collect it keys => exact absurd rfl (hq it keys)
      | _ =>
        simp only [IdlePc.takes, decide_eq_true_eq] at ht ⊢
        exact hlisted id ht

/-- A step of the call.  At its beginning the job has to be finished or to have recent
activity. -/
theorem Clear.step {pc : IdlePc} (hc : Clear s idle id h pc) (hget : s.getJob id = some h)
    (hstep : pc.step held time idle quiet s = some (s', pc'))
    (hfin : s.finished h = true → s'.finished h = true)
    (hbegin : pc = .begin → s.finished h = true ∨
      ∃ a : JobHandle, s.handles[h]? = some a ∧ time < a.lastActivity + idle) :
    Clear s' idle id h pc' := by
  cases pc with
  | begin =>
    cases hstep
    refine ⟨fun now hnow => ?_, fun _ hr => (by cases hr), fun hs => ?_,
      fun ht => (by cases ht)⟩
    · cases hnow
      exact hbegin rfl
    · simp [IdlePc.scanned, Iter.start] at hs
  | scan now last it hasJobs =>
    obtain ⟨rfl, hc'⟩ := clear_scan hget hc hstep
    exact hc'
  | scanEntry now last it r =>
    simp only [IdlePc.step] at hstep
    split at hstep <;> cases hstep
    exact ⟨hc.active, hc.walks, hc.scanned, hc.takes⟩
  | scanLocked now last it r =>
    obtain ⟨rfl, hc'⟩ := clear_scanLocked hc hstep
    exact hc'
  | visit now it toRemove =>
    obtain ⟨rfl, hc'⟩ := clear_visit hget hc hstep
    exact hc'
  | visitEntry now it toRemove id₀ r =>
    simp only [IdlePc.step] at hstep
    split at hstep <;> cases hstep
    exact ⟨hc.active, hc.walks, hc.scanned, hc.takes⟩
  | visitState now it toRemove id₀ r =>
    cases hstep
    exact ⟨hc.active, hc.walks, hc.scanned, hc.takes⟩
  | visitCompleted now it toRemove id₀ r =>
    obtain ⟨rfl, hc'⟩ := clear_visitCompleted hc hstep
    exact hc'
  | sweep pc => exact clear_sweep hc hstep hfin
  | ret n => cases hstep

end steps

end IdlePc

/-! ## The service -/

/-- The call of `cleanup_idle_jobs` is about to read the clock. -/
def Call.readsClock? : Call → Option Duration
  | .cleanupIdleJobs idle _ .begin => some idle
  | _ => none

/-- The output side of a job: the window that its two pumps share, and the pumps. -/
structure Output where
  window : StreamPump
  pump : Job.Out → Pump

/-- The output side that `handle_run` makes for a job. -/
def Output.new : Output := ⟨StreamPump.new 65536 false, fun _ => Pump.fresh⟩

/-- The manager and the output of its jobs.  `channel` are the OUTPUT frames that were
enqueued and not written yet.  Nothing in the service calls `update_window`, so the pumps
are the only ones who touch a window. -/
structure Service where
  manager : Manager
  clock : SystemTime
  output : JobRef → Output
  channel : List (JobRef × Frame)
  outputs : List (JobRef × SystemTime)
  producing : Nat → List JobRef

namespace Service

/-- A step of the manager, the spawn of a pump, a step of a pump, or a frame that a
writer writes to its client.  The writers of all sessions are one here: it may take any
frame. -/
inductive Event where
  | manager (l : Manager.Label)
  | spawnPump (h : JobRef) (o : Job.Out)
  | pump (h : JobRef) (o : Job.Out) (e : PumpEvent) (now : SystemTime)
  | write (k : Nat) (now : SystemTime)

/-- The jobs with an OUTPUT frame that was enqueued or written less than `idle` ago. -/
def recent (s : Service) (now : SystemTime) (idle : Duration) : List JobRef :=
  (s.outputs.filter fun x => now < x.2 + idle).map Prod.fst

/-- What `cleanup_idle_jobs` has before it when it reads the clock. -/
def producingAfter (s : Service) (i : Nat) (now : SystemTime) : Nat → List JobRef :=
  match (s.manager.calls[i]?).bind Call.readsClock? with
  | some idle => Function.update s.producing i (s.recent now idle)
  | none => s.producing

def step (s : Service) : Event → Option Service
  | .manager (.call op) =>
    (s.manager.step (.call op)).map fun m => { s with manager := m }
  | .manager (.step i now) =>
    if s.clock ≤ now then
      (s.manager.step (.step i now)).map fun m =>
        { s with manager := m, clock := now, producing := s.producingAfter i now }
    else none
  | .spawnPump h o =>
    if h < s.manager.shared.handles.length ∧ ((s.output h).pump o).pc = .notSpawned then
      some { s with
        output := Function.update s.output h { s.output h with
          pump := Function.update (s.output h).pump o
            { (s.output h).pump o with pc := .checkToken } } }
    else none
  | .pump h o e now =>
    if s.clock ≤ now then
      (s.manager.shared.handles[h]?).bind fun a =>
        (((s.output h).pump o).step a.jobId o.streamId a.cancellationToken
          (s.output h).window e).map fun (w, p, fs) =>
            { s with
              clock := now
              output := Function.update s.output h
                ⟨w, Function.update (s.output h).pump o p⟩
              channel := s.channel ++ fs.map fun f => (h, f)
              outputs := s.outputs ++ fs.map fun _ => (h, now) }
    else none
  | .write k now =>
    if s.clock ≤ now then
      (s.channel[k]?).map fun x =>
        { s with
          clock := now
          channel := s.channel.eraseIdx k
          outputs := s.outputs ++ [(x.1, now)] }
    else none

/-- A service at its start. -/
def Initial (s : Service) : Prop :=
  Manager.Initial s.manager ∧ s.output = (fun _ => Output.new) ∧ s.channel = [] ∧
    s.outputs = [] ∧ s.producing = fun _ => []

def machine : StepMachine Service Event where
  Init := Initial
  step := step

/-- A job that a call of `cleanup_idle_jobs` is about to remove has finished, if it was
producing output when the call began. -/
def Spares (s : Service) : Prop :=
  ∀ i idle quiet id todo n h, s.manager.calls[i]? =
      some (.cleanupIdleJobs idle quiet (.sweep (.cleanup id .remove todo n))) →
    s.manager.shared.getJob id = some h → h ∈ s.producing i →
    s.manager.shared.finished h = true

/-- The job has finished, or something was written to its `last_activity` less than
`idle` ago. -/
def active (s : Service) (now : SystemTime) (idle : Duration) (h : JobRef) : Bool :=
  (s.manager.shared.handles[h]?).any fun a =>
    a.state.isTerminal || decide (now < a.lastActivity + idle)

/-- When a call of `cleanup_idle_jobs` reads the clock, the registered jobs that are
producing output are active. -/
def recorded (s : Service) : Event → Bool
  | .manager (.step i now) =>
    ((s.manager.calls[i]?).bind Call.readsClock?).all fun idle =>
      (s.recent now idle).all fun h => !s.manager.shared.registers h || s.active now idle h
  | _ => true

/-! ## The invariant -/

structure Inv (s : Service) : Prop where
  manager : Manager.Inv s.manager
  clock : ∀ (h : JobRef) (a : JobHandle), s.manager.shared.handles[h]? = some a →
    a.lastActivity ≤ s.clock
  channel : ∀ x ∈ s.channel, x.1 < s.manager.shared.handles.length
  outputs : ∀ x ∈ s.outputs, x.1 < s.manager.shared.handles.length
  producing : ∀ i, ∀ h ∈ s.producing i, h < s.manager.shared.handles.length
  clear : ∀ i idle quiet pc, s.manager.calls[i]? = some (.cleanupIdleJobs idle quiet pc) →
    ∀ h ∈ s.producing i, ∀ id, s.manager.shared.getJob id = some h →
      pc.Clear s.manager.shared idle id h

theorem inv_initial {s : Service} (h : Initial s) : Inv s := by
  obtain ⟨hm, -, hchannel, houtputs, hproducing⟩ := h
  refine ⟨Manager.inv_initial hm, ?_, ?_, ?_, ?_, ?_⟩
  · intro h a ha
    rw [hm.1] at ha
    cases ha
  · intro x hx
    rw [hchannel] at hx
    cases hx
  · intro x hx
    rw [houtputs] at hx
    cases hx
  · intro i h hh
    rw [hproducing] at hh
    cases hh
  · intro i idle quiet pc _ h hh
    rw [hproducing] at hh
    cases hh

/-- A step that leaves the manager and the calls alone. -/
theorem Inv.of_output {s s' : Service} (hs : Inv s) (hmanager : s'.manager = s.manager)
    (hclock : s.clock ≤ s'.clock) (hproducing : s'.producing = s.producing)
    (hchannel : ∀ x ∈ s'.channel, x.1 < s.manager.shared.handles.length)
    (houtputs : ∀ x ∈ s'.outputs, x.1 < s.manager.shared.handles.length) : Inv s' := by
  refine ⟨?_, ?_, ?_, ?_, ?_, ?_⟩
  · rw [hmanager]
    exact hs.manager
  · intro h a ha
    rw [hmanager] at ha
    exact Nat.le_trans (hs.clock h a ha) hclock
  · rw [hmanager]
    exact hchannel
  · rw [hmanager]
    exact houtputs
  · rw [hmanager, hproducing]
    exact hs.producing
  · rw [hmanager, hproducing]
    exact hs.clear

theorem mem_recent {s : Service} {now : SystemTime} {idle : Duration} {h : JobRef}
    (hh : h ∈ s.recent now idle) : ∃ t, (h, t) ∈ s.outputs := by
  obtain ⟨⟨r, t⟩, hx, rfl⟩ := List.mem_map.mp hh
  exact ⟨t, List.mem_of_mem_filter hx⟩

/-- What a call had before it when it read the clock. -/
theorem mem_producingAfter {s : Service} {i j : Nat} {now : SystemTime} {h : JobRef}
    (hh : h ∈ s.producingAfter i now j) :
    h ∈ s.producing j ∧ (j = i → (s.manager.calls[i]?).bind Call.readsClock? = none) ∨
      j = i ∧ ∃ idle, (s.manager.calls[i]?).bind Call.readsClock? = some idle ∧
        h ∈ s.recent now idle := by
  cases hread : (s.manager.calls[i]?).bind Call.readsClock? with
  | none =>
    simp only [producingAfter, hread] at hh
    exact Or.inl ⟨hh, fun _ => rfl⟩
  | some idle =>
    simp only [producingAfter, hread] at hh
    by_cases hj : j = i
    · subst hj
      rw [Function.update_self] at hh
      exact Or.inr ⟨rfl, idle, rfl, hh⟩
    · rw [Function.update_of_ne hj] at hh
      exact Or.inl ⟨hh, fun heq => absurd heq hj⟩

/-- An older job is registered by no step. -/
theorem getJob_of_older {held : Held} {now : SystemTime} {s s' : Shared} {c c' : Call}
    {id : UInt32} {h : JobRef} (hstep : c.step held now s = some (s', c'))
    (hlt : h < s.handles.length) (hget : s'.getJob id = some h) : s.getJob id = some h := by
  rw [Call.step_act hstep] at hget
  rcases Shared.getJob_act hget with hold | ⟨-, rfl⟩
  · exact hold
  · exact absurd hlt (Nat.lt_irrefl _)

/-- With a clock that does not go back, the time of last activity does not either. -/
theorem activity_mono {now clock : SystemTime} {s s' : Shared} (ht : s.Touched now s')
    (hclock : clock ≤ now)
    (hs : ∀ (h : JobRef) (a : JobHandle), s.handles[h]? = some a → a.lastActivity ≤ clock)
    {h : JobRef} {a : JobHandle} (ha : s.handles[h]? = some a) :
    ∃ a' : JobHandle, s'.handles[h]? = some a' ∧ a.lastActivity ≤ a'.lastActivity := by
  have hlt : h < s'.handles.length :=
    Nat.lt_of_lt_of_le (List.getElem?_eq_some_iff.mp ha).1 ht.length
  refine ⟨s'.handles[h], List.getElem?_eq_getElem hlt, ?_⟩
  rcases ht.activity h _ (List.getElem?_eq_getElem hlt) with hnow | ⟨b, hb, hsame⟩
  · rw [hnow]
    exact Nat.le_trans (hs h a ha) hclock
  · obtain rfl : a = b := Option.some.inj (ha.symm.trans hb)
    exact Nat.le_of_eq hsame.symm

/-- A job that is registered and active is so in the state in which the call begins. -/
theorem active_of_recorded {s : Service} {i : Nat} {now : SystemTime} {idle : Duration}
    {id : UInt32} {h : JobRef} (hrec : s.recorded (.manager (.step i now)) = true)
    (hread : (s.manager.calls[i]?).bind Call.readsClock? = some idle)
    (hh : h ∈ s.recent now idle) (hget : s.manager.shared.getJob id = some h) :
    s.manager.shared.finished h = true ∨
      ∃ a : JobHandle, s.manager.shared.handles[h]? = some a ∧
        now < a.lastActivity + idle := by
  have hregistered : s.manager.shared.registers h = true :=
    Shared.registers_iff.mpr ⟨id, hget⟩
  simp only [recorded, hread, Option.all_some, List.all_eq_true] at hrec
  have hactive : s.active now idle h = true := by simpa [hregistered] using hrec h hh
  obtain ⟨a, ha, hor⟩ := (Option.any_eq_true _ _).mp hactive
  rcases Bool.or_eq_true_iff.mp hor with hterm | hlt
  · exact Or.inl (by simp [Shared.finished, ha, hterm])
  · exact Or.inr ⟨a, ha, of_decide_eq_true hlt⟩

theorem begin_of_readsClock {idle idle' quiet : Duration} {pc : IdlePc}
    (h : (Call.cleanupIdleJobs idle quiet pc).readsClock? = some idle') :
    pc = .begin ∧ idle' = idle := by
  cases pc with
  | begin => exact ⟨rfl, (Option.some.inj h).symm⟩
  | _ => cases h

/-- A step of a call of the manager. -/
theorem Inv.manager_step {s : Service} {m : Manager} {i : Nat} {now : SystemTime}
    (hs : Inv s) (hclock : s.clock ≤ now)
    (hrec : s.recorded (.manager (.step i now)) = true)
    (hstep : s.manager.step (.step i now) = some m) :
    Inv { s with manager := m, clock := now, producing := s.producingAfter i now } := by
  obtain ⟨c, sh, c', hi, hc, rfl⟩ := Manager.step_call_inv hstep
  have htouched : s.manager.shared.Touched now sh := by
    rw [Call.step_act hc]
    exact s.manager.shared.touched_act now c.action
  have hlength := htouched.length
  refine ⟨Manager.inv_step hs.manager hstep, ?_, ?_, ?_, ?_, ?_⟩
  · intro h a ha
    rcases htouched.activity h a ha with hnow | ⟨b, hb, hsame⟩
    · exact Nat.le_of_eq hnow
    · exact hsame ▸ Nat.le_trans (hs.clock h b hb) hclock
  · intro x hx
    exact Nat.lt_of_lt_of_le (hs.channel x hx) hlength
  · intro x hx
    exact Nat.lt_of_lt_of_le (hs.outputs x hx) hlength
  · intro j h hh
    rcases mem_producingAfter hh with ⟨hold, -⟩ | ⟨-, idle, -, hrecent⟩
    · exact Nat.lt_of_lt_of_le (hs.producing j h hold) hlength
    · obtain ⟨t, ht⟩ := mem_recent hrecent
      exact Nat.lt_of_lt_of_le (hs.outputs (h, t) ht) hlength
  · intro j idle quiet pc' hj h hh id hget'
    have holder : h < s.manager.shared.handles.length := by
      rcases mem_producingAfter hh with ⟨hold, -⟩ | ⟨-, _, -, hrecent⟩
      · exact hs.producing j h hold
      · obtain ⟨t, ht⟩ := mem_recent hrecent
        exact hs.outputs (h, t) ht
    have hget := getJob_of_older hc holder hget'
    have hfin : s.manager.shared.finished h = true → sh.finished h = true :=
      fun hf => Manager.finished_step hs.manager hstep hf
    by_cases hji : j = i
    · -- a step of the call itself
      subst hji
      obtain rfl : c' = .cleanupIdleJobs idle quiet pc' := by
        simpa [(List.getElem?_eq_some_iff.mp hi).1] using hj
      cases c <;> simp only [Call.step, Option.map_eq_some_iff, Prod.mk.injEq,
        reduceCtorEq, and_false, exists_false, Call.cleanupIdleJobs.injEq] at hc
      obtain ⟨⟨s₁, pc₁⟩, hpc, rfl, rfl, rfl, rfl⟩ := hc
      rcases mem_producingAfter hh with ⟨hold, hnone⟩ | ⟨-, idle', hread, hrecent⟩
      · refine (hs.clear j _ _ _ hi h hold id hget).step hget hpc hfin ?_
        rintro rfl
        simp [hi, Call.readsClock?] at hnone
      · obtain ⟨rfl, rfl⟩ := begin_of_readsClock (by simpa [hi] using hread)
        exact (IdlePc.clear_begin _ _ _ _).step hget hpc hfin
          fun _ => active_of_recorded hrec hread hrecent hget
    · have hj' : s.manager.calls[j]? = some (.cleanupIdleJobs idle quiet pc') := by
        rwa [List.getElem?_set_ne (Ne.symm hji)] at hj
      rcases mem_producingAfter hh with ⟨hold, -⟩ | ⟨heq, -⟩
      · exact (hs.clear j idle quiet pc' hj' h hold id hget).mono
          (Manager.getJob_of_step hc).1 hfin
          fun a ha => activity_mono htouched hclock hs.clock ha
      · exact absurd heq hji

/-- A call that is made. -/
theorem Inv.manager_call {s : Service} {op : Op} (hs : Inv s) :
    Inv { s with manager := { s.manager with calls := s.manager.calls ++ [op.begin] } } := by
  refine ⟨Manager.inv_step (l := .call op) hs.manager rfl, hs.clock, hs.channel, hs.outputs,
    hs.producing, ?_⟩
  intro i idle quiet pc hi h hh id hget
  rcases getElem?_concat_cases hi with hold | ⟨-, hnew⟩
  · exact hs.clear i idle quiet pc hold h hh id hget
  · obtain rfl := Manager.begin_of_op hnew.symm
    exact IdlePc.clear_begin _ _ _ _

/-- A step of a pump.  Its frames are those of a job that exists. -/
theorem Inv.pump_step {s s' : Service} {h : JobRef} {o : Job.Out} {e : PumpEvent}
    {now : SystemTime} (hs : Inv s) (hstep : s.step (.pump h o e now) = some s') :
    Inv s' := by
  simp only [step] at hstep
  split at hstep
  · rename_i hclock
    simp only [Option.bind_eq_some_iff, Option.map_eq_some_iff] at hstep
    obtain ⟨a, ha, ⟨w, p, fs⟩, -, rfl⟩ := hstep
    have hlt : h < s.manager.shared.handles.length := (List.getElem?_eq_some_iff.mp ha).1
    refine hs.of_output rfl hclock rfl (fun x hx => ?_) (fun x hx => ?_)
    · rcases List.mem_append.mp hx with hold | hnew
      · exact hs.channel x hold
      · obtain ⟨f, -, rfl⟩ := List.mem_map.mp hnew
        exact hlt
    · rcases List.mem_append.mp hx with hold | hnew
      · exact hs.outputs x hold
      · obtain ⟨f, -, rfl⟩ := List.mem_map.mp hnew
        exact hlt
  · cases hstep

/-- A frame that is written. -/
theorem Inv.write_step {s s' : Service} {k : Nat} {now : SystemTime} (hs : Inv s)
    (hstep : s.step (.write k now) = some s') : Inv s' := by
  simp only [step] at hstep
  split at hstep
  · rename_i hclock
    obtain ⟨x, hx, rfl⟩ := Option.map_eq_some_iff.mp hstep
    refine hs.of_output rfl hclock rfl (fun y hy => ?_) (fun y hy => ?_)
    · exact hs.channel y (List.mem_of_mem_eraseIdx hy)
    · rcases List.mem_append.mp hy with hold | hnew
      · exact hs.outputs y hold
      · rw [List.mem_singleton.mp hnew]
        exact hs.channel x (List.mem_of_getElem? hx)
  · cases hstep

theorem inv_step {s s' : Service} {e : Event} (hs : Inv s) (hrec : s.recorded e = true)
    (hstep : s.step e = some s') : Inv s' := by
  cases e with
  | manager l =>
    cases l with
    | call op =>
      cases hstep
      exact hs.manager_call
    | step i now =>
      simp only [step] at hstep
      split at hstep
      · rename_i hclock
        obtain ⟨m, hm, rfl⟩ := Option.map_eq_some_iff.mp hstep
        exact hs.manager_step hclock hrec hm
      · cases hstep
  | spawnPump h o =>
    simp only [step] at hstep
    split at hstep
    · cases hstep
      exact hs.of_output rfl (Nat.le_refl _) rfl hs.channel hs.outputs
    · cases hstep
  | pump h o e now => exact hs.pump_step hstep
  | write k now => exact hs.write_step hstep

/-- A job that produced output less than `idle` before a call is not removed by the call
before it has finished, in every run in which output goes with recorded activity. -/
theorem spares_producing {s : Service}
    (h : machine.Reach (fun s e => s.recorded e = true) s) : s.Spares := by
  have hinv : Inv s := h.invariant (I := Inv) (fun _ => inv_initial)
    fun _ _ _ hs hrec hstep => inv_step hs hrec hstep
  intro i idle quiet id todo n r hcall hget hproducing
  have hclear := hinv.clear i idle quiet _ hcall r hproducing id hget
  apply hclear.takes
  simp [IdlePc.takes, SweepPc.listed]

/-! ## Two runs -/

def fresh : Service where
  manager := Manager.fresh 50
  clock := 0
  output := fun _ => Output.new
  channel := []
  outputs := []
  producing := fun _ => []

theorem fresh_initial : Initial fresh := ⟨Manager.fresh_initial 50, rfl, rfl, rfl, rfl⟩

def minutes (n : Nat) : Duration := n * 60 * 1000000000

/-- Call `i` takes `k` steps. -/
def work (i k : Nat) (now : SystemTime) : List Event :=
  List.replicate k (.manager (.step i now))

/-- A job that runs from time 0 on, with the pump of its standard output. -/
def launch : List Event :=
  .manager (.call (.createJob none)) :: work 0 5 0 ++
    .manager (.call (.transitionState 1 .starting)) :: work 1 6 0 ++
    .manager (.call (.transitionState 1 .running)) :: work 2 6 0 ++ [.spawnPump 0 .stdout]

/-- The pump reads a byte and enqueues a frame with it. -/
def chunk (now : SystemTime) : List Event :=
  [.pump 0 .stdout .step now, .pump 0 .stdout (.readDone (.ok [10])) now,
    .pump 0 .stdout .step now, .pump 0 .stdout .step now, .pump 0 .stdout .step now,
    .pump 0 .stdout .sent now]

/-- Call `i` is about to remove job 1, which produced output before it began. -/
def removes (i : Nat) (s : Service) : Bool :=
  (match (s.manager.calls[i]? : Option Call) with
    | some (.cleanupIdleJobs _ _ (.sweep (.cleanup 1 .remove _ _))) => true
    | _ => false) &&
    (s.manager.shared.getJob 1 == some 0) && decide (0 ∈ s.producing i)

theorem removes_inv {i : Nat} {s : Service} (h : s.removes i = true) :
    ∃ idle quiet todo n, s.manager.calls[i]? =
        some (.cleanupIdleJobs idle quiet (.sweep (.cleanup 1 .remove todo n))) ∧
      s.manager.shared.getJob 1 = some 0 ∧ 0 ∈ s.producing i := by
  simp only [removes, Bool.and_eq_true, beq_iff_eq, decide_eq_true_eq] at h
  obtain ⟨⟨hcall, hget⟩, hproducing⟩ := h
  split at hcall
  · rename_i idle quiet todo n hi
    exact ⟨idle, quiet, todo, n, hi, hget, hproducing⟩
  · cases hcall

/-- A job writes a byte after 30 minutes and completes.  Three minutes later the
collection of a quiet service removes it. -/
theorem spares_producing_completed :
    ∃ s, machine.Reach (fun s e => s.recorded e = true) s ∧ s.removes 5 = true ∧
      s.manager.shared.finished 0 = true := by
  obtain ⟨s, hs, hremoves⟩ := StepMachine.reach_of_runIf machine
    (fun s e => s.recorded e = true) fresh_initial
    (launch ++ chunk (minutes 30) ++
      .manager (.call (.transitionState 1 .exiting)) :: work 3 6 (minutes 30) ++
      .manager (.call (.transitionState 1 .completed)) :: work 4 7 (minutes 30) ++
      .manager (.call (.cleanupIdleJobs (minutes 30) (minutes 2))) ::
        work 5 12 (minutes 33))
    (removes 5) (by decide +kernel)
  obtain ⟨idle, quiet, todo, n, hi, hget, hproducing⟩ := removes_inv hremoves
  exact ⟨s, hs, hremoves, spares_producing hs 5 idle quiet 1 todo n 0 hi hget hproducing⟩

/-- A job that nobody but its pump touches writes a byte after 30 minutes.  The tick one
minute later is about to remove it, running as it is. -/
theorem long_job_removed : ∃ s, machine.Reachable s ∧ ¬ s.Spares := by
  obtain ⟨s, hs, hprop⟩ := StepMachine.reach_of_runIf machine StepMachine.Any fresh_initial
    (launch ++ chunk (minutes 30) ++
      .manager (.call (.cleanupIdleJobs (minutes 30) (minutes 2))) ::
        work 3 14 (minutes 31))
    (fun s => s.removes 3 && !s.manager.shared.finished 0) (by decide +kernel)
  rw [Bool.and_eq_true, Bool.not_eq_true'] at hprop
  obtain ⟨hremoves, hunfinished⟩ := hprop
  obtain ⟨idle, quiet, todo, n, hi, hget, hproducing⟩ := removes_inv hremoves
  refine ⟨s, hs, fun hspares => ?_⟩
  rw [hspares 3 idle quiet 1 todo n 0 hi hget hproducing] at hunfinished
  cases hunfinished

end Service

end RemoteAgent.JobManager
