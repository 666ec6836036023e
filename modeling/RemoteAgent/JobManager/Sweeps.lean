import RemoteAgent.JobManager.Departures

/-!
# What a cleanup leaves behind

`force_cleanup_all` collects the ids of all jobs and then cleans them up one by one, and
`cleanup_idle_jobs` does so with the ids that it chooses.  Both go through the map shard by
shard while other calls create and remove jobs, and they remove by id what they have chosen
by looking at a job.  This module shows that no job slips through that was there when the
call began.

* `SweepPc.coming` are the ids that a sweep is still going to clean up: in front of its
  iterator, or on its list.  `SweepPc.coming_step` says that an id stays in front of the
  sweep for as long as something is registered under it.
* `IdlePc.Coming` is the same for a call of `cleanup_idle_jobs` and a job that has ended
  long enough ago, in both of its branches.
* `forceCleanupAll_complete`: when `force_cleanup_all` returns, all jobs that were built
  before the call are cancelled and out of the registry.
* `cleanupIdleJobs_complete`: when `cleanup_idle_jobs` returns, no job is registered that
  had ended `idle` before the call read the clock.
-/

namespace RemoteAgent.JobManager

open CodeLib

/-! ## A sweep -/

/-- The sweep is going to clean up what is registered under the id. -/
def SweepPc.coming (shards : Sharding) (id : UInt32) : SweepPc → Prop
  | .collect it keys => it.next ≤ shards.of id ∨ id ∈ (SweepPc.collect it keys).listed
  | pc => id ∈ pc.listed

theorem SweepPc.coming_of_listed {shards : Sharding} {id : UInt32} {pc : SweepPc}
    (h : id ∈ pc.listed) : pc.coming shards id := by
  cases pc with
  | collect it keys => exact Or.inr h
  | _ => exact h

/-- The collection takes a key, locks the next shard, or is over. -/
theorem SweepPc.coming_collect {held : Held} {s s' : Shared} {it : Iter} {keys : List UInt32}
    {pc' : SweepPc} {id : UInt32} {h : JobRef} (hget : s.getJob id = some h)
    (hcoming : (SweepPc.collect it keys).coming s.shards id)
    (hstep : (SweepPc.collect it keys).step held s = some (s', pc')) :
    pc'.coming s.shards id := by
  simp only [SweepPc.step] at hstep
  cases hentries : it.entries with
  | cons e rest =>
    simp only [Iter.advance, hentries] at hstep
    cases hstep
    refine hcoming.imp_right fun hmem => ?_
    simp only [SweepPc.listed, hentries, List.mem_append, List.map_cons, List.mem_cons,
      List.not_mem_nil, or_false] at hmem ⊢
    tauto
  | nil =>
    simp only [Iter.advance, hentries] at hstep
    have hkeys : id ∈ (SweepPc.collect it keys).listed → id ∈ keys := by
      simp [SweepPc.listed, hentries]
    by_cases hmore : it.next < s.shards.count
    · simp only [hmore, if_true] at hstep
      cases hstep
      rcases hcoming with hle | hmem
      · by_cases hk : s.shards.of id = it.next
        · refine Or.inr (List.mem_append_right _ ?_)
          exact List.mem_map.mpr ⟨(id, h), IdlePc.mem_shardEntries.mpr ⟨hget, hk⟩, rfl⟩
        · exact Or.inl (Nat.lt_of_le_of_ne hle (Ne.symm hk))
      · exact Or.inr (List.mem_append_left _ (hkeys hmem))
    · simp only [hmore, if_false] at hstep
      cases hstep
      rcases hcoming with hle | hmem
      · have hlt := s.shards.of_lt id
        omega
      · exact hkeys hmem

/-- The `cleanup_job` that the sweep is in goes on.  When it is over, nothing is registered
under its id. -/
theorem SweepPc.coming_cleanup {held : Held} {s s' : Shared} {id₀ : UInt32}
    {pc pc' : CleanupPc} {todo : List UInt32} {n : Nat} {id : UInt32} {h : JobRef}
    (hget' : s'.getJob id = some h)
    (hcoming : id ∈ (SweepPc.cleanup id₀ pc todo n).listed)
    (hstep : pc.step held id₀ s = some (s', pc')) :
    id ∈ (SweepPc.cleanup id₀ pc' todo n).listed := by
  cases pc with
  | getJob =>
    simp only [CleanupPc.step] at hstep
    split at hstep <;> cases hstep
    · rename_i hnone
      rcases List.mem_cons.mp hcoming with rfl | hmem
      · cases hnone.symm.trans hget'
      · exact hmem
    · exact hcoming
  | cancelToken r =>
    cases hstep
    exact hcoming
  | remove =>
    simp only [CleanupPc.step] at hstep
    split at hstep <;> cases hstep
    rcases List.mem_cons.mp hcoming with rfl | hmem
    · have hnone : (s.jobs.erase id).lookup id = some h := hget'
      simp at hnone
    · exact hmem
  | ret r => cases hstep

/-- A step of the sweep leaves an id in front of it, or nothing is registered under the
id. -/
theorem SweepPc.coming_step {held : Held} {s s' : Shared} {pc pc' : SweepPc} {id : UInt32}
    {h : JobRef} (hget : s.getJob id = some h) (hget' : s'.getJob id = some h)
    (hcoming : pc.coming s.shards id) (hstep : pc.step held s = some (s', pc')) :
    pc'.coming s.shards id := by
  cases pc with
  | collect it keys => exact SweepPc.coming_collect hget hcoming hstep
  | next todo n =>
    cases todo with
    | nil => cases hstep
    | cons id₀ todo =>
      cases hstep
      exact hcoming
  | cleanup id₀ q todo n =>
    cases q with
    | ret r => cases r <;> cases hstep <;> exact hcoming
    | _ =>
      simp only [SweepPc.step, Option.map_eq_some_iff, Prod.mk.injEq] at hstep
      obtain ⟨⟨s₁, q'⟩, hq, rfl, rfl⟩ := hstep
      exact SweepPc.coming_of_listed (SweepPc.coming_cleanup hget' hcoming hq)

/-! ## `force_cleanup_all` -/

/-- The call is going to clean up what is registered under the id. -/
def ForcePc.coming (shards : Sharding) (id : UInt32) : ForcePc → Prop
  | .sweep pc => pc.coming shards id
  | .ret => False

theorem ForcePc.coming_step {held : Held} {s s' : Shared} {pc pc' : ForcePc} {id : UInt32}
    {h : JobRef} (hget : s.getJob id = some h) (hget' : s'.getJob id = some h)
    (hcoming : pc.coming s.shards id) (hstep : pc.step held s = some (s', pc')) :
    pc'.coming s.shards id := by
  cases pc with
  | sweep pc =>
    rcases ForcePc.step_of_sweep hstep with ⟨n, rfl, -, -⟩ | ⟨q, hq, rfl⟩
    · cases hcoming
    · exact SweepPc.coming_step hget hget' hcoming hq
  | ret => cases hcoming

namespace Manager

/-- A job with a number below `n` that is registered after a step was registered before it,
if there were `n` jobs by then. -/
theorem getJob_older {m m' : Manager} {l : Label} (hstep : m.step l = some m')
    {id : UInt32} {h : JobRef} (hlt : h < m.shared.handles.length)
    (hget : m'.shared.getJob id = some h) : m.shared.getJob id = some h := by
  cases l with
  | call op =>
    obtain rfl := Option.some.inj hstep
    exact hget
  | step i now =>
    obtain ⟨c, s', c', -, hs, rfl⟩ := step_call_inv hstep
    rw [Call.step_act hs] at hget
    rcases Shared.getJob_act hget with hold | ⟨-, rfl⟩
    · exact hold
    · exact absurd hlt (Nat.lt_irrefl _)

theorem shards_step {m m' : Manager} {l : Label} (hstep : m.step l = some m') :
    m'.shared.shards = m.shared.shards := by
  cases l with
  | call op =>
    obtain rfl := Option.some.inj hstep
    rfl
  | step i now =>
    obtain ⟨c, s', c', -, hs, rfl⟩ := step_call_inv hstep
    rw [Call.step_act hs]
    exact m.shared.act_shards now c.action

theorem length_handles_step {m m' : Manager} {l : Label} (hstep : m.step l = some m') :
    m.shared.handles.length ≤ m'.shared.handles.length := by
  cases l with
  | call op =>
    obtain rfl := Option.some.inj hstep
    exact Nat.le_refl _
  | step i now =>
    obtain ⟨c, s', c', -, hs, rfl⟩ := step_call_inv hstep
    rw [Call.step_act hs]
    have hlen : ∀ s : Shared, s.handles.length = s.jobIds.length := fun s => by
      simp [Shared.jobIds]
    rw [hlen, hlen]
    rcases m.shared.jobIds_act now c.action with ⟨id, timeout, -, hids⟩ | ⟨-, hids⟩
    · simp [hids]
    · rw [hids]

/-- Call `i` is a `force_cleanup_all`, and it is going to clean up every job with a number
below `n` that is registered. -/
structure Forces (i n : Nat) (m : Manager) : Prop where
  built : n ≤ m.shared.handles.length
  coming : ∃ pc, m.calls[i]? = some (.forceCleanupAll pc) ∧
    ∀ id h, m.shared.getJob id = some h → h < n → pc.coming m.shared.shards id

theorem forces_begin (m : Manager) :
    Forces m.calls.length m.shared.handles.length
      { m with calls := m.calls ++ [Op.forceCleanupAll.begin] } := by
  refine ⟨Nat.le_refl _, .sweep (.collect .start []), List.getElem?_concat_length, ?_⟩
  intro id h _ _
  exact Or.inl (Nat.zero_le _)

theorem Forces.step {i n : Nat} {m m' : Manager} {l : Label} (hm : Forces i n m)
    (hstep : m.step l = some m') : Forces i n m' := by
  refine ⟨Nat.le_trans hm.built (length_handles_step hstep), ?_⟩
  obtain ⟨pc, hi, hcoming⟩ := hm.coming
  have hshards := shards_step hstep
  have hold : ∀ id h, m'.shared.getJob id = some h → h < n → m.shared.getJob id = some h :=
    fun id h hget hlt => getJob_older hstep (Nat.lt_of_lt_of_le hlt hm.built) hget
  obtain ⟨hlt, -⟩ := List.getElem?_eq_some_iff.mp hi
  cases l with
  | call op =>
    obtain rfl := Option.some.inj hstep
    exact ⟨pc, getElem?_concat_of_some hi, hcoming⟩
  | step j now =>
    obtain ⟨c, s', c', hj, hs, rfl⟩ := step_call_inv hstep
    by_cases hij : j = i
    · subst hij
      obtain rfl := Option.some.inj (hi.symm.trans hj)
      obtain ⟨⟨s₁, pc'⟩, hpc, heq⟩ := Option.map_eq_some_iff.mp hs
      cases heq
      refine ⟨pc', by simp [hlt], fun id h hget hn => ?_⟩
      rw [hshards]
      have hget₀ := hold id h hget hn
      exact ForcePc.coming_step hget₀ hget (hcoming id h hget₀ hn) hpc
    · refine ⟨pc, by rw [List.getElem?_set_ne hij]; exact hi, fun id h hget hn => ?_⟩
      rw [hshards]
      exact hcoming id h (hold id h hget hn) hn

/-- When the call has returned, no such job is registered. -/
theorem Forces.gone {i n : Nat} {m : Manager} (hm : Forces i n m)
    (hret : m.calls[i]? = some (.forceCleanupAll .ret)) {h : JobRef} (hlt : h < n) (id : UInt32) :
    m.shared.getJob id ≠ some h := by
  intro hget
  obtain ⟨pc, hi, hcoming⟩ := hm.coming
  obtain rfl : pc = .ret := by
    have := hi.symm.trans hret
    cases this
    rfl
  exact hcoming id h hget hlt

end Manager

namespace Metered

theorem forces_step {i n : Nat} {x x' : Metered} {l : Manager.Label}
    (hx : Manager.Forces i n x.manager) (hstep : machine.step x l = some x') :
    Manager.Forces i n x'.manager := by
  obtain ⟨m', hm', rfl⟩ := Option.map_eq_some_iff.mp hstep
  exact hx.step hm'

/-- `force_cleanup_all` leaves no old job behind.  In every run with at most `2 ^ 32`
increments of the counter, and whatever other calls do in the meantime: when a call returns,
every job that was built before it began has had its token cancelled and is not registered
any more. -/
theorem forceCleanupAll_complete {x y : Metered} {ls : List Manager.Label}
    (hx : machine.Reach InFirstTurn x)
    (hp : machine.Path InFirstTurn x (.call .forceCleanupAll :: ls) y)
    (hret : y.manager.calls[x.manager.calls.length]? = some (.forceCleanupAll .ret))
    {h : JobRef} (hbefore : h < x.manager.shared.handles.length) :
    (∀ id, y.manager.shared.getJob id ≠ some h) ∧
      ∃ a : JobHandle, y.manager.shared.handles[h]? = some a ∧ a.cancellationToken = true := by
  have hy := hx.path hp
  have hforces : Manager.Forces x.manager.calls.length x.manager.shared.handles.length
      y.manager := by
    cases hp with
    | cons _ hstep tail =>
      cases hstep
      exact tail.invariant (I := fun z => Manager.Forces x.manager.calls.length
        x.manager.shared.handles.length z.manager)
        (fun _ _ _ hz _ hstep' => forces_step hz hstep') (Manager.forces_begin x.manager)
  have hlt := Nat.lt_of_lt_of_le hbefore hforces.built
  have ha := List.getElem?_eq_getElem hlt
  exact ⟨hforces.gone hret hbefore, _, ha,
    (departed_reach hy).canceled ha (hforces.gone hret hbefore _)⟩

/-- Job 0 is there when the call begins, and job 1 is created while job 0 is cleaned up. -/
theorem forceCleanupAll_complete_one :
    ∃ x y ls, machine.Reach InFirstTurn x ∧
      machine.Path InFirstTurn x (.call .forceCleanupAll :: ls) y ∧
      y.manager.calls[1]? = some (.forceCleanupAll .ret) ∧
      x.manager.shared.getJob 0xFFFFFFFF = some 0 ∧ y.manager.shared.getJob 1 = some 1 ∧
      ∀ id, y.manager.shared.getJob id ≠ some 0 := by
  let ls : List Manager.Label :=
    [.step 1 2, .step 1 2, .step 1 2, .step 1 2, .step 1 2, .step 1 2, .call (.createJob none),
      .step 2 3, .step 2 3, .step 2 3, .step 2 3, .step 2 3, .step 1 4, .step 1 4, .step 1 4]
  obtain ⟨x, hx, hprop⟩ := StepMachine.reach_of_runIf machine InFirstTurn aboutToWrap_initial
    [.call (.createJob none), .step 0 1, .step 0 1, .step 0 1, .step 0 1, .step 0 1]
    (fun x => (x.manager.shared.getJob 0xFFFFFFFF == some 0) &&
      (x.manager.calls.length == 1) && (x.manager.shared.handles.length == 1) &&
      (machine.runIf InFirstTurn x (.call .forceCleanupAll :: ls)).any fun y =>
        ((y.manager.calls[1]?).any fun c => match c with
          | .forceCleanupAll .ret => true
          | _ => false) &&
        (y.manager.shared.getJob 1 == some 1))
    (by decide +kernel)
  simp only [Bool.and_eq_true, Option.any_eq_true, beq_iff_eq] at hprop
  obtain ⟨⟨⟨hget, hcalls⟩, hhandles⟩, y, hrun, ⟨c, hc, hret⟩, hnew⟩ := hprop
  have hp := StepMachine.path_of_runIf hrun
  have hc' : y.manager.calls[1]? = some (.forceCleanupAll .ret) := by
    split at hret
    · exact hc
    · cases hret
  exact ⟨x, y, ls, hx, hp, hc', hget, hnew,
    (forceCleanupAll_complete hx hp (by rw [hcalls]; exact hc')
      (by rw [hhandles]; exact Nat.one_pos)).1⟩

end Metered

/-! ## `cleanup_idle_jobs` -/

/-- The call is going to clean up the job, which ended at the time `t`. -/
def IdlePc.coming (shards : Sharding) (idle : Duration) (t : SystemTime) (id : UInt32)
    (h : JobRef) : IdlePc → Prop
  | .begin => False
  | .scan now _ _ _ | .scanEntry now _ _ _ | .scanLocked now _ _ _ => t + idle ≤ now
  | .visit now it toRemove =>
    t + idle ≤ now ∧ (it.next ≤ shards.of id ∨ (id, h) ∈ it.entries ∨ id ∈ toRemove)
  | .visitEntry now it toRemove id' h' | .visitState now it toRemove id' h'
  | .visitCompleted now it toRemove id' h' =>
    t + idle ≤ now ∧
      (it.next ≤ shards.of id ∨ (id, h) ∈ (id', h') :: it.entries ∨ id ∈ toRemove)
  | .sweep pc => pc.coming shards id
  | .ret _ => False

namespace IdlePc

section steps

variable {held : Held} {time now last : SystemTime} {idle quiet : Duration} {s s' : Shared}
  {id : UInt32} {h : JobRef} {t : SystemTime} {pc' : IdlePc}

/-- The pass over the jobs takes an entry, locks the next shard, or is over. -/
theorem coming_visit {it : Iter} {toRemove : List UInt32} (hget : s.getJob id = some h)
    (hcoming : (IdlePc.visit now it toRemove).coming s.shards idle t id h)
    (hstep : (IdlePc.visit now it toRemove).step held time idle quiet s = some (s', pc')) :
    pc'.coming s.shards idle t id h := by
  obtain ⟨hold, hahead⟩ := hcoming
  simp only [IdlePc.step] at hstep
  cases hentries : it.entries with
  | cons e rest =>
    simp only [Iter.advance, hentries] at hstep
    cases hstep
    rw [hentries] at hahead
    exact ⟨hold, hahead⟩
  | nil =>
    simp only [Iter.advance, hentries] at hstep
    rw [hentries] at hahead
    by_cases hmore : it.next < s.shards.count
    · simp only [hmore, if_true] at hstep
      cases hstep
      refine ⟨hold, ?_⟩
      rcases hahead with hle | hmem | hmem
      · by_cases hk : s.shards.of id = it.next
        · exact Or.inr (Or.inl (mem_shardEntries.mpr ⟨hget, hk⟩))
        · exact Or.inl (Nat.lt_of_le_of_ne hle (Ne.symm hk))
      · cases hmem
      · exact Or.inr (Or.inr hmem)
    · simp only [hmore, if_false] at hstep
      cases hstep
      rcases hahead with hle | hmem | hmem
      · have hlt := s.shards.of_lt id
        omega
      · cases hmem
      · exact hmem

/-- The test chooses a job that ended long enough ago. -/
theorem coming_visitCompleted {it : Iter} {toRemove : List UInt32} {id₀ : UInt32}
    {r : JobRef} {a : JobHandle} (ha : s.handles[h]? = some a)
    (hterm : a.state.isTerminal = true) (ht : a.completedAt = some t)
    (hcoming : (IdlePc.visitCompleted now it toRemove id₀ r).coming s.shards idle t id h)
    (hstep : (IdlePc.visitCompleted now it toRemove id₀ r).step held time idle quiet s =
      some (s', pc')) : pc'.coming s.shards idle t id h := by
  obtain ⟨hold, hahead⟩ := hcoming
  simp only [IdlePc.step] at hstep
  split at hstep
  · cases hstep
  · rename_i b hb
    cases hstep
    refine ⟨hold, ?_⟩
    have hgrows : ∀ k, k ∈ toRemove →
        k ∈ if b.shouldCleanup now idle then toRemove ++ [id₀] else toRemove := by
      intro k hk
      split
      · exact List.mem_append_left _ hk
      · exact hk
    rcases hahead with hle | hmem | hmem
    · exact Or.inl hle
    · rcases List.mem_cons.mp hmem with heq | hmem
      · -- the job in the hands of the call
        cases heq
        obtain rfl := Option.some.inj (ha.symm.trans hb)
        have hdue : a.shouldCleanup now idle = true :=
          (a.shouldCleanup_iff now idle).mpr (Or.inl ⟨hterm, t, ht,
            Nat.le_trans (Nat.le_add_right t idle) hold, Nat.le_sub_of_add_le' hold⟩)
        right
        right
        rw [if_pos hdue]
        exact List.mem_append_right _ (List.mem_singleton_self _)
      · exact Or.inr (Or.inl hmem)
    · exact Or.inr (Or.inr (hgrows id hmem))

/-- A step of the call leaves the job in front of it, or the job is not registered. -/
theorem coming_step {pc : IdlePc} {a : JobHandle} (ha : s.handles[h]? = some a)
    (hterm : a.state.isTerminal = true) (ht : a.completedAt = some t)
    (hget : s.getJob id = some h) (hget' : s'.getJob id = some h)
    (hcoming : pc.coming s.shards idle t id h)
    (hstep : pc.step held time idle quiet s = some (s', pc')) :
    pc'.coming s.shards idle t id h := by
  have hstart : ∀ now, t + idle ≤ now →
      (IdlePc.visit now .start []).coming s.shards idle t id h :=
    fun now hnow => ⟨hnow, Or.inl (Nat.zero_le _)⟩
  cases pc with
  | begin | ret n => cases hcoming
  | scan now last it hasJobs =>
    simp only [IdlePc.step] at hstep
    split at hstep
    · cases hstep
      exact hcoming
    · cases hstep
      exact hcoming
    · split at hstep <;> cases hstep
      · exact Or.inl (Nat.zero_le _)
      · exact hstart now hcoming
  | scanEntry now last it r =>
    simp only [IdlePc.step] at hstep
    split at hstep <;> cases hstep
    exact hcoming
  | scanLocked now last it r =>
    simp only [IdlePc.step] at hstep
    split at hstep
    · cases hstep
    · split at hstep <;> cases hstep
      · exact hcoming
      · exact hstart now hcoming
  | visit now it toRemove => exact coming_visit hget hcoming hstep
  | visitEntry now it toRemove id₀ r =>
    simp only [IdlePc.step] at hstep
    split at hstep <;> cases hstep
    exact hcoming
  | visitState now it toRemove id₀ r =>
    cases hstep
    exact hcoming
  | visitCompleted now it toRemove id₀ r =>
    exact coming_visitCompleted ha hterm ht hcoming hstep
  | sweep pc =>
    rcases step_of_sweep hstep with ⟨n, rfl, -, -⟩ | ⟨q, hq, rfl⟩
    · cases hcoming
    · exact SweepPc.coming_step hget hget' hcoming hq

end steps

end IdlePc

/-- Where a call of `cleanup_idle_jobs` with these two limits stands. -/
def Call.idlePc? (idle quiet : Duration) : Call → Option IdlePc
  | .cleanupIdleJobs idle' quiet' pc => if idle' = idle ∧ quiet' = quiet then some pc else none
  | _ => none

theorem Call.eq_of_idlePc? {idle quiet : Duration} {c : Call} {pc : IdlePc}
    (h : c.idlePc? idle quiet = some pc) : c = .cleanupIdleJobs idle quiet pc := by
  unfold Call.idlePc? at h
  split at h
  · obtain ⟨⟨rfl, rfl⟩, hpc⟩ := Option.ite_none_right_eq_some.mp h
    cases hpc
    rfl
  · cases h

namespace Manager

/-- Job `h` ended at the time `t`, and call `i` is going to clean it up if it is registered. -/
structure Retires (i : Nat) (idle quiet : Duration) (t : SystemTime) (h : JobRef)
    (m : Manager) : Prop where
  inv : Inv m
  ended : ∃ a : JobHandle, m.shared.handles[h]? = some a ∧ a.state.isTerminal = true ∧
    a.completedAt = some t
  coming : ∃ pc, m.calls[i]? = some (.cleanupIdleJobs idle quiet pc) ∧
    ∀ id, m.shared.getJob id = some h → pc.coming m.shared.shards idle t id h

/-- A job that has ended stays as it is. -/
theorem ended_step {m m' : Manager} {l : Label} (hinv : Inv m) (hstep : m.step l = some m')
    {h : JobRef} {a : JobHandle} {t : SystemTime} (ha : m.shared.handles[h]? = some a)
    (hterm : a.state.isTerminal = true) (ht : a.completedAt = some t) :
    ∃ a' : JobHandle, m'.shared.handles[h]? = some a' ∧ a'.state.isTerminal = true ∧
      a'.completedAt = some t := by
  have hcore : m.shared.core h = some (a.state, some t) := by simp [Shared.core, ha, ht]
  have hpath : machine.Path StepMachine.Any m [l] m' := .cons trivial hstep (.nil m')
  have hcore' := core_final hinv hpath hcore hterm
  unfold Shared.core at hcore'
  obtain ⟨a', ha', heq⟩ := Option.map_eq_some_iff.mp hcore'
  simp only [Prod.mk.injEq] at heq
  exact ⟨a', ha', by rw [heq.1]; exact hterm, heq.2⟩

theorem Retires.step {i : Nat} {idle quiet : Duration} {t : SystemTime} {h : JobRef}
    {m m' : Manager} {l : Label} (hm : Retires i idle quiet t h m)
    (hstep : m.step l = some m') : Retires i idle quiet t h m' := by
  obtain ⟨a, ha, hterm, ht⟩ := hm.ended
  refine ⟨inv_step hm.inv hstep, ended_step hm.inv hstep ha hterm ht, ?_⟩
  obtain ⟨pc, hi, hcoming⟩ := hm.coming
  have hshards := shards_step hstep
  have hbuilt := (List.getElem?_eq_some_iff.mp ha).1
  have hold : ∀ id, m'.shared.getJob id = some h → m.shared.getJob id = some h :=
    fun id hget => getJob_older hstep hbuilt hget
  obtain ⟨hlt, -⟩ := List.getElem?_eq_some_iff.mp hi
  cases l with
  | call op =>
    obtain rfl := Option.some.inj hstep
    exact ⟨pc, getElem?_concat_of_some hi, hcoming⟩
  | step j now =>
    obtain ⟨c, s', c', hj, hs, rfl⟩ := step_call_inv hstep
    by_cases hij : j = i
    · subst hij
      obtain rfl := Option.some.inj (hi.symm.trans hj)
      obtain ⟨⟨s₁, pc'⟩, hpc, heq⟩ := Option.map_eq_some_iff.mp hs
      cases heq
      refine ⟨pc', by simp [hlt], fun id hget => ?_⟩
      rw [hshards]
      have hget₀ := hold id hget
      exact IdlePc.coming_step ha hterm ht hget₀ hget (hcoming id hget₀) hpc
    · refine ⟨pc, by rw [List.getElem?_set_ne hij]; exact hi, fun id hget => ?_⟩
      rw [hshards]
      exact hcoming id (hold id hget)

/-- `cleanup_idle_jobs` misses no job that has ended.  Whatever other calls do in the
meantime: when a call that read the clock at `now` returns, no job is registered that had
ended `idle` before that, at the time `t`. -/
theorem cleanupIdleJobs_complete {m m' : Manager} {ls : List Label} {i : Nat}
    {now t : SystemTime} {idle quiet : Duration} {n : Nat} {h : JobRef} {a : JobHandle}
    (hm : machine.Reachable m)
    (hbegin : m.calls[i]? = some (.cleanupIdleJobs idle quiet .begin))
    (hp : machine.Path StepMachine.Any m (.step i now :: ls) m')
    (hret : m'.calls[i]? = some (.cleanupIdleJobs idle quiet (.ret n)))
    (ha : m.shared.handles[h]? = some a) (hterm : a.state.isTerminal = true)
    (ht : a.completedAt = some t) (hidle : t + idle ≤ now) :
    ∀ id, m'.shared.getJob id ≠ some h := by
  have hretires : Retires i idle quiet t h m' := by
    cases hp with
    | cons _ hstep tail =>
      refine tail.invariant (fun _ _ _ hu _ hstep' => hu.step hstep') ?_
      have hinv := inv_step (inv_reachable hm) (l := .step i now) hstep
      obtain ⟨c, s', c', hi, hs, rfl⟩ := step_call_inv hstep
      obtain rfl := Option.some.inj (hbegin.symm.trans hi)
      cases hs
      obtain ⟨hlt, -⟩ := List.getElem?_eq_some_iff.mp hi
      exact ⟨hinv, ⟨a, ha, hterm, ht⟩, .scan now m.shared.lastJobCreated .start false,
        by simp [hlt], fun _ _ => hidle⟩
  obtain ⟨pc, hi, hcoming⟩ := hretires.coming
  obtain rfl : pc = .ret n := by
    have := hi.symm.trans hret
    cases this
    rfl
  exact fun id hget => hcoming id hget

/-- Job 1 is canceled at the time 2, and the call finds it in the idle branch at 100. -/
theorem cleanupIdleJobs_complete_one :
    ∃ m m' ls n a, machine.Reachable m ∧
      m.calls[2]? = some (.cleanupIdleJobs 60 1000 .begin) ∧
      machine.Path StepMachine.Any m (.step 2 100 :: ls) m' ∧
      m'.calls[2]? = some (.cleanupIdleJobs 60 1000 (.ret n)) ∧
      m.shared.handles[0]? = some a ∧ a.state = .canceled ∧ a.completedAt = some 2 ∧
      m.shared.getJob 1 = some 0 ∧ ∀ id, m'.shared.getJob id ≠ some 0 := by
  let ls : List Label := List.replicate 17 (.step 2 101)
  obtain ⟨m, hm, hprop⟩ := StepMachine.reach_of_runIf machine StepMachine.Any
    (fresh_initial 50)
    [.call (.createJob none), .step 0 1, .step 0 1, .step 0 1, .step 0 1, .step 0 1,
      .call (.transitionState 1 .canceled), .step 1 2, .step 1 2, .step 1 2, .step 1 2,
      .step 1 2, .step 1 2, .step 1 2, .call (.cleanupIdleJobs 60 1000)]
    (fun m => ((m.calls[2]?.bind (Call.idlePc? 60 1000)).any fun pc => match pc with
        | .begin => true
        | _ => false) &&
      ((m.shared.handles[0]?).any fun a =>
        a.state == .canceled && a.completedAt == some 2) &&
      (m.shared.getJob 1 == some 0) &&
      (machine.runIf StepMachine.Any m (.step 2 100 :: ls)).any fun m' =>
        (m'.calls[2]?.bind (Call.idlePc? 60 1000)).any fun pc => match pc with
          | .ret _ => true
          | _ => false)
    (by decide +kernel)
  simp only [Bool.and_eq_true, Option.any_eq_true, Option.bind_eq_some_iff,
    beq_iff_eq] at hprop
  obtain ⟨⟨⟨⟨pc, ⟨c, hc, hpc⟩, hbegin⟩, a, ha, hstate, ht⟩, hget⟩,
    m', hrun, pc', ⟨c', hc', hpc'⟩, hret⟩ := hprop
  have hp := StepMachine.path_of_runIf hrun
  obtain rfl := Call.eq_of_idlePc? hpc
  obtain rfl := Call.eq_of_idlePc? hpc'
  split at hbegin
  · split at hret
    · rename_i n
      exact ⟨m, m', ls, n, a, hm, hc, hp, hc', ha, hstate, ht, hget,
        cleanupIdleJobs_complete hm hc hp hc' ha (by rw [hstate]; rfl) ht (by decide)⟩
    · cases hret
  · cases hbegin

end Manager

end RemoteAgent.JobManager
