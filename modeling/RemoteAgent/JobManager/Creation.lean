import RemoteAgent.CodeLib.Cycle
import RemoteAgent.JobManager.Expiry

/-!
# Finding a free id

`create_job` from its start to its end, when nobody else calls the manager.

* `Shared.createJob` is the whole function.  A call in the machine of `JobManager.Calls`
  that has the manager to itself comes to that (`Manager.run_createJob`), and it can come
  to nothing else (`Manager.createJob_of_path`).  Both follow from `CreatePc.step_finish`,
  that no step of the call changes what it comes to.  `Locks.createJob_eval` says the same
  of the code with its guards.
* The counter goes around the 32-bit numbers, and the ids that it gives go around those
  of them that are not zero.  `drawn` are the ids of consecutive calls, and
  `toNat_drawn` reads them as the places of a cycle.
* `createJob_finds_free_id`: a call that finds its id taken moves the counter on and
  leaves all else as it is, so the calls after it look at one id after the other, and
  with `n` jobs registered one of the first `n + 1` ids is free.
-/

namespace RemoteAgent.JobManager

open CodeLib

/-! ## The whole call -/

/-- The two `fetch_add` of `create_job`: the id, and the counter after them. -/
def newId (next : UInt32) : UInt32 × UInt32 :=
  if next = 0 then (next + 1, next + 1 + 1) else (next, next + 1)

namespace Shared

/-- The new job is registered. -/
def register (now : SystemTime) (timeout : Option Duration) (id : UInt32) (s : Shared) :
    Shared × Except Error JobRef :=
  ({ s with
      handles := s.handles ++ [JobHandle.create id timeout now]
      jobs := s.jobs.insert id s.handles.length
      lastJobCreated := now },
    .ok s.handles.length)

/-- `create_job` with its id. -/
def createWith (now : SystemTime) (timeout : Option Duration) (id : UInt32) (s : Shared) :
    Shared × Except Error JobRef :=
  if id ∈ s.jobs then (s, .error (.jobExists id)) else s.register now timeout id

/-- `create_job`, run without interruption, with what it returns. -/
def createJob (now : SystemTime) (timeout : Option Duration) (s : Shared) :
    Shared × Except Error JobRef :=
  if s.jobs.entries.length ≥ s.maxConcurrentJobs then
    (s, .error (.service ("Maximum concurrent jobs (" ++
      toString s.maxConcurrentJobs ++ ") reached")))
  else
    let (id, next) := newId s.nextJobId
    createWith now timeout id { s with nextJobId := next }

end Shared

/-! ## The call in the manager -/

namespace CreatePc

/-- What the call comes to from here, if nobody else moves. -/
def finish (now : SystemTime) (timeout : Option Duration) (s : Shared) :
    CreatePc → Shared × Except Error JobRef
  | .lenCheck => s.createJob now timeout
  | .fetchAdd =>
    let (id, next) := newId s.nextJobId
    Shared.createWith now timeout id { s with nextJobId := next }
  | .fetchAddAgain =>
    Shared.createWith now timeout s.nextJobId { s with nextJobId := s.nextJobId + 1 }
  | .containsKey id => s.createWith now timeout id
  | .insert id => s.register now timeout id
  | .setLastCreated t h => ({ s with lastJobCreated := t }, .ok h)
  | .ret r => (s, r)

/-- The steps that are left, at most. -/
def left : CreatePc → Nat
  | .lenCheck => 6
  | .fetchAdd => 5
  | .fetchAddAgain => 4
  | .containsKey _ => 3
  | .insert _ => 2
  | .setLastCreated _ _ => 1
  | .ret _ => 0

variable {held : Held} {time : SystemTime} {timeout : Option Duration} {s s' : Shared}
  {pc pc' : CreatePc}

/-- A step changes nothing about what the call comes to.  The clock is read in the
insertion only. -/
theorem step_finish {now : SystemTime} (h : pc.step held time timeout s = some (s', pc'))
    (htime : ∀ id, pc = .insert id → time = now) :
    pc'.finish now timeout s' = pc.finish now timeout s ∧ pc'.left < pc.left := by
  cases pc with
  | lenCheck =>
    simp only [step] at h
    split at h <;> rename_i hfull <;> cases h
    · exact ⟨by simp only [finish, Shared.createJob, if_pos hfull], by simp [left]⟩
    · exact ⟨by simp only [finish, Shared.createJob, if_neg hfull], by simp [left]⟩
  | fetchAdd =>
    cases h
    by_cases hzero : s.nextJobId = 0
    · simp [finish, newId, hzero, left]
    · simp [finish, newId, hzero, left]
  | fetchAddAgain =>
    cases h
    exact ⟨rfl, by simp [left]⟩
  | containsKey id =>
    simp only [step] at h
    split at h <;> rename_i htaken <;> cases h
    · exact ⟨by simp only [finish, Shared.createWith, if_pos htaken], by simp [left]⟩
    · exact ⟨by simp only [finish, Shared.createWith, if_neg htaken], by simp [left]⟩
  | insert id =>
    obtain rfl := htime id rfl
    simp only [step] at h
    split at h <;> cases h
    exact ⟨rfl, by simp [left]⟩
  | setLastCreated t r =>
    cases h
    exact ⟨rfl, by simp [left]⟩
  | ret r => cases h

/-- A call that has not returned can go on while nobody stands in a loop over the map. -/
theorem exists_step (time : SystemTime) (timeout : Option Duration) (s : Shared)
    (hfree : held.shards = []) (hpc : ∀ r, pc ≠ .ret r) :
    ∃ s' pc', pc.step held time timeout s = some (s', pc') := by
  cases pc with
  | lenCheck | containsKey id =>
    simp only [step]
    split <;> exact ⟨_, _, rfl⟩
  | insert id => exact ⟨_, _, by rw [step, hfree, if_neg List.not_mem_nil]⟩
  | fetchAdd | fetchAddAgain | setLastCreated t r => exact ⟨_, _, rfl⟩
  | ret r => exact absurd rfl (hpc r)

/-- The call gets past the insertion, and from there on it does not matter when. -/
theorem exists_step_finish (h : pc.step held time timeout s = some (s', pc')) (now : SystemTime) :
    ∃ now', pc'.finish now timeout s' = pc.finish now' timeout s := by
  by_cases hins : ∃ id, pc = .insert id
  · obtain ⟨id, rfl⟩ := hins
    refine ⟨time, ?_⟩
    simp only [step] at h
    split at h <;> cases h
    rfl
  · exact ⟨now, (step_finish h fun id hid => absurd ⟨id, hid⟩ hins).1⟩

end CreatePc

namespace Manager

/-- A call of `create_job` that goes on alone, while no other call stands in a loop over
the map, returns what it was to come to. -/
theorem exists_run_create {m : Manager} {i : Nat} {timeout : Option Duration} {pc : CreatePc}
    (now : SystemTime) (hi : m.calls[i]? = some (.createJob timeout pc))
    (hfree : ∀ c ∈ m.calls, c.holdsShard = none) :
    ∃ n, machine.run m (List.replicate n (.step i now)) =
      some { shared := (pc.finish now timeout m.shared).1
             calls := m.calls.set i
              (.createJob timeout (.ret (pc.finish now timeout m.shared).2)) } := by
  induction hleft : pc.left using Nat.strong_induction_on generalizing m pc with
  | h k ih =>
    obtain ⟨hlt, hget⟩ := List.getElem?_eq_some_iff.mp hi
    by_cases hret : ∃ r, pc = .ret r
    · obtain ⟨r, rfl⟩ := hret
      refine ⟨0, ?_⟩
      have hsame : m.calls.set i (.createJob timeout (.ret r)) = m.calls := by
        rw [← hget, List.set_getElem_self]
      simp only [CreatePc.finish, List.replicate_zero, StepMachine.run, hsame]
    · have hshards : m.held.shards = [] := List.filterMap_eq_nil_iff.mpr hfree
      obtain ⟨s', pc', hs⟩ := CreatePc.exists_step now timeout m.shared hshards
        fun r hr => hret ⟨r, hr⟩
      obtain ⟨hfinish, hless⟩ := CreatePc.step_finish hs fun _ _ => rfl
      let u : Manager := ⟨s', m.calls.set i (.createJob timeout pc')⟩
      have hstep : machine.step m (.step i now) = some u := by
        simp [machine, step, hi, Call.step, hs, u]
      have hfree' : ∀ c ∈ m.calls.set i (.createJob timeout pc'), c.holdsShard = none := by
        intro c hc
        rcases List.mem_or_eq_of_mem_set hc with hc | rfl
        · exact hfree c hc
        · rfl
      have hi' : u.calls[i]? = some (.createJob timeout pc') := List.getElem?_set_self hlt
      obtain ⟨n, hn⟩ := ih pc'.left (hleft ▸ hless) hi' hfree' rfl
      refine ⟨n + 1, ?_⟩
      rw [List.replicate_succ, StepMachine.run, hstep, Option.bind_some, hn, hfinish,
        List.set_set]

/-- A whole call of `create_job` that has the manager to itself returns what `createJob`
says. -/
theorem run_createJob (m : Manager) (now : SystemTime) (timeout : Option Duration)
    (hfree : ∀ c ∈ m.calls, c.holdsShard = none) :
    ∃ n, machine.run m
        (.call (.createJob timeout) :: List.replicate n (.step m.calls.length now)) =
      some { shared := (m.shared.createJob now timeout).1
             calls := m.calls ++
              [.createJob timeout (.ret (m.shared.createJob now timeout).2)] } := by
  have hfree' : ∀ c ∈ m.calls ++ [.createJob timeout .lenCheck], c.holdsShard = none := by
    intro c hc
    rcases List.mem_append.mp hc with hc | hc
    · exact hfree c hc
    · rw [List.mem_singleton.mp hc]
      rfl
  obtain ⟨n, hn⟩ := exists_run_create (m := ⟨m.shared, m.calls ++ [.createJob timeout .lenCheck]⟩)
    now List.getElem?_concat_length hfree'
  refine ⟨n, ?_⟩
  have hcall : machine.step m (.call (.createJob timeout)) =
      some ⟨m.shared, m.calls ++ [.createJob timeout .lenCheck]⟩ := rfl
  rw [StepMachine.run, hcall, Option.bind_some, hn]
  simp [CreatePc.finish]

/-- In whatever steps a call of `create_job` is alone, it returns what it was to come to
with one of the clock values. -/
theorem finish_of_path {m m' : Manager} {i : Nat} {timeout : Option Duration} {pc : CreatePc}
    {times : List SystemTime} {r : Except Error JobRef}
    (hp : machine.Path StepMachine.Any m (times.map (.step i)) m')
    (hi : m.calls[i]? = some (.createJob timeout pc))
    (hr : m'.calls[i]? = some (.createJob timeout (.ret r))) :
    ∃ now, pc.finish now timeout m.shared = (m'.shared, r) := by
  induction times generalizing m pc with
  | nil =>
    cases hp
    obtain rfl : pc = .ret r := by simpa [hi] using hr
    exact ⟨0, rfl⟩
  | cons t times ih =>
    rw [List.map_cons] at hp
    cases hp with
    | cons _ hstep htail =>
      obtain ⟨c, s', c', hc, hs, rfl⟩ := step_call_inv hstep
      obtain rfl := Option.some.inj (hi.symm.trans hc)
      obtain ⟨⟨s₁, pc'⟩, hpc, heq⟩ := Option.map_eq_some_iff.mp hs
      cases heq
      obtain ⟨now, hnow⟩ := ih htail
        (List.getElem?_set_self (List.getElem?_eq_some_iff.mp hi).1)
      obtain ⟨now', hnow'⟩ := CreatePc.exists_step_finish hpc now
      exact ⟨now', hnow'.symm.trans hnow⟩

/-- A whole call of `create_job` that nobody interrupts can return nothing else. -/
theorem createJob_of_path {m m' : Manager} {timeout : Option Duration}
    {times : List SystemTime} {r : Except Error JobRef}
    (hp : machine.Path StepMachine.Any m
      (.call (.createJob timeout) :: times.map (.step m.calls.length)) m')
    (hr : m'.calls[m.calls.length]? = some (.createJob timeout (.ret r))) :
    ∃ now, m.shared.createJob now timeout = (m'.shared, r) := by
  cases hp with
  | cons _ hstep htail =>
    cases hstep
    exact finish_of_path htail List.getElem?_concat_length hr

end Manager

/-! ## The call with its guards -/

namespace Locks

open LockProg

variable {s : Shared} {now : SystemTime}

/-- An iterator yields every job once. -/
theorem length_inOrder (s : Shared) : (inOrder s).length = s.jobs.entries.length := by
  have hperm : ((inOrder s).map Prod.fst).Perm s.jobs.entries.keys := by
    refine (List.perm_ext_iff_of_nodup (nodup_inOrder s) s.jobs.nodupKeys).mpr ?_
    intro id
    have hregistered : (∃ h, (id, h) ∈ inOrder s) ↔ id ∈ s.jobs.entries.keys := by
      simp only [mem_inOrder]
      exact Option.isSome_iff_exists.symm.trans AList.lookup_isSome
    simpa using hregistered
  have hlength := hperm.length_eq
  rwa [List.length_map, List.keys, List.length_map] at hlength

theorem sumLen_eval (ks : List Nat) :
    (sumLen ks).eval now s = (s, (ks.flatMap s.shardEntries).length) := by
  induction ks with
  | nil => rfl
  | cons k ks ih => simp [sumLen, ih]

/-- The sizes of the shards add up to the number of jobs. -/
theorem len_eval : len.eval now s = (s, s.jobs.entries.length) := by
  rw [← length_inOrder]
  exact sumLen_eval (List.range s.shards.count)

theorem newId_eval :
    newId.eval now s =
      ({ s with nextJobId := (JobManager.newId s.nextJobId).2 },
        (JobManager.newId s.nextJobId).1) := by
  unfold newId JobManager.newId
  by_cases hzero : s.nextJobId = 0
  · simp [fetchAdd, hzero]
  · simp [fetchAdd, hzero]

/-- `create_job` with its guards computes what `createJob` says. -/
theorem createJob_eval (timeout : Option Duration) :
    (createJob timeout).eval now s = s.createJob now timeout := by
  simp only [createJob, Shared.createJob, eval_bind, len_eval, eval_reads]
  by_cases hfull : s.jobs.entries.length ≥ s.maxConcurrentJobs
  · simp only [hfull, if_true, eval_pure]
  · simp only [hfull, if_false, eval_bind, newId_eval, containsKey, eval_reads, eval_locked,
      Shared.createWith, decide_eq_true_eq]
    by_cases htaken : (JobManager.newId s.nextJobId).1 ∈ s.jobs
    · simp [htaken]
    · simp [htaken, insert, Shared.register]

end Locks

/-! ## The ids of consecutive calls -/

/-- The number of ids that are not zero. -/
def idCount : Nat := 2 ^ 32 - 1

/-- Where the counter stands on the cycle of the ids.  At 0 it stands where it stands
at 1. -/
def place (next : UInt32) : Nat := next.toNat - 1

theorem place_lt (next : UInt32) : place next < idCount := by
  have hlt := next.toNat_lt
  unfold place idCount
  omega

theorem toNat_newId (next : UInt32) : (newId next).1.toNat = place next + 1 := by
  unfold newId place
  by_cases hzero : next = 0
  · subst hzero
    rfl
  · have hpos : next.toNat ≠ 0 := fun h => hzero (UInt32.toNat_inj.mp h)
    rw [if_neg hzero]
    show next.toNat = next.toNat - 1 + 1
    omega

/-- A call moves the counter on by one place. -/
theorem place_newId (next : UInt32) :
    place (newId next).2 = Cycle.after idCount (place next) 1 := by
  have hlt := next.toNat_lt
  unfold newId place Cycle.after idCount
  by_cases hzero : next = 0
  · subst hzero
    rfl
  · have hpos : next.toNat ≠ 0 := fun h => hzero (UInt32.toNat_inj.mp h)
    rw [if_neg hzero]
    show (next + 1).toNat - 1 = _
    have hnext : (next + 1).toNat = (next.toNat + 1) % 2 ^ 32 := UInt32.toNat_add next 1
    omega

/-- The counter after `i` calls. -/
def counter (next : UInt32) : Nat → UInt32
  | 0 => next
  | i + 1 => counter (newId next).2 i

/-- The id that the call after `i` others looks at. -/
def drawn (next : UInt32) (i : Nat) : UInt32 := (newId (counter next i)).1

theorem place_counter (next : UInt32) (i : Nat) :
    place (counter next i) = Cycle.after idCount (place next) i := by
  induction i generalizing next with
  | zero => exact (Cycle.after_zero (place_lt next)).symm
  | succ i ih =>
    rw [counter, ih, place_newId, Cycle.after_after, Nat.add_comm 1 i]

theorem toNat_drawn (next : UInt32) (i : Nat) :
    (drawn next i).toNat = Cycle.after idCount (place next) i + 1 := by
  rw [drawn, toNat_newId, place_counter]

theorem drawn_ne_zero (next : UInt32) (i : Nat) : drawn next i ≠ 0 := by
  intro h
  have hzero : (drawn next i).toNat = 0 := by rw [h]; rfl
  rw [toNat_drawn] at hzero
  cases hzero

/-- Before the counter is around, no id comes twice. -/
theorem eq_of_drawn_eq {next : UInt32} {i j : Nat} (hi : i < idCount) (hj : j < idCount)
    (h : drawn next i = drawn next j) : i = j := by
  have hplace := congrArg UInt32.toNat h
  rw [toNat_drawn, toNat_drawn] at hplace
  exact Cycle.eq_of_after_eq hi hj (Nat.add_right_cancel hplace)

/-! ## Consecutive calls -/

namespace Shared

/-- What consecutive calls of `create_job` leave behind and return, each with its clock
value and its timeout. -/
def createJobs : Shared → List (SystemTime × Option Duration) →
    List (Shared × Except Error JobRef)
  | _, [] => []
  | s, (now, timeout) :: cs =>
    s.createJob now timeout :: (s.createJob now timeout).1.createJobs cs

/-- A call below the limit gets the next id. -/
theorem createJob_of_room {s : Shared} (hroom : s.jobs.entries.length < s.maxConcurrentJobs)
    (now : SystemTime) (timeout : Option Duration) :
    s.createJob now timeout = createWith now timeout (drawn s.nextJobId 0)
      { s with nextJobId := counter s.nextJobId 1 } := by
  rw [createJob, if_neg (Nat.not_le.mpr hroom)]
  rfl

theorem createWith_of_taken {s : Shared} {id : UInt32} (h : id ∈ s.jobs) (now : SystemTime)
    (timeout : Option Duration) :
    s.createWith now timeout id = (s, .error (.jobExists id)) := if_pos h

/-- As long as the calls find their ids taken, the next one sees the same registry and
gets the next id. -/
theorem getElem?_createJobs {s : Shared} {k : Nat} (cs : List (SystemTime × Option Duration))
    (hroom : s.jobs.entries.length < s.maxConcurrentJobs) (hk : k < cs.length)
    (htaken : ∀ j < k, drawn s.nextJobId j ∈ s.jobs) :
    ∃ now timeout, (s.createJobs cs)[k]? =
      some (createWith now timeout (drawn s.nextJobId k)
        { s with nextJobId := counter s.nextJobId (k + 1) }) := by
  induction cs generalizing s k with
  | nil => cases hk
  | cons c cs ih =>
    obtain ⟨now, timeout⟩ := c
    have hfirst := createJob_of_room hroom now timeout
    cases k with
    | zero => exact ⟨now, timeout, congrArg some hfirst⟩
    | succ k =>
      let u : Shared := { s with nextJobId := counter s.nextJobId 1 }
      have hu : drawn s.nextJobId 0 ∈ u.jobs := htaken 0 (Nat.succ_pos k)
      rw [createWith_of_taken hu] at hfirst
      rw [createJobs, hfirst, List.getElem?_cons_succ]
      have huroom : u.jobs.entries.length < u.maxConcurrentJobs := hroom
      exact ih huroom (Nat.lt_of_succ_lt_succ hk)
        fun j hj => htaken (j + 1) (Nat.succ_lt_succ hj)

/-- Among the results of some calls there is a success, under an id that is not zero and
was not registered.  The calls before it found their ids taken, and left the registry and
the time of the last creation alone. -/
def FindsFreeId (s : Shared) (rs : List (Shared × Except Error JobRef)) : Prop :=
  ∃ (k : Nat) (s' : Shared) (h : JobRef) (a : JobHandle),
    rs[k]? = some (s', .ok h) ∧ s'.handles[h]? = some a ∧ s'.getJob a.jobId = some h ∧
      a.jobId ≠ 0 ∧ a.jobId ∉ s.jobs ∧
      ∀ i < k, ∃ (u : Shared) (id : UInt32), rs[i]? = some (u, .error (.jobExists id)) ∧
        u.jobs = s.jobs ∧ u.lastJobCreated = s.lastJobCreated

/-- Below the limit, of one more consecutive calls than there are jobs one finds a free
id, wherever the counter stands. -/
theorem createJob_finds_free_id (s : Shared) (cs : List (SystemTime × Option Duration))
    (hroom : s.jobs.entries.length < s.maxConcurrentJobs)
    (hids : s.jobs.entries.length < 2 ^ 32 - 1)
    (hcs : cs.length = s.jobs.entries.length + 1) : s.FindsFreeId (s.createJobs cs) := by
  have hlen : s.jobs.entries.keys.length = s.jobs.entries.length := List.length_map _
  have hdiffer : ∀ i j, i ≤ s.jobs.entries.keys.length → j ≤ s.jobs.entries.keys.length →
      drawn s.nextJobId i = drawn s.nextJobId j → i = j := by
    intro i j hi hj h
    rw [hlen] at hi hj
    exact eq_of_drawn_eq (Nat.lt_of_le_of_lt hi hids) (Nat.lt_of_le_of_lt hj hids) h
  obtain ⟨k, hk, hfree, htaken⟩ := exists_first_notMem hdiffer
  rw [hlen] at hk
  have hin : ∀ j < k, drawn s.nextJobId j ∈ s.jobs := htaken
  have hnot : drawn s.nextJobId k ∉ s.jobs := hfree
  obtain ⟨now, timeout, hget⟩ := getElem?_createJobs cs hroom (by omega) hin
  rw [createWith, if_neg hnot] at hget
  refine ⟨k, _, _, JobHandle.create (drawn s.nextJobId k) timeout now, hget,
    List.getElem?_concat_length, AList.lookup_insert s.jobs, drawn_ne_zero _ k, hnot, ?_⟩
  intro i hi
  obtain ⟨now', timeout', hget'⟩ := getElem?_createJobs cs hroom (k := i) (by omega)
    fun j hj => hin j (Nat.lt_trans hj hi)
  let u : Shared := { s with nextJobId := counter s.nextJobId (i + 1) }
  have hu : drawn s.nextJobId i ∈ u.jobs := hin i hi
  rw [createWith_of_taken hu] at hget'
  exact ⟨u, drawn s.nextJobId i, hget', rfl, rfl⟩

/-- Two jobs on both sides of the wrap, and the counter before it. -/
def aroundWrap : Shared where
  handles := [JobHandle.create 0xFFFFFFFF none 0, JobHandle.create 1 none 0]
  jobs := ((∅ : AList fun _ : UInt32 => JobRef).insert 0xFFFFFFFF 0).insert 1 1
  nextJobId := 0xFFFFFFFF
  maxConcurrentJobs := 50
  lastJobCreated := 0
  shards := ⟨1, fun _ => 0, fun _ => Nat.one_pos⟩

/-- The third of three calls gets the id 2. -/
theorem createJob_finds_free_id_wrap :
    aroundWrap.FindsFreeId (aroundWrap.createJobs [(1, none), (2, none), (3, none)]) ∧
      (aroundWrap.createJobs [(1, none), (2, none), (3, none)]).map Prod.snd =
        [.error (.jobExists 0xFFFFFFFF), .error (.jobExists 1), .ok 2] :=
  ⟨createJob_finds_free_id aroundWrap [(1, none), (2, none), (3, none)] (by decide)
    (by decide) rfl, by decide⟩

end Shared

end RemoteAgent.JobManager
