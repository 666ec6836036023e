import RemoteAgent.JobManager.Expiry
import RemoteAgent.JobManager.Numbering

/-!
# How jobs leave the registry

Three callers remove jobs, and all of them go through `cleanup_job`: it looks the job up,
cancels its token, and removes what is registered under the id by then.  The three are
separate steps, so in between the id could come to belong to another job, which would leave
the registry with a token that nobody has cancelled.  Ids that are not used twice rule that
out.

* `CleanupPc.Backed` is what a call of `cleanup_job` knows on its way: there is a job with
  its id, and before the removal that job is cancelled.  Nothing makes it false
  (`CleanupPc.Backed.act`).
* `Departed` is the invariant: a job whose token is not cancelled is registered under its id.
* `departed_canceled`: in every run that does not use an id twice, every job that was built
  and is not registered has had its token cancelled.
-/

namespace RemoteAgent.JobManager

open CodeLib

/-! ## What stays of a handle -/

theorem Shared.getElem?_modify_some (s : Shared) (r : JobRef) (f : JobHandle → JobHandle)
    {h : JobRef} {b : JobHandle} (hb : s.handles[h]? = some b) :
    (s.modify r f).handles[h]? = some (if r = h then f b else b) := by
  rw [modify_handles, hb]
  split <;> rfl

/-- Every write keeps the handles that are there, with their ids, and lowers no token. -/
theorem Shared.token_act (s : Shared) (now : SystemTime) (a : Action) {h : JobRef}
    {b : JobHandle} (hb : s.handles[h]? = some b) :
    ∃ b' : JobHandle, (s.act now a).handles[h]? = some b' ∧ b'.jobId = b.jobId ∧
      (b.cancellationToken = true → b'.cancellationToken = true) := by
  cases a with
  | insert id timeout => exact ⟨b, getElem?_concat_of_some hb, rfl, fun ht => ht⟩
  | touch r | cancel r | complete r t | enter r new =>
    refine ⟨_, s.getElem?_modify_some r _ hb, ?_⟩
    split
    · first
        | exact ⟨rfl, fun ht => ht⟩
        | exact ⟨rfl, fun _ => rfl⟩
    · exact ⟨rfl, fun ht => ht⟩
  | stay | remove id | draw | created t => exact ⟨b, hb, rfl, fun ht => ht⟩

/-- Where a handle with a token that is not cancelled comes from. -/
theorem Shared.untouched_act {s : Shared} {now : SystemTime} {a : Action} {h : JobRef}
    {b' : JobHandle} (hb' : (s.act now a).handles[h]? = some b')
    (htoken : b'.cancellationToken = false) :
    (∃ b : JobHandle, s.handles[h]? = some b ∧ b.jobId = b'.jobId ∧
        b.cancellationToken = false) ∨
      (∃ timeout, a = .insert b'.jobId timeout) ∧ h = s.handles.length := by
  cases hb : s.handles[h]? with
  | some b =>
    obtain ⟨b₁, hb₁, hid, hmono⟩ := s.token_act now a hb
    obtain rfl := Option.some.inj (hb'.symm.trans hb₁)
    refine Or.inl ⟨b, rfl, hid.symm, ?_⟩
    cases hold : b.cancellationToken with
    | false => rfl
    | true => exact absurd (hmono hold) (by simp [htoken])
  | none =>
    right
    rcases s.jobIds_act now a with ⟨id, timeout, rfl, -⟩ | ⟨-, hids⟩
    · rcases getElem?_concat_cases hb' with hold | ⟨rfl, rfl⟩
      · cases hb.symm.trans hold
      · exact ⟨⟨timeout, rfl⟩, rfl⟩
    · have hget := congrArg (fun ids => ids[h]?) hids
      simp [jobIds, hb, hb'] at hget

/-! ## The position of a call of `cleanup_job` -/

/-- The `cleanup_job` that a call is in, itself or for a sweep. -/
def Call.cleansUp? : Call → Option (UInt32 × CleanupPc)
  | .cleanupJob id pc => some (id, pc)
  | .cleanupIdleJobs _ _ (.sweep (.cleanup id pc _ _)) => some (id, pc)
  | .forceCleanupAll (.sweep (.cleanup id pc _ _)) => some (id, pc)
  | _ => none

/-- What the call knows. -/
def CleanupPc.Backed (s : Shared) (id : UInt32) : CleanupPc → Prop
  | .cancelToken h => ∃ a : JobHandle, s.handles[h]? = some a ∧ a.jobId = id
  | .remove => ∃ (h : JobRef) (a : JobHandle), s.handles[h]? = some a ∧ a.jobId = id ∧
      a.cancellationToken = true
  | _ => True

theorem CleanupPc.Backed.act {s : Shared} {id : UInt32} {pc : CleanupPc}
    (h : pc.Backed s id) (now : SystemTime) (a : Action) : pc.Backed (s.act now a) id := by
  cases pc with
  | getJob | ret r => exact h
  | cancelToken r =>
    obtain ⟨b, hb, hid⟩ := h
    obtain ⟨b', hb', hid', -⟩ := s.token_act now a hb
    exact ⟨b', hb', hid'.trans hid⟩
  | remove =>
    obtain ⟨r, b, hb, hid, htoken⟩ := h
    obtain ⟨b', hb', hid', hmono⟩ := s.token_act now a hb
    exact ⟨r, b', hb', hid'.trans hid, hmono htoken⟩

theorem CleanupPc.Backed.step {held : Held} {s s' : Shared} {id : UInt32} {pc pc' : CleanupPc}
    (h : pc.Backed s id) (hs : s.Registered) (hstep : pc.step held id s = some (s', pc')) :
    pc'.Backed s' id := by
  cases pc with
  | getJob =>
    simp only [CleanupPc.step] at hstep
    split at hstep
    · cases hstep
      trivial
    · rename_i r hr
      cases hstep
      exact hs id r hr
  | cancelToken r =>
    obtain ⟨b, hb, hid⟩ := h
    cases hstep
    exact ⟨r, b.cancel, by rw [s.getElem?_modify_some r _ hb, if_pos rfl], hid, rfl⟩
  | remove =>
    simp only [CleanupPc.step] at hstep
    split at hstep <;> cases hstep
    trivial
  | ret r => cases hstep

/-- A sweep begins a `cleanup_job`, or goes on with the one that it is in. -/
theorem SweepPc.step_cleansUp {held : Held} {s s' : Shared} {pc : SweepPc} {id : UInt32}
    {q' : CleanupPc} {todo : List UInt32} {n : Nat}
    (h : pc.step held s = some (s', .cleanup id q' todo n)) :
    q' = .getJob ∨ ∃ q, pc = .cleanup id q todo n ∧ q.step held id s = some (s', q') := by
  cases pc with
  | collect it keys =>
    simp only [SweepPc.step] at h
    split at h <;> cases h
  | next todo' n' =>
    cases todo' with
    | nil => cases h
    | cons id' todo' =>
      cases h
      exact Or.inl rfl
  | cleanup id' q todo' n' =>
    cases q with
    | ret r => cases r <;> cases h
    | _ =>
      simp only [SweepPc.step, Option.map_eq_some_iff, Prod.mk.injEq] at h
      obtain ⟨⟨s₁, q₁⟩, hq, rfl, hcleanup⟩ := h
      cases hcleanup
      exact Or.inr ⟨_, rfl, hq⟩

theorem ForcePc.step_of_sweep {held : Held} {s s' : Shared} {pc : SweepPc} {pc' : ForcePc}
    (h : (ForcePc.sweep pc).step held s = some (s', pc')) :
    (∃ n, pc = .next [] n ∧ s' = s ∧ pc' = .ret) ∨
      ∃ q, pc.step held s = some (s', q) ∧ pc' = .sweep q := by
  by_cases hend : ∃ n, pc = .next [] n
  · obtain ⟨n, rfl⟩ := hend
    cases h
    exact Or.inl ⟨n, rfl, rfl, rfl⟩
  · have hstep : (ForcePc.sweep pc).step held s =
        (pc.step held s).map fun r => (r.1, .sweep r.2) := by
      unfold ForcePc.step
      split <;> simp_all
    rw [hstep] at h
    simp only [Option.map_eq_some_iff, Prod.mk.injEq] at h
    obtain ⟨⟨s₁, q⟩, hs, rfl, rfl⟩ := h
    exact Or.inr ⟨q, hs, rfl⟩

/-- The idle branch and the quiet branch enter their sweeps in front of every removal. -/
theorem IdlePc.step_to_cleanup {held : Held} {time : SystemTime} {idle quiet : Duration}
    {s s' : Shared} {pc : IdlePc} {id : UInt32} {q : CleanupPc} {todo : List UInt32} {n : Nat}
    (h : pc.step held time idle quiet s = some (s', .sweep (.cleanup id q todo n))) :
    ∃ p, pc = .sweep p ∧ p.step held s = some (s', .cleanup id q todo n) := by
  cases pc with
  | sweep p =>
    rcases IdlePc.step_of_sweep h with ⟨m, -, -, hret⟩ | ⟨p', hp, hsweep⟩
    · cases hret
    · cases hsweep
      exact ⟨p, rfl, hp⟩
  | begin | visitState now it r id' r' | ret m => cases h
  | _ =>
    simp only [IdlePc.step] at h
    repeat' split at h
    all_goals cases h

/-- A call begins a `cleanup_job`, or goes on with the one that it is in. -/
theorem Call.step_cleansUp {held : Held} {now : SystemTime} {s s' : Shared} {c c' : Call}
    {id : UInt32} {q' : CleanupPc} (h : c.step held now s = some (s', c'))
    (hc' : c'.cleansUp? = some (id, q')) :
    q' = .getJob ∨ ∃ q, c.cleansUp? = some (id, q) ∧ q.step held id s = some (s', q') := by
  cases c <;> obtain ⟨⟨s₁, pc'⟩, hs, heq⟩ := Option.map_eq_some_iff.mp h <;> cases heq
  case cleanupJob id' pc =>
    cases hc'
    exact Or.inr ⟨pc, rfl, hs⟩
  case cleanupIdleJobs idle quiet pc =>
    cases pc' with
    | sweep p' =>
      cases p' with
      | cleanup id' q todo n =>
        cases hc'
        obtain ⟨p, rfl, hp⟩ := IdlePc.step_to_cleanup hs
        exact (SweepPc.step_cleansUp hp).imp_right fun ⟨q, hpc, hq⟩ => ⟨q, by rw [hpc]; rfl, hq⟩
      | _ => cases hc'
    | _ => cases hc'
  case forceCleanupAll pc =>
    cases pc' with
    | sweep p' =>
      cases p' with
      | cleanup id' q todo n =>
        cases hc'
        cases pc with
        | sweep p =>
          rcases ForcePc.step_of_sweep hs with ⟨m, -, -, hret⟩ | ⟨p', hp, hsweep⟩
          · cases hret
          · cases hsweep
            exact (SweepPc.step_cleansUp hp).imp_right
              fun ⟨q, hpc, hq⟩ => ⟨q, by rw [hpc]; rfl, hq⟩
        | ret => cases hs
      | _ => cases hc'
    | ret => cases hc'
  all_goals cases hc'

/-- Only `cleanup_job` removes jobs. -/
theorem Call.cleansUp_of_remove {c : Call} {id : UInt32} (h : c.action = .remove id) :
    c.cleansUp? = some (id, .remove) := by
  have hsweep : ∀ pc : SweepPc, pc.action = .remove id →
      ∃ todo n, pc = .cleanup id .remove todo n := by
    intro pc hpc
    cases pc with
    | cleanup id' q todo n =>
      cases q <;> cases hpc
      exact ⟨todo, n, rfl⟩
    | _ => cases hpc
  cases c with
  | createJob timeout pc | transitionState id' new pc | updateActivity id' pc =>
    cases pc <;> cases h
  | cancelJob id' pc =>
    cases pc with
    | transition pc => cases pc <;> cases h
    | _ => cases h
  | cleanupJob id' pc =>
    cases pc <;> cases h
    rfl
  | cleanupIdleJobs idle quiet pc =>
    cases pc with
    | sweep pc =>
      obtain ⟨todo, n, rfl⟩ := hsweep pc h
      rfl
    | _ => cases h
  | forceCleanupAll pc =>
    cases pc with
    | sweep pc =>
      obtain ⟨todo, n, rfl⟩ := hsweep pc h
      rfl
    | ret => cases h

/-! ## The invariant -/

theorem Shared.ref_unique {s : Shared} (hs : s.jobIds.Nodup) {h k : JobRef} {a b : JobHandle}
    (ha : s.handles[h]? = some a) (hb : s.handles[k]? = some b) (hid : a.jobId = b.jobId) :
    h = k := by
  have hget : s.jobIds[h]? = some a.jobId := by simp [jobIds, ha]
  have hget' : s.jobIds[k]? = some a.jobId := by simp [jobIds, hb, hid]
  obtain ⟨hlt, heq⟩ := List.getElem?_eq_some_iff.mp hget
  obtain ⟨hlt', heq'⟩ := List.getElem?_eq_some_iff.mp hget'
  exact (hs.getElem_inj_iff).mp (heq.trans heq'.symm)

namespace Manager

/-- A job whose token is not cancelled is registered. -/
structure Departed (m : Manager) : Prop where
  backed : ∀ (i : Nat) (c : Call) id pc, m.calls[i]? = some c →
    c.cleansUp? = some (id, pc) → pc.Backed m.shared id
  left : ∀ (h : JobRef) (a : JobHandle), m.shared.handles[h]? = some a →
    a.cancellationToken = false → m.shared.getJob a.jobId = some h

/-- A job that was built and is not registered any more is cancelled. -/
theorem Departed.canceled {m : Manager} (hm : m.Departed) {h : JobRef} {a : JobHandle}
    (ha : m.shared.handles[h]? = some a) (hgone : m.shared.getJob a.jobId ≠ some h) :
    a.cancellationToken = true := by
  cases htoken : a.cancellationToken with
  | true => rfl
  | false => exact absurd (hm.left h a ha htoken) hgone

theorem departed_initial {m : Manager} (h : Initial m) : m.Departed := by
  refine ⟨?_, ?_⟩
  · intro i c id pc hi
    simp [h.2.2] at hi
  · intro k a hk
    simp [h.1] at hk

/-- A write of a call that knows what `Departed` says of it. -/
theorem left_act {s : Shared} {now : SystemTime} {a : Action}
    (hleft : ∀ (h : JobRef) (b : JobHandle), s.handles[h]? = some b →
      b.cancellationToken = false → s.getJob b.jobId = some h)
    (hremove : ∀ id, a = .remove id → CleanupPc.remove.Backed s id)
    (hids : (s.act now a).jobIds.Nodup) {h : JobRef} {b' : JobHandle}
    (hb' : (s.act now a).handles[h]? = some b') (htoken : b'.cancellationToken = false) :
    (s.act now a).getJob b'.jobId = some h := by
  rcases Shared.untouched_act hb' htoken with ⟨b, hb, hid, hold⟩ | ⟨⟨timeout, rfl⟩, rfl⟩
  · have hget := hleft h b hb hold
    rw [hid] at hget
    cases a with
    | remove id =>
      obtain ⟨k, d, hd, hdid, hdtoken⟩ := hremove id rfl
      have hne : b'.jobId ≠ id := by
        intro heq
        have hkh : k = h := Shared.ref_unique hids hd hb (hdid.trans (hid.trans heq).symm)
        subst hkh
        obtain rfl := Option.some.inj (hd.symm.trans hb)
        rw [hdtoken] at hold
        cases hold
      exact (AList.lookup_erase_ne hne).trans hget
    | insert id timeout =>
      have hne : b'.jobId ≠ id := by
        intro heq
        have hnew : (s.act now (.insert id timeout)).handles[s.handles.length]? =
            some (JobHandle.create id timeout now) := List.getElem?_concat_length
        have hlen := Shared.ref_unique hids hb' hnew heq
        exact Nat.ne_of_lt (List.getElem?_eq_some_iff.mp hb).1 hlen
      exact (AList.lookup_insert_ne hne).trans hget
    | _ => exact hget
  · exact AList.lookup_insert s.jobs

/-- Every step of a run that does not use an id twice keeps the invariant. -/
theorem departed_step {m m' : Manager} {l : Label} (hm : m.Departed)
    (hreg : m.shared.Registered) (hids : m'.shared.jobIds.Nodup)
    (hstep : m.step l = some m') : m'.Departed := by
  cases l with
  | call op =>
    obtain rfl := Option.some.inj hstep
    refine ⟨?_, hm.left⟩
    intro i c id pc hi hc
    rcases getElem?_concat_cases hi with hi | ⟨-, rfl⟩
    · exact hm.backed i c id pc hi hc
    · cases op <;> cases hc
      trivial
  | step i now =>
    obtain ⟨c, s', c', hi, hs, rfl⟩ := step_call_inv hstep
    have hact := Call.step_act hs
    refine ⟨?_, ?_⟩
    · intro j d id pc hj hd
      rcases getElem?_set_cases hj with ⟨rfl, rfl⟩ | ⟨-, hj⟩
      · rcases Call.step_cleansUp hs hd with rfl | ⟨q, hq, hpc⟩
        · trivial
        · exact (hm.backed _ c id q hi hq).step hreg hpc
      · show pc.Backed s' id
        rw [hact]
        exact (hm.backed j d id pc hj hd).act now c.action
    · intro h b' hb' htoken
      subst hact
      refine left_act hm.left (fun id hremove => ?_) hids hb' htoken
      exact hm.backed i c id .remove hi (Call.cleansUp_of_remove hremove)

end Manager

namespace Metered

theorem registered_reach {x : Metered} (hx : machine.Reach InFirstTurn x) :
    x.manager.shared.Registered := by
  refine hx.invariant (I := fun x => x.manager.shared.Registered) ?_ ?_
  · exact fun x h => Manager.registered_initial h.1
  · intro x l x' hreg _ hstep
    obtain ⟨m', hm', rfl⟩ := Option.map_eq_some_iff.mp hstep
    exact Manager.registered_step hreg hm'

theorem departed_reach {x : Metered} (hx : machine.Reach InFirstTurn x) :
    x.manager.Departed := by
  refine (hx.invariant (I := fun x => machine.Reach InFirstTurn x ∧ x.manager.Departed)
    ?_ ?_).2
  · exact fun x h => ⟨⟨x, [], h, .nil x⟩, Manager.departed_initial h.1⟩
  · rintro x l x' ⟨hr, hx⟩ hc hstep
    have hr' := hr.step hc hstep
    refine ⟨hr', ?_⟩
    have hids := (numbered_reach hr').jobIds_nodup
    obtain ⟨m', hm', rfl⟩ := Option.map_eq_some_iff.mp hstep
    exact Manager.departed_step hx (registered_reach hr) hids hm'

/-- Jobs leave the registry cancelled.  In every run with at most `2 ^ 32` increments of the
counter, whoever removes jobs and whatever happens in between: the token of every job that
was built and is not registered any more has been cancelled. -/
theorem departed_canceled {x : Metered} (hx : machine.Reach InFirstTurn x) {h : JobRef}
    {a : JobHandle} (ha : x.manager.shared.handles[h]? = some a)
    (hgone : x.manager.shared.getJob a.jobId ≠ some h) : a.cancellationToken = true :=
  (departed_reach hx).canceled ha hgone

/-- A job is created and removed, and its id names nothing. -/
theorem departed_canceled_removed :
    ∃ x a, machine.Reach InFirstTurn x ∧ x.manager.shared.handles[0]? = some a ∧
      x.manager.shared.getJob a.jobId = none ∧ a.cancellationToken = true := by
  obtain ⟨x, hx, hprop⟩ := StepMachine.reach_of_runIf machine InFirstTurn aboutToWrap_initial
    [.call (.createJob none), .step 0 1, .step 0 1, .step 0 1, .step 0 1,
      .call (.cleanupJob 0xFFFFFFFF), .step 1 2, .step 1 2, .step 1 2]
    (fun x => (x.manager.shared.handles[0]?).any fun a =>
      x.manager.shared.getJob a.jobId == none)
    (by decide +kernel)
  simp only [Option.any_eq_true, beq_iff_eq] at hprop
  obtain ⟨a, ha, hgone⟩ := hprop
  exact ⟨x, a, hx, ha, hgone, departed_canceled hx ha (by simp [hgone])⟩

end Metered

end RemoteAgent.JobManager
