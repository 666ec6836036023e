import RemoteAgent.JobManager.Expiry
import RemoteAgent.JobManager.Quiet

/-!
# What the limit counts

`create_job` turns a call away when as many jobs are registered as the limit allows.  A
job stays registered when it has finished, until some cleanup removes it.  So finished
jobs take places away from new ones.

* `Places` is the registry seen from the limit: how many places are taken, and how many
  of them by jobs that have not finished.  `Change` is what can happen to them, and
  `Places.Fair` says that a full registry is full of unfinished jobs.  `Move.fair_iff`
  says which changes keep it.
* `Call.change` is the change that the next step of a call makes.  `places_step` is the
  simulation: a step of the manager changes its places by that.
* `turns_away_iff`: the calls that are turned away in the states of a run find the limit
  taken up by unfinished jobs, exactly if no step of the run changes the places in a way
  that `Change.keeps` excludes.
* `turned_away_by_finished` is a run in which one canceled job is enough to turn a call
  away.
-/

namespace RemoteAgent.JobManager

open CodeLib

/-! ## Places -/

/-- The registered jobs, and those of them that have not finished. -/
structure Places where
  taken : Nat
  busy : Nat
  deriving DecidableEq, Repr

/-- A job is registered under a free id, or in the place of another one.  A registered job
finishes.  A job is removed.  `finished` is about the job that goes. -/
inductive Change where
  | stay
  | enter
  | replace (finished : Bool)
  | finish
  | leave (finished : Bool)
  deriving DecidableEq, Repr

namespace Places

/-- What a change does to the places. -/
inductive Move : Change → Places → Places → Prop where
  | stay (p : Places) : Move .stay p p
  | enter (taken busy : Nat) : Move .enter ⟨taken, busy⟩ ⟨taken + 1, busy + 1⟩
  | replaceFinished (taken busy : Nat) :
    Move (.replace true) ⟨taken, busy⟩ ⟨taken, busy + 1⟩
  | replaceBusy (p : Places) : Move (.replace false) p p
  | finish (taken busy : Nat) : Move .finish ⟨taken, busy + 1⟩ ⟨taken, busy⟩
  | leaveFinished (taken busy : Nat) :
    Move (.leave true) ⟨taken + 1, busy⟩ ⟨taken, busy⟩
  | leaveBusy (taken busy : Nat) :
    Move (.leave false) ⟨taken + 1, busy + 1⟩ ⟨taken, busy⟩

/-- If the limit is reached, unfinished jobs reach it. -/
def Fair (limit : Nat) (p : Places) : Prop := limit ≤ p.taken → limit ≤ p.busy

end Places

/-- The last place is taken only when all the others are taken by unfinished jobs.  In a
full registry a job finishes only when there are more unfinished jobs than the limit, and
so it is with the removal of an unfinished job from a registry that is over the limit. -/
def Change.keeps (limit : Nat) (p : Places) : Change → Bool
  | .enter => p.taken + 1 ≠ limit || p.busy = p.taken
  | .finish => p.taken < limit || limit < p.busy
  | .leave false => p.taken ≤ limit || limit < p.busy
  | _ => true

theorem Places.Move.fair_iff {limit : Nat} {p p' : Places} {x : Change} (h : Move x p p')
    (hp : p.Fair limit) (hbusy : p.busy ≤ p.taken) :
    p'.Fair limit ↔ x.keeps limit p = true := by
  unfold Fair at hp ⊢
  cases h with
  | stay | replaceBusy => exact iff_of_true hp rfl
  | enter taken busy =>
    simp only [Change.keeps, Bool.or_eq_true, decide_eq_true_eq] at hp hbusy ⊢
    omega
  | replaceFinished taken busy =>
    refine iff_of_true ?_ rfl
    intro hfull
    exact Nat.le_succ_of_le (hp hfull)
  | finish taken busy =>
    simp only [Change.keeps, Bool.or_eq_true, decide_eq_true_eq] at hp ⊢
    omega
  | leaveFinished taken busy =>
    refine iff_of_true ?_ rfl
    intro hfull
    exact hp (Nat.le_succ_of_le hfull)
  | leaveBusy taken busy =>
    simp only [Change.keeps, Bool.or_eq_true, decide_eq_true_eq] at hp ⊢
    omega

/-! ## The places of the manager -/

namespace Shared

def places (s : Shared) : Places where
  taken := s.jobs.entries.length
  busy := s.jobs.entries.countP fun e => !s.finished e.2

theorem busy_le_taken (s : Shared) : s.places.busy ≤ s.places.taken :=
  List.countP_le_length

end Shared

/-- The job that a call is about to bring into a terminal state. -/
def Call.finishes? (c : Call) : Option JobRef :=
  match c.transition? with
  | some (_, new, .writeState h _) => if new.isTerminal then some h else none
  | _ => none

/-- The id that a sweep is about to remove. -/
def SweepPc.removes? : SweepPc → Option UInt32
  | .cleanup id .remove _ _ => some id
  | _ => none

/-- The id that a call is about to remove. -/
def Call.removes? : Call → Option UInt32
  | .cleanupJob id .remove => some id
  | .cleanupIdleJobs _ _ (.sweep pc) => pc.removes?
  | .forceCleanupAll (.sweep pc) => pc.removes?
  | _ => none

/-- What the next step of a call changes. -/
def Call.change (s : Shared) (c : Call) : Change :=
  match c.inserts?, c.finishes?, c.removes? with
  | some id, _, _ => ((s.getJob id).map fun h => .replace (s.finished h)).getD .enter
  | none, some h, _ => if s.registers h then .finish else .stay
  | none, none, some id => ((s.getJob id).map fun h => .leave (s.finished h)).getD .stay
  | none, none, none => .stay

namespace Manager

def places (m : Manager) : Places := m.shared.places

def change (m : Manager) : Label → Change
  | .call _ => .stay
  | .step i _ => ((m.calls[i]?).map (Call.change m.shared)).getD .stay

/-- The answer of `create_job` to a call that it turns away. -/
def maximumReached (limit : Nat) : Error :=
  .service ("Maximum concurrent jobs (" ++ toString limit ++ ") reached")

/-- A call of `create_job` that is turned away here finds as many unfinished jobs
registered as the limit allows. -/
def TurnsAwayAtLimit (m : Manager) : Prop :=
  ∀ held now timeout s', CreatePc.lenCheck.step held now timeout m.shared =
      some (s', .ret (.error (maximumReached m.shared.maxConcurrentJobs))) →
    m.shared.maxConcurrentJobs ≤ m.places.busy

theorem turnsAway_iff_fair {m : Manager} :
    m.TurnsAwayAtLimit ↔ m.places.Fair m.shared.maxConcurrentJobs := by
  constructor
  · intro h hfull
    refine h ⟨[], []⟩ 0 none m.shared ?_
    have hlen : m.shared.jobs.entries.length ≥ m.shared.maxConcurrentJobs := hfull
    rw [CreatePc.step, if_pos hlen]
    rfl
  · intro h held now timeout s' hstep
    apply h
    simp only [CreatePc.step] at hstep
    split at hstep
    · assumption
    · cases hstep

end Manager

/-! ## What a step does to the registry -/

theorem SweepPc.act_jobs (s : Shared) (now : SystemTime) (pc : SweepPc) :
    (s.act now pc.action).jobs = (pc.removes?.map fun id => s.jobs.erase id).getD s.jobs := by
  cases pc with
  | cleanup id pc todo n => cases pc <;> rfl
  | _ => rfl

/-- A step of a call inserts what the call is about to insert, or removes what it is about
to remove, or leaves the registry alone. -/
theorem Call.step_jobs {held : Held} {now : SystemTime} {s s' : Shared} {c c' : Call}
    (h : c.step held now s = some (s', c')) :
    s'.jobs = match c.inserts? with
      | some id => s.jobs.insert id s.handles.length
      | none => (c.removes?.map fun id => s.jobs.erase id).getD s.jobs := by
  rw [Call.step_act h]
  cases c with
  | createJob timeout pc => cases pc <;> rfl
  | transitionState id new pc => cases pc <;> rfl
  | cancelJob id pc =>
    cases pc with
    | transition pc => cases pc <;> rfl
    | _ => rfl
  | cleanupJob id pc => cases pc <;> rfl
  | cleanupIdleJobs idle quiet pc =>
    cases pc with
    | sweep pc => exact pc.act_jobs s now
    | _ => rfl
  | forceCleanupAll pc =>
    cases pc with
    | sweep pc => exact pc.act_jobs s now
    | ret => rfl
  | updateActivity id pc => cases pc <;> rfl

/-! ## What a step finishes -/

/-- A write that keeps the states finishes nothing. -/
theorem Shared.finished_modify (s : Shared) (r : JobRef) {f : JobHandle → JobHandle}
    (hf : ∀ a, (f a).state = a.state) (k : JobRef) :
    (s.modify r f).finished k = s.finished k := by
  unfold Shared.finished
  rw [Shared.modify_handles]
  split
  · cases s.handles[k]? <;> simp [hf]
  · rfl

theorem Call.finishes_of_writes {c : Call} (h : c.writes = none) : c.finishes? = none := by
  unfold Call.writes at h
  unfold Call.finishes?
  split
  · rename_i new r old htrans
    simp [htrans, TransitionPc.writes] at h
  · rfl

/-- The last write of a `transition_state` to a terminal state finishes its job.  Nothing
else in it does. -/
theorem TransitionPc.step_finished {held : Held} {now : SystemTime} {id : UInt32}
    {new : JobState} {s s' : Shared} {pc pc' : TransitionPc} (hsound : pc.Sound s new)
    (h : pc.step held now id new s = some (s', pc')) :
    (∃ r old, pc = .writeState r old ∧ new.isTerminal = true ∧ s.finished r = false ∧
        s'.finished r = true ∧ ∀ k, k ≠ r → s'.finished k = s.finished k) ∨
      (∀ r old, pc = .writeState r old → new.isTerminal = false) ∧
        ∀ k, s'.finished k = s.finished k := by
  cases pc with
  | writeState r old =>
    cases h
    obtain ⟨t, hcore, hcan, -⟩ := hsound
    obtain ⟨a, ha, heq⟩ := Option.map_eq_some_iff.mp hcore
    obtain rfl : a.state = old := (Prod.mk.inj heq).1
    have hbefore : s.finished r = false := by
      simp [Shared.finished, ha, JobState.isTerminal_eq_false_of_canTransitionTo hcan]
    have hafter : (s.modify r fun a => { a with state := new }).finished r =
        new.isTerminal := by
      simp [Shared.finished, Shared.modify_handles, ha]
    have hother : ∀ k, k ≠ r →
        (s.modify r fun a => { a with state := new }).finished k = s.finished k := by
      intro k hk
      exact finished_congr (s.core_modify_ne hk _)
    cases hnew : new.isTerminal with
    | true => exact Or.inl ⟨r, a.state, rfl, rfl, hbefore, hafter.trans hnew, hother⟩
    | false =>
      refine Or.inr ⟨fun _ _ _ => rfl, fun k => ?_⟩
      by_cases hk : k = r
      · rw [hk, hafter, hnew, hbefore]
      · exact hother k hk
  | writeActivity r old =>
    cases h
    exact Or.inr ⟨by simp, s.finished_modify r fun _ => rfl⟩
  | writeCompleted r old t =>
    cases h
    exact Or.inr ⟨by simp, s.finished_modify r fun _ => rfl⟩
  | getJob | lockState r | check r =>
    refine Or.inr ⟨by simp, fun k => ?_⟩
    simp only [TransitionPc.step] at h
    repeat' split at h
    all_goals cases h <;> rfl
  | unlock r old =>
    cases h
    exact Or.inr ⟨by simp, fun _ => rfl⟩
  | ret r => cases h

/-- The same for a step of any call. -/
theorem Call.step_finished {held : Held} {now : SystemTime} {s s' : Shared} {c c' : Call}
    (hsound : ∀ id new pc, c.transition? = some (id, new, pc) → pc.Sound s new)
    (h : c.step held now s = some (s', c')) :
    (∃ r, c.finishes? = some r ∧ s.finished r = false ∧ s'.finished r = true ∧
        ∀ k, k ≠ r → s'.finished k = s.finished k) ∨
      c.finishes? = none ∧ ∀ k, s'.finished k = s.finished k := by
  rcases Call.step_cases h with ⟨id, new, pc, pc', htrans, hs, -⟩ |
    ⟨id, timeout, hhandles, hwrites, -, -⟩ | hplain
  · rcases TransitionPc.step_finished (hsound id new pc htrans) hs with
      ⟨r, old, rfl, hnew, hbefore, hafter, hother⟩ | ⟨hpc, hsame⟩
    · exact Or.inl ⟨r, by simp [Call.finishes?, htrans, hnew], hbefore, hafter, hother⟩
    · refine Or.inr ⟨?_, hsame⟩
      cases pc with
      | writeState r old => simp [Call.finishes?, htrans, hpc r old rfl]
      | _ => simp [Call.finishes?, htrans]
  · -- a new handle is in no terminal state, and neither is a handle that is not there
    refine Or.inr ⟨finishes_of_writes hwrites, fun k => ?_⟩
    by_cases hk : k = s.handles.length
    · subst hk
      simp [Shared.finished, hhandles, JobHandle.create, JobState.isTerminal]
    · simp only [Shared.finished, hhandles, getElem?_concat_ne hk]
  · exact Or.inr ⟨finishes_of_writes hplain.writes, fun k => finished_congr (hplain.core k)⟩

/-! ## The simulation -/

namespace Shared

section places

variable {s s' : Shared} {id : UInt32} {h : JobRef}

/-- The entry of a registered job, and the others. -/
theorem entries_perm (hget : s.getJob id = some h) :
    s.jobs.entries.Perm (⟨id, h⟩ :: s.jobs.entries.kerase id) := by
  have hmem : (⟨id, h⟩ : Sigma fun _ : UInt32 => JobRef) ∈ s.jobs.entries :=
    AList.mem_lookup_iff.mp hget
  obtain ⟨r, l₁, l₂, -, hentries, hrest⟩ :=
    List.exists_of_kerase (List.mem_keys_of_mem hmem)
  obtain rfl : r = h := by
    apply s.jobs.nodupKeys.eq_of_mk_mem _ hmem
    rw [hentries]
    simp
  rw [hrest, hentries]
  exact List.perm_middle

theorem places_congr (hjobs : s'.jobs = s.jobs)
    (hfin : ∀ e ∈ s.jobs.entries, s'.finished e.2 = s.finished e.2) :
    s'.places = s.places := by
  simp only [places, hjobs, Places.mk.injEq, true_and]
  apply List.countP_congr
  intro e he
  rw [hfin e he]

/-- The places of a registry with the entry of one job set apart. -/
theorem places_eq (hget : s.getJob id = some h) :
    s.places =
      ⟨(s.jobs.entries.kerase id).length + 1,
        (s.jobs.entries.kerase id).countP (fun e => !s.finished e.2) +
          if s.finished h then 0 else 1⟩ := by
  have hperm := entries_perm hget
  simp only [places, hperm.length_eq, hperm.countP_eq, List.countP_cons, List.length_cons]
  cases s.finished h <;> rfl

/-- A job that was not there is registered. -/
theorem places_insert (hjobs : s'.jobs = s.jobs.insert id h)
    (hfin : ∀ k, s'.finished k = s.finished k) (hnew : s.finished h = false) :
    Places.Move (((s.getJob id).map fun r => .replace (s.finished r)).getD .enter)
      s.places s'.places := by
  have hplaces : s'.places =
      ⟨(s.jobs.entries.kerase id).length + 1,
        (s.jobs.entries.kerase id).countP (fun e => !s.finished e.2) + 1⟩ := by
    simp [places, hjobs, AList.entries_insert, hfin, hnew]
  rw [hplaces]
  cases hget : s.getJob id with
  | none =>
    have hkeys : id ∉ s.jobs.entries.keys := AList.lookup_eq_none.mp hget
    rw [List.kerase_of_notMem_keys hkeys]
    exact .enter _ _
  | some r =>
    rw [places_eq hget, Option.map_some, Option.getD_some]
    cases s.finished r with
    | true => exact .replaceFinished _ _
    | false => exact .replaceBusy _

/-- A job is removed. -/
theorem places_erase (hjobs : s'.jobs = s.jobs.erase id)
    (hfin : ∀ k, s'.finished k = s.finished k) :
    Places.Move (((s.getJob id).map fun r => .leave (s.finished r)).getD .stay)
      s.places s'.places := by
  have hplaces : s'.places =
      ⟨(s.jobs.entries.kerase id).length,
        (s.jobs.entries.kerase id).countP (fun e => !s.finished e.2)⟩ := by
    simp only [places, hjobs, hfin]
    rfl
  rw [hplaces]
  cases hget : s.getJob id with
  | none =>
    have hkeys : id ∉ s.jobs.entries.keys := AList.lookup_eq_none.mp hget
    rw [List.kerase_of_notMem_keys hkeys]
    exact .stay _
  | some r =>
    rw [places_eq hget, Option.map_some, Option.getD_some]
    cases s.finished r with
    | true => exact .leaveFinished _ _
    | false => exact .leaveBusy _ _

/-- A job finishes. -/
theorem places_finish (hreg : s.Registered) (hjobs : s'.jobs = s.jobs)
    (hbefore : s.finished h = false) (hafter : s'.finished h = true)
    (hother : ∀ k, k ≠ h → s'.finished k = s.finished k) :
    Places.Move (if s.registers h then .finish else .stay) s.places s'.places := by
  by_cases hr : s.registers h = true
  · rw [if_pos hr]
    obtain ⟨id, hget⟩ := registers_iff.mp hr
    have hmem := AList.mem_lookup_iff.mp hget
    have hcount : s'.places.busy + 1 = s.places.busy := by
      simp only [places, hjobs]
      apply countP_lose s.jobs.nodupKeys.nodup hmem
      · simp [hbefore]
      · simp [hafter]
      · rintro ⟨id', r⟩ he hne
        have hr' : r ≠ h := by
          rintro rfl
          have hid := Locks.ref_inj hreg (AList.mem_lookup_iff.mpr he) hget
          exact hne (by rw [hid])
        rw [hother r hr']
    have hplaces : s.places = ⟨s'.places.taken, s'.places.busy + 1⟩ := by
      rw [hcount]
      simp only [places, hjobs]
    rw [hplaces]
    exact .finish _ _
  · have hsame : s'.places = s.places := by
      apply places_congr hjobs
      intro e he
      apply hother
      intro heq
      exact hr (registers_iff.mpr ⟨e.1, heq ▸ AList.mem_lookup_iff.mpr he⟩)
    rw [if_neg hr, hsame]
    exact .stay _

end places

end Shared

theorem Call.removes_of_finishes {c : Call} {r : JobRef} (h : c.finishes? = some r) :
    c.removes? = none := by
  cases c <;> first
    | rfl
    | cases h

/-- A step of a call changes the places as `Call.change` says. -/
theorem Call.step_places {held : Held} {now : SystemTime} {s s' : Shared} {c c' : Call}
    (hreg : s.Registered)
    (hsound : ∀ id new pc, c.transition? = some (id, new, pc) → pc.Sound s new)
    (h : c.step held now s = some (s', c')) :
    Places.Move (c.change s) s.places s'.places := by
  have hjobs := Call.step_jobs h
  have hfinished := Call.step_finished hsound h
  cases hins : c.inserts? with
  | some id =>
    rw [hins] at hjobs
    have hnone : c.finishes? = none := by
      cases c <;> first
        | rfl
        | cases hins
    have hsame : ∀ k, s'.finished k = s.finished k := by
      rcases hfinished with ⟨r, hr, -⟩ | ⟨-, hsame⟩
      · rw [hnone] at hr
        cases hr
      · exact hsame
    have hnew : s.finished s.handles.length = false := by simp [Shared.finished]
    simp only [Call.change, hins]
    exact Shared.places_insert hjobs hsame hnew
  | none =>
    rw [hins] at hjobs
    rcases hfinished with ⟨r, hr, hbefore, hafter, hother⟩ | ⟨hnone, hsame⟩
    · simp only [removes_of_finishes hr] at hjobs
      simp only [Call.change, hins, hr]
      exact Shared.places_finish hreg hjobs hbefore hafter hother
    · cases hrem : c.removes? with
      | none =>
        simp only [hrem] at hjobs
        simp only [Call.change, hins, hnone, hrem]
        rw [Shared.places_congr hjobs fun e _ => hsame e.2]
        exact .stay _
      | some id =>
        simp only [hrem] at hjobs
        simp only [Call.change, hins, hnone, hrem]
        exact Shared.places_erase hjobs hsame

namespace Manager

theorem places_step {m m' : Manager} {l : Label} (hinv : Inv m) (hreg : m.shared.Registered)
    (hstep : m.step l = some m') : Places.Move (m.change l) m.places m'.places := by
  cases l with
  | call op =>
    cases hstep
    exact .stay _
  | step i now =>
    obtain ⟨c, s', c', hi, hs, rfl⟩ := step_call_inv hstep
    have hmove := Call.step_places hreg (fun id new pc => hinv.sound i c id new pc hi) hs
    have hchange : m.change (.step i now) = c.change m.shared := by simp [change, hi]
    rw [hchange]
    exact hmove

theorem limit_step {m m' : Manager} {l : Label} (hstep : m.step l = some m') :
    m'.shared.maxConcurrentJobs = m.shared.maxConcurrentJobs := by
  cases l with
  | call op =>
    cases hstep
    rfl
  | step i now =>
    obtain ⟨c, s', c', -, hs, rfl⟩ := step_call_inv hstep
    rw [Call.step_act hs]
    exact m.shared.act_maxConcurrentJobs now c.action

/-- The step changes the places in a way that keeps a full registry full of unfinished
jobs. -/
def KeepsPlaces (m : Manager) (l : Label) : Prop :=
  (m.change l).keeps m.shared.maxConcurrentJobs m.places = true

instance (m : Manager) (l : Label) : Decidable (KeepsPlaces m l) :=
  inferInstanceAs (Decidable (_ = _))

/-- The calls of `create_job` that are turned away in the states of a run find the limit
taken up by unfinished jobs, exactly if every step of the run keeps the places. -/
theorem turns_away_iff {m₀ m : Manager} {ls : List Label} (h0 : Initial m₀)
    (hp : machine.Path StepMachine.Any m₀ ls m) :
    (∀ u ∈ machine.states m₀ ls, u.TurnsAwayAtLimit) ↔
      machine.Path KeepsPlaces m₀ ls m := by
  have hfair_iff : ∀ u l v, Inv u → u.shared.Registered → u.TurnsAwayAtLimit →
      u.step l = some v → (v.TurnsAwayAtLimit ↔ KeepsPlaces u l) := by
    intro u l v hinv hreg hu hstep
    rw [turnsAway_iff_fair] at hu ⊢
    rw [limit_step hstep]
    exact (places_step hinv hreg hstep).fair_iff hu u.shared.busy_le_taken
  refine hp.forall_states_iff_path
    (I := fun u => Inv u ∧ u.shared.Registered ∧ u.TurnsAwayAtLimit)
    (fun _ hu => hu.2.2) ?_ ?_ ?_
  · rintro u l v ⟨hinv, hreg, hu⟩ hkeeps hstep
    exact ⟨inv_step hinv hstep, registered_step hreg hstep,
      (hfair_iff u l v hinv hreg hu hstep).mpr hkeeps⟩
  · rintro u l v ⟨hinv, hreg, hu⟩ hstep hbreak hv
    exact hbreak ((hfair_iff u l v hinv hreg hu hstep).mp hv)
  · refine ⟨inv_initial h0, registered_initial h0, turnsAway_iff_fair.mpr ?_⟩
    intro hfull
    have hempty : m₀.shared.jobs.entries = [] := by
      rw [h0.2.1]
      rfl
    have hzero : m₀.places = ⟨0, 0⟩ := by
      simp [places, Shared.places, hempty]
    rw [hzero] at hfull ⊢
    exact hfull

/-- Call `i` was turned away. -/
def turnedAway (i : Nat) (m : Manager) : Bool :=
  match (m.calls[i]? : Option Call) with
  | some (.createJob _ (.ret (.error (.service _)))) => true
  | _ => false

/-- With a limit of one, the second call is turned away by an unfinished job.  After the
cleanup of that job the third is not. -/
theorem turns_away_iff_one :
    ∃ m ls, machine.Path StepMachine.Any (fresh 1) ls m ∧
      (∀ u ∈ machine.states (fresh 1) ls, u.TurnsAwayAtLimit) ∧
      m.turnedAway 1 = true ∧ m.places = ⟨1, 1⟩ := by
  let ls : List Label :=
    [.call (.createJob none), .step 0 1, .step 0 1, .step 0 1, .step 0 1, .step 0 1,
      .call (.createJob none), .step 1 2,
      .call (.cleanupJob 1), .step 2 3, .step 2 3, .step 2 3,
      .call (.createJob none), .step 3 4, .step 3 4, .step 3 4, .step 3 4, .step 3 4]
  have hrun : (machine.runIf KeepsPlaces (fresh 1) ls).any
      (fun m => m.turnedAway 1 && m.places = ⟨1, 1⟩) = true := by
    decide +kernel
  obtain ⟨m, hm, hprop⟩ := (Option.any_eq_true _ _).mp hrun
  rw [Bool.and_eq_true, decide_eq_true_eq] at hprop
  have hkeeps := StepMachine.path_of_runIf hm
  have hpath := hkeeps.mono (D := StepMachine.Any) fun _ _ _ => trivial
  exact ⟨m, ls, hpath, (turns_away_iff (fresh_initial 1) hpath).mpr hkeeps, hprop⟩

/-- With a limit of one, a canceled job that is still registered turns a call away. -/
theorem turned_away_by_finished :
    ∃ m, machine.Reachable m ∧ ¬ m.TurnsAwayAtLimit ∧ m.turnedAway 2 = true ∧
      m.places = ⟨1, 0⟩ := by
  obtain ⟨m, hm, hprop⟩ := StepMachine.reach_of_runIf machine StepMachine.Any
    (fresh_initial 1)
    [.call (.createJob none), .step 0 1, .step 0 1, .step 0 1, .step 0 1, .step 0 1,
      .call (.transitionState 1 .canceled), .step 1 2, .step 1 2, .step 1 2, .step 1 2,
      .step 1 2, .step 1 2, .step 1 2,
      .call (.createJob none), .step 2 3]
    (fun m => m.shared.maxConcurrentJobs == 1 && (m.turnedAway 2 && m.places = ⟨1, 0⟩))
    (by decide +kernel)
  simp only [Bool.and_eq_true, beq_iff_eq, decide_eq_true_eq] at hprop
  obtain ⟨hlimit, haway, hplaces⟩ := hprop
  refine ⟨m, hm, ?_, haway, hplaces⟩
  rw [turnsAway_iff_fair, hlimit, hplaces]
  intro hfair
  exact absurd (hfair (Nat.le_refl 1)) (by decide)

end Manager

end RemoteAgent.JobManager
