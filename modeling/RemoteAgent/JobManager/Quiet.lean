import RemoteAgent.JobManager.Ids
import RemoteAgent.JobManager.Lifecycle

/-!
# What the quiet branch of `cleanup_idle_jobs` removes

The call scans the registry for a job that has not finished.  When it finds none
and the service has been quiet for long enough, it collects the keys in a second
pass and cleans up every one of them, without looking at the states again.  Both
passes lock one shard at a time, so a job can enter the registry behind the scan
and in front of the collection.

* `IdlePc.settled` are the ids under which the call takes for granted that every
  job has finished: behind the scan, in front of the collection, and on the list
  of keys.
* `IdlePc.Judged` is the invariant: what is registered under a settled id has
  finished, or the scan has it in its hands.  `IdlePc.step_judged` is its step
  lemma for the call itself and `IdlePc.Judged.mono` the one for all other calls.
* `quiet_removes_finished`: in every run in which no job is inserted under an id
  that the call has settled, the quiet branch cancels and removes finished jobs
  only.  `quiet_removes_created` is a run in which a job is inserted between the
  scan and the collection.
-/

namespace RemoteAgent.JobManager

open CodeLib

/-! ## What a call has settled -/

/-- The job has reached a terminal state. -/
def Shared.finished (s : Shared) (h : JobRef) : Bool :=
  (s.handles[h]?).any fun a => a.state.isTerminal

/-- The ids that the call is going to clean up, or is cleaning up. -/
def SweepPc.listed : SweepPc → List UInt32
  | .collect it keys => keys ++ it.entries.map Prod.fst
  | .next todo _ => todo
  | .cleanup _ (.ret _) todo _ => todo
  | .cleanup id _ todo _ => id :: todo

/-- The ids whose jobs the call takes to have finished, without another look at
them.  In a scan that can lead to the quiet branch these are the ids of the
shards that it has locked so far. -/
def IdlePc.settled (shards : Sharding) (quiet : Duration) (id : UInt32) :
    IdlePc → Bool
  | .scan now last it _ | .scanEntry now last it _ | .scanLocked now last it _ =>
    quietElapsed now last quiet && decide (shards.of id < it.next)
  | .sweep (.collect it keys) =>
    decide (it.next ≤ shards.of id) || decide (id ∈ (SweepPc.collect it keys).listed)
  | .sweep pc => decide (id ∈ pc.listed)
  | _ => false

/-- The entries that the scan has in its hands and has not looked at. -/
def IdlePc.ahead (id : UInt32) (h : JobRef) : IdlePc → Prop
  | .scan _ _ it _ => (id, h) ∈ it.entries
  | .scanEntry _ _ it r | .scanLocked _ _ it r => (id, h) ∈ it.entries ∨ h = r
  | _ => False

/-- The job whose token the call is about to cancel. -/
def IdlePc.cancels : IdlePc → Option JobRef
  | .sweep (.cleanup _ (.cancelToken h) _ _) => some h
  | _ => none

/-- The call is in the pass that looks for idle jobs. -/
def IdlePc.visiting : IdlePc → Bool
  | .visit .. | .visitEntry .. | .visitState .. | .visitCompleted .. => true
  | _ => false

/-- The call cleans up the jobs on its list, in either branch. -/
def IdlePc.cleaning : IdlePc → Bool
  | .sweep (.next ..) | .sweep (.cleanup ..) => true
  | _ => false

/-- The call has left its passes over the registry but for the collection. -/
def IdlePc.sweeping : IdlePc → Bool
  | .sweep _ | .ret _ => true
  | _ => false

theorem finished_congr {s s' : Shared} {h : JobRef} (hc : s'.core h = s.core h) :
    s'.finished h = s.finished h := by
  have hfin : ∀ u : Shared, u.finished h = (u.core h).any fun c => c.1.isTerminal := by
    intro u
    simp only [Shared.finished, Shared.core]
    cases u.handles[h]? <;> rfl
  rw [hfin, hfin, hc]

namespace IdlePc

/-- What the call has settled is so. -/
structure Judged (s : Shared) (quiet : Duration) (pc : IdlePc) : Prop where
  settled : ∀ id h, s.getJob id = some h → pc.settled s.shards quiet id = true →
    pc.ahead id h ∨ s.finished h = true
  cancels : ∀ h, pc.cancels = some h → s.finished h = true

/-- A position that has settled nothing. -/
theorem Judged.of_unsettled {s : Shared} {quiet : Duration} {pc : IdlePc}
    (hs : ∀ id, pc.settled s.shards quiet id = false) (hc : pc.cancels = none) :
    pc.Judged s quiet := by
  refine ⟨?_, ?_⟩
  · intro id h _ hid
    rw [hs id] at hid
    exact absurd hid (by simp)
  · intro h hh
    rw [hc] at hh
    exact absurd hh (by simp)

/-- A step of another call that registers nothing under a settled id. -/
theorem Judged.mono {s s' : Shared} {quiet : Duration} {pc : IdlePc}
    (hj : pc.Judged s quiet) (hshards : s'.shards = s.shards)
    (hjobs : ∀ id h, s'.getJob id = some h → pc.settled s.shards quiet id = true →
      s.getJob id = some h)
    (hfin : ∀ h, s.finished h = true → s'.finished h = true) :
    pc.Judged s' quiet := by
  refine ⟨?_, fun h hh => hfin h (hj.cancels h hh)⟩
  intro id h hget hid
  rw [hshards] at hid
  exact (hj.settled id h (hjobs id h hget hid) hid).imp_right (hfin h)

theorem mem_shardEntries {s : Shared} {k : Nat} {id : UInt32} {h : JobRef} :
    (id, h) ∈ s.shardEntries k ↔ s.getJob id = some h ∧ s.shards.of id = k := by
  have hlookup : s.getJob id = some h ↔ (⟨id, h⟩ : Sigma fun _ : UInt32 => JobRef) ∈
      s.jobs.entries := AList.mem_lookup_iff
  rw [hlookup]
  simp only [Shared.shardEntries, List.mem_map, List.mem_filter, decide_eq_true_eq,
    Prod.mk.injEq]
  constructor
  · rintro ⟨⟨id', h'⟩, ⟨hmem, hk⟩, rfl, rfl⟩
    exact ⟨hmem, hk⟩
  · rintro ⟨hmem, hk⟩
    exact ⟨⟨id, h⟩, ⟨hmem, hk⟩, rfl, rfl⟩

/-! ## The steps of the call -/

/-- The scan goes on: to the next entry, to the next shard, or to one of the two
branches. -/
theorem judged_scan {held : Held} {time now last : SystemTime} {idle quiet : Duration}
    {s s' : Shared} {it : Iter} {hasJobs : Bool} {pc' : IdlePc}
    (hj : (IdlePc.scan now last it hasJobs).Judged s quiet)
    (h : (IdlePc.scan now last it hasJobs).step held time idle quiet s = some (s', pc')) :
    pc'.Judged s' quiet := by
  simp only [IdlePc.step] at h
  cases hentries : it.entries with
  | cons e rest =>
    obtain ⟨id₀, h₀⟩ := e
    simp only [Iter.advance, hentries, Option.some.injEq, Prod.mk.injEq] at h
    obtain ⟨rfl, rfl⟩ := h
    refine ⟨?_, fun _ hh => absurd hh (by simp [IdlePc.cancels])⟩
    intro id k hget hid
    rcases hj.settled id k hget hid with hahead | hfin
    · left
      simp only [IdlePc.ahead, hentries, List.mem_cons, Prod.mk.injEq] at hahead ⊢
      tauto
    · exact Or.inr hfin
  | nil =>
    simp only [Iter.advance, hentries] at h
    by_cases hmore : it.next < s.shards.count
    · simp only [hmore, if_true, Option.some.injEq, Prod.mk.injEq] at h
      obtain ⟨rfl, rfl⟩ := h
      refine ⟨?_, fun _ hh => absurd hh (by simp [IdlePc.cancels])⟩
      intro id k hget hid
      simp only [IdlePc.settled, Bool.and_eq_true, decide_eq_true_eq] at hid
      by_cases hk : s.shards.of id = it.next
      · exact Or.inl (mem_shardEntries.mpr ⟨hget, hk⟩)
      · have hlt : s.shards.of id < it.next := by omega
        have hold := hj.settled id k hget (by simp [IdlePc.settled, hid.1, hlt])
        simp only [IdlePc.ahead, hentries, List.not_mem_nil, false_or] at hold
        exact Or.inr hold
    · -- The scan is over: every shard lies behind it.
      simp only [hmore, if_false] at h
      split at h
      · rename_i hquiet
        simp only [Option.some.injEq, Prod.mk.injEq] at h
        obtain ⟨rfl, rfl⟩ := h
        simp only [Bool.and_eq_true] at hquiet
        refine ⟨?_, fun _ hh => absurd hh (by simp [IdlePc.cancels])⟩
        intro id k hget _
        have hlt : s.shards.of id < it.next := by
          have := s.shards.of_lt id
          omega
        have hold := hj.settled id k hget (by simp [IdlePc.settled, hquiet.2, hlt])
        simp only [IdlePc.ahead, hentries, List.not_mem_nil, false_or] at hold
        exact Or.inr hold
      · simp only [Option.some.injEq, Prod.mk.injEq] at h
        obtain ⟨rfl, rfl⟩ := h
        exact Judged.of_unsettled (fun _ => rfl) rfl

/-- The scan looks at the entry in its hands, under the state lock. -/
theorem judged_scanLocked {held : Held} {time now last : SystemTime}
    {idle quiet : Duration} {s s' : Shared} {it : Iter} {r : JobRef} {pc' : IdlePc}
    (hj : (IdlePc.scanLocked now last it r).Judged s quiet)
    (h : (IdlePc.scanLocked now last it r).step held time idle quiet s = some (s', pc')) :
    pc'.Judged s' quiet := by
  simp only [IdlePc.step] at h
  split at h
  · exact absurd h (by simp)
  · rename_i a ha
    split at h
    · rename_i hterm
      simp only [Option.some.injEq, Prod.mk.injEq] at h
      obtain ⟨rfl, rfl⟩ := h
      refine ⟨?_, fun _ hh => absurd hh (by simp [IdlePc.cancels])⟩
      intro id k hget hid
      rcases hj.settled id k hget hid with (hmem | rfl) | hfin
      · exact Or.inl hmem
      · exact Or.inr (by simp [Shared.finished, ha, hterm])
      · exact Or.inr hfin
    · simp only [Option.some.injEq, Prod.mk.injEq] at h
      obtain ⟨rfl, rfl⟩ := h
      exact Judged.of_unsettled (fun _ => rfl) rfl

theorem settled_collect {shards : Sharding} {quiet : Duration} {id : UInt32} {it : Iter}
    {keys : List UInt32} :
    (IdlePc.sweep (.collect it keys)).settled shards quiet id = true ↔
      it.next ≤ shards.of id ∨ id ∈ keys ∨ id ∈ it.entries.map Prod.fst := by
  simp only [IdlePc.settled, Bool.or_eq_true, decide_eq_true_eq]
  rw [SweepPc.listed, List.mem_append]

theorem settled_listed {shards : Sharding} {quiet : Duration} {id : UInt32}
    {pc : SweepPc} (hpc : ∀ it keys, pc ≠ .collect it keys) :
    (IdlePc.sweep pc).settled shards quiet id = true ↔ id ∈ pc.listed := by
  cases pc with
  | collect it keys => exact absurd rfl (hpc it keys)
  | _ => simp only [IdlePc.settled, decide_eq_true_eq]

/-- A step of the sweep after which the same ids are settled, or fewer. -/
theorem judged_sweep_of_subset {s : Shared} {quiet : Duration} {pc pc' : SweepPc}
    (hj : (IdlePc.sweep pc).Judged s quiet)
    (hsub : ∀ id h, s.getJob id = some h →
      (IdlePc.sweep pc').settled s.shards quiet id = true →
      (IdlePc.sweep pc).settled s.shards quiet id = true)
    (hc : ∀ h, (IdlePc.sweep pc').cancels = some h → s.finished h = true) :
    (IdlePc.sweep pc').Judged s quiet := by
  refine ⟨?_, hc⟩
  intro id h hget hid
  rcases hj.settled id h hget (hsub id h hget hid) with hahead | hfin
  · exact absurd hahead (by simp [IdlePc.ahead])
  · exact Or.inr hfin

/-- The collection takes a key, locks the next shard, or is over. -/
theorem judged_collect {held : Held} {quiet : Duration} {s s' : Shared} {it : Iter}
    {keys : List UInt32} {pc' : SweepPc}
    (hj : (IdlePc.sweep (.collect it keys)).Judged s quiet)
    (h : (SweepPc.collect it keys).step held s = some (s', pc')) :
    (IdlePc.sweep pc').Judged s' quiet := by
  simp only [SweepPc.step] at h
  cases hentries : it.entries with
  | cons e rest =>
    simp only [Iter.advance, hentries, Option.some.injEq, Prod.mk.injEq] at h
    obtain ⟨rfl, rfl⟩ := h
    refine judged_sweep_of_subset hj ?_ (fun _ hh => absurd hh (by simp [IdlePc.cancels]))
    intro id _ _ hid
    rw [settled_collect] at hid ⊢
    simp only [hentries, List.mem_append, List.map_cons, List.mem_cons] at hid ⊢
    simp only [List.not_mem_nil, or_false] at hid
    tauto
  | nil =>
    simp only [Iter.advance, hentries] at h
    by_cases hmore : it.next < s.shards.count
    · simp only [hmore, if_true, Option.some.injEq, Prod.mk.injEq] at h
      obtain ⟨rfl, rfl⟩ := h
      refine judged_sweep_of_subset hj ?_ (fun _ hh => absurd hh (by simp [IdlePc.cancels]))
      intro id _ _ hid
      rw [settled_collect] at hid ⊢
      rcases hid with hlt | hmem | hshard
      · exact Or.inl (Nat.le_of_succ_le hlt)
      · exact Or.inr (Or.inl hmem)
      · obtain ⟨⟨id', k⟩, hmem, rfl⟩ := List.mem_map.mp hshard
        exact Or.inl (Nat.le_of_eq (mem_shardEntries.mp hmem).2.symm)
    · simp only [hmore, if_false, Option.some.injEq, Prod.mk.injEq] at h
      obtain ⟨rfl, rfl⟩ := h
      refine judged_sweep_of_subset hj ?_ (fun _ hh => absurd hh (by simp [IdlePc.cancels]))
      intro id _ _ hid
      rw [settled_collect]
      exact Or.inr (Or.inl ((settled_listed (by simp)).mp hid))

/-- A step of the `cleanup_job` that the sweep is in: it looks the job up, cancels
its token, and removes what is registered under the id by then. -/
theorem judged_cleanup {held : Held} {quiet : Duration} {s s' : Shared} {id : UInt32}
    {pc pc' : CleanupPc} {todo : List UInt32} {cleaned : Nat}
    (hj : (IdlePc.sweep (.cleanup id pc todo cleaned)).Judged s quiet)
    (h : pc.step held id s = some (s', pc')) :
    (IdlePc.sweep (.cleanup id pc' todo cleaned)).Judged s' quiet := by
  have hplain := pc.action_plain id
  have hsame : s.SameIds s' := by
    rw [CleanupPc.step_act 0 h]
    exact s.sameIds_act 0 (Action.creates_of_plain hplain)
  have hfin : ∀ k, s.finished k = true → s'.finished k = true := by
    intro k hk
    rwa [CleanupPc.step_act 0 h, finished_congr (s.core_act 0 hplain k)]
  have hj' : (IdlePc.sweep (.cleanup id pc todo cleaned)).Judged s' quiet :=
    hj.mono hsame.shards (fun k r hk _ => hsame.jobs k r hk) hfin
  cases pc with
  | getJob =>
    simp only [CleanupPc.step] at h
    split at h
    · simp only [Option.some.injEq, Prod.mk.injEq] at h
      obtain ⟨rfl, rfl⟩ := h
      refine judged_sweep_of_subset hj' ?_ (fun _ hh => absurd hh (by simp [IdlePc.cancels]))
      intro k _ _ hk
      rw [settled_listed (by simp)] at hk ⊢
      exact List.mem_cons_of_mem _ hk
    · rename_i r hr
      simp only [Option.some.injEq, Prod.mk.injEq] at h
      obtain ⟨rfl, rfl⟩ := h
      refine judged_sweep_of_subset hj' (fun _ _ _ hk => hk) ?_
      intro k hk
      obtain rfl : r = k := by simpa [IdlePc.cancels] using hk
      have hset : (IdlePc.sweep (.cleanup id .getJob todo cleaned)).settled s.shards quiet id
          = true := by
        rw [settled_listed (by simp)]
        exact List.mem_cons_self
      rcases hj.settled id r hr hset with hahead | hdone
      · exact absurd hahead (by simp [IdlePc.ahead])
      · exact hdone
  | cancelToken r =>
    simp only [CleanupPc.step, Option.some.injEq, Prod.mk.injEq] at h
    obtain ⟨rfl, rfl⟩ := h
    exact judged_sweep_of_subset hj' (fun _ _ _ hk => hk)
      (fun _ hh => absurd hh (by simp [IdlePc.cancels]))
  | remove =>
    simp only [CleanupPc.step] at h
    split at h
    · exact absurd h (by simp)
    · simp only [Option.some.injEq, Prod.mk.injEq] at h
      obtain ⟨rfl, rfl⟩ := h
      refine judged_sweep_of_subset hj' ?_ (fun _ hh => absurd hh (by simp [IdlePc.cancels]))
      intro k _ _ hk
      rw [settled_listed (by simp)] at hk ⊢
      exact List.mem_cons_of_mem _ hk
  | ret r => exact absurd h (by simp [CleanupPc.step])

/-- A step of the sweep. -/
theorem judged_sweep {held : Held} {quiet : Duration} {s s' : Shared}
    {pc pc' : SweepPc} (hj : (IdlePc.sweep pc).Judged s quiet)
    (h : pc.step held s = some (s', pc')) : (IdlePc.sweep pc').Judged s' quiet := by
  cases pc with
  | collect it keys => exact judged_collect hj h
  | next todo cleaned =>
    cases todo with
    | nil => exact absurd h (by simp [SweepPc.step])
    | cons id todo =>
      simp only [SweepPc.step, Option.some.injEq, Prod.mk.injEq] at h
      obtain ⟨rfl, rfl⟩ := h
      exact judged_sweep_of_subset hj (fun _ _ _ hk => hk)
        (fun _ hh => absurd hh (by simp [IdlePc.cancels]))
  | cleanup id pc todo cleaned =>
    cases pc with
    | ret r =>
      have hback : ∃ n, s' = s ∧ pc' = .next todo n := by
        cases r with
        | ok u =>
          simp only [SweepPc.step, Option.some.injEq, Prod.mk.injEq] at h
          exact ⟨cleaned + 1, h.1.symm, h.2.symm⟩
        | error e =>
          simp only [SweepPc.step, Option.some.injEq, Prod.mk.injEq] at h
          exact ⟨cleaned, h.1.symm, h.2.symm⟩
      obtain ⟨n, rfl, rfl⟩ := hback
      exact judged_sweep_of_subset hj (fun _ _ _ hk => hk)
        (fun _ hh => absurd hh (by simp [IdlePc.cancels]))
    | _ =>
      simp only [SweepPc.step, Option.map_eq_some_iff, Prod.mk.injEq] at h
      obtain ⟨⟨s₁, pc₁⟩, hs, rfl, rfl⟩ := h
      exact judged_cleanup hj hs

/-- A step of the sweep inside the call: the sweep is over, or it goes on. -/
theorem step_of_sweep {held : Held} {time : SystemTime} {idle quiet : Duration}
    {s s' : Shared} {pc : SweepPc} {pc' : IdlePc}
    (h : (IdlePc.sweep pc).step held time idle quiet s = some (s', pc')) :
    (∃ n, pc = .next [] n ∧ s' = s ∧ pc' = .ret n) ∨
      ∃ q, pc.step held s = some (s', q) ∧ pc' = .sweep q := by
  by_cases hend : ∃ n, pc = .next [] n
  · obtain ⟨n, rfl⟩ := hend
    simp only [IdlePc.step, Option.some.injEq, Prod.mk.injEq] at h
    exact Or.inl ⟨n, rfl, h.1.symm, h.2.symm⟩
  · have hstep : (IdlePc.sweep pc).step held time idle quiet s =
        (pc.step held s).map fun r => (r.1, .sweep r.2) := by
      unfold IdlePc.step
      split <;> simp_all
    rw [hstep] at h
    simp only [Option.map_eq_some_iff, Prod.mk.injEq] at h
    obtain ⟨⟨s₁, q⟩, hs, rfl, rfl⟩ := h
    exact Or.inr ⟨q, hs, rfl⟩

/-- Outside the pass over the idle jobs, a step of the call keeps the invariant. -/
theorem step_judged {held : Held} {time : SystemTime} {idle quiet : Duration}
    {s s' : Shared} {pc pc' : IdlePc} (hj : pc.Judged s quiet)
    (hpass : pc.visiting = false)
    (h : pc.step held time idle quiet s = some (s', pc')) : pc'.Judged s' quiet := by
  cases pc with
  | begin =>
    simp only [IdlePc.step, Option.some.injEq, Prod.mk.injEq] at h
    obtain ⟨rfl, rfl⟩ := h
    exact Judged.of_unsettled (fun _ => by simp [IdlePc.settled, Iter.start]) rfl
  | scan now last it hasJobs => exact judged_scan hj h
  | scanEntry now last it r =>
    simp only [IdlePc.step] at h
    split at h
    · exact absurd h (by simp)
    · simp only [Option.some.injEq, Prod.mk.injEq] at h
      obtain ⟨rfl, rfl⟩ := h
      exact ⟨hj.settled, hj.cancels⟩
  | scanLocked now last it r => exact judged_scanLocked hj h
  | sweep pc =>
    rcases step_of_sweep h with ⟨n, rfl, rfl, rfl⟩ | ⟨q, hs, rfl⟩
    · exact Judged.of_unsettled (fun _ => rfl) rfl
    · exact judged_sweep hj hs
  | ret n => exact absurd h (by simp [IdlePc.step])
  | visit | visitEntry | visitState | visitCompleted =>
    exact absurd hpass (by simp [IdlePc.visiting])

/-- The pass over the idle jobs goes on, or the call cleans up what it has found. -/
theorem step_visiting {held : Held} {time : SystemTime} {idle quiet : Duration}
    {s s' : Shared} {pc pc' : IdlePc} (hpc : pc.visiting = true)
    (h : pc.step held time idle quiet s = some (s', pc')) :
    pc'.visiting = true ∨ pc'.cleaning = true := by
  cases pc with
  | visit now it toRemove =>
    simp only [IdlePc.step] at h
    split at h <;> cases h
    · exact Or.inl rfl
    · exact Or.inl rfl
    · exact Or.inr rfl
  | visitEntry now it toRemove id r =>
    simp only [IdlePc.step] at h
    split at h <;> cases h
    exact Or.inl rfl
  | visitState now it toRemove id r =>
    cases h
    exact Or.inl rfl
  | visitCompleted now it toRemove id r =>
    simp only [IdlePc.step] at h
    split at h <;> cases h
    exact Or.inl rfl
  | _ => exact absurd hpc (by simp [IdlePc.visiting])

/-- The call cleans up until it returns. -/
theorem step_cleaning {held : Held} {time : SystemTime} {idle quiet : Duration}
    {s s' : Shared} {pc pc' : IdlePc} (hpc : pc.cleaning = true)
    (h : pc.step held time idle quiet s = some (s', pc')) :
    pc'.cleaning = true ∨ ∃ n, pc' = .ret n := by
  cases pc with
  | sweep q =>
    rcases step_of_sweep h with ⟨n, rfl, rfl, rfl⟩ | ⟨q', hs, rfl⟩
    · exact Or.inr ⟨n, rfl⟩
    · left
      unfold SweepPc.step at hs
      split at hs
      · exact absurd hpc (by simp [IdlePc.cleaning])
      all_goals
        first
        | (cases hs; rfl)
        | cases hs
        | (simp only [Option.map_eq_some_iff, Prod.mk.injEq] at hs
           obtain ⟨_, _, _, rfl⟩ := hs
           rfl)
  | _ => exact absurd hpc (by simp [IdlePc.cleaning])

theorem step_sweeping {held : Held} {time : SystemTime} {idle quiet : Duration}
    {s s' : Shared} {pc pc' : IdlePc} (hpc : pc.sweeping = true)
    (h : pc.step held time idle quiet s = some (s', pc')) : pc'.sweeping = true := by
  cases pc with
  | sweep q =>
    rcases step_of_sweep h with ⟨n, rfl, rfl, rfl⟩ | ⟨q', hs, rfl⟩ <;> rfl
  | ret n => exact absurd h (by simp [IdlePc.step])
  | _ => exact absurd hpc (by simp [IdlePc.sweeping])

end IdlePc

/-! ## Whole runs -/

namespace Manager

/-- Call `i` takes the job under this id to have finished. -/
def settled (m : Manager) (i : Nat) (id : UInt32) : Bool :=
  match m.calls[i]? with
  | some (.cleanupIdleJobs _ quiet pc) => pc.settled m.shared.shards quiet id
  | _ => false

/-- A step does not insert a job under an id that call `i` has settled. -/
def InsertsUnsettled (i : Nat) (m : Manager) : Label → Prop
  | .call _ => True
  | .step j _ => ∀ id ∈ (m.calls[j]?).bind Call.inserts?, m.settled i id = false

instance (i : Nat) (m : Manager) : (l : Label) → Decidable (InsertsUnsettled i m l)
  | .call _ => isTrue trivial
  | .step j _ => Option.decidableForallMem ((m.calls[j]?).bind Call.inserts?)

/-- A job that has finished stays so. -/
theorem finished_step {m m' : Manager} {l : Label} (hinv : Inv m)
    (hstep : m.step l = some m') {h : JobRef} (hfin : m.shared.finished h = true) :
    m'.shared.finished h = true := by
  cases ha : m.shared.handles[h]? with
  | none => simp [Shared.finished, ha] at hfin
  | some a =>
    have hterm : a.state.isTerminal = true := by simpa [Shared.finished, ha] using hfin
    have hcore : m.shared.core h = some (a.state, a.completedAt) := by
      simp [Shared.core, ha]
    have hpath : machine.Path StepMachine.Any m [l] m' := .cons trivial hstep (.nil m')
    rw [finished_congr ((core_final hinv hpath hcore hterm).trans hcore.symm)]
    exact hfin

/-- A step registers a job only where a call inserts one. -/
theorem getJob_of_step {held : Held} {now : SystemTime} {s s' : Shared} {c c' : Call}
    (h : c.step held now s = some (s', c')) :
    s'.shards = s.shards ∧ ∀ id r, s'.getJob id = some r → c.inserts? ≠ some id →
      s.getJob id = some r := by
  rw [Call.step_act h]
  refine ⟨s.act_shards now c.action, ?_⟩
  intro id r hget hne
  rcases Shared.getJob_act hget with hold | ⟨⟨timeout, hins⟩, -⟩
  · exact hold
  · exact absurd (by rw [Call.eq_insert_of_action hins]; rfl) hne

theorem begin_of_op {op : Op} {idle quiet : Duration} {pc : IdlePc}
    (h : op.begin = .cleanupIdleJobs idle quiet pc) : pc = .begin := by
  cases op <;> simp only [Op.begin, Call.cleanupIdleJobs.injEq, reduceCtorEq] at h
  exact h.2.2.symm

/-- Where call `i` stands after a step: at its beginning, or one step further, or
where it stood, with what it has settled kept. -/
theorem judged_step {m m' : Manager} {l : Label} {i : Nat} {idle quiet : Duration}
    {pc' : IdlePc} (hinv : Inv m) (hc : InsertsUnsettled i m l)
    (hstep : m.step l = some m')
    (hi : m'.calls[i]? = some (.cleanupIdleJobs idle quiet pc')) :
    m.calls[i]? = none ∧ pc' = .begin ∨
      ∃ pc, m.calls[i]? = some (.cleanupIdleJobs idle quiet pc) ∧
      ((∃ held time, pc.step held time idle quiet m.shared = some (m'.shared, pc')) ∨
        pc' = pc ∧ (pc.Judged m.shared quiet → pc.Judged m'.shared quiet)) := by
  cases l with
  | call op =>
    obtain rfl := Option.some.inj hstep
    simp only [List.getElem?_append] at hi
    split at hi
    · exact Or.inr ⟨pc', hi, Or.inr ⟨rfl, id⟩⟩
    · rename_i hlen
      obtain ⟨hlt, hget⟩ := List.getElem?_eq_some_iff.mp hi
      rw [List.getElem_singleton] at hget
      exact Or.inl ⟨List.getElem?_eq_none (by omega), begin_of_op hget⟩
  | step j now =>
    obtain ⟨c, s', c', hj, hs, rfl⟩ := step_call_inv hstep
    obtain ⟨hlt, -⟩ := List.getElem?_eq_some_iff.mp hj
    by_cases hij : j = i
    · subst hij
      obtain rfl : c' = .cleanupIdleJobs idle quiet pc' := by simpa [hlt] using hi
      cases c <;> simp only [Call.step, Option.map_eq_some_iff, Prod.mk.injEq,
        reduceCtorEq, and_false, exists_false, Call.cleanupIdleJobs.injEq] at hs
      obtain ⟨⟨s₁, pc₁⟩, hpc, rfl, rfl, rfl, rfl⟩ := hs
      exact Or.inr ⟨_, hj, Or.inl ⟨m.held, now, hpc⟩⟩
    · rw [List.getElem?_set_ne hij] at hi
      obtain ⟨hshards, hjobs⟩ := getJob_of_step hs
      refine Or.inr ⟨pc', hi, Or.inr ⟨rfl, fun hjudged => ?_⟩⟩
      refine hjudged.mono hshards ?_ fun h hfin => finished_step hinv hstep hfin
      intro id h hget hid
      refine hjobs id h hget fun hins => ?_
      have hno := hc id (by simp [hj, hins])
      simp only [settled, hi, hid] at hno
      exact absurd hno (by simp)

/-- The call stays the call that it is. -/
theorem cleanup_call_step {m m' : Manager} {l : Label} {i : Nat} {idle quiet : Duration}
    {pc : IdlePc} (hstep : m.step l = some m')
    (hi : m.calls[i]? = some (.cleanupIdleJobs idle quiet pc)) :
    ∃ pc', m'.calls[i]? = some (.cleanupIdleJobs idle quiet pc') := by
  obtain ⟨hlt, -⟩ := List.getElem?_eq_some_iff.mp hi
  cases l with
  | call op =>
    obtain rfl := Option.some.inj hstep
    exact ⟨pc, by rw [List.getElem?_append_left hlt]; exact hi⟩
  | step j now =>
    obtain ⟨c, s', c', hj, hs, rfl⟩ := step_call_inv hstep
    by_cases hij : j = i
    · subst hij
      obtain rfl := Option.some.inj (hi.symm.trans hj)
      simp only [Call.step, Option.map_eq_some_iff, Prod.mk.injEq] at hs
      obtain ⟨⟨s₁, pc'⟩, -, -, rfl⟩ := hs
      exact ⟨pc', by simp [hlt]⟩
    · exact ⟨pc, by rw [List.getElem?_set_ne hij]; exact hi⟩

/-- Until call `i` cleans up, what it has settled is so. -/
theorem judged_reach {m : Manager} {i : Nat} (h : machine.Reach (InsertsUnsettled i) m) :
    Inv m ∧ ∀ idle quiet pc, m.calls[i]? = some (.cleanupIdleJobs idle quiet pc) →
      pc.cleaning = false → pc.Judged m.shared quiet := by
  refine h.invariant (I := fun m => Inv m ∧ ∀ idle quiet pc,
    m.calls[i]? = some (.cleanupIdleJobs idle quiet pc) → pc.cleaning = false →
      pc.Judged m.shared quiet) ?_ ?_
  · rintro m hinit
    refine ⟨inv_initial hinit, ?_⟩
    intro idle quiet pc hi
    simp [hinit.2.2] at hi
  · rintro m l m' ⟨hinv, hj⟩ hc hstep
    refine ⟨inv_step hinv hstep, ?_⟩
    intro idle quiet pc' hi hpc'
    rcases judged_step hinv hc hstep hi with ⟨-, rfl⟩ | ⟨pc, hpc, hown | ⟨rfl, hkeep⟩⟩
    · exact IdlePc.Judged.of_unsettled (fun _ => rfl) rfl
    · obtain ⟨held, time, hs⟩ := hown
      cases hvisit : pc.visiting with
      | true =>
        rcases IdlePc.step_visiting hvisit hs with hv | hcl
        · cases pc' <;> first
            | exact IdlePc.Judged.of_unsettled (fun _ => rfl) rfl
            | exact absurd hv (by simp [IdlePc.visiting])
        · rw [hcl] at hpc'
          exact absurd hpc' (by simp)
      | false =>
        cases hclean : pc.cleaning with
        | true =>
          rcases IdlePc.step_cleaning hclean hs with hcl | ⟨n, rfl⟩
          · rw [hcl] at hpc'
            exact absurd hpc' (by simp)
          · exact IdlePc.Judged.of_unsettled (fun _ => rfl) rfl
        | false => exact IdlePc.step_judged (hj idle quiet pc hpc hclean) hvisit hs
    · exact hkeep (hj idle quiet pc' hpc hpc')

/-- From the collection of the keys on, what call `i` has settled is so. -/
theorem judged_path {m m' : Manager} {i : Nat} {idle quiet : Duration} {pc : IdlePc}
    {ls : List Label} (hp : machine.Path (InsertsUnsettled i) m ls m') (hinv : Inv m)
    (hi : m.calls[i]? = some (.cleanupIdleJobs idle quiet pc))
    (hsweep : pc.sweeping = true) (hj : pc.Judged m.shared quiet) :
    ∃ pc', m'.calls[i]? = some (.cleanupIdleJobs idle quiet pc') ∧
      pc'.Judged m'.shared quiet := by
  have key := hp.invariant (I := fun m => Inv m ∧ ∃ pc,
    m.calls[i]? = some (.cleanupIdleJobs idle quiet pc) ∧ pc.sweeping = true ∧
      pc.Judged m.shared quiet) ?_ ⟨hinv, pc, hi, hsweep, hj⟩
  · obtain ⟨-, pc', hi', -, hj'⟩ := key
    exact ⟨pc', hi', hj'⟩
  · rintro m l m' ⟨hinv, pc, hi, hsweep, hj⟩ hc hstep
    obtain ⟨pc', hi'⟩ := cleanup_call_step hstep hi
    refine ⟨inv_step hinv hstep, pc', hi', ?_⟩
    rcases judged_step hinv hc hstep hi' with ⟨hnone, -⟩ | ⟨pc₀, hi₀, hcase⟩
    · rw [hnone] at hi
      exact absurd hi (by simp)
    · obtain rfl : pc = pc₀ := by simpa [hi] using hi₀
      rcases hcase with ⟨held, time, hs⟩ | ⟨rfl, hkeep⟩
      · have hpass : pc.visiting = false := by
          cases pc <;> first
            | rfl
            | exact absurd hsweep (by simp [IdlePc.sweeping])
        exact ⟨IdlePc.step_sweeping hsweep hs, IdlePc.step_judged hj hpass hs⟩
      · exact ⟨hsweep, hkeep hj⟩

/-- Quiet cleanup removes finished jobs only.  In every run in which no job is
inserted under an id that call `i` has settled: once the call has entered the quiet
branch, a token that it is about to cancel belongs to a finished job, and a job
that it is about to remove has finished. -/
theorem quiet_removes_finished {i : Nat} {u v : Manager} {ls : List Label}
    {idle quiet : Duration} {it : Iter} {keys : List UInt32}
    (hu : machine.Reach (InsertsUnsettled i) u)
    (hi : u.calls[i]? = some (.cleanupIdleJobs idle quiet (.sweep (.collect it keys))))
    (hp : machine.Path (InsertsUnsettled i) u ls v) :
    (∀ id h todo n, v.calls[i]? = some (.cleanupIdleJobs idle quiet
        (.sweep (.cleanup id (.cancelToken h) todo n))) →
      v.shared.finished h = true) ∧
    (∀ id h todo n, v.calls[i]? = some (.cleanupIdleJobs idle quiet
        (.sweep (.cleanup id .remove todo n))) →
      v.shared.getJob id = some h → v.shared.finished h = true) := by
  obtain ⟨hinv, hjudged⟩ := judged_reach hu
  obtain ⟨pc, hpc, hj⟩ := judged_path hp hinv hi rfl (hjudged idle quiet _ hi rfl)
  refine ⟨?_, ?_⟩
  · intro id h todo n hv
    obtain rfl : pc = .sweep (.cleanup id (.cancelToken h) todo n) := by
      simpa [hpc] using hv
    exact hj.cancels h rfl
  · intro id h todo n hv hget
    obtain rfl : pc = .sweep (.cleanup id .remove todo n) := by simpa [hpc] using hv
    have hset : (IdlePc.sweep (.cleanup id .remove todo n)).settled v.shared.shards quiet id
        = true := by
      rw [IdlePc.settled_listed (by simp)]
      exact List.mem_cons_self
    rcases hj.settled id h hget hset with hahead | hfin
    · exact absurd hahead (by simp [IdlePc.ahead])
    · exact hfin

/-- Job 1 is created and canceled, and call 2, long after, finds it finished. -/
def quietRun : List Label :=
  [.call (.createJob none), .step 0 1, .step 0 1, .step 0 1, .step 0 1, .step 0 1,
    .call (.transitionState 1 .canceled), .step 1 2, .step 1 2, .step 1 2, .step 1 2,
    .step 1 2, .step 1 2, .step 1 2,
    .call (.cleanupIdleJobs 60 10), .step 2 100, .step 2 100, .step 2 100, .step 2 100,
    .step 2 100, .step 2 100]

/-- The call has entered the quiet branch and has collected nothing yet. -/
def collects (m : Manager) : Bool :=
  match (m.calls[2]? : Option Call) with
  | some (.cleanupIdleJobs 60 10 (.sweep (.collect ⟨0, []⟩ []))) => true
  | _ => false

/-- The call is about to remove the job under this id. -/
def removes (id : UInt32) (m : Manager) : Bool :=
  match (m.calls[2]? : Option Call) with
  | some (.cleanupIdleJobs 60 10 (.sweep (.cleanup k .remove _ _))) => k == id
  | _ => false

theorem collects_inv {m : Manager} (h : m.collects = true) :
    m.calls[2]? =
      some (.cleanupIdleJobs 60 10 (.sweep (.collect .start []))) := by
  unfold collects at h
  split at h
  · assumption
  · exact absurd h (by simp)

theorem removes_inv {m : Manager} {id : UInt32} (h : m.removes id = true) :
    ∃ todo n, m.calls[2]? =
      some (.cleanupIdleJobs 60 10 (.sweep (.cleanup id .remove todo n))) := by
  unfold removes at h
  split at h
  · rename_i k todo n hcall
    obtain rfl : k = id := by simpa using h
    exact ⟨todo, n, hcall⟩
  · exact absurd h (by simp)

/-- The job that was there for the scan is removed, and it has finished. -/
theorem quiet_removes_canceled :
    ∃ u v ls todo n, machine.Reach (InsertsUnsettled 2) u ∧
      machine.Path (InsertsUnsettled 2) u ls v ∧
      v.calls[2]? = some (.cleanupIdleJobs 60 10 (.sweep (.cleanup 1 .remove todo n))) ∧
      v.shared.getJob 1 = some 0 ∧ v.shared.finished 0 = true := by
  let ls : List Label :=
    [.step 2 101, .step 2 101, .step 2 101, .step 2 101, .step 2 101, .step 2 101]
  obtain ⟨u, hu, hprop⟩ := StepMachine.reach_of_runIf machine (InsertsUnsettled 2)
    (fresh_initial 50) quietRun
    (fun u => u.collects && (machine.runIf (InsertsUnsettled 2) u ls).any fun v =>
      v.removes 1 && v.shared.getJob 1 == some 0)
    (by decide +kernel)
  simp only [Bool.and_eq_true, Option.any_eq_true, beq_iff_eq] at hprop
  obtain ⟨hcollects, v, hrun, hremoves, hget⟩ := hprop
  have hp := StepMachine.path_of_runIf hrun
  obtain ⟨todo, n, hv⟩ := removes_inv hremoves
  exact ⟨u, v, ls, todo, n, hu, hp, hv, hget,
    (quiet_removes_finished hu (collects_inv hcollects) hp).2 1 0 todo n hv hget⟩

/-- A job is created after the scan and before the collection, and the quiet branch
is about to remove it while it is still in `Created`. -/
theorem quiet_removes_created :
    ∃ u v ls todo n a, machine.Reachable u ∧
      u.calls[2]? = some (.cleanupIdleJobs 60 10 (.sweep (.collect .start []))) ∧
      machine.Path StepMachine.Any u ls v ∧
      v.calls[2]? = some (.cleanupIdleJobs 60 10 (.sweep (.cleanup 2 .remove todo n))) ∧
      v.shared.getJob 2 = some 1 ∧ v.shared.handles[1]? = some a ∧ a.state = .created ∧
      a.cancellationToken = true := by
  let ls : List Label :=
    [.call (.createJob none), .step 3 101, .step 3 101, .step 3 101, .step 3 101,
      .step 2 102, .step 2 102, .step 2 102, .step 2 102, .step 2 102, .step 2 102,
      .step 2 102]
  obtain ⟨u, hu, hprop⟩ := StepMachine.reach_of_runIf machine StepMachine.Any
    (fresh_initial 50) quietRun
    (fun u => u.collects && (machine.runIf StepMachine.Any u ls).any fun v =>
      v.removes 2 && (v.shared.getJob 2 == some 1) && (v.shared.handles[1]?).any fun a =>
        a.state == .created && a.cancellationToken)
    (by decide +kernel)
  simp only [Bool.and_eq_true, Option.any_eq_true, beq_iff_eq] at hprop
  obtain ⟨hcollects, v, hrun, ⟨hremoves, hget⟩, a, ha, hstate, htoken⟩ := hprop
  obtain ⟨todo, n, hv⟩ := removes_inv hremoves
  exact ⟨u, v, ls, todo, n, a, hu, collects_inv hcollects,
    StepMachine.path_of_runIf hrun, hv, hget, ha, hstate, htoken⟩

end Manager

end RemoteAgent.JobManager
