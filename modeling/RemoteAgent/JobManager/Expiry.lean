import RemoteAgent.JobManager.Locks
import RemoteAgent.JobManager.Quiet

/-!
# Which jobs `cleanup_idle_jobs` removes

A call that nobody interrupts.  The code is that of `Locks`, guard by guard, and
`eval` is what it computes; `run_cleanupIdleJobs` says that a thread of the manager
that runs alone comes to that end.

* `Expired` and `Quiet` are the two rules, in terms of the stored times alone.  A time
  in the future is never long ago.
* `inOrder` are the entries in the order in which the map yields them, which depends on
  the shards and on the order inside of them.  `iter_eval` turns a loop over the map
  that only reads into a fold over these entries.
* `removes_expired`: the call removes the jobs that the rules name, cancels their
  tokens, counts them, and leaves all other jobs as they are.
-/

namespace RemoteAgent.JobManager

open CodeLib LockProg

/-! ## The rules -/

/-- The job has been idle for long enough. -/
def JobHandle.Expired (a : JobHandle) (now : SystemTime) (idle : Duration) : Prop :=
  a.state.isTerminal = true ∧
      (∃ t, a.completedAt = some t ∧ t ≤ now ∧ idle ≤ now - t) ∨
    a.state.isTerminal = false ∧ a.lastActivity ≤ now ∧ idle ≤ now - a.lastActivity

namespace Shared

/-- What is registered under an id is a job with that id. -/
def Registered (s : Shared) : Prop :=
  ∀ id h, s.getJob id = some h → ∃ a : JobHandle, s.handles[h]? = some a ∧ a.jobId = id

/-- Some id is registered with this job. -/
def registers (s : Shared) (h : JobRef) : Bool := s.jobs.entries.any fun e => e.2 = h

theorem registers_iff {s : Shared} {h : JobRef} :
    s.registers h = true ↔ ∃ id, s.getJob id = some h := by
  simp only [registers, List.any_eq_true, decide_eq_true_eq]
  constructor
  · rintro ⟨⟨id, r⟩, hmem, rfl⟩
    exact ⟨id, AList.mem_lookup_iff.mpr hmem⟩
  · rintro ⟨id, hget⟩
    exact ⟨⟨id, h⟩, AList.mem_lookup_iff.mp hget, rfl⟩

/-- There are jobs, all of them have ended, and no job was created for long enough. -/
def Quiet (s : Shared) (now : SystemTime) (quiet : Duration) : Prop :=
  (∃ id h, s.getJob id = some h) ∧
    (∀ id h a, s.getJob id = some h → s.handles[h]? = some a → a.state.isTerminal = true) ∧
    s.lastJobCreated ≤ now ∧ quiet ≤ now - s.lastJobCreated

/-- The job under this id is to be removed. -/
def Due (s : Shared) (now : SystemTime) (idle quiet : Duration) (id : UInt32)
    (h : JobRef) : Prop :=
  s.getJob id = some h ∧
    (s.Quiet now quiet ∨ ∃ a, s.handles[h]? = some a ∧ a.Expired now idle)

end Shared

theorem JobHandle.shouldCleanup_iff (a : JobHandle) (now : SystemTime) (idle : Duration) :
    a.shouldCleanup now idle = true ↔ a.Expired now idle := by
  unfold shouldCleanup Expired durationSince
  cases a.state.isTerminal with
  | true =>
    cases a.completedAt with
    | none => simp
    | some t => by_cases ht : t ≤ now <;> simp [ht]
  | false => by_cases ht : a.lastActivity ≤ now <;> simp [ht]

theorem quietElapsed_iff (now last : SystemTime) (quiet : Duration) :
    quietElapsed now last quiet = true ↔ last ≤ now ∧ quiet ≤ now - last := by
  unfold quietElapsed durationSince
  by_cases ht : last ≤ now <;> simp [ht]

/-! ## Loops over the map -/

namespace Locks

/-- Go through a list and stop when the body says so. -/
def foldStop {α β : Type} (f : α → β → β × Bool) : List α → β → β × Bool
  | [], b => (b, true)
  | a :: l, b =>
    let r := f a b
    if r.2 then foldStop f l r.1 else r

theorem foldStop_append {α β : Type} (f : α → β → β × Bool) (l l' : List α) (b : β) :
    foldStop f (l ++ l') b =
      if (foldStop f l b).2 then foldStop f l' (foldStop f l b).1 else foldStop f l b := by
  induction l generalizing b with
  | nil => rfl
  | cons a l ih =>
    simp only [List.cons_append, foldStop]
    by_cases hr : (f a b).2 = true
    · simp only [hr, if_true]
      exact ih (f a b).1
    · simp [hr]

/-- The entries in the order in which an iterator yields them. -/
def inOrder (s : Shared) : List (UInt32 × JobRef) :=
  (List.range s.shards.count).flatMap s.shardEntries

section loops

variable {β : Type} {body : Body β} {s : Shared} {now : SystemTime}
  {f : UInt32 × JobRef → β → β × Bool}

theorem visit_eval (hbody : ∀ id h b, (body id h b).eval now s = (s, f (id, h) b))
    (l : List (UInt32 × JobRef)) (b : β) :
    (visit body l b).eval now s = (s, foldStop f l b) := by
  induction l generalizing b with
  | nil => rfl
  | cons e l ih =>
    obtain ⟨id, h⟩ := e
    simp only [visit, eval_bind, hbody, foldStop]
    by_cases hr : (f (id, h) b).2 = true
    · simp only [hr, if_true]
      exact ih (f (id, h) b).1
    · simp only [hr]
      rfl

theorem release_eval (k : Nat) : (release k).eval now s = (s, ()) := by
  cases k <;> rfl

theorem iterFrom_eval (hbody : ∀ id h b, (body id h b).eval now s = (s, f (id, h) b))
    (n k : Nat) (b : β) :
    (iterFrom body n k b).eval now s =
      (s, (foldStop f ((List.range' k n).flatMap s.shardEntries) b).1) := by
  induction n generalizing k b with
  | zero =>
    simp only [iterFrom, eval_bind, release_eval]
    rfl
  | succ n ih =>
    have hshard := visit_eval hbody (s.shardEntries k) b
    simp only [iterFrom, eval, eval_bind, release_eval, eval_reads, hshard]
    rw [List.range'_succ, List.flatMap_cons, foldStop_append]
    by_cases hr : (foldStop f (s.shardEntries k) b).2 = true
    · simp only [hr, if_true]
      exact ih (k + 1) _
    · simp only [hr, Bool.false_eq_true, if_false, eval_bind, release_eval]
      rfl

/-- A loop whose body only reads. -/
theorem iter_eval (hbody : ∀ id h b, (body id h b).eval now s = (s, f (id, h) b)) (b : β) :
    (iter body b).eval now s = (s, (foldStop f (inOrder s) b).1) := by
  simp only [iter, eval_bind, eval_reads]
  rw [iterFrom_eval hbody, inOrder, List.range_eq_range']

end loops

theorem mem_inOrder {s : Shared} {id : UInt32} {h : JobRef} :
    (id, h) ∈ inOrder s ↔ s.getJob id = some h := by
  simp only [inOrder, List.mem_flatMap, List.mem_range, IdlePc.mem_shardEntries]
  constructor
  · rintro ⟨k, -, hget, -⟩
    exact hget
  · intro hget
    exact ⟨s.shards.of id, s.shards.of_lt id, hget, rfl⟩

theorem nodup_shardEntries (s : Shared) (k : Nat) :
    ((s.shardEntries k).map Prod.fst).Nodup := by
  have hkeys : (s.jobs.entries.map Sigma.fst).Nodup := s.jobs.nodupKeys
  have hsub : ((s.jobs.entries.filter fun e => s.shards.of e.1 = k).map Sigma.fst).Sublist
      (s.jobs.entries.map Sigma.fst) := List.filter_sublist.map Sigma.fst
  rw [Shared.shardEntries, List.map_map]
  exact hsub.nodup hkeys

/-- An iterator yields no key twice. -/
theorem nodup_inOrder (s : Shared) : ((inOrder s).map Prod.fst).Nodup := by
  rw [inOrder, List.map_flatMap, List.nodup_flatMap]
  refine ⟨fun k _ => nodup_shardEntries s k, ?_⟩
  refine List.nodup_range.pairwise_of_forall_ne ?_
  intro k _ k' _ hne id hk hk'
  obtain ⟨⟨_, h⟩, hmem, rfl⟩ := List.mem_map.mp hk
  obtain ⟨⟨_, h'⟩, hmem', heq⟩ := List.mem_map.mp hk'
  have hof := (IdlePc.mem_shardEntries.mp hmem).2
  have hof' := (IdlePc.mem_shardEntries.mp hmem').2
  simp only at heq
  rw [heq] at hof'
  exact hne (hof.symm.trans hof')

/-! ## The three loops -/

section passes

variable {s : Shared} {now : SystemTime}

/-- The keys of all jobs. -/
theorem collectKeys_eval : collectKeys.eval now s = (s, (inOrder s).map Prod.fst) := by
  have hfold : ∀ (l : List (UInt32 × JobRef)) keys,
      foldStop (fun e keys => (keys ++ [e.1], true)) l keys =
        (keys ++ l.map Prod.fst, true) := by
    intro l
    induction l with
    | nil => intro keys; simp [foldStop]
    | cons e l ih => intro keys; simp [foldStop, ih]
  rw [collectKeys, iter_eval (f := fun e keys => (keys ++ [e.1], true)) fun _ _ _ => rfl,
    hfold]
  rfl

/-- The keys of the idle jobs. -/
theorem idle_eval (idle : Duration) :
    (iter (idleBody now idle) []).eval now s =
      (s, ((inOrder s).filter fun e => (handleAt e.2 s).shouldCleanup now idle).map
        Prod.fst) := by
  let f : UInt32 × JobRef → List UInt32 → List UInt32 × Bool := fun e toRemove =>
    (if (handleAt e.2 s).shouldCleanup now idle then toRemove ++ [e.1] else toRemove, true)
  have hfold : ∀ (l : List (UInt32 × JobRef)) toRemove, foldStop f l toRemove =
      (toRemove ++ (l.filter fun e => (handleAt e.2 s).shouldCleanup now idle).map Prod.fst,
        true) := by
    intro l
    induction l with
    | nil => intro toRemove; simp [foldStop]
    | cons e l ih =>
      intro toRemove
      simp only [foldStop, f, if_true]
      rw [ih, List.filter_cons]
      split <;> simp
  rw [iter_eval (f := f) fun _ _ _ => by simp [idleBody, f], hfold]
  rfl

/-- The scan finds whether there are jobs and whether all have ended. -/
theorem scan_eval (s : Shared) (now : SystemTime) :
    ∃ found, (iter scanBody (false, true)).eval now s = (s, found) ∧
      ((found.1 && found.2) = true ↔ inOrder s ≠ [] ∧
        ∀ e ∈ inOrder s, (handleAt e.2 s).state.isTerminal = true) := by
  let f : UInt32 × JobRef → Bool × Bool → (Bool × Bool) × Bool := fun e b =>
    if (handleAt e.2 s).state.isTerminal then ((true, b.2), true) else ((true, false), false)
  have hbody : ∀ id h b, (scanBody id h b).eval now s = (s, f (id, h) b) := by
    intro id h b
    simp only [scanBody, readTerminal, eval_bind, eval_locked, eval_reads, f]
    split <;> rfl
  have hfold : ∀ (l : List (UInt32 × JobRef)) any,
      ((foldStop f l (any, true)).1.1 && (foldStop f l (any, true)).1.2) = true ↔
        (any = true ∨ l ≠ []) ∧ ∀ e ∈ l, (handleAt e.2 s).state.isTerminal = true := by
    intro l
    induction l with
    | nil => intro any; simp [foldStop]
    | cons e l ih =>
      intro any
      by_cases he : (handleAt e.2 s).state.isTerminal = true
      · have hstep : foldStop f (e :: l) (any, true) = foldStop f l (true, true) := by
          simp [foldStop, f, he]
        rw [hstep, ih]
        simp [he]
      · have hstep : foldStop f (e :: l) (any, true) = ((true, false), false) := by
          simp [foldStop, f, he]
        rw [hstep]
        simp [he]
  refine ⟨_, iter_eval hbody (false, true), ?_⟩
  rw [hfold]
  simp

end passes

/-! ## Removing jobs -/

/-- The jobs under the ids are gone, with their tokens cancelled. -/
structure Cleaned (s : Shared) (ids : List UInt32) (s' : Shared) : Prop where
  jobs : ∀ id, s'.getJob id = if id ∈ ids then none else s.getJob id
  length : s'.jobs.entries.length + ids.length = s.jobs.entries.length
  cancelled : ∀ id ∈ ids, ∀ h, s.getJob id = some h →
    s'.handles[h]? = (s.handles[h]?).map JobHandle.cancel
  others : ∀ h, (∀ id ∈ ids, s.getJob id ≠ some h) → s'.handles[h]? = s.handles[h]?
  rest : s' = { s with handles := s'.handles, jobs := s'.jobs }

/-- Two ids stand for two jobs. -/
theorem ref_inj {s : Shared} (hs : s.Registered) {id id' : UInt32} {h : JobRef}
    (hid : s.getJob id = some h) (hid' : s.getJob id' = some h) : id = id' := by
  obtain ⟨a, ha, hjob⟩ := hs id h hid
  obtain ⟨a', ha', hjob'⟩ := hs id' h hid'
  rw [ha] at ha'
  cases ha'
  exact hjob.symm.trans hjob'

/-- The registry after one `cleanup_job`. -/
def cleaned (s : Shared) (id : UInt32) (h : JobRef) : Shared :=
  { s.modify h JobHandle.cancel with jobs := s.jobs.erase id }

theorem cleanupJob_eval {s : Shared} {id : UInt32} {h : JobRef} (now : SystemTime)
    (hget : s.getJob id = some h) :
    (cleanupJob id).eval now s = (cleaned s id h, .ok ()) := by
  simp only [cleanupJob, getJob, remove, eval_bind, eval_reads, eval_locked, hget, eval_modify,
    eval_pure]
  rfl

theorem cleaned_one {s : Shared} {id : UInt32} {h : JobRef} (hget : s.getJob id = some h) :
    Cleaned s [id] (cleaned s id h) := by
  have hkey : id ∈ s.jobs.keys := AList.mem_keys.mp (AList.lookup_isSome.mp (by
    show (s.getJob id).isSome = true
    rw [hget]
    rfl))
  refine ⟨?_, ?_, ?_, ?_, rfl⟩
  · intro k
    show (s.jobs.erase id).lookup k = _
    by_cases hk : k = id
    · subst hk
      simp
    · rw [AList.lookup_erase_ne hk, if_neg (by simpa using hk)]
      rfl
  · have hlen := congrArg List.length (AList.keys_erase id s.jobs)
    rw [List.length_erase_of_mem hkey] at hlen
    have hpos := List.length_pos_of_mem hkey
    simp only [AList.keys, List.keys, List.length_map] at hlen hpos
    show (s.jobs.erase id).entries.length + 1 = s.jobs.entries.length
    omega
  · intro k hk h' hk'
    rw [List.mem_singleton.mp hk, hget] at hk'
    cases hk'
    show (s.modify h JobHandle.cancel).handles[h]? = _
    rw [Shared.modify_handles, if_pos rfl]
  · intro h' hne
    have hh : h ≠ h' := by
      intro heq
      exact hne id (List.mem_singleton_self id) (heq ▸ hget)
    show (s.modify h JobHandle.cancel).handles[h']? = _
    rw [Shared.modify_handles, if_neg hh]

theorem Cleaned.registered {s s' : Shared} {ids : List UInt32} (hs : s.Registered)
    (h : Cleaned s ids s') : s'.Registered := by
  intro id r hget
  rw [h.jobs] at hget
  split at hget
  · cases hget
  · rename_i hid
    obtain ⟨a, ha, hjob⟩ := hs id r hget
    refine ⟨a, ?_, hjob⟩
    rw [h.others r, ha]
    intro k hk hk'
    exact hid (ref_inj hs hk' hget ▸ hk)

/-- More jobs are removed after some. -/
theorem Cleaned.append {s s₁ s₂ : Shared} {ids ids' : List UInt32} (hs : s.Registered)
    (hdisjoint : ids.Disjoint ids') (h₁ : Cleaned s ids s₁) (h₂ : Cleaned s₁ ids' s₂) :
    Cleaned s (ids ++ ids') s₂ := by
  have hget : ∀ id ∈ ids', s₁.getJob id = s.getJob id := by
    intro id hid
    rw [h₁.jobs, if_neg fun hmem => hdisjoint hmem hid]
  refine ⟨?_, ?_, ?_, ?_, ?_⟩
  · intro id
    rw [h₂.jobs, h₁.jobs]
    by_cases hid : id ∈ ids <;> by_cases hid' : id ∈ ids' <;> simp [hid, hid']
  · have hlen₁ := h₁.length
    have hlen₂ := h₂.length
    rw [List.length_append]
    omega
  · intro id hid r hr
    rcases List.mem_append.mp hid with hid | hid
    · rw [h₂.others r, h₁.cancelled id hid r hr]
      intro k hk hk'
      rw [hget k hk] at hk'
      exact hdisjoint (ref_inj hs hr hk' ▸ hid) hk
    · rw [h₂.cancelled id hid r (by rw [hget id hid, hr]), h₁.others r]
      intro k hk hk'
      exact hdisjoint hk (ref_inj hs hr hk' ▸ hid)
  · intro r hr
    rw [h₂.others r, h₁.others r]
    · exact fun id hid => hr id (List.mem_append_left _ hid)
    · intro id hid
      rw [hget id hid]
      exact hr id (List.mem_append_right _ hid)
  · rw [h₂.rest, h₁.rest]

theorem cleanupEach_eval {s : Shared} (hs : s.Registered) (now : SystemTime)
    (ids : List UInt32) (n : Nat) (hnodup : ids.Nodup)
    (hids : ∀ id ∈ ids, ∃ h, s.getJob id = some h) :
    Cleaned s ids ((cleanupEach ids n).eval now s).1 ∧
      ((cleanupEach ids n).eval now s).2 = n + ids.length := by
  induction ids generalizing s n with
  | nil =>
    refine ⟨⟨fun id => by simp [cleanupEach], rfl, ?_, fun _ _ => rfl, rfl⟩, rfl⟩
    intro id hid
    exact absurd hid List.not_mem_nil
  | cons id ids ih =>
    obtain ⟨hnot, hnodup⟩ := List.nodup_cons.mp hnodup
    obtain ⟨h, hget⟩ := hids id List.mem_cons_self
    have hone := cleaned_one hget
    have hrest : ∀ k ∈ ids, ∃ r, (cleaned s id h).getJob k = some r := by
      intro k hk
      have hne : k ∉ [id] := by
        intro hmem
        exact hnot (List.mem_singleton.mp hmem ▸ hk)
      rw [hone.jobs, if_neg hne]
      exact hids k (List.mem_cons_of_mem id hk)
    obtain ⟨hcleaned, hcount⟩ := ih (hone.registered hs) (n + 1) hnodup hrest
    simp only [cleanupEach, eval_bind, cleanupJob_eval now hget]
    refine ⟨?_, ?_⟩
    · exact hone.append hs (by simpa using hnot) hcleaned
    · rw [hcount, List.length_cons]
      omega

/-! ## The call -/

section call

variable {s : Shared} {now : SystemTime} {idle quiet : Duration}

theorem handleAt_of_some {h : JobRef} {a : JobHandle} (ha : s.handles[h]? = some a) :
    handleAt h s = a := by
  rw [handleAt, ha, Option.getD_some]

/-- The test of the quiet branch is the rule. -/
theorem quiet_iff (hs : s.Registered) :
    ((inOrder s ≠ [] ∧ ∀ e ∈ inOrder s, (handleAt e.2 s).state.isTerminal = true) ∧
        quietElapsed now s.lastJobCreated quiet = true) ↔ s.Quiet now quiet := by
  rw [quietElapsed_iff, and_assoc]
  unfold Shared.Quiet
  refine and_congr ?_ (and_congr ?_ Iff.rfl)
  · constructor
    · intro hne
      obtain ⟨⟨id, h⟩, hmem⟩ := List.exists_mem_of_ne_nil _ hne
      exact ⟨id, h, mem_inOrder.mp hmem⟩
    · rintro ⟨id, h, hget⟩
      exact List.ne_nil_of_mem (mem_inOrder.mpr hget)
  · constructor
    · intro hall id h a hget ha
      rw [← handleAt_of_some ha]
      exact hall (id, h) (mem_inOrder.mpr hget)
    · rintro hall ⟨id, h⟩ hmem
      obtain ⟨a, ha, -⟩ := hs id h (mem_inOrder.mp hmem)
      rw [handleAt_of_some ha]
      exact hall id h a (mem_inOrder.mp hmem) ha

/-- What the call removes. -/
theorem cleanupIdleJobs_eval (now : SystemTime) (idle quiet : Duration)
    (hs : s.Registered) :
    ∃ ids, (∀ id h, s.getJob id = some h → (id ∈ ids ↔ s.Due now idle quiet id h)) ∧
      Cleaned s ids ((cleanupIdleJobs idle quiet).eval now s).1 ∧
      ((cleanupIdleJobs idle quiet).eval now s).2 = ids.length := by
  obtain ⟨found, hscan, hfound⟩ := scan_eval s now
  have hquiet : (found.1 && found.2 && quietElapsed now s.lastJobCreated quiet) = true ↔
      s.Quiet now quiet := by
    rw [Bool.and_eq_true, hfound, quiet_iff hs]
  simp only [cleanupIdleJobs, eval_bind, eval_input, eval_locked, eval_reads, hscan]
  by_cases hq : s.Quiet now quiet
  · rw [if_pos (hquiet.mpr hq)]
    simp only [eval_bind, collectKeys_eval]
    refine ⟨(inOrder s).map Prod.fst, ?_, ?_⟩
    · intro id h hget
      refine iff_of_true ?_ ⟨hget, .inl hq⟩
      exact List.mem_map.mpr ⟨(id, h), mem_inOrder.mpr hget, rfl⟩
    · have hids : ∀ id ∈ (inOrder s).map Prod.fst, ∃ h, s.getJob id = some h := by
        intro id hid
        obtain ⟨⟨_, h⟩, hmem, rfl⟩ := List.mem_map.mp hid
        exact ⟨h, mem_inOrder.mp hmem⟩
      simpa using cleanupEach_eval hs now _ 0 (nodup_inOrder s) hids
  · rw [if_neg fun h => hq (hquiet.mp h)]
    simp only [eval_bind, idle_eval]
    let idles := (inOrder s).filter fun e => (handleAt e.2 s).shouldCleanup now idle
    refine ⟨idles.map Prod.fst, ?_, ?_⟩
    · intro id h hget
      obtain ⟨a, ha, -⟩ := hs id h hget
      have hidle : id ∈ idles.map Prod.fst ↔ a.Expired now idle := by
        rw [← JobHandle.shouldCleanup_iff, List.mem_map]
        constructor
        · rintro ⟨⟨id', h'⟩, hmem, rfl⟩
          obtain ⟨horder, hshould⟩ := List.mem_filter.mp hmem
          rw [mem_inOrder, hget] at horder
          cases horder
          rwa [handleAt_of_some ha] at hshould
        · intro hshould
          refine ⟨(id, h), List.mem_filter.mpr ⟨mem_inOrder.mpr hget, ?_⟩, rfl⟩
          rwa [handleAt_of_some ha]
      rw [hidle]
      constructor
      · intro hexp
        exact ⟨hget, .inr ⟨a, ha, hexp⟩⟩
      · rintro ⟨-, hcase | ⟨b, hb, hexp⟩⟩
        · exact absurd hcase hq
        · rw [ha] at hb
          cases hb
          exact hexp
    · have hsub : idles.Sublist (inOrder s) := List.filter_sublist
      have hids : ∀ id ∈ idles.map Prod.fst, ∃ h, s.getJob id = some h := by
        intro id hid
        obtain ⟨⟨_, h⟩, hmem, rfl⟩ := List.mem_map.mp hid
        exact ⟨h, mem_inOrder.mp (hsub.subset hmem)⟩
      have hnodup := (hsub.map Prod.fst).nodup (nodup_inOrder s)
      simpa using cleanupEach_eval hs now _ 0 hnodup hids

/-- The call removes the jobs that are due and no others, whatever the order in which
the map yields them.  It returns their number, cancels their tokens, and changes
nothing else. -/
theorem removes_expired (hs : s.Registered) :
    let s' := ((cleanupIdleJobs idle quiet).eval now s).1
    (∀ id h, s'.getJob id = some h ↔
        s.getJob id = some h ∧ ¬ s.Due now idle quiet id h) ∧
      ((cleanupIdleJobs idle quiet).eval now s).2 + s'.jobs.entries.length =
        s.jobs.entries.length ∧
      (∀ id h, s.Due now idle quiet id h →
        s'.handles[h]? = (s.handles[h]?).map JobHandle.cancel) ∧
      (∀ h, (∀ id, ¬ s.Due now idle quiet id h) → s'.handles[h]? = s.handles[h]?) ∧
      s' = { s with handles := s'.handles, jobs := s'.jobs } := by
  obtain ⟨ids, hids, hcleaned, hcount⟩ :=
    cleanupIdleJobs_eval now idle quiet hs
  refine ⟨?_, ?_, ?_, ?_, hcleaned.rest⟩
  · intro id h
    rw [hcleaned.jobs]
    constructor
    · intro hget
      split at hget
      · cases hget
      · rename_i hnot
        exact ⟨hget, fun hdue => hnot ((hids id h hget).mpr hdue)⟩
    · rintro ⟨hget, hnot⟩
      rw [if_neg fun hmem => hnot ((hids id h hget).mp hmem), hget]
  · rw [hcount, Nat.add_comm]
    exact hcleaned.length
  · intro id h hdue
    exact hcleaned.cancelled id ((hids id h hdue.1).mpr hdue) h hdue.1
  · intro h hnot
    apply hcleaned.others
    intro id hid hget
    exact hnot id ((hids id h hget).mp hid)

end call

theorem toNat_mod_two_lt (id : UInt32) : id.toNat % 2 < 2 := Nat.mod_lt _ Nat.two_pos

/-- Two jobs: one has completed at 5, the other is running and was active at 90. -/
def sampleJobs : Shared where
  handles := [
    { JobHandle.create 1 none 0 with state := .completed, completedAt := some 5 },
    { JobHandle.create 2 none 0 with state := .running, lastActivity := 90 }]
  jobs := ((∅ : AList fun _ : UInt32 => JobRef).insert 1 0).insert 2 1
  nextJobId := 3
  maxConcurrentJobs := 50
  lastJobCreated := 0
  shards := ⟨2, fun id => id.toNat % 2, toNat_mod_two_lt⟩

/-- After an hour of idleness the first is removed, and the second stays. -/
theorem removes_expired_one :
    sampleJobs.Registered ∧ ((cleanupIdleJobs 60 10).eval 100 sampleJobs).2 = 1 ∧
      ((cleanupIdleJobs 60 10).eval 100 sampleJobs).1.getJob 2 = some 1 ∧
      ¬ sampleJobs.Due 100 60 10 2 1 := by
  have hreg : sampleJobs.Registered := by
    intro id h hget
    have hmem : (⟨id, h⟩ : Sigma fun _ : UInt32 => JobRef) ∈ sampleJobs.jobs.entries :=
      AList.mem_lookup_iff.mp hget
    have hentries : sampleJobs.jobs.entries = [⟨2, 1⟩, ⟨1, 0⟩] := by decide
    rw [hentries] at hmem
    simp only [List.mem_cons, List.not_mem_nil, or_false] at hmem
    rcases hmem with heq | heq <;> cases heq <;> exact ⟨_, rfl, rfl⟩
  have hstays : ((cleanupIdleJobs 60 10).eval 100 sampleJobs).1.getJob 2 = some 1 := by
    decide +kernel
  exact ⟨hreg, by decide +kernel, hstays, ((removes_expired hreg).1 2 1).mp hstays |>.2⟩

/-! ## Inside the manager -/

/-- A thread that calls `cleanup_idle_jobs` while the others hold no locks returns, and
leaves behind what `eval` says. -/
theorem run_cleanupIdleJobs {m : LockSystem SystemTime Shared Lock} {i : Nat}
    (now : SystemTime) (idle quiet : Duration) (hi : m.threads[i]? = some ⟨[], .ret ()⟩)
    (halone : m.Alone i) :
    ∃ n, machine.run m (.call i (.cleanupIdleJobs idle quiet) ::
        List.replicate n (.step i now)) =
      some ⟨((cleanupIdleJobs idle quiet).eval now m.data).1,
        m.threads.set i ⟨[], .ret ()⟩⟩ := by
  let code := (Routine.cleanupIdleJobs idle quiet).code
  have hlen : i < m.threads.length := (List.getElem?_eq_some_iff.mp hi).1
  have hcall : machine.step m (.call i (.cleanupIdleJobs idle quiet)) =
      some ⟨m.data, m.threads.set i ⟨[], code⟩⟩ := by
    show LockSystem.step Routine.code m (.call i (.cleanupIdleJobs idle quiet)) = _
    simp [LockSystem.step, hi, LockProg.returned, code]
  obtain ⟨n, hn⟩ : ∃ n, machine.run ⟨m.data, m.threads.set i ⟨[], code⟩⟩
      (List.replicate n (.step i now)) =
        some ⟨(code.eval now m.data).1,
          (m.threads.set i ⟨[], code⟩).set i ⟨[], .ret ()⟩⟩ :=
    LockSystem.run_alone (fun s : Shared => s.handles = [] ∧ s.jobs = ∅) now
      (List.getElem?_set_self hlen) (code_ordered (.cleanupIdleJobs idle quiet))
      (halone.set m.data _)
  refine ⟨n, ?_⟩
  rw [StepMachine.run, hcall, Option.bind_some]
  have heval : (code.eval now m.data).1 =
      ((cleanupIdleJobs idle quiet).eval now m.data).1 := by
    simp only [code, Routine.code, forget, eval_bind, eval_pure]
  rw [← heval]
  rw [List.set_set] at hn
  exact hn

end Locks

theorem Shared.registered_act {s : Shared} (hs : s.Registered) (now : SystemTime)
    (a : Action) : (s.act now a).Registered := by
  intro id h hget
  rcases getJob_act hget with hold | ⟨⟨timeout, rfl⟩, rfl⟩
  · obtain ⟨b, hb, hid⟩ := hs id h hold
    obtain ⟨b', hb', hid'⟩ := s.jobId_act now a hb
    exact ⟨b', hb', hid'.trans hid⟩
  · exact ⟨JobHandle.create id timeout now, List.getElem?_concat_length, rfl⟩

theorem Manager.registered_step {m m' : Manager} {l : Label} (hm : m.shared.Registered)
    (hstep : m.step l = some m') : m'.shared.Registered := by
  cases l with
  | call op =>
    cases hstep
    exact hm
  | step i now =>
    obtain ⟨c, s', c', -, hs, rfl⟩ := step_call_inv hstep
    rw [Call.step_act hs]
    exact Shared.registered_act hm now c.action

theorem Manager.registered_initial {m : Manager} (h : Initial m) : m.shared.Registered := by
  intro id r hget
  rw [Shared.getJob, h.2.1] at hget
  cases hget

/-- In every state of the manager, what is registered under an id is a job with that
id. -/
theorem Manager.registered_reachable {m : Manager} (h : Manager.machine.Reachable m) :
    m.shared.Registered :=
  h.invariant (I := fun m => m.shared.Registered) (fun _ => registered_initial)
    fun _ _ _ hm _ hstep => registered_step hm hstep

end RemoteAgent.JobManager
