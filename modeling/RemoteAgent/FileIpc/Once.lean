import RemoteAgent.CodeLib.Lists
import RemoteAgent.FileIpc.Server

/-!
# How often a request file is executed

A task claims its request file by removing it, but it opens and reads the file
before.  Nothing keeps the next poll from spawning a second task for a file whose
removal is still to come, and what that task has opened it will execute.

* `OnceInv` is the invariant of the runs in which no task opens a file that another
  one has in its hands: a file that is in some task's hands is still in the directory
  and in no other task's hands, and a file that was claimed or executed is gone from
  the directory for good.
* `executed_once`: in these runs no file is executed twice.  `executed_twice` is a run
  of two polls in which one is.
-/

namespace RemoteAgent

open CodeLib FileIpc

/-- The placement that a task has in its hands: it has opened the file and has not
come past the removal. -/
def FileIpc.TaskPc.holds : TaskPc → Option Nat
  | .reading p | .removing p _ => some p
  | _ => none

/-- The placement that a task has claimed and not executed yet. -/
def FileIpc.TaskPc.claims : TaskPc → Option Nat
  | .parsing p _ => some p
  | _ => none

namespace FileIpcServer

/-! ## Who has a file in his hands -/

/-- The task that does not find its file in this step, or fails on it. -/
def Event.misses? : Event → Option Nat
  | .task i .openFailed | .task i .removeFailed => some i
  | _ => none

/-- The task that opens its file in this step. -/
def Event.opens? : Event → Option Nat
  | .task i .opened => some i
  | _ => none

/-- A file operation fails on a file that is there. -/
def Event.breaks : Event → Bool
  | .task _ .readFailed | .task _ .writeFailed => true
  | _ => false

/-- Every file operation that finds its file succeeds. -/
def OpsSucceed (s : FileIpcServer) (e : Event) : Prop :=
  e.breaks = false ∧ ∀ i ∈ e.misses?, ∀ t ∈ s.tasks[i]?, t.path ∉ s.directory

/-- A task opens a file only if no task has the file in its hands. -/
def OpensFree (s : FileIpcServer) (e : Event) : Prop :=
  ∀ i ∈ e.opens?, ∀ t ∈ s.tasks[i]?, ∀ p ∈ s.directory.lookup t.path,
    ∀ t' ∈ s.tasks, t'.pc.holds ≠ some p

instance (s : FileIpcServer) (e : Event) : Decidable (OpsSucceed s e) :=
  inferInstanceAs (Decidable (_ ∧ _))

instance (s : FileIpcServer) (e : Event) : Decidable (OpensFree s e) :=
  Option.decidableForallMem e.opens?

/-- The placement is known and no longer in the directory. -/
def Gone (s : FileIpcServer) (p : Nat) : Prop :=
  p < s.placements.length ∧ ∀ name, s.directory.lookup name ≠ some p

structure OnceInv (s : FileIpcServer) : Prop where
  known : ∀ name p, s.directory.lookup name = some p → p < s.placements.length
  distinct : ∀ name name' p, s.directory.lookup name = some p →
    s.directory.lookup name' = some p → name = name'
  held : ∀ (i : Nat) (t : Task) p, s.tasks[i]? = some t → t.pc.holds = some p →
    s.directory.lookup t.path = some p
  heldOnce : ∀ (i j : Nat) (t t' : Task) p, s.tasks[i]? = some t →
    s.tasks[j]? = some t' → t.pc.holds = some p → t'.pc.holds = some p → i = j
  claimed : ∀ (i : Nat) (t : Task) p, s.tasks[i]? = some t → t.pc.claims = some p →
    s.Gone p ∧ p ∉ s.executed
  claimedOnce : ∀ (i j : Nat) (t t' : Task) p, s.tasks[i]? = some t →
    s.tasks[j]? = some t' → t.pc.claims = some p → t'.pc.claims = some p → i = j
  executed : ∀ p ∈ s.executed, s.Gone p
  once : s.executed.Nodup

theorem once_start : OnceInv start := by
  refine ⟨?_, ?_, ?_, ?_, ?_, ?_, ?_, List.nodup_nil⟩ <;> simp [start]

/-! ## The steps -/

section steps

variable {serde : Serde} {s s' : FileIpcServer}

/-- A step that leaves the directory and the executed files alone, after which a task
has a file in its hands or claimed only if it had before. -/
theorem OnceInv.of_tasks (h : OnceInv s) (hdir : s'.directory = s.directory)
    (hplace : s'.placements = s.placements) (hexec : s'.executed = s.executed)
    (htasks : ∀ (i : Nat) (t' : Task), s'.tasks[i]? = some t' →
      t'.pc.holds = none ∧ t'.pc.claims = none ∨
        ∃ t : Task, s.tasks[i]? = some t ∧ t.path = t'.path ∧
          t'.pc.holds = t.pc.holds ∧ t'.pc.claims = t.pc.claims) : OnceInv s' := by
  have hholds : ∀ (i : Nat) (t' : Task) p, s'.tasks[i]? = some t' → t'.pc.holds = some p →
      ∃ t : Task, s.tasks[i]? = some t ∧ t.path = t'.path ∧ t.pc.holds = some p := by
    intro i t' p hi hp
    rcases htasks i t' hi with ⟨hnone, -⟩ | ⟨t, ht, hpath, hsame, -⟩
    · rw [hnone] at hp
      cases hp
    · exact ⟨t, ht, hpath, hsame ▸ hp⟩
  have hclaims : ∀ (i : Nat) (t' : Task) p, s'.tasks[i]? = some t' →
      t'.pc.claims = some p → ∃ t : Task, s.tasks[i]? = some t ∧ t.pc.claims = some p := by
    intro i t' p hi hp
    rcases htasks i t' hi with ⟨-, hnone⟩ | ⟨t, ht, -, -, hsame⟩
    · rw [hnone] at hp
      cases hp
    · exact ⟨t, ht, hsame ▸ hp⟩
  have hgone : ∀ p, s.Gone p → s'.Gone p := by
    intro p hp
    rw [Gone, hdir, hplace]
    exact hp
  refine ⟨?_, ?_, ?_, ?_, ?_, ?_, ?_, ?_⟩
  · rw [hdir, hplace]
    exact h.known
  · rw [hdir]
    exact h.distinct
  · intro i t' p hi hp
    obtain ⟨t, ht, hpath, htp⟩ := hholds i t' p hi hp
    rw [hdir, ← hpath]
    exact h.held i t p ht htp
  · intro i j t t' p hi hj hp hp'
    obtain ⟨t₁, ht₁, -, hp₁⟩ := hholds i t p hi hp
    obtain ⟨t₂, ht₂, -, hp₂⟩ := hholds j t' p hj hp'
    exact h.heldOnce i j t₁ t₂ p ht₁ ht₂ hp₁ hp₂
  · intro i t' p hi hp
    obtain ⟨t, ht, htp⟩ := hclaims i t' p hi hp
    rw [hexec]
    exact ⟨hgone p (h.claimed i t p ht htp).1, (h.claimed i t p ht htp).2⟩
  · intro i j t t' p hi hj hp hp'
    obtain ⟨t₁, ht₁, hp₁⟩ := hclaims i t p hi hp
    obtain ⟨t₂, ht₂, hp₂⟩ := hclaims j t' p hj hp'
    exact h.claimedOnce i j t₁ t₂ p ht₁ ht₂ hp₁ hp₂
  · intro p hp
    rw [hexec] at hp
    exact hgone p (h.executed p hp)
  · rw [hexec]
    exact h.once

/-- A task goes on without a file, or with the file that it had. -/
theorem OnceInv.of_set {i : Nat} {t : Task} {pc' : TaskPc} (h : OnceInv s)
    (ht : s.tasks[i]? = some t)
    (hpc : pc'.holds = none ∧ pc'.claims = none ∨
      pc'.holds = t.pc.holds ∧ pc'.claims = t.pc.claims)
    (hdir : s'.directory = s.directory) (hplace : s'.placements = s.placements)
    (hexec : s'.executed = s.executed)
    (htasks : s'.tasks = s.tasks.set i { t with pc := pc' }) : OnceInv s' := by
  refine h.of_tasks hdir hplace hexec ?_
  intro j t' hj
  rw [htasks] at hj
  rcases getElem?_set_cases hj with ⟨rfl, rfl⟩ | ⟨-, hold⟩
  · exact hpc.imp_right fun hsame => ⟨t, ht, rfl, hsame.1, hsame.2⟩
  · exact Or.inr ⟨t', hold, rfl, rfl, rfl⟩

/-- A task opens a file that nobody has in his hands. -/
theorem once_opened {i : Nat} {t : Task} {p : Nat} (h : OnceInv s)
    (ht : s.tasks[i]? = some t) (hp : s.directory.lookup t.path = some p)
    (hfree : ∀ t' ∈ s.tasks, t'.pc.holds ≠ some p) :
    OnceInv { s with tasks := s.tasks.set i { t with pc := .reading p } } := by
  have hholds : ∀ (j : Nat) (t' : Task) q,
      (s.tasks.set i { t with pc := .reading p })[j]? = some t' → t'.pc.holds = some q →
      j = i ∧ q = p ∧ t'.path = t.path ∨ j ≠ i ∧ s.tasks[j]? = some t' := by
    intro j t' q hj hq
    rcases getElem?_set_cases hj with ⟨rfl, rfl⟩ | hold
    · exact Or.inl ⟨rfl, (Option.some.inj hq).symm, rfl⟩
    · exact Or.inr hold
  have hclaims : ∀ (j : Nat) (t' : Task) q,
      (s.tasks.set i { t with pc := .reading p })[j]? = some t' → t'.pc.claims = some q →
      s.tasks[j]? = some t' := by
    intro j t' q hj hq
    rcases getElem?_set_cases hj with ⟨rfl, rfl⟩ | ⟨-, hold⟩
    · cases hq
    · exact hold
  refine ⟨h.known, h.distinct, ?_, ?_, ?_, ?_, h.executed, h.once⟩
  · intro j t' q hj hq
    rcases hholds j t' q hj hq with ⟨-, rfl, hpath⟩ | ⟨-, hold⟩
    · rw [hpath]
      exact hp
    · exact h.held j t' q hold hq
  · intro j k t₁ t₂ q hj hk hq₁ hq₂
    rcases hholds j t₁ q hj hq₁ with ⟨rfl, rfl, -⟩ | ⟨hji, hold₁⟩
    · rcases hholds k t₂ q hk hq₂ with ⟨rfl, -, -⟩ | ⟨-, hold₂⟩
      · rfl
      · exact absurd hq₂ (hfree t₂ (List.mem_of_getElem? hold₂))
    · rcases hholds k t₂ q hk hq₂ with ⟨-, rfl, -⟩ | ⟨-, hold₂⟩
      · exact absurd hq₁ (hfree t₁ (List.mem_of_getElem? hold₁))
      · exact h.heldOnce j k t₁ t₂ q hold₁ hold₂ hq₁ hq₂
  · intro j t' q hj hq
    exact h.claimed j t' q (hclaims j t' q hj hq) hq
  · intro j k t₁ t₂ q hj hk hq₁ hq₂
    exact h.claimedOnce j k t₁ t₂ q (hclaims j t₁ q hj hq₁) (hclaims k t₂ q hk hq₂) hq₁ hq₂

/-- A task removes the file that it has in its hands. -/
theorem once_removed {i : Nat} {t : Task} {p : Nat} {content : String} (h : OnceInv s)
    (ht : s.tasks[i]? = some t) (hpc : t.pc = .removing p content) :
    OnceInv { s with
      directory := s.directory.erase t.path
      tasks := s.tasks.set i { t with pc := .parsing p content } } := by
  have hhold : t.pc.holds = some p := by rw [hpc]; rfl
  have hp := h.held i t p ht hhold
  have hsub : ∀ name q, (s.directory.erase t.path).lookup name = some q →
      name ≠ t.path ∧ s.directory.lookup name = some q := by
    intro name q hq
    by_cases hname : name = t.path
    · rw [hname, AList.lookup_erase] at hq
      cases hq
    · rw [AList.lookup_erase_ne hname] at hq
      exact ⟨hname, hq⟩
  have hgone : ∀ q, s.Gone q → Gone { s with
      directory := s.directory.erase t.path
      tasks := s.tasks.set i { t with pc := .parsing p content } } q := by
    intro q hq
    exact ⟨hq.1, fun name hname => hq.2 name (hsub name q hname).2⟩
  have hnot : ¬ s.Gone p := fun hg => hg.2 t.path hp
  refine ⟨?_, ?_, ?_, ?_, ?_, ?_, fun q hq => hgone q (h.executed q hq), h.once⟩
  · intro name q hq
    exact h.known name q (hsub name q hq).2
  · intro name name' q hq hq'
    exact h.distinct name name' q (hsub name q hq).2 (hsub name' q hq').2
  · intro j t' q hj hq
    rcases getElem?_set_cases hj with ⟨rfl, rfl⟩ | ⟨hji, hold⟩
    · cases hq
    · have hlookup := h.held j t' q hold hq
      have hne : t'.path ≠ t.path := by
        intro hpath
        rw [hpath, hp] at hlookup
        obtain rfl := Option.some.inj hlookup
        exact hji (h.heldOnce j i t' t p hold ht hq hhold)
      rw [AList.lookup_erase_ne hne]
      exact hlookup
  · intro j k t₁ t₂ q hj hk hq₁ hq₂
    rcases getElem?_set_cases hj with ⟨rfl, rfl⟩ | ⟨-, hold₁⟩
    · cases hq₁
    · rcases getElem?_set_cases hk with ⟨rfl, rfl⟩ | ⟨-, hold₂⟩
      · cases hq₂
      · exact h.heldOnce j k t₁ t₂ q hold₁ hold₂ hq₁ hq₂
  · intro j t' q hj hq
    rcases getElem?_set_cases hj with ⟨rfl, rfl⟩ | ⟨-, hold⟩
    · obtain rfl : p = q := Option.some.inj hq
      refine ⟨⟨h.known _ _ hp, ?_⟩, fun hmem => hnot (h.executed p hmem)⟩
      intro name hname
      obtain ⟨hne, hlookup⟩ := hsub name p hname
      exact hne (h.distinct name t.path p hlookup hp)
    · exact ⟨hgone q (h.claimed j t' q hold hq).1, (h.claimed j t' q hold hq).2⟩
  · intro j k t₁ t₂ q hj hk hq₁ hq₂
    rcases getElem?_set_cases hj with ⟨rfl, rfl⟩ | ⟨-, hold₁⟩
    · rcases getElem?_set_cases hk with ⟨rfl, rfl⟩ | ⟨-, hold₂⟩
      · rfl
      · obtain rfl : p = q := Option.some.inj hq₁
        exact absurd (h.claimed k t₂ p hold₂ hq₂).1 hnot
    · rcases getElem?_set_cases hk with ⟨rfl, rfl⟩ | ⟨-, hold₂⟩
      · obtain rfl : p = q := Option.some.inj hq₂
        exact absurd (h.claimed j t₁ p hold₁ hq₁).1 hnot
      · exact h.claimedOnce j k t₁ t₂ q hold₁ hold₂ hq₁ hq₂

/-- A task executes what it has claimed. -/
theorem once_execute {i : Nat} {t : Task} {p : Nat} {content : String} {request : Request}
    (h : OnceInv s) (ht : s.tasks[i]? = some t) (hpc : t.pc = .parsing p content) :
    OnceInv { s with
      executed := s.executed ++ [p]
      tasks := s.tasks.set i { t with pc := .spawning p request } } := by
  have hclaim : t.pc.claims = some p := by rw [hpc]; rfl
  obtain ⟨hgone, hnew⟩ := h.claimed i t p ht hclaim
  have hkeep : OnceInv { s with tasks := s.tasks.set i { t with pc := .spawning p request } } :=
    h.of_set ht (Or.inl ⟨rfl, rfl⟩) rfl rfl rfl rfl
  refine ⟨hkeep.known, hkeep.distinct, hkeep.held, hkeep.heldOnce, ?_, hkeep.claimedOnce, ?_, ?_⟩
  · intro j t' q hj hq
    obtain ⟨hgone', hnot⟩ := hkeep.claimed j t' q hj hq
    refine ⟨hgone', ?_⟩
    rw [List.mem_append, List.mem_singleton]
    rintro (hmem | rfl)
    · exact hnot hmem
    · rcases getElem?_set_cases hj with ⟨rfl, rfl⟩ | ⟨hji, hold⟩
      · cases hq
      · exact hji (h.claimedOnce j i t' t q hold ht hq hclaim)
  · intro q hq
    rcases List.mem_append.mp hq with hmem | hmem
    · exact h.executed q hmem
    · rw [List.mem_singleton.mp hmem]
      exact hgone
  · exact List.nodup_append.mpr ⟨h.once, List.nodup_singleton p, by
      intro a ha b hb hab
      rw [List.mem_singleton.mp hb] at hab
      exact hnew (hab ▸ ha)⟩

/-- A client puts a file under a free name. -/
theorem once_place {name : FileName} {content : List UInt8} (h : OnceInv s)
    (hname : name ∉ s.directory) :
    OnceInv { s with
      directory := s.directory.insert name s.placements.length
      placements := s.placements ++ [content] } := by
  have hnone : s.directory.lookup name = none := AList.lookup_eq_none.mpr hname
  have hcases : ∀ k q, (s.directory.insert name s.placements.length).lookup k = some q →
      k = name ∧ q = s.placements.length ∨ s.directory.lookup k = some q := by
    intro k q hq
    by_cases hk : k = name
    · rw [hk, AList.lookup_insert] at hq
      exact Or.inl ⟨hk, (Option.some.inj hq).symm⟩
    · rw [AList.lookup_insert_ne hk] at hq
      exact Or.inr hq
  have hgone : ∀ q, s.Gone q → Gone { s with
      directory := s.directory.insert name s.placements.length
      placements := s.placements ++ [content] } q := by
    intro q hq
    refine ⟨?_, fun k hk => ?_⟩
    · have hlt := hq.1
      simp only [List.length_append]
      omega
    · rcases hcases k q hk with ⟨-, rfl⟩ | hold
      · exact absurd hq.1 (Nat.lt_irrefl _)
      · exact hq.2 k hold
  refine ⟨?_, ?_, ?_, h.heldOnce, ?_, h.claimedOnce, fun q hq => hgone q (h.executed q hq),
    h.once⟩
  · intro k q hk
    simp only [List.length_append, List.length_singleton]
    rcases hcases k q hk with ⟨-, rfl⟩ | hold
    · omega
    · have hlt := h.known k q hold
      omega
  · intro k k' q hk hk'
    rcases hcases k q hk with ⟨rfl, rfl⟩ | hold
    · rcases hcases k' _ hk' with ⟨rfl, -⟩ | hold'
      · rfl
      · exact absurd (h.known k' _ hold') (Nat.lt_irrefl _)
    · rcases hcases k' q hk' with ⟨rfl, rfl⟩ | hold'
      · exact absurd (h.known k _ hold) (Nat.lt_irrefl _)
      · exact h.distinct k k' q hold hold'
  · intro i t q hi hq
    have hlookup := h.held i t q hi hq
    have hne : t.path ≠ name := by
      intro heq
      rw [heq, hnone] at hlookup
      cases hlookup
    show (s.directory.insert name s.placements.length).lookup t.path = some q
    rw [AList.lookup_insert_ne hne]
    exact hlookup
  · intro i t q hi hq
    exact ⟨hgone q (h.claimed i t q hi hq).1, (h.claimed i t q hi hq).2⟩

theorem once_task {i : Nat} {e : TaskEvent} (h : OnceInv s)
    (hops : OpsSucceed s (.task i e)) (hfree : OpensFree s (.task i e))
    (hstep : s.step serde (.task i e) = some s') : OnceInv s' := by
  obtain ⟨⟨path, pc⟩, s₁, pc', ht, hmove, rfl⟩ := step_task_inv hstep
  cases hmove with
  | opened p hp => exact once_opened h ht hp (hfree i rfl _ ht p hp)
  | read p content =>
    have hpc : (TaskPc.removing p content).holds = (TaskPc.reading p).holds ∧
        (TaskPc.removing p content).claims = (TaskPc.reading p).claims := ⟨rfl, rfl⟩
    exact h.of_set ht (Or.inr hpc) rfl rfl rfl rfl
  | removed p content hp => exact once_removed h ht rfl
  | removeFailed p content =>
    have hlookup := h.held i _ p ht rfl
    exact absurd (AList.lookup_isSome.mp (by rw [hlookup]; rfl)) (hops.2 i rfl _ ht)
  | execute p content request => exact once_execute h ht rfl
  | _ => exact h.of_set ht (Or.inl ⟨rfl, rfl⟩) rfl rfl rfl rfl

theorem once_step {e : Event} (h : OnceInv s) (hops : OpsSucceed s e)
    (hfree : OpensFree s e) (hstep : s.step serde e = some s') : OnceInv s' := by
  have hkeep : ∀ {u : FileIpcServer}, u.directory = s.directory →
      u.placements = s.placements → u.executed = s.executed → u.tasks = s.tasks →
      OnceInv u := by
    intro u hd hp he ht
    refine h.of_tasks hd hp he ?_
    intro j t' hj
    exact Or.inr ⟨t', ht ▸ hj, rfl, rfl, rfl⟩
  cases e with
  | place name content =>
    simp only [step] at hstep
    split at hstep
    · cases hstep
    · rename_i hname
      cases hstep
      exact once_place h hname
  | readDir | listed | shutdown =>
    simp only [step] at hstep
    split at hstep <;> cases hstep
    exact hkeep rfl rfl rfl rfl
  | entry name =>
    simp only [step] at hstep
    split at hstep
    · split at hstep
      · cases hstep
        unfold processEntry
        split
        · split
          · refine h.of_tasks rfl rfl rfl ?_
            intro j t' hj
            rcases getElem?_concat_cases hj with hold | ⟨-, rfl⟩
            · exact Or.inr ⟨t', hold, rfl, rfl, rfl⟩
            · exact Or.inl ⟨rfl, rfl⟩
          · exact hkeep rfl rfl rfl rfl
        · exact hkeep rfl rfl rfl rfl
      · cases hstep
    · cases hstep
  | task i e => exact once_task h hops hfree hstep
  | childExit k =>
    simp only [step] at hstep
    split at hstep <;> cases hstep
    exact hkeep rfl rfl rfl rfl

end steps

/-- No request file is executed twice, in every run in which every file operation
that finds its file succeeds and a task opens a file only when no task has it in its
hands. -/
theorem executed_once {serde : Serde} {s : FileIpcServer}
    (h : (machine serde).Reach (fun s e => OpsSucceed s e ∧ OpensFree s e) s) (p : Nat) :
    s.executed.count p ≤ 1 := by
  have hinv : OnceInv s := by
    refine h.invariant ?_ fun _ _ _ hinv hc hstep => once_step hinv hc.1 hc.2 hstep
    rintro _ rfl
    exact once_start
  exact List.nodup_iff_count_le_one.mp hinv.once p

/-- The poll sees the file and spawns a task for it. -/
def pollEvents (name : FileName) : List Event := [.readDir, .entry name, .listed]

/-- Two polls see the file before it is removed.  The second task opens it when the
first one is through. -/
theorem executed_once_reopened :
    ∃ s, (machine sampleSerde).Reach (fun s e => OpsSucceed s e ∧ OpensFree s e) s ∧
      s.tasks.length = 2 ∧ s.executed = [0] ∧ s.executed.count 0 ≤ 1 := by
  obtain ⟨s, hreach, hs⟩ := StepMachine.reach_of_runIf (machine sampleSerde)
    (fun s e => OpsSucceed s e ∧ OpensFree s e) rfl
    (([.place sampleName sampleContent] : List Event) ++ pollEvents sampleName ++
      pollEvents sampleName ++
      ([.task 0 .opened, .task 0 .read, .task 0 .removed, .task 0 .parse,
        .task 1 .openFailed] : List Event))
    (fun s => s.tasks.length == 2 && s.executed == [0]) (by decide +kernel)
  simp only [Bool.and_eq_true, beq_iff_eq] at hs
  exact ⟨s, hreach, hs.1, hs.2, executed_once hreach 0⟩

/-- Two polls see the file, both tasks open it before either removes it, and it is
executed twice. -/
theorem executed_twice :
    ∃ s, (machine sampleSerde).Reach OpsSucceed s ∧ s.placements.length = 1 ∧
      s.executed = [0, 0] := by
  obtain ⟨s, hreach, hs⟩ := StepMachine.reach_of_runIf (machine sampleSerde) OpsSucceed rfl
    (([.place sampleName sampleContent] : List Event) ++ pollEvents sampleName ++
      pollEvents sampleName ++
      ([.task 0 .opened, .task 1 .opened, .task 0 .read, .task 1 .read, .task 0 .removed,
        .task 1 .removeFailed, .task 0 .parse, .task 1 .parse] : List Event))
    (fun s => s.placements.length == 1 && s.executed == [0, 0]) (by decide +kernel)
  simp only [Bool.and_eq_true, beq_iff_eq] at hs
  exact ⟨s, hreach, hs.1, hs.2⟩

end FileIpcServer

end RemoteAgent
