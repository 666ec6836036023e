import RemoteAgent.CodeLib.Lists
import RemoteAgent.FileIpc.Server

/-!
# How many commands the file-based server runs at once

The permits bound the tasks.  A task that waits for its child keeps its permit, so
the permits bound the processes too as long as a task stays with its child to the
child's end.  A timeout or an error takes the task away from a child that goes on
running.

* `PermitInv` is the invariant of the runs in which that does not happen: every
  running child has a task that waits for it.
* `running_bounded`: in these runs at most `maxConcurrentJobs` children run.
  `running_exceeded` is a run with one more, after one timeout.
-/

namespace RemoteAgent

open CodeLib FileIpc

namespace FileIpc.TaskPc

/-- The task has a permit. -/
def hasPermit : TaskPc → Bool
  | .dropped => false
  | _ => true

/-- The child that the task waits for. -/
def awaits : TaskPc → Option Nat
  | .waiting _ _ child => some child
  | _ => none

theorem hasPermit_of_awaits {pc : TaskPc} (h : pc.awaits.isSome = true) :
    pc.hasPermit = true := by
  cases pc with
  | waiting p request child => rfl
  | _ => cases h

end FileIpc.TaskPc

namespace FileIpcServer

/-- The children that are still running. -/
def running (s : FileIpcServer) : List Nat :=
  (List.range s.children.length).filter fun k => s.children[k]? = some true

/-- The task that leaves `wait_with_output` in this step without the child's exit. -/
def Event.abandons? : Event → Option Nat
  | .task i .timedOut | .task i (.waitFailed _) => some i
  | _ => none

/-- A task leaves `wait_with_output` by a timeout or an error only when its child has
exited. -/
def StaysToExit (s : FileIpcServer) (e : Event) : Prop :=
  ∀ i ∈ e.abandons?, ∀ t ∈ s.tasks[i]?, ∀ k ∈ t.pc.awaits, s.children[k]? ≠ some true

instance (s : FileIpcServer) (e : Event) : Decidable (StaysToExit s e) :=
  Option.decidableForallMem e.abandons?

structure PermitInv (s : FileIpcServer) : Prop where
  permits : s.permits + s.tasks.countP (fun t => t.pc.hasPermit) = maxConcurrentJobs
  awaited : ∀ k, s.children[k]? = some true →
    ∃ (i : Nat) (t : Task), s.tasks[i]? = some t ∧ t.pc.awaits = some k

theorem permits_start : PermitInv start :=
  ⟨rfl, fun _ hk => absurd hk (by simp [start])⟩

section steps

variable {serde : Serde} {s s' : FileIpcServer}

/-- A step that leaves the tasks and the permits alone and starts no child. -/
theorem PermitInv.of_same (h : PermitInv s) (hpermits : s'.permits = s.permits)
    (htasks : s'.tasks = s.tasks)
    (hchildren : ∀ k : Nat, s'.children[k]? = some true → s.children[k]? = some true) :
    PermitInv s' := by
  refine ⟨?_, ?_⟩
  · rw [hpermits, htasks]
    exact h.permits
  · intro k hk
    rw [htasks]
    exact h.awaited k (hchildren k hk)

/-- A task that keeps its permit goes on, and waits for every running child that it
has waited for. -/
theorem PermitInv.of_set {i : Nat} {t : Task} {pc' : TaskPc} (h : PermitInv s)
    (ht : s.tasks[i]? = some t) (hpc : t.pc.hasPermit = true) (hpc' : pc'.hasPermit = true)
    (hstay : ∀ k, t.pc.awaits = some k → s.children[k]? = some true → pc'.awaits = some k)
    (hpermits : s'.permits = s.permits) (hchildren : s'.children = s.children)
    (htasks : s'.tasks = s.tasks.set i { t with pc := pc' }) : PermitInv s' := by
  have hcount := countP_set_add (q := fun t : Task => t.pc.hasPermit) ht { t with pc := pc' }
  rw [if_pos hpc, if_pos hpc', ← htasks] at hcount
  have hold := h.permits
  refine ⟨by omega, ?_⟩
  intro k hk
  rw [hchildren] at hk
  obtain ⟨j, t₁, hj, ht₁⟩ := h.awaited k hk
  rw [htasks]
  by_cases hji : j = i
  · subst hji
    obtain rfl := Option.some.inj (ht.symm.trans hj)
    obtain ⟨hlt, -⟩ := List.getElem?_eq_some_iff.mp ht
    exact ⟨j, { t with pc := pc' }, by simp [hlt], hstay k ht₁ hk⟩
  · exact ⟨j, t₁, by rw [List.getElem?_set_ne (Ne.symm hji)]; exact hj, ht₁⟩

/-- A task spawns its child and waits for it. -/
theorem permits_spawned {i : Nat} {t : Task} {p : Nat} {request : Request}
    (h : PermitInv s) (ht : s.tasks[i]? = some t) (hpc : t.pc = .spawning p request) :
    PermitInv { s with
      children := s.children ++ [true]
      tasks := s.tasks.set i { t with pc := .waiting p request s.children.length } } := by
  have hset : PermitInv { s with
      tasks := s.tasks.set i { t with pc := .waiting p request s.children.length } } := by
    refine h.of_set ht (by rw [hpc]; rfl) rfl ?_ rfl rfl rfl
    intro k hk
    rw [hpc] at hk
    cases hk
  refine ⟨hset.permits, ?_⟩
  intro k hk
  rcases getElem?_concat_cases hk with hold | ⟨rfl, -⟩
  · exact hset.awaited k hold
  · obtain ⟨hlt, -⟩ := List.getElem?_eq_some_iff.mp ht
    exact ⟨i, { t with pc := .waiting p request s.children.length }, by simp [hlt], rfl⟩

/-- A task drops its permit. -/
theorem permits_dropped {i : Nat} {t : Task} {r : Except Failure Unit}
    (h : PermitInv s) (ht : s.tasks[i]? = some t) (hpc : t.pc = .returned r) :
    PermitInv { s with
      permits := s.permits + 1, tasks := s.tasks.set i { t with pc := .dropped } } := by
  have hcount := countP_set_add (q := fun t : Task => t.pc.hasPermit) ht { t with pc := .dropped }
  rw [if_pos (by rw [hpc]; rfl), if_neg (by simp [TaskPc.hasPermit])] at hcount
  have hold := h.permits
  refine ⟨?_, ?_⟩
  · show s.permits + 1 + (s.tasks.set i { t with pc := .dropped }).countP
      (fun t => t.pc.hasPermit) = maxConcurrentJobs
    omega
  · intro k hk
    obtain ⟨j, t₁, hj, ht₁⟩ := h.awaited k hk
    have hji : j ≠ i := by
      intro heq
      subst heq
      obtain rfl := Option.some.inj (ht.symm.trans hj)
      rw [hpc] at ht₁
      cases ht₁
    exact ⟨j, t₁, by rw [List.getElem?_set_ne (Ne.symm hji)]; exact hj, ht₁⟩

theorem permits_task {i : Nat} {e : TaskEvent} (h : PermitInv s)
    (hstay : StaysToExit s (.task i e)) (hstep : s.step serde (.task i e) = some s') :
    PermitInv s' := by
  obtain ⟨⟨path, pc⟩, s₁, pc', ht, hmove, rfl⟩ := step_task_inv hstep
  cases hmove with
  | spawned p request => exact permits_spawned h ht rfl
  | dropPermit r => exact permits_dropped h ht rfl
  | exited p request child e response hchild =>
    refine h.of_set ht rfl rfl ?_ rfl rfl rfl
    intro k hk hrun
    obtain rfl := Option.some.inj hk
    rw [hchild] at hrun
    cases hrun
  | waitFailed p request child msg response =>
    refine h.of_set ht rfl rfl ?_ rfl rfl rfl
    intro k hk hrun
    exact absurd hrun (hstay i rfl _ ht k hk)
  | timedOut p request child response =>
    refine h.of_set ht rfl rfl ?_ rfl rfl rfl
    intro k hk hrun
    exact absurd hrun (hstay i rfl _ ht k hk)
  | _ =>
    refine h.of_set ht rfl rfl ?_ rfl rfl rfl
    intro k hk
    cases hk

theorem permits_step {e : Event} (h : PermitInv s) (hstay : StaysToExit s e)
    (hstep : s.step serde e = some s') : PermitInv s' := by
  cases e with
  | place name content =>
    simp only [step] at hstep
    split at hstep <;> cases hstep
    exact h.of_same rfl rfl fun _ hk => hk
  | readDir | listed | shutdown =>
    simp only [step] at hstep
    split at hstep <;> cases hstep
    exact h.of_same rfl rfl fun _ hk => hk
  | entry name =>
    simp only [step] at hstep
    split at hstep
    · split at hstep
      · cases hstep
        unfold processEntry
        split
        · split
          · rename_i hpos
            have hfree : 0 < s.permits := hpos
            have hold := h.permits
            refine ⟨?_, ?_⟩
            · show s.permits - 1 + (s.tasks ++ [(⟨name, .opening⟩ : Task)]).countP
                (fun t => t.pc.hasPermit) = maxConcurrentJobs
              have hone : [(⟨name, .opening⟩ : Task)].countP (fun t => t.pc.hasPermit) = 1 := rfl
              rw [List.countP_append, hone]
              omega
            · intro k hk
              obtain ⟨j, t, hj, ht⟩ := h.awaited k hk
              exact ⟨j, t, getElem?_concat_of_some hj, ht⟩
          · exact h.of_same rfl rfl fun _ hk => hk
        · exact h.of_same rfl rfl fun _ hk => hk
      · cases hstep
    · cases hstep
  | task i e => exact permits_task h hstay hstep
  | childExit k =>
    simp only [step] at hstep
    split at hstep <;> cases hstep
    refine h.of_same rfl rfl fun k' hk' => ?_
    rcases getElem?_set_cases hk' with ⟨-, hfalse⟩ | ⟨-, hold⟩
    · cases hfalse
    · exact hold

end steps

/-- Running children are no more than tasks with a permit. -/
theorem PermitInv.running_le {s : FileIpcServer} (h : PermitInv s) :
    s.running.length ≤ s.tasks.countP (fun t => t.pc.hasPermit) := by
  have hnodup : s.running.Nodup := List.nodup_range.filter _
  have hsub : s.running ⊆ s.tasks.filterMap fun t => t.pc.awaits := by
    intro k hk
    obtain ⟨-, hrun⟩ := List.mem_filter.mp hk
    obtain ⟨i, t, hi, ht⟩ := h.awaited k (of_decide_eq_true hrun)
    exact List.mem_filterMap.mpr ⟨t, List.mem_of_getElem? hi, ht⟩
  calc s.running.length
      ≤ (s.tasks.filterMap fun t => t.pc.awaits).length :=
        (List.subperm_of_subset hnodup hsub).length_le
    _ = s.tasks.countP (fun t => t.pc.awaits.isSome) := List.length_filterMap_eq_countP
    _ ≤ s.tasks.countP (fun t => t.pc.hasPermit) :=
        List.countP_mono_left fun t _ ht => TaskPc.hasPermit_of_awaits ht

/-- The permits bound the processes, in every run in which a task stays with its
child to the child's exit. -/
theorem running_bounded {serde : Serde} {s : FileIpcServer}
    (h : (machine serde).Reach StaysToExit s) : s.running.length ≤ maxConcurrentJobs := by
  have hinv : PermitInv s := by
    refine h.invariant ?_ fun _ _ _ hinv hc hstep => permits_step hinv hc hstep
    rintro _ rfl
    exact permits_start
  have hle := hinv.running_le
  have htotal := hinv.permits
  omega

/-- A client puts a request into the directory, and task `i` is spawned for it and
runs its command. -/
def requestEvents (i : Nat) : List Event :=
  [.place sampleName sampleContent, .readDir, .entry sampleName, .listed, .task i .opened,
    .task i .read, .task i .removed, .task i .parse, .task i .spawned]

/-- The time of task `i` is up, and it writes its response and is over. -/
def timeoutEvents (i : Nat) : List Event :=
  [.task i .timedOut, .task i .written, .task i .dropPermit]

/-- Ten requests take all permits, and the poll turns an eleventh away. -/
theorem running_bounded_full :
    ∃ s, (machine sampleSerde).Reach StaysToExit s ∧ s.running.length = 10 ∧
      s.permits = 0 ∧ s.running.length ≤ maxConcurrentJobs := by
  obtain ⟨s, hreach, hs⟩ := StepMachine.reach_of_runIf (machine sampleSerde) StaysToExit rfl
    ((List.range 10).flatMap requestEvents ++
      [.place sampleName sampleContent, .readDir, .entry sampleName])
    (fun s => s.running.length == 10 && s.permits == 0) (by decide +kernel)
  simp only [Bool.and_eq_true, beq_iff_eq] at hs
  exact ⟨s, hreach, hs.1, hs.2, running_bounded hreach⟩

/-- The first of eleven requests times out and gives its permit back while its child
goes on running. -/
theorem running_exceeded :
    ∃ s, (machine sampleSerde).Reachable s ∧ s.running.length = 11 := by
  obtain ⟨s, hreach, hs⟩ := StepMachine.reach_of_runIf (machine sampleSerde)
    StepMachine.Any rfl
    (requestEvents 0 ++ timeoutEvents 0 ++
      (List.range 10).flatMap fun i => requestEvents (i + 1))
    (fun s => s.running.length == 11) (by decide +kernel)
  exact ⟨s, hreach, beq_iff_eq.mp hs⟩

end FileIpcServer

end RemoteAgent
