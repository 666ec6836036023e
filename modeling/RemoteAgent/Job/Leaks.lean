import RemoteAgent.Job.Handles
import RemoteAgent.ProcessLauncher.Launch

/-!
# The handles of a job over its whole life

A launch opens nine handles.  It closes the three ends of the pipes that belong to
the child, and hands over the other six.  `handle_run` puts the process handle and
the job object into the handle of the job, which closes them with its drop; it
drops the launched process when it returns, which closes the thread handle; and
the two pumps read from the read ends.  Nobody closes the read ends and the write
end of stdin.

* `exists_launchedProcess`: what a launch hands over is a process as the job's
  machine takes it.
* `Closing` is the invariant: which handles a job closes, and when it closes the
  thread handle.
* `leaks_three`: of the nine handles of a job that is over, six are closed once
  and three are never closed.
-/

namespace RemoteAgent.Job

open CodeLib Protocol IoPump
open JobManager (SystemTime Duration HANDLE JobState JobHandle)
open ProcessLauncher (launch Win32 Ledger)

/-! ## From the launch to the job -/

/-- The process as `launch` returns it. -/
def LaunchedProcess.fields (p : LaunchedProcess) : ProcessLauncher.LaunchedProcess where
  processHandle := p.processHandle
  threadHandle := p.threadHandle
  processId := p.processId
  jobObject := p.jobObject
  stdoutRead := p.stdoutRead
  stderrRead := p.stderrRead
  stdinWrite := p.stdinWrite

section launch

variable {os : Win32} {commandLine : String} {workingDirectory : Option String}
  {environment : Option (List (String × String))} {p : ProcessLauncher.LaunchedProcess}
  {w : Ledger}

/-- Every process that a launch returns has the properties that the machine of a
job relies on. -/
theorem exists_launchedProcess
    (h : launch os.toOutcomes commandLine workingDirectory environment = (.ok p, w)) :
    ∃ q : LaunchedProcess, q.fields = p := by
  have hcourse := ProcessLauncher.launch_course os commandLine workingDirectory environment
  rw [h] at hcourse
  cases hcourse with
  | ok ends job info hp hj hs hc ha =>
    have hall := ProcessLauncher.Win32.nodup_all hp hj hc
    have hvalid : ∀ x ∈ [job, info.hProcess, info.hThread],
        ProcessLauncher.isInvalid x = false := by
      intro x hx
      apply os.valid (ProcessLauncher.createProcessArgs commandLine workingDirectory
        environment ends)
      rw [ProcessLauncher.Win32.returned_all hp hj hc]
      exact List.mem_append_right _ hx
    have hnonzero : ∀ x ∈ [job, info.hProcess, info.hThread], x ≠ 0 := by
      intro x hx hzero
      have hv := hvalid x hx
      rw [hzero] at hv
      cases hv
    have hlast := (List.nodup_append.mp hall).2.1
    simp only [List.nodup_cons, List.mem_cons, List.not_mem_nil, or_false, not_or] at hlast
    exact ⟨⟨info.hProcess, info.hThread, info.dwProcessId, job, ends.stdoutRead,
      ends.stderrRead, ends.stdinWrite, hnonzero _ (by simp), hnonzero _ (by simp),
      Ne.symm hlast.1.2, Ne.symm hlast.2.1, Ne.symm hlast.1.1⟩, rfl⟩

end launch

/-! ## What a job closes -/

/-- The handles that a job closes are the three of its process, and the thread
handle is closed when `handle_run` returns. -/
structure Closing (j : Job) : Prop where
  only : ∀ q, j.process = some q → ∀ h ∈ j.closed, h = q.launched.threadHandle ∨
    h = q.launched.processHandle ∨ h = q.launched.jobObject
  thread : ∀ q, j.process = some q →
    j.closed.count q.launched.threadHandle = if j.run.holdsArc then 0 else 1

theorem Closing.congr {j r : Job} (hj : j.Closing)
    (hlaunched : r.process.map Process.launched = j.process.map Process.launched)
    (hrun : r.run = j.run) (hclosed : r.closed = j.closed) : r.Closing := by
  have hq : ∀ q, r.process = some q → ∃ q', j.process = some q' ∧
      q'.launched = q.launched := by
    intro q hq
    rw [hq] at hlaunched
    exact Option.map_eq_some_iff.mp hlaunched.symm
  constructor
  · intro q hp
    obtain ⟨q', hq', heq⟩ := hq q hp
    rw [← heq, hclosed]
    exact hj.only q' hq'
  · intro q hp
    obtain ⟨q', hq', heq⟩ := hq q hp
    rw [← heq, hclosed, hrun]
    exact hj.thread q' hq'

/-- The drop closes the process handle and the job object. -/
theorem Closing.settle {j : Job} (hown : j.Owned) (hj : j.Closing) : j.settle.Closing := by
  unfold Job.settle
  split
  · exact hj
  · rename_i hfree
    simp only [Bool.or_eq_true, not_or, Bool.not_eq_true] at hfree
    have htaken : ∀ q, j.process = some q →
        taken j.handle = [q.launched.processHandle, q.launched.jobObject] := by
      intro q hq
      have hstored := hown.stored hfree.2
      rw [stored_of_not_held hq hfree.1, Prod.mk.injEq] at hstored
      rw [taken, hstored.1, hstored.2]
      simp [q.launched.process_valid, q.launched.object_valid]
    constructor
    · intro q hq h hmem
      have hmem' : h ∈ j.closed ++ taken j.handle := hmem
      rw [htaken q hq, List.mem_append] at hmem'
      rcases hmem' with hmem' | hmem'
      · exact hj.only q hq h hmem'
      · simp only [List.mem_cons, List.not_mem_nil, or_false] at hmem'
        exact .inr hmem'
    · intro q hq
      show (j.closed ++ taken j.handle).count _ = if j.run.holdsArc then 0 else 1
      rw [List.count_append, htaken q hq, hj.thread q hq]
      simp [Ne.symm q.launched.thread_ne_process, Ne.symm q.launched.thread_ne_object]

/-- `handle_run` closes the thread handle exactly when it returns with a process in
hand. -/
theorem RunPc.step_returns {a a' : JobHandle} {registered : Bool} {pc pc' : RunPc}
    {e : RunEvent} {eff : RunEffect}
    (h : pc.step a registered e = some (a', pc', eff)) (j : Job) :
    ((∀ p, eff ≠ .start p) ∧ pc'.holdsArc = true ∧ (j.effect eff).closed = j.closed) ∨
      (∃ p, eff = .start p ∧ pc = .launch ∧ pc'.holdsArc = true) ∨
      (∃ p, pc.inHand = some p ∧ pc'.holdsArc = false ∧ (∀ p, eff ≠ .start p) ∧
        (j.effect eff).closed = j.closed ++ [p.threadHandle]) ∨
      pc.unlaunched = true ∧ (∀ p, eff ≠ .start p) := by
  unfold RunPc.step at h
  split at h <;> (try split at h) <;> cases h <;>
    first
    | exact .inr (.inl ⟨_, rfl, rfl, rfl⟩)
    | exact .inl ⟨by simp, rfl, rfl⟩
    | exact .inr (.inr (.inl ⟨_, rfl, rfl, by simp, rfl⟩))
    | exact .inr (.inr (.inr ⟨rfl, by simp⟩))

theorem Closing.run {j : Job} {e : RunEvent} {a : JobHandle} {pc : RunPc} {eff : RunEffect}
    (hst : j.Staged) (hown : j.Owned) (hj : j.Closing)
    (hs : j.run.step j.handle j.registered e = some (a, pc, eff)) :
    (effect { j with handle := a, run := pc } eff).Closing := by
  have harc := RunPc.holdsArc_of_step hs
  rcases RunPc.step_returns hs { j with handle := a, run := pc } with
    ⟨hstart, hpc, hclosed⟩ | ⟨p, rfl, hpc, hpc'⟩ | ⟨p, hp, hpc, hstart, hclosed⟩ |
    ⟨hun, hstart⟩
  · have hproc := effect_process { j with handle := a, run := pc } hstart
    constructor
    · intro q hq
      rw [hproc] at hq
      rw [hclosed]
      exact hj.only q hq
    · intro q hq
      rw [hproc] at hq
      rw [hclosed, effect_run]
      have hzero := hj.thread q hq
      rw [harc] at hzero
      simpa [hpc] using hzero
  · -- nothing is closed before the launch
    have hnil : j.closed = [] := hown.unlaunched (hst.unlaunched (by rw [hpc]; rfl))
    constructor
    · intro q _ h hmem
      have hmem' : h ∈ j.closed := hmem
      rw [hnil] at hmem'
      cases hmem'
    · intro q _
      show j.closed.count _ = if pc.holdsArc then 0 else 1
      rw [hnil, hpc']
      rfl
  · have hproc := effect_process { j with handle := a, run := pc } hstart
    obtain ⟨code, hsome⟩ := hst.inHand p hp
    have hq' : ∀ q, (effect { j with handle := a, run := pc } eff).process = some q →
        q = ⟨p, code⟩ := by
      intro q hq
      rw [hproc] at hq
      exact Option.some.inj (hq.symm.trans hsome)
    constructor
    · intro q hq h hmem
      obtain rfl := hq' q hq
      rw [hclosed, List.mem_append, List.mem_singleton] at hmem
      rcases hmem with hmem | rfl
      · exact hj.only _ hsome h hmem
      · exact .inl rfl
    · intro q hq
      obtain rfl := hq' q hq
      have hzero := hj.thread _ hsome
      rw [harc, if_pos rfl] at hzero
      rw [hclosed, effect_run, List.count_append, List.count_singleton_self]
      simpa [hpc] using hzero
  · have hproc := effect_process { j with handle := a, run := pc } hstart
    have hnone : j.process = none := hst.unlaunched hun
    have hno : ∀ q, (effect { j with handle := a, run := pc } eff).process ≠ some q := by
      intro q hq
      rw [hproc] at hq
      rw [show j.process = some q from hq] at hnone
      cases hnone
    exact ⟨fun q hq => absurd hq (hno q), fun q hq => absurd hq (hno q)⟩

theorem Closing.act {j r : Job} {e : Event} (hst : j.Staged) (hown : j.Owned)
    (hj : j.Closing) (h : j.act e = some r) : r.Closing := by
  rcases e.run_or_ne with ⟨e', rfl⟩ | hne
  · simp only [Job.act, Option.map_eq_some_iff] at h
    obtain ⟨⟨a, pc, eff⟩, hs, rfl⟩ := h
    exact hj.run hst hown hs
  · obtain ⟨hlaunched, hpc, -, -, hclosed, -⟩ := act_frame h hne
    exact hj.congr hlaunched hpc hclosed

theorem closing_reachable {C : Job → Event → Prop} {j : Job} (h : machine.Reach C j) :
    j.Closing := by
  refine h.invariant_of (J := machine.Reach C) (fun _ hr => hr) ?_ ?_
  · rintro _ ⟨jobId, timeout, now, last, rfl⟩
    exact ⟨fun q hq => (by cases hq), fun q hq => (by cases hq)⟩
  · intro s e u hr hs _ hstep
    obtain ⟨r, hact, rfl⟩ := Option.map_eq_some_iff.mp hstep
    have hst := staged_reachable hr
    have hown := owned_reachable hr
    exact (hs.act hst hown hact).settle (hown.act hst (alive_reachable hr) hact)

/-- A job that is over has closed the three handles of its process once each, and
nothing else. -/
theorem count_closed {j : Job} {q : Process} (h : machine.Reachable j)
    (hq : j.process = some q) (hfree : j.held = false) (x : HANDLE) :
    j.closed.count x = if x ∈ [q.launched.threadHandle, q.launched.processHandle,
      q.launched.jobObject] then 1 else 0 := by
  have hclosing := closing_reachable h
  have honce := (owned_reachable h).once q hq (dropped_of_not_held h hfree)
  have hrun : j.run.holdsArc = false := by
    simp only [held, Bool.or_eq_false_iff] at hfree
    exact hfree.1.1.1.2
  have hthread := hclosing.thread q hq
  rw [hrun] at hthread
  split
  · rename_i hx
    simp only [List.mem_cons, List.not_mem_nil, or_false] at hx
    rcases hx with rfl | rfl | rfl
    · exact hthread
    · exact honce.1
    · exact honce.2
  · rename_i hx
    apply List.count_eq_zero_of_not_mem
    intro hmem
    apply hx
    simpa using hclosing.only q hq x hmem

/-! ## The nine handles -/

section leaks

variable {os : Win32} {commandLine : String} {workingDirectory : Option String}
  {environment : Option (List (String × String))} {p : ProcessLauncher.LaunchedProcess}
  {w : Ledger} {j : Job} {q : Process}

/-- Every handle that the launch of a job has opened was closed exactly once, by the
launch or by the job. -/
def LeakFree (w : Ledger) (j : Job) : Prop :=
  ∀ h ∈ w.opened, (w.closed ++ j.closed).count h = 1

/-- The handles that nobody closes. -/
def leaked (p : ProcessLauncher.LaunchedProcess) : List HANDLE :=
  [p.stdoutRead, p.stderrRead, p.stdinWrite]

/-- When a job is over, of the nine handles that its launch has opened six are
closed exactly once, and the two read ends and the write end of stdin are not
closed. -/
theorem leaks_three
    (hlaunch : launch os.toOutcomes commandLine workingDirectory environment = (.ok p, w))
    (h : machine.Reachable j) (hq : j.process = some q) (hp : q.launched.fields = p)
    (hfree : j.held = false) :
    (∀ x ∈ w.opened, (w.closed ++ j.closed).count x = if x ∈ leaked p then 0 else 1) ∧
      ¬ LeakFree w j := by
  have hcourse := ProcessLauncher.launch_course os commandLine workingDirectory environment
  rw [hlaunch] at hcourse
  cases hcourse with
  | ok ends job info hpipes hj hs hc ha =>
    have hthread : q.launched.threadHandle = info.hThread := congrArg (·.threadHandle) hp
    have hprocess : q.launched.processHandle = info.hProcess :=
      congrArg (·.processHandle) hp
    have hobject : q.launched.jobObject = job := congrArg (·.jobObject) hp
    have hall := ProcessLauncher.Win32.nodup_all hpipes hj hc
    simp only [ProcessLauncher.ChildPipeHandles.handles, List.cons_append,
      List.nil_append] at hall ⊢
    have hends : [ends.stdoutWrite, ends.stderrWrite, ends.stdinRead].Nodup := by
      simp only [List.nodup_cons, List.mem_cons, List.not_mem_nil, or_false, not_or] at hall ⊢
      grind
    have hcount : ∀ x ∈ [ends.stdinRead, ends.stdinWrite, ends.stdoutRead, ends.stdoutWrite,
        ends.stderrRead, ends.stderrWrite, job, info.hProcess, info.hThread],
        ([ends.stdoutWrite, ends.stderrWrite, ends.stdinRead] ++ j.closed).count x =
          if x ∈ [ends.stdoutRead, ends.stderrRead, ends.stdinWrite] then 0 else 1 := by
      intro x hx
      rw [List.count_append, count_closed h hq hfree, hthread, hprocess, hobject, hends.count]
      simp only [List.nodup_cons, List.mem_cons, List.not_mem_nil, or_false, not_or] at hall hx ⊢
      grind
    refine ⟨hcount, ?_⟩
    intro hfree
    have hzero := hcount ends.stdoutRead (by simp)
    rw [hfree ends.stdoutRead (by simp)] at hzero
    simp at hzero

end leaks

/-- A pump finds the token cancelled, and ends its stream. -/
def endEvents (o : Out) : List Event :=
  [.pump o .step, .pump o .step, .pump o .step, .pump o .step, .pump o .sent]

/-- The whole life of a job whose process exits by itself. -/
def lifeEvents : List Event := exitedEvents ++ endEvents .stdout ++ endEvents .stderr

/-- The launch of the process of that job. -/
def shellLaunch : Except Error ProcessLauncher.LaunchedProcess × Ledger :=
  launch (ProcessLauncher.sampleWin32 (.ok ())).toOutcomes "cmd" none none

theorem leaks_three_shell :
    ∃ j, machine.Reachable j ∧ (j.process = some ⟨shell, some 0⟩ ∧ j.held = false) ∧
      (∀ x ∈ shellLaunch.2.opened, (shellLaunch.2.closed ++ j.closed).count x =
        if x ∈ leaked shell.fields then 0 else 1) ∧ ¬ LeakFree shellLaunch.2 j := by
  obtain ⟨j, hr, hp⟩ := StepMachine.reach_of_runIf machine StepMachine.Any
    ⟨1, none, 0, 0, rfl⟩ lifeEvents
    (fun j => j.process = some ⟨shell, some 0⟩ && j.held = false) (by decide +kernel)
  have hp' : j.process = some ⟨shell, some 0⟩ ∧ j.held = false := by simpa using hp
  have hlaunch : launch (ProcessLauncher.sampleWin32 (.ok ())).toOutcomes "cmd" none none =
      (.ok shell.fields, shellLaunch.2) := rfl
  exact ⟨j, hr, hp', leaks_three hlaunch hr hp'.1 rfl hp'.2⟩

/-- At the end of that life everyone has let go and all tasks have ended, and the
read end of stdout is open. -/
theorem leaks_read_end :
    ∃ j, machine.Reachable j ∧ j.held = false ∧
      (∀ o, (j.pump o).pc = .returned (.ok ())) ∧ j.waiter.on = none ∧
      shellLaunch.1 = .ok shell.fields ∧ j.process = some ⟨shell, some 0⟩ ∧
      ¬ LeakFree shellLaunch.2 j := by
  obtain ⟨j, hr, hp⟩ := StepMachine.reach_of_runIf machine StepMachine.Any
    ⟨1, none, 0, 0, rfl⟩ lifeEvents
    (fun j => !j.held && decide ((j.pump .stdout).pc = .returned (.ok ())) &&
      decide ((j.pump .stderr).pc = .returned (.ok ())) && j.waiter.on.isNone &&
      decide (j.process = some ⟨shell, some 0⟩) && decide (j.closed.count 103 = 0)) (by decide +kernel)
  simp only [Bool.and_eq_true, Bool.not_eq_true', decide_eq_true_eq,
    Option.isNone_iff_eq_none] at hp
  obtain ⟨⟨⟨⟨⟨hheld, hout⟩, herr⟩, hwaiter⟩, hprocess⟩, hopen⟩ := hp
  refine ⟨j, hr, hheld, ?_, hwaiter, rfl, hprocess, ?_⟩
  · intro o
    cases o
    · exact hout
    · exact herr
  · intro hfree
    have hone := hfree 103 (by decide)
    rw [List.count_append, hopen] at hone
    exact absurd hone (by decide)

end RemoteAgent.Job
