import RemoteAgent.Job.Frames

/-!
# When EXIT is sent, and what it says

The exit watcher sends EXIT as soon as its wait is over.  It asks nobody whether
the pumps are done, and its wait ends through the cancellation token as well as
through the process.

* `exit_after_output`: if EXIT is only sent once both pumps have returned, no
  OUTPUT frame of the job follows it.  `exit_before_output` is a run without any
  cancellation, timeout or cleanup in which one does.
* `exit_truthful`: if the watcher is not woken by the token, the process has
  exited when EXIT is sent, and EXIT carries its exit code.
  `exit_of_running_process` is a run in which a CANCEL makes the watcher send
  EXIT for a process that is still running.
-/

namespace RemoteAgent.Job

open CodeLib Protocol IoPump
open JobManager (SystemTime Duration HANDLE JobState JobHandle)

/-! ## EXIT and OUTPUT -/

/-- No OUTPUT frame comes after EXIT. -/
def ExitLast (fs : List Frame) : Prop :=
  fs.Pairwise fun f g => f.frameType = .exit → g.frameType ≠ .output

instance (fs : List Frame) : Decidable (ExitLast fs) :=
  inferInstanceAs (Decidable (fs.Pairwise _))

theorem ExitLast.concat {fs : List Frame} {f : Frame} (h : ExitLast fs)
    (hf : f.frameType = .output → ∀ g ∈ fs, g.frameType ≠ .exit) : ExitLast (fs ++ [f]) := by
  refine List.pairwise_append.mpr ⟨h, List.pairwise_singleton _ f, ?_⟩
  intro g hg f' hf' hexit hout
  rw [List.mem_singleton.mp hf'] at hout
  exact hf hout g hg hexit

def hasReturned (p : Pump) : Bool :=
  match p.pc with
  | .returned _ => true
  | _ => false

/-- EXIT is sent only when both pumps have returned. -/
def drainedFirst (j : Job) : Event → Bool
  | .watcher .sent => hasReturned (j.pump .stdout) && hasReturned (j.pump .stderr)
  | _ => true

/-- Nobody cancels the job or cleans it up, and its timeout does not elapse. -/
def undisturbed (j : Job) : Event → Bool
  | .begin .cancelJob | .begin .cleanupIdleJobs | .begin .forceCleanupAll => false
  | .monitor (.elapsed d) =>
    match j.handle.timeout with
    | some timeout => d < timeout
    | none => true
  | _ => true

theorem hasReturned_of_drainedFirst {j : Job}
    (h : j.drainedFirst (.watcher .sent) = true) (o : Out) :
    hasReturned (j.pump o) = true := by
  have hb : hasReturned (j.pump .stdout) = true ∧ hasReturned (j.pump .stderr) = true := by
    simpa [drainedFirst] using h
  cases o
  · exact hb.1
  · exact hb.2

/-- Once EXIT is out, the watcher is past it and the pumps have returned. -/
structure Drained (j : Job) : Prop where
  last : ExitLast j.sent
  watcher : ∀ f ∈ j.sent, f.frameType = .exit → j.watcher.exitSent = true
  pumps : ∀ f ∈ j.sent, f.frameType = .exit → ∀ o, hasReturned (j.pump o) = true

theorem Drained.congr {j j' : Job} (hj : j.Drained) (hsent : j'.sent = j.sent)
    (hwatcher : j.watcher.exitSent = true → j'.watcher.exitSent = true)
    (hpump : j'.pump = j.pump) : j'.Drained where
  last := by
    rw [hsent]
    exact hj.last
  watcher := by
    rw [hsent]
    exact fun f hf he => hwatcher (hj.watcher f hf he)
  pumps := by
    rw [hsent, hpump]
    exact hj.pumps

/-- A step that finds no EXIT and sends none has nothing to show. -/
theorem Drained.of_no_exit {j j' : Job} {fs : List Frame} (hj : j.Drained)
    (hsent : j'.sent = j.sent ++ fs) (hno : ∀ f ∈ j.sent, f.frameType ≠ .exit)
    (hfs : fs = [] ∨ ∃ f, fs = [f] ∧ f.frameType ≠ .exit) : j'.Drained := by
  have hno' : ∀ f ∈ j'.sent, f.frameType ≠ .exit := by
    intro f hf
    rw [hsent] at hf
    rcases List.mem_append.mp hf with hf | hf
    · exact hno f hf
    · rcases hfs with rfl | ⟨g, rfl, hg⟩
      · exact absurd hf List.not_mem_nil
      · rw [List.mem_singleton.mp hf]
        exact hg
  refine ⟨?_, fun f hf he => absurd he (hno' f hf), fun f hf he => absurd he (hno' f hf)⟩
  rw [hsent]
  rcases hfs with rfl | ⟨g, rfl, hg⟩
  · rw [List.append_nil]
    exact hj.last
  · exact hj.last.concat fun _ => hno

theorem WatcherPc.step_exitSent {a a' : JobHandle} {registered : Bool}
    {waiter waiter' : WaiterPc} {pc pc' : WatcherPc} {e : WatcherEvent}
    {fs : List Frame} (h : pc.step a registered waiter e = some (a', pc', waiter', fs))
    (hpc : pc.exitSent = true) : pc'.exitSent = true := by
  unfold WatcherPc.step at h
  split at h <;> (try split at h) <;> cases h <;> simp_all [WatcherPc.exitSent]

theorem Drained.step {j j' : Job} {e : Event} (hst : j.Staged) (hsp : j.Speaking)
    (hj : j.Drained) (hc : j.drainedFirst e = true) (h : j.step e = some j') :
    j'.Drained := by
  cases e with
  | run e =>
    -- while `handle_run` runs there is no watcher, so EXIT is not out
    obtain ⟨fs, hsends, hsent⟩ := step_sends h
    obtain ⟨a, pc, eff, hs, -⟩ := step_run h
    have hwatcher : j.watcher = .notSpawned :=
      hst.watcher (.inl (RunPc.step_follows hs).watcherUp)
    have hno : ∀ f ∈ j.sent, f.frameType ≠ .exit := by
      intro f hf he
      have hexit := hj.watcher f hf he
      rw [hwatcher] at hexit
      exact absurd hexit (by simp [WatcherPc.exitSent])
    refine hj.of_no_exit hsent hno ?_
    cases hsends with
    | nothing => exact .inl rfl
    | runAck hpc => exact .inr ⟨_, rfl, by simp⟩
    | error msg hpc => exact .inr ⟨_, rfl, by simp⟩
  | pump o e =>
    obtain ⟨fs, hsends, hsent⟩ := step_sends h
    obtain ⟨p, w, q, fs', -, hs, -⟩ := step_pump h
    -- a pump that moves has not returned
    have hnot : hasReturned (j.pump o) = false := by
      cases Pump.step_move hs <;> simp [hasReturned, *]
    have hno : ∀ f ∈ j.sent, f.frameType ≠ .exit := by
      intro f hf he
      rw [hj.pumps f hf he o] at hnot
      exact absurd hnot (by simp)
    refine hj.of_no_exit hsent hno ?_
    cases hsends with
    | nothing => exact .inl rfl
    | output o last f hpc =>
      refine .inr ⟨f, rfl, ?_⟩
      rw [((hsp.pumps o).at_pc.frame hpc).1.1]
      simp
  | watcher e =>
    obtain ⟨a, pc, waiter, fs, hw, rfl⟩ := step_watcher h
    rcases WatcherPc.step_sent hw with rfl | ⟨code, hpc, rfl, rfl, rfl⟩
    · refine hj.congr (by simp) ?_ (by simp)
      rw [settle_watcher]
      exact WatcherPc.step_exitSent hw
    · refine ⟨?_, ?_, ?_⟩
      · rw [settle_sent]
        exact hj.last.concat fun hout => absurd hout (by simp)
      · rw [settle_watcher]
        exact fun _ _ _ => rfl
      · rw [settle_pump]
        exact fun _ _ _ o => hasReturned_of_drainedFirst hc o
  | _ =>
    have hf := step_frame h (by simp)
    refine hj.congr (hf.sent (by simp) (by simp)) ?_ (hf.pump (by simp))
    rw [hf.watcher (by simp)]
    exact id

/-- In every run in which EXIT waits for both pumps, it comes after all OUTPUT
frames of the job, those that end the streams included. -/
theorem exit_after_output {j : Job}
    (h : machine.Reach (fun j e => j.drainedFirst e = true) j) : ExitLast j.sent := by
  have hinv : j.Drained := by
    refine h.invariant_of (J := fun j => j.Staged ∧ j.Speaking)
      (fun _ hr => ⟨staged_reachable hr, speaking_reachable hr⟩) ?_ ?_
    · rintro _ ⟨jobId, timeout, now, last, rfl⟩
      exact ⟨List.Pairwise.nil, fun f hf => absurd hf List.not_mem_nil,
        fun f hf => absurd hf List.not_mem_nil⟩
    · intro s e u hJ hs hc hstep
      exact Drained.step hJ.1 hJ.2 hs hc hstep
  exact hinv.last

/-- One frame of output, both streams to their ends, and then EXIT. -/
def drainThenExit : List Event :=
  launchEvents 0 ++
    [.os (.write .stdout [104]), .os (.exit 0), .os (.closeWriters .stdout),
      .os (.closeWriters .stderr)] ++
    pumpEvents .stdout (.ok [104]) ++ pumpEvents .stdout (.err errorBrokenPipe []) ++
    pumpEvents .stderr (.err errorBrokenPipe []) ++ exitEvents 0 ++ [.watcher .sent]

theorem exit_after_output_drained :
    ∃ j, machine.Reach (fun j e => j.drainedFirst e = true) j ∧
      j.sent.map Frame.frameType = [.runAck, .output, .output, .output, .exit] ∧
      ExitLast j.sent := by
  obtain ⟨j, hr, hp⟩ := StepMachine.reach_of_runIf machine
    (fun j e => j.drainedFirst e = true) ⟨1, none, 0, 0, rfl⟩ drainThenExit
    (fun j => j.sent.map Frame.frameType = [.runAck, .output, .output, .output, .exit])
    (by decide +kernel)
  exact ⟨j, hr, by simpa using hp, exit_after_output hr⟩

/-- The process writes a byte and exits, and EXIT overtakes the byte. -/
def exitThenOutput : List Event :=
  launchEvents 0 ++ [.os (.write .stdout [104]), .os (.exit 0)] ++ exitEvents 0 ++
    [.watcher .sent] ++ pumpEvents .stdout (.ok [104])

/-- A job that nobody cancels or cleans up and that does not time out sends
OUTPUT after EXIT. -/
theorem exit_before_output :
    ∃ j, machine.Reach (fun j e => j.undisturbed e = true) j ∧
      j.sent.map Frame.frameType = [.runAck, .exit, .output] ∧ ¬ ExitLast j.sent := by
  obtain ⟨j, hr, hp⟩ := StepMachine.reach_of_runIf machine
    (fun j e => j.undisturbed e = true) ⟨1, none, 0, 0, rfl⟩ exitThenOutput
    (fun j => j.sent.map Frame.frameType = [.runAck, .exit, .output] &&
      !decide (ExitLast j.sent))
    (by decide +kernel)
  exact ⟨j, hr, by simpa using hp⟩

/-! ## EXIT and the process -/

/-- A step that sends EXIT does so for a process that has exited, and unless
`GetExitCodeProcess` has failed, EXIT carries the code of that process. -/
def ExitTruthful (j j' : Job) : Prop :=
  ∀ f, j'.sent = j.sent ++ [f] → f.frameType = .exit →
    ∃ code, j.exitCode = some code ∧
      (j.waiter ≠ .finished none → f = exitFrame j.handle.jobId code.toInt32)

/-- The watcher is woken by the process, or it would report the right code
anyway: -1 is what the watcher makes of a cancelled wait. -/
def wakesOnExit (j : Job) : Event → Bool
  | .watcher .cancelled => j.exitCode = some 0xFFFFFFFF
  | _ => true

/-- The exit code that the watcher is about to report. -/
def WatcherPc.carries : WatcherPc → Option Int32
  | .toExiting code _ | .activityGet code | .activityWrite code | .sendExit code =>
    some code
  | _ => none

/-- What the wait thread and the watcher know is what happened. -/
structure Informed (j : Job) : Prop where
  signaled : ∀ h, j.waiter = .signaled h → j.exitCode.isSome = true
  finished : ∀ c, j.waiter = .finished c → ∃ code, j.exitCode = some code ∧
    (c = some code ∨ c = none)
  carries : ∀ n, j.watcher.carries = some n → ∃ code, j.exitCode = some code ∧
    (j.waiter ≠ .finished none → n = code.toInt32)

theorem Informed.congr {j j' : Job} (hj : j.Informed) (hexit : j'.exitCode = j.exitCode)
    (hwaiter : j'.waiter = j.waiter) (hwatcher : j'.watcher = j.watcher) :
    j'.Informed := by
  obtain ⟨h1, h2, h3⟩ := hj
  constructor
  · rwa [hwaiter, hexit]
  · rwa [hwaiter, hexit]
  · rwa [hwatcher, hexit, hwaiter]

/-- Without a watcher there is nothing to know. -/
theorem Informed.of_notSpawned {j : Job} (hwaiter : j.waiter = .notSpawned)
    (hwatcher : j.watcher = .notSpawned ∨ j.watcher = .start) : j.Informed where
  signaled := by
    rw [hwaiter]
    exact fun h heq => by cases heq
  finished := by
    rw [hwaiter]
    exact fun c heq => by cases heq
  carries := by
    rcases hwatcher with h | h <;> rw [h] <;> exact fun n heq => by cases heq

/-- Where the watcher gets the code from that it carries. -/
theorem WatcherPc.step_carries {a a' : JobHandle} {registered : Bool}
    {waiter waiter' : WaiterPc} {pc pc' : WatcherPc} {e : WatcherEvent}
    {fs : List Frame} (h : pc.step a registered waiter e = some (a', pc', waiter', fs)) :
    (pc = .start ∧ pc' = .select ∧ ∃ handle, waiter' = .waiting handle) ∨
      waiter' = waiter ∧ ∀ n, pc'.carries = some n → pc.carries = some n ∨
        (∃ c, waiter = .finished c ∧ n = waitResult c) ∨ e = .cancelled ∧ n = -1 := by
  unfold WatcherPc.step at h
  split at h
  case h_1 =>
    cases h
    exact .inl ⟨rfl, rfl, _, rfl⟩
  case h_2 =>
    split at h
    · rename_i c
      cases h
      refine .inr ⟨rfl, fun n hn => .inr (.inl ⟨c, rfl, ?_⟩)⟩
      simpa [WatcherPc.carries] using hn.symm
    · cases h
  case h_3 =>
    split at h
    · cases h
      refine .inr ⟨rfl, fun n hn => .inr (.inr ⟨rfl, ?_⟩)⟩
      simpa [WatcherPc.carries] using hn.symm
    · cases h
  all_goals
    cases h <;> refine .inr ⟨rfl, fun n hn => .inl ?_⟩ <;> (try split at hn) <;>
      simp_all [WatcherPc.carries]

theorem Informed.watcher {j j' : Job} {e : WatcherEvent} (hj : j.Informed)
    (hc : j.wakesOnExit (.watcher e) = true) (h : j.step (.watcher e) = some j') :
    j'.Informed := by
  obtain ⟨a, pc, waiter, fs, hw, rfl⟩ := step_watcher h
  rcases WatcherPc.step_carries hw with ⟨-, rfl, handle, rfl⟩ | ⟨rfl, hcarries⟩
  · refine ⟨?_, ?_, ?_⟩ <;> simp [WatcherPc.carries]
  · refine ⟨by simpa [exitCode] using hj.signaled, by simpa [exitCode] using hj.finished, ?_⟩
    intro n hn
    rw [settle_watcher] at hn
    rw [settle_waiter, settle_exitCode]
    show ∃ code, j.exitCode = some code ∧ _
    rcases hcarries n hn with hold | ⟨c, hwait, rfl⟩ | ⟨rfl, rfl⟩
    · exact hj.carries n hold
    · obtain ⟨code, hcode, rfl | rfl⟩ := hj.finished c hwait
      · exact ⟨code, hcode, fun _ => rfl⟩
      · exact ⟨code, hcode, fun hne => absurd hwait hne⟩
    · have hcode : j.exitCode = some 0xFFFFFFFF := by simpa [wakesOnExit] using hc
      exact ⟨0xFFFFFFFF, hcode, fun _ => by decide⟩

theorem Informed.waiter {j j' : Job} {e : WaiterEvent} (hj : j.Informed)
    (h : j.step (.waiter e) = some j') : j'.Informed := by
  obtain ⟨pc, hw, rfl⟩ := step_waiter h
  unfold WaiterPc.step at hw
  split at hw
  · rename_i handle hpc
    -- a wait that ends has seen the process exit
    have hcarries : ∀ n, j.watcher.carries = some n → ∃ code, j.exitCode = some code ∧
        n = code.toInt32 := by
      intro n hn
      obtain ⟨code, hcode, heq⟩ := hj.carries n hn
      exact ⟨code, hcode, heq (by rw [hpc]; simp)⟩
    split at hw
    · rename_i hexit
      cases hw
      refine ⟨fun _ _ => ?_, by simp, ?_⟩
      · rw [settle_exitCode]
        exact hexit.2
      · intro n hn
        rw [settle_watcher] at hn
        rw [settle_exitCode]
        obtain ⟨code, hcode, heq⟩ := hcarries n hn
        exact ⟨code, hcode, fun _ => heq⟩
    · cases hw
      refine ⟨by simp, by simp, ?_⟩
      intro n hn
      rw [settle_watcher] at hn
      rw [settle_exitCode]
      obtain ⟨code, hcode, heq⟩ := hcarries n hn
      exact ⟨code, hcode, fun _ => heq⟩
  · rename_i handle ok hpc
    cases hw
    obtain ⟨code, hcode⟩ := Option.isSome_iff_exists.mp (hj.signaled handle hpc)
    refine ⟨by simp, ?_, ?_⟩
    · intro c hc
      rw [settle_exitCode]
      refine ⟨code, hcode, ?_⟩
      rw [settle_waiter] at hc
      have hc' : (if ok then j.exitCode else none) = c := WaiterPc.finished.inj hc
      rw [← hc', hcode]
      cases ok
      · exact .inr rfl
      · exact .inl rfl
    · intro n hn
      rw [settle_watcher] at hn
      rw [settle_exitCode]
      obtain ⟨code', hcode', heq⟩ := hj.carries n hn
      exact ⟨code', hcode', fun _ => heq (by rw [hpc]; simp)⟩
  · exact absurd hw (by simp)

theorem Informed.step {j j' : Job} {e : Event} (hst : j.Staged) (hst' : j'.Staged)
    (hj : j.Informed) (hc : j.wakesOnExit e = true) (h : j.step e = some j') :
    j'.Informed := by
  cases e with
  | run e =>
    obtain ⟨a, pc, eff, hs, rfl⟩ := step_run h
    have hwatcher : j.watcher = .notSpawned :=
      hst.watcher (.inl (RunPc.step_follows hs).watcherUp)
    have hwatcher' : (settle (effect { j with handle := a, run := pc } eff)).watcher =
          .notSpawned ∨
        (settle (effect { j with handle := a, run := pc } eff)).watcher = .start := by
      rw [settle_watcher]
      by_cases hspawn : ∃ p, eff = .spawnWatcher p
      · obtain ⟨p, rfl⟩ := hspawn
        exact .inr rfl
      · rw [effect_watcher _ fun p hp => hspawn ⟨p, hp⟩]
        exact .inl hwatcher
    exact .of_notSpawned (hst'.waiter hwatcher') hwatcher'
  | watcher e => exact hj.watcher hc h
  | waiter e => exact hj.waiter h
  | os e =>
    rcases step_os h with ⟨o, data, p, -, -, -, rfl⟩ | ⟨o, -, rfl⟩ | ⟨code, p, -, hp, rfl⟩ |
      ⟨now, -, rfl⟩
    · apply hj.congr <;> simp [exitCode]
    · apply hj.congr <;> simp [exitCode]
    · -- nobody knew of an exit before it
      have hnone : j.exitCode = none := by
        unfold exitCode
        rw [hp]
        rfl
      refine ⟨?_, ?_, ?_⟩
      · intro handle hw
        rw [settle_waiter] at hw
        have hsome := hj.signaled handle hw
        rw [hnone] at hsome
        exact absurd hsome (by simp)
      · intro c hw
        rw [settle_waiter] at hw
        obtain ⟨code', hcode, -⟩ := hj.finished c hw
        rw [hnone] at hcode
        exact absurd hcode (by simp)
      · intro n hn
        rw [settle_watcher] at hn
        obtain ⟨code', hcode, -⟩ := hj.carries n hn
        rw [hnone] at hcode
        exact absurd hcode (by simp)
    · apply hj.congr <;> simp [exitCode]
  | _ =>
    have hf := step_frame h (by simp)
    exact hj.congr (hf.exitCode (by simp)) (hf.waiter (by simp) (by simp))
      (hf.watcher (by simp))

theorem informed_reachable {j : Job}
    (h : machine.Reach (fun j e => j.wakesOnExit e = true) j) : j.Informed := by
  refine h.invariant_of (J := fun j => j.Staged) (fun _ hr => staged_reachable hr) ?_ ?_
  · rintro _ ⟨jobId, timeout, now, last, rfl⟩
    exact .of_notSpawned rfl (.inl rfl)
  · intro s e u hst hs hc hstep
    exact Informed.step hst (Staged.step hst hstep) hs hc hstep

/-- In every run in which the token does not wake the watcher, EXIT tells the
truth about the process. -/
theorem exit_truthful {j j' : Job} {e : Event}
    (h : machine.Reach (fun j e => j.wakesOnExit e = true) j)
    (hstep : j.step e = some j') : ExitTruthful j j' := by
  intro f hsent hexit
  obtain ⟨fs, hsends, hsent'⟩ := step_sends hstep
  obtain rfl : [f] = fs := List.append_cancel_left (hsent.symm.trans hsent')
  cases hsends with
  | runAck hpc => exact absurd hexit (by simp)
  | error msg hpc => exact absurd hexit (by simp)
  | output o last f hpc =>
    have hout := (((speaking_reachable h).pumps o).at_pc.frame hpc).1.1
    rw [hout] at hexit
    exact absurd hexit (by simp)
  | exit code hpc =>
    obtain ⟨c, hc, heq⟩ := (informed_reachable h).carries code (by rw [hpc]; rfl)
    exact ⟨c, hc, fun hne => by rw [heq hne]⟩

/-- The process exits with code 3, and EXIT says so. -/
theorem exit_truthful_three :
    ∃ j j', machine.Reach (fun j e => j.wakesOnExit e = true) j ∧
      j.step (.watcher .sent) = some j' ∧ j'.sent = j.sent ++ [exitFrame 1 3] ∧
      ExitTruthful j j' := by
  obtain ⟨j, hr, hp⟩ := StepMachine.reach_of_runIf machine
    (fun j e => j.wakesOnExit e = true) ⟨1, none, 0, 0, rfl⟩
    (launchEvents 0 ++ [.os (.exit 3)] ++ exitEvents 0)
    (fun j => j.watcher = .sendExit 3 && j.handle.jobId = 1) (by decide +kernel)
  obtain ⟨hpc, hid⟩ : j.watcher = .sendExit 3 ∧ j.handle.jobId = 1 := by simpa using hp
  have hstep : j.step (.watcher .sent) = some (settle { j with
      watcher := .toCompleted .getJob, sent := j.sent ++ [exitFrame 1 3] }) := by
    simp [Job.step, act, WatcherPc.step, hpc, hid]
  exact ⟨j, _, hr, hstep, settle_sent _, exit_truthful hr hstep⟩

/-- After a CANCEL the watcher sends EXIT for a process that has not exited. -/
theorem exit_of_running_process :
    ∃ j j', machine.Reachable j ∧ j.step (.watcher .sent) = some j' ∧
      j.exitCode = none ∧ ¬ ExitTruthful j j' := by
  obtain ⟨j, hr, hp⟩ := StepMachine.reach_of_runIf machine StepMachine.Any
    ⟨1, none, 0, 0, rfl⟩
    (launchEvents 0 ++ ([.watcher (.step 0)] : List Event) ++ cancelEvents 0 ++
      ([.watcher .cancelled] : List Event) ++ List.replicate 4 (.watcher (.step 0)))
    (fun j => j.watcher = .sendExit (-1) && j.handle.jobId = 1 && j.exitCode = none)
    (by decide +kernel)
  obtain ⟨⟨hpc, hid⟩, hnone⟩ :
      (j.watcher = .sendExit (-1) ∧ j.handle.jobId = 1) ∧ j.exitCode = none := by
    simpa using hp
  have hstep : j.step (.watcher .sent) = some (settle { j with
      watcher := .toCompleted .getJob, sent := j.sent ++ [exitFrame 1 (-1)] }) := by
    simp [Job.step, act, WatcherPc.step, hpc, hid]
  refine ⟨j, _, hr, hstep, hnone, ?_⟩
  intro htrue
  obtain ⟨code, hcode, -⟩ := htrue (exitFrame 1 (-1)) (settle_sent _) rfl
  rw [hnone] at hcode
  exact absurd hcode (by simp)

end RemoteAgent.Job
