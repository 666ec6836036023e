import RemoteAgent.Job.Window

/-!
# The answer to a RUN

The last word of a job: EXIT from its watcher, or ERROR from `handle_run` when
the launch has failed.

* The frames of a job fit the limit on payloads, except for an ERROR with a text
  that is too long (`Sends.fits`).
* `proceeds` says when a step leaves `handle_run` on its way to an answer.  It
  does not where `handle_run` moves the job to Starting or Running and does not
  find it there, or not in the state before.
* `Answering` is what such steps keep, and a job whose tasks are over has then
  given its answer (`Answering.answer`).
* `Mute` is where the other steps lead to (`mute_of_not_proceeds`), and no step
  leads out of it (`Mute.step`).
-/

namespace RemoteAgent.Job

open CodeLib Protocol IoPump
open JobManager (SystemTime Duration HANDLE JobState JobHandle)

/-! ## Frames that fit -/

theorem length_textBytes_append (s t : String) :
    (textBytes (s ++ t)).length = (textBytes s).length + (textBytes t).length := by
  simp [textBytes]

/-- A character takes at most four bytes. -/
theorem length_textBytes_le (s : String) : (textBytes s).length ≤ 4 * s.length := by
  have hbytes : textBytes s = s.toList.flatMap String.utf8EncodeChar := by
    unfold textBytes
    rw [String.toUTF8_eq_toByteArray, ← String.utf8Encode_toList, List.utf8Encode]
    simp
  rw [hbytes, List.length_flatMap, ← String.length_toList]
  induction s.toList with
  | nil => simp
  | cons c cs ih =>
    have hc := c.utf8Size_le_four
    simp only [List.map_cons, List.sum_cons, List.length_cons,
      String.length_utf8EncodeChar] at ih ⊢
    omega

/-- An exit code has at most ten digits and a sign. -/
theorem length_exitCode_le (code : Int32) : (toString code.toInt).length ≤ 11 := by
  have hlt := code.toInt_lt
  have hle := code.le_toInt
  rw [Int.toString_eq_repr, Int.repr_eq_if]
  split
  · have hdigits : code.toInt.toNat.repr.length ≤ 11 :=
      (Nat.length_repr_le_iff (by omega)).mpr (by omega)
    exact hdigits
  · have hdigits : (-code.toInt).toNat.repr.length ≤ 10 :=
      (Nat.length_repr_le_iff (by omega)).mpr (by omega)
    have hsign : "-".length = 1 := rfl
    rw [String.length_append, hsign]
    omega

theorem length_exitPayload_le (code : Int32) :
    (ExitPayload.toJson ⟨code⟩).length ≤ maxPayloadSize := by
  have hmax : maxPayloadSize = 32768 := rfl
  have hkey : (textBytes "\x7b\"exit_code\":").length = 13 := by decide
  have hend : (textBytes "\x7d").length = 1 := by decide
  have hbytes := length_textBytes_le (toString code.toInt)
  have hcode := length_exitCode_le code
  unfold ExitPayload.toJson
  rw [length_textBytes_append, length_textBytes_append, hkey, hend]
  show 13 + (textBytes (toString code.toInt)).length + 1 ≤ maxPayloadSize
  omega

/-- Whether a frame can carry the text of a failed launch. -/
def errorFits (msg : String) : Bool :=
  (textBytes ("Launch failed: " ++ msg)).length ≤ maxPayloadSize

/-- The text that `handle_run` has in its hands. -/
def RunPc.message : RunPc → Option String
  | .toFailed msg _ | .sendError msg => some msg
  | _ => none

/-- What a job sends fits the limit on payloads, if the text of a failed launch
does. -/
theorem Sends.fits {j : Job} {e : Event} {fs : List Frame} (h : Sends j e fs)
    (hj : j.Metered) (hmsg : ∀ msg, j.run.message = some msg → errorFits msg = true) :
    ∀ f ∈ fs, f.payload.length ≤ maxPayloadSize := by
  intro f hf
  cases h with
  | nothing => exact absurd hf List.not_mem_nil
  | runAck hpc =>
    rw [List.mem_singleton.mp hf]
    exact Nat.zero_le _
  | error msg hpc =>
    rw [List.mem_singleton.mp hf]
    exact of_decide_eq_true (hmsg msg (by rw [hpc]; rfl))
  | output o last g hpc =>
    rw [List.mem_singleton.mp hf]
    exact hj.sized o last g .send hpc
  | exit code hpc =>
    rw [List.mem_singleton.mp hf]
    exact length_exitPayload_le code

/-! ## The way to an answer -/

/-- The frames of a job that answer its RUN: RUN_ACK, and after it exactly one
EXIT or ERROR. -/
def Answer (jobId : UInt32) (fs : List Frame) : Prop :=
  ∃ rest, fs = runAckFrame jobId :: rest ∧ exits rest + errors rest = 1

/-- Whether a step leaves `handle_run` on its way to an answer. -/
def proceeds (j : Job) : Event → Bool
  | .run (.step _) =>
    match j.run with
    | .toStarting .getJob | .toRunning _ .getJob => j.registered
    | .toStarting .commit => j.handle.state.canTransitionTo .starting
    | .toRunning _ .commit => j.handle.state.canTransitionTo .running
    | _ => true
  | .run (.launchFailed msg) => errorFits msg
  | _ => true

/-- What holds as long as all steps proceed and the channel is open. -/
structure Answering (j : Job) : Prop where
  run : ∀ e, j.run ≠ .returned (.error e)
  message : ∀ msg, j.run.message = some msg → errorFits msg = true
  error : j.run.errorSent = true → j.process = none → errors j.sent = 1
  watched : j.run.watcherUp = true → j.process.isSome = true → j.watcher ≠ .notSpawned
  exit : j.watcher.exitSent = true → exits j.sent = 1

theorem answering_create (jobId : UInt32) (timeout : Option Duration)
    (now last : SystemTime) : (create jobId timeout now last).Answering where
  run := fun _ h => by cases h
  message := fun _ h => by cases h
  error := fun h => by cases h
  watched := fun h => by cases h
  exit := fun h => by cases h

/-- What an action of `handle_run` that proceeds means for the answer. -/
structure RunPc.Proceeds (a : JobHandle) (pc pc' : RunPc) (eff : RunEffect) : Prop where
  run : ∀ e, pc' ≠ .returned (.error e)
  message : ∀ msg, pc'.message = some msg → pc.message = some msg ∨ errorFits msg = true
  error : pc'.errorSent = true → pc.errorSent = true ∨
    (∃ msg, eff = .send (errorFrame a.jobId msg)) ∨ ∃ p, pc.inHand = some p
  watched : pc'.watcherUp = true → pc.unlaunched = true ∨ ∃ p, eff = .spawnWatcher p

theorem RunPc.step_proceeds {j : Job} {a : JobHandle} {pc : RunPc} {e : RunEvent}
    {eff : RunEffect} (h : j.run.step j.handle j.registered e = some (a, pc, eff))
    (hproceeds : j.proceeds (.run e) = true) (hopen : e ≠ .closed) :
    j.run.Proceeds j.handle pc eff := by
  unfold RunPc.step at h
  split at h
  case h_5 now hpc =>
    have hcan : j.handle.state.canTransitionTo .starting = true := by
      simpa only [proceeds, hpc] using hproceeds
    rw [JobHandle.transition, if_pos hcan] at h
    cases h
    constructor <;> simp [RunPc.message, RunPc.errorSent, RunPc.watcherUp]
  case h_11 p now hpc =>
    have hcan : j.handle.state.canTransitionTo .running = true := by
      simpa only [proceeds, hpc] using hproceeds
    rw [JobHandle.transition, if_pos hcan] at h
    cases h
    constructor <;> simp [RunPc.message, RunPc.errorSent, RunPc.watcherUp]
  all_goals (try split at h) <;> cases h <;> constructor <;>
    simp_all [proceeds, RunPc.message, RunPc.errorSent, RunPc.watcherUp, RunPc.inHand,
      RunPc.unlaunched]

/-- Before `handle_run` has come to an end, nothing has ended the job. -/
theorem Speaking.unended {j : Job} (hsp : j.Speaking) (hst : j.Staged)
    (hup : j.run.watcherUp = false) (herror : j.run.errorSent = false) :
    exits j.sent = 0 ∧ errors j.sent = 0 := by
  have hend := hsp.ending
  have hended : j.ended = false := by
    unfold ended
    rw [hst.watcher (.inl hup), herror]
    simp [WatcherPc.exitSent]
  rw [hended] at hend
  have hzero : exits j.sent + errors j.sent ≤ 0 := hend
  omega

/-- An OUTPUT frame ends nothing. -/
theorem Sends.unended {j : Job} {o : Out} {e : PumpEvent} {fs : List Frame}
    (h : Sends j (.pump o e) fs) (hsp : j.Speaking) : exits fs = 0 ∧ errors fs = 0 := by
  cases h with
  | nothing => exact ⟨rfl, rfl⟩
  | output _ last f hpc =>
    have htype : f.frameType = .output := ((hsp.pumps o).at_pc.frame hpc).1.1
    constructor
    · simp [exits, htype]
    · simp [errors, htype]

theorem not_final_of_unended {fs : List Frame} (hexits : exits fs = 0)
    (herrors : errors fs = 0) {f : Frame} (hf : f ∈ fs) :
    ¬ (f.frameType = .exit ∨ f.frameType = .error) := by
  rintro (htype | htype)
  · exact absurd (decide_eq_true htype) (List.countP_eq_zero.mp hexits f hf)
  · exact absurd (decide_eq_true htype) (List.countP_eq_zero.mp herrors f hf)

theorem Answering.congr {j j' : Job} (hj : j.Answering) (hrun : j'.run = j.run)
    (hprocess : j'.process.isSome = j.process.isSome) (hwatcher : j'.watcher = j.watcher)
    (hexits : exits j'.sent = exits j.sent) (herrors : errors j'.sent = errors j.sent) :
    j'.Answering := by
  have hnone : j'.process = none ↔ j.process = none := by
    rw [← Option.not_isSome_iff_eq_none, ← Option.not_isSome_iff_eq_none, hprocess]
  obtain ⟨h1, h2, h3, h4, h5⟩ := hj
  constructor
  · rwa [hrun]
  · rwa [hrun]
  · rwa [hrun, hnone, herrors]
  · rwa [hrun, hprocess, hwatcher]
  · rwa [hwatcher, hexits]

theorem Answering.step_run {j j' : Job} {e : RunEvent} (hst : j.Staged) (hsp : j.Speaking)
    (hj : j.Answering) (h : j.step (.run e) = some j')
    (hproceeds : j.proceeds (.run e) = true) (hopen : e ≠ .closed) : j'.Answering := by
  obtain ⟨a, pc, eff, hs, hj'⟩ := Job.step_run h
  have hp := RunPc.step_proceeds hs hproceeds hopen
  have hf := RunPc.step_follows hs
  have hrun : j'.run = pc := by rw [hj', settle_run, effect_run]
  have hwatcher : j.watcher = .notSpawned := hst.watcher (.inl hf.watcherUp)
  have hprocess : j'.process = (j.effect eff).process := by
    rw [hj', settle_process]
    cases eff <;> rfl
  have hsent : j'.sent = (j.effect eff).sent := by
    rw [hj', settle_sent]
    cases eff <;> rfl
  refine ⟨?_, ?_, ?_, ?_, ?_⟩
  · rw [hrun]
    exact hp.run
  · intro msg hmsg
    rw [hrun] at hmsg
    rcases hp.message msg hmsg with hold | hfits
    · exact hj.message msg hold
    · exact hfits
  · intro herror hnone
    rw [hrun] at herror
    rw [hprocess] at hnone
    obtain ⟨hnone', -⟩ := hst.of_process_none hf hnone
    rcases hp.error herror with hold | ⟨msg, rfl⟩ | ⟨p, hhand⟩
    · -- ERROR was out already, and `handle_run` says nothing after it
      rcases effect_sent j eff with ⟨f, rfl, -⟩ | ⟨-, hsame⟩
      · obtain ⟨-, -, ⟨hpc, -⟩ | ⟨msg, hpc, -⟩⟩ := RunPc.step_send hs <;>
        · rw [hpc] at hold
          cases hold
      · rw [hsent, hsame]
        exact hj.error hold hnone'
    · have hpc : j.run.errorSent = false := by
        obtain ⟨-, -, ⟨hpc, -⟩ | ⟨msg, hpc, -⟩⟩ := RunPc.step_send hs <;> rw [hpc] <;> rfl
      have hzero := (hsp.unended hst hf.watcherUp hpc).2
      rw [hsent]
      show errors (j.sent ++ [_]) = 1
      rw [errors_append, hzero]
      rfl
    · obtain ⟨code, hsome⟩ := hst.inHand p hhand
      rw [hsome] at hnone'
      cases hnone'
  · intro hup hsome
    rw [hrun] at hup
    rw [hprocess] at hsome
    rcases hp.watched hup with hun | ⟨p, rfl⟩
    · -- the launch is the only step that brings a process
      by_cases hstart : ∃ p, eff = .start p
      · obtain ⟨p, hstart⟩ := hstart
        rw [(hf.start p hstart).2] at hup
        cases hup
      · rw [effect_process j fun p hp => hstart ⟨p, hp⟩, hst.unlaunched hun] at hsome
        cases hsome
    · rw [hj', settle_watcher]
      simp [effect]
  · intro hexit
    have hnew : j'.watcher.exitSent = false := by
      rw [hj', settle_watcher]
      cases eff <;> simp [effect, hwatcher, WatcherPc.exitSent]
    rw [hnew] at hexit
    cases hexit

theorem Answering.step_watcher {j j' : Job} {e : WatcherEvent} (hst : j.Staged)
    (hsp : j.Speaking) (hj : j.Answering) (h : j.step (.watcher e) = some j')
    (hopen : e ≠ .closed) : j'.Answering := by
  have hf := step_frame h (by simp)
  obtain ⟨a, pc, waiter, fs, hw, hj'⟩ := Job.step_watcher h
  have hup : j.watcher ≠ .notSpawned := by
    intro hnot
    simp [WatcherPc.step, hnot] at hw
  have hpc : pc ≠ .notSpawned := by
    unfold WatcherPc.step at hw
    split at hw <;> (try split at hw) <;> cases hw <;> simp
  have hwatcher : j'.watcher = pc := by rw [hj', settle_watcher]
  have hsome : j.process ≠ none := fun hnone => hup (hst.watcher (.inr hnone))
  refine ⟨?_, ?_, ?_, ?_, ?_⟩
  · rw [hf.run]
    exact hj.run
  · rw [hf.run]
    exact hj.message
  · intro _ hnone
    have hnot : ¬ j'.process.isSome = true := by rw [hnone]; simp
    rw [hf.process] at hnot
    exact absurd (Option.not_isSome_iff_eq_none.mp hnot) hsome
  · intro _ _
    rw [hwatcher]
    exact hpc
  · intro hexit
    rw [hwatcher] at hexit
    have hsent : j'.sent = j.sent ++ fs := by rw [hj', settle_sent]
    rcases WatcherPc.step_sent hw with rfl | ⟨code, hcode, -, -, rfl⟩
    · have hold : j.watcher.exitSent = true := by
        unfold WatcherPc.step at hw
        split at hw <;> (try split at hw) <;> cases hw <;>
          simp_all [WatcherPc.exitSent]
      rw [hsent, List.append_nil]
      exact hj.exit hold
    · -- nothing ended the job before EXIT
      have hend := hsp.ending
      have hended : j.ended = false := by
        unfold ended
        rw [hcode, Option.isSome_iff_ne_none.mpr hsome]
        rfl
      rw [hended] at hend
      have hzero : exits j.sent + errors j.sent ≤ 0 := hend
      have hone : exits [exitFrame j.handle.jobId code] = 1 := rfl
      rw [hsent, exits_append, hone]
      omega

theorem Answering.step {j j' : Job} {e : Event} (hst : j.Staged) (hsp : j.Speaking)
    (hj : j.Answering) (h : j.step e = some j') (hproceeds : j.proceeds e = true)
    (hrun : e ≠ .run .closed) (hwatcher : e ≠ .watcher .closed) : j'.Answering := by
  cases e with
  | run e => exact hj.step_run hst hsp h hproceeds fun he => hrun (by rw [he])
  | watcher e => exact hj.step_watcher hst hsp h fun he => hwatcher (by rw [he])
  | pump o e =>
    have hf := step_frame h (by simp)
    obtain ⟨fs, hsends, hsent⟩ := step_sends h
    obtain ⟨hexits, herrors⟩ := hsends.unended hsp
    refine hj.congr hf.run hf.process (hf.watcher (by simp)) ?_ ?_
    · rw [hsent, exits_append, hexits, Nat.add_zero]
    · rw [hsent, errors_append, herrors, Nat.add_zero]
  | _ =>
    have hf := step_frame h (by simp)
    have hsent := hf.sent (by simp) (by simp)
    refine hj.congr hf.run hf.process (hf.watcher (by simp)) ?_ ?_ <;> rw [hsent]

/-- A job whose `handle_run` and watcher are over has given its answer. -/
theorem Answering.answer {j : Job} (hsp : j.Speaking) (hj : j.Answering)
    {r : Except Error Unit} (hrun : j.run = .returned r)
    (hwatcher : j.watcher = .notSpawned ∨ j.watcher = .returned) :
    Answer j.handle.jobId j.sent := by
  have hone : exits j.sent + errors j.sent = 1 := by
    have hle := hsp.transcript.ending
    cases hp : j.process with
    | none =>
      have herror := hj.error (by rw [hrun]; rfl) hp
      omega
    | some p =>
      have hup := hj.watched (by rw [hrun]; rfl) (by rw [hp]; rfl)
      rcases hwatcher with hnot | hret
      · exact absurd hnot hup
      · have hexit := hj.exit (by rw [hret]; rfl)
        omega
  rcases hsp.ack with hnil | ⟨rest, hrest, -⟩
  · rw [hnil] at hone
    cases hone
  · refine ⟨rest, hrest, ?_⟩
    rw [hrest] at hone
    simpa [exits, errors] using hone

/-! ## No way to an answer -/

/-- `handle_run` will not send an ERROR that fits, nor spawn the watcher. -/
def RunPc.lost : RunPc → Bool
  | .toFailed msg _ | .sendError msg => !errorFits msg
  | .cleanup _ | .returned _ => true
  | _ => false

/-- No EXIT and no ERROR that fits is out, and none will come. -/
structure Mute (j : Job) : Prop where
  lost : j.run.lost = true
  watcher : j.watcher = .notSpawned
  unsaid : ∀ f ∈ j.sent, f.frameType = .exit ∨ f.frameType = .error →
    maxPayloadSize < f.payload.length

/-- A job without a final frame has nothing that could fit. -/
theorem Mute.of_unended {j : Job} (hlost : j.run.lost = true)
    (hwatcher : j.watcher = .notSpawned) (hexits : exits j.sent = 0)
    (herrors : errors j.sent = 0) : j.Mute := by
  refine ⟨hlost, hwatcher, ?_⟩
  intro f hf htype
  exact absurd htype (not_final_of_unended hexits herrors hf)

/-- An action that does not proceed is an early return, or a launch that fails
with a text that is too long. -/
theorem RunPc.step_stops {j : Job} {a : JobHandle} {pc : RunPc} {e : RunEvent}
    {eff : RunEffect} (h : j.run.step j.handle j.registered e = some (a, pc, eff))
    (hproceeds : j.proceeds (.run e) = false) :
    j.run.errorSent = false ∧ pc.lost = true ∧ (∀ f, eff ≠ .send f) ∧
      ∀ p, eff ≠ .spawnWatcher p := by
  unfold RunPc.step at h
  split at h
  case h_5 now hpc =>
    have hcan : j.handle.state.canTransitionTo .starting = false := by
      simpa only [proceeds, hpc] using hproceeds
    rw [JobHandle.transition, if_neg (by simp [hcan])] at h
    cases h
    simp [hpc, RunPc.errorSent, RunPc.lost]
  case h_11 p now hpc =>
    have hcan : j.handle.state.canTransitionTo .running = false := by
      simpa only [proceeds, hpc] using hproceeds
    rw [JobHandle.transition, if_neg (by simp [hcan])] at h
    cases h
    simp [hpc, RunPc.errorSent, RunPc.lost]
  all_goals (try split at h) <;> cases h <;>
    simp_all [proceeds, RunPc.errorSent, RunPc.lost]

/-- A step that does not proceed leaves the job mute. -/
theorem mute_of_not_proceeds {j j' : Job} {e : Event} (hst : j.Staged) (hsp : j.Speaking)
    (h : j.step e = some j') (hproceeds : j.proceeds e = false) : j'.Mute := by
  cases e with
  | run e =>
    obtain ⟨a, pc, eff, hs, rfl⟩ := Job.step_run h
    obtain ⟨herror, hlost, hsend, hspawn⟩ := RunPc.step_stops hs hproceeds
    have hup := (RunPc.step_follows hs).watcherUp
    obtain ⟨hexits, herrors⟩ := hsp.unended hst hup herror
    have hsent : (effect { j with handle := a, run := pc } eff).sent = j.sent := by
      rcases effect_sent { j with handle := a, run := pc } eff with ⟨f, heq, -⟩ | ⟨-, heq⟩
      · exact absurd heq (hsend f)
      · exact heq
    apply Mute.of_unended
    · rw [settle_run, effect_run]
      exact hlost
    · rw [settle_watcher, effect_watcher _ hspawn]
      exact hst.watcher (.inl hup)
    · rw [settle_sent, hsent]
      exact hexits
    · rw [settle_sent, hsent]
      exact herrors
  | _ => cases hproceeds

theorem RunPc.step_lost {a a' : JobHandle} {registered : Bool} {pc pc' : RunPc}
    {e : RunEvent} {eff : RunEffect} (h : pc.step a registered e = some (a', pc', eff))
    (hlost : pc.lost = true) :
    pc'.lost = true ∧ (∀ p, eff ≠ .spawnWatcher p) ∧
      ∀ f, eff = .send f → maxPayloadSize < f.payload.length := by
  unfold RunPc.step at h
  split at h <;> (try split at h) <;> cases h <;>
    simp_all [RunPc.lost, errorFits, errorFrame, Frame.withPayload]

/-- No step makes a mute job speak. -/
theorem Mute.step {j j' : Job} {e : Event} (hsp : j.Speaking) (hj : j.Mute)
    (h : j.step e = some j') : j'.Mute := by
  cases e with
  | run e =>
    obtain ⟨a, pc, eff, hs, rfl⟩ := Job.step_run h
    obtain ⟨hlost, hspawn, hsend⟩ := RunPc.step_lost hs hj.lost
    refine ⟨?_, ?_, ?_⟩
    · rw [settle_run, effect_run]
      exact hlost
    · rw [settle_watcher, effect_watcher _ hspawn]
      exact hj.watcher
    · rw [settle_sent]
      rcases effect_sent { j with handle := a, run := pc } eff with
        ⟨f, heq, hsent⟩ | ⟨-, hsent⟩
      · rw [hsent]
        intro g hg htype
        rcases List.mem_append.mp hg with hg | hg
        · exact hj.unsaid g hg htype
        · rw [List.mem_singleton.mp hg]
          exact hsend f heq
      · rw [hsent]
        exact hj.unsaid
  | watcher e =>
    obtain ⟨a, pc, waiter, fs, hw, -⟩ := Job.step_watcher h
    simp [WatcherPc.step, hj.watcher] at hw
  | pump o e =>
    have hf := step_frame h (by simp)
    obtain ⟨fs, hsends, hsent⟩ := step_sends h
    refine ⟨by rw [hf.run]; exact hj.lost,
      by rw [hf.watcher (by simp)]; exact hj.watcher, ?_⟩
    rw [hsent]
    intro g hg htype
    rcases List.mem_append.mp hg with hg | hg
    · exact hj.unsaid g hg htype
    · -- a pump sends OUTPUT
      obtain ⟨hexits, herrors⟩ := hsends.unended hsp
      exact absurd htype (not_final_of_unended hexits herrors hg)
  | _ =>
    have hf := step_frame h (by simp)
    refine ⟨by rw [hf.run]; exact hj.lost,
      by rw [hf.watcher (by simp)]; exact hj.watcher, ?_⟩
    rw [hf.sent (by simp) (by simp)]
    exact hj.unsaid

/-- Frames of a mute job that all fit are no answer. -/
theorem Mute.not_answer {j : Job} (hj : j.Mute)
    (hfits : ∀ f ∈ j.sent, f.payload.length ≤ maxPayloadSize) :
    ¬ Answer j.handle.jobId j.sent := by
  rintro ⟨rest, hrest, hone⟩
  have hnone : ∀ f ∈ rest, f.frameType ≠ .exit ∧ f.frameType ≠ .error := by
    intro f hf
    have hmem : f ∈ j.sent := by
      rw [hrest]
      exact List.mem_cons_of_mem _ hf
    have hle := hfits f hmem
    constructor
    · intro htype
      have hlt := hj.unsaid f hmem (.inl htype)
      omega
    · intro htype
      have hlt := hj.unsaid f hmem (.inr htype)
      omega
  have hexits : exits rest = 0 :=
    List.countP_eq_zero.mpr fun f hf => by simpa using (hnone f hf).1
  have herrors : errors rest = 0 :=
    List.countP_eq_zero.mpr fun f hf => by simpa using (hnone f hf).2
  omega

end RemoteAgent.Job
