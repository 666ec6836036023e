import RemoteAgent.Job.Window

/-!
# Two pumps behind one window

What the window does to the pumps of a job when it is nearly full, and when it
is.

`try_send_frame` tests the counter and adds to it in two steps.  A frame that has
passed its test, or will pass it on the value that its pump has loaded, is
pending until its bytes are added.

* `overcommit_iff`: the window is not overcommitted, not even by one pump going
  on alone, exactly if the pumps add to the counter only when the frame that the
  other has pending still fits behind their own.
* `released_iff`: a pump that waits for the window looks at nothing but the
  window.  No pump is left waiting under a cancelled token exactly if the token
  is cancelled only while no pump waits, and no pump starts to wait after that.
* `overcommitted` and `waits_under_cancelled_token` are runs of the other kind.
-/

namespace RemoteAgent.Job

open CodeLib Protocol IoPump
open JobManager (SystemTime Duration HANDLE JobState JobHandle)

/-! ## Frames that have passed their test -/

def Out.other : Out → Out
  | .stdout => .stderr
  | .stderr => .stdout

theorem Out.eq_or_eq_other (o o' : Out) : o' = o ∨ o' = o.other := by
  cases o <;> cases o' <;> simp [Out.other]

theorem Out.other_ne (o : Out) : o.other ≠ o := by
  cases o <;> simp [Out.other]

/-- The bytes that a pump will add without another look at the counter. -/
def pendingBytes (w : StreamPump) (p : Pump) : Nat :=
  match p.pc with
  | .trySend _ f (.loadWindow inFlight) =>
    if StreamPump.guard inFlight (dataLen f) w.sendWindow then f.payload.length else 0
  | .trySend _ f .fetchAdd => f.payload.length
  | _ => 0

/-- A pump adds to the counter only if the frame that the other pump has pending
still fits behind its own. -/
def fitsBoth (j : Job) : Event → Bool
  | .pump o .step =>
    match (j.pump o).pc with
    | .trySend _ f .fetchAdd =>
      j.window.bytesInFlight.toNat + f.payload.length +
        pendingBytes j.window (j.pump o.other) ≤ j.window.sendWindow.toNat
    | _ => true
  | _ => true

/-- The counter with what a pump has pending fits the window. -/
def Fits (w : StreamPump) (p : Pump) : Prop :=
  w.bytesInFlight.toNat + pendingBytes w p ≤ w.sendWindow.toNat

section pump

variable {jobId : UInt32} {streamId : StreamId} {token : Bool} {w w' : StreamPump}
  {p p' : Pump} {e : PumpEvent} {fs : List Frame} {q : CheckThenAdd.Party}

/-- A pump that acts keeps its own frame within the window. -/
theorem Fits.step (h : p.step jobId streamId token w e = some (w', p', fs))
    (hsized : ∀ last f pc, p.pc = .trySend last f pc → f.payload.length ≤ maxPayloadSize)
    (hwithin : CheckThenAdd.Within 65536 maxPayloadSize w.bytesInFlight.toNat (party p) q)
    (hfits : Fits w p) : Fits w' p' := by
  have hle : w.bytesInFlight.toNat ≤ w.sendWindow.toNat :=
    Nat.le_trans (Nat.le_add_right _ _) hfits
  have hbound := hwithin.bound
  have hmax : maxPayloadSize = 32768 := rfl
  cases Pump.step_move h with
  | load last f hpc =>
    have hn := hsized last f _ hpc
    show w.bytesInFlight.toNat + (if StreamPump.guard w.bytesInFlight (dataLen f)
      w.sendWindow then f.payload.length else 0) ≤ w.sendWindow.toNat
    split
    · rename_i hg
      rw [dataLen, guard_iff (by omega)] at hg
      exact hg
    · exact hle
  | pass last f inFlight hpc hg =>
    unfold Fits pendingBytes at hfits
    rw [hpc] at hfits
    simp only [hg, if_true] at hfits
    exact hfits
  | reserve last f hpc =>
    unfold Fits pendingBytes at hfits
    rw [hpc] at hfits
    show (w.bytesInFlight + dataLen f).toNat + 0 ≤ _
    rw [toNat_reserve hpc hwithin]
    exact hfits
  | read r p' hpc hm => cases hm <;> exact hle
  | drop last f inFlight hpc hd | send last f hpc => cases last <;> exact hle
  | cancelled hpc ht | goOn hpc ht | block last f inFlight hpc | refused last f hpc
  | notified last f hpc => exact hle

end pump

/-! ## The window of a job -/

/-- What both pumps have pending fits the window, one at a time. -/
def Uncommitted (j : Job) : Prop := ∀ o, Fits j.window (j.pump o)

theorem uncommitted_create (jobId : UInt32) (timeout : Option Duration)
    (now last : SystemTime) : (create jobId timeout now last).Uncommitted := by
  intro o
  exact Nat.zero_le _

/-- One pump of a job as a party, and the other one. -/
theorem Metered.within_of {j : Job} (hj : j.Metered) (o : Out) :
    CheckThenAdd.Within 65536 maxPayloadSize j.window.bytesInFlight.toNat
      (party (j.pump o)) (party (j.pump o.other)) := by
  cases o with
  | stdout => exact hj.within
  | stderr => exact hj.within.symm

/-- A pump that goes on keeps its own frame within the window, whatever the other
has pending. -/
theorem fits_pump {j j' : Job} {o : Out} {e : PumpEvent} (hj : j.Metered)
    (h : j.step (.pump o e) = some j') (hfits : Fits j.window (j.pump o)) :
    Fits j'.window (j'.pump o) := by
  obtain ⟨p, w, q, fs, -, hs, rfl⟩ := step_pump h
  rw [settle_window, settle_pump]
  show Fits w (Function.update j.pump o q o)
  rw [Function.update_self]
  exact hfits.step hs (hj.sized o) (hj.within_of o)

/-- A step of a pump leaves the counter alone, or adds a frame that has passed
its test. -/
theorem pump_counts {j j' : Job} {o : Out} {e : PumpEvent}
    (h : j.step (.pump o e) = some j') :
    j'.window = j.window ∨
      ∃ last f, e = .step ∧ (j.pump o).pc = .trySend last f .fetchAdd := by
  obtain ⟨p, w, q, fs, -, hs, rfl⟩ := step_pump h
  rw [settle_window]
  cases Pump.step_move hs with
  | reserve last f hpc => exact .inr ⟨last, f, rfl, hpc⟩
  | _ => exact .inl rfl

/-- The addition of a frame that has passed its test. -/
theorem reserve_counts {j j' : Job} {o : Out} {last : Bool} {f : Frame} (hj : j.Metered)
    (hpc : (j.pump o).pc = .trySend last f .fetchAdd)
    (h : j.step (.pump o .step) = some j') :
    j'.window.sendWindow = j.window.sendWindow ∧
      j'.window.bytesInFlight.toNat =
        j.window.bytesInFlight.toNat + f.payload.length := by
  have hs : j.step (.pump o .step) = some (settle { j with
      window := { j.window with bytesInFlight := j.window.bytesInFlight + dataLen f }
      pump := Function.update j.pump o { j.pump o with pc := .trySend last f .send }
      pipe := Function.update j.pipe o (j.pipe o)
      sent := j.sent ++ []
      refused := j.refused ++ [] }) := by
    simp [step, act, readPipe, Pump.step, hpc, refuses]
  rw [hs] at h
  cases h
  rw [settle_window]
  exact ⟨rfl, toNat_reserve hpc (hj.within_of o)⟩

theorem step_other {j j' : Job} {o : Out} {e : PumpEvent}
    (h : j.step (.pump o e) = some j') : j'.pump o.other = j.pump o.other := by
  obtain ⟨p, w, q, fs, -, -, rfl⟩ := step_pump h
  rw [settle_pump]
  exact Function.update_of_ne o.other_ne _ _

theorem pendingBytes_congr {w w' : StreamPump} {p : Pump}
    (h : w'.sendWindow = w.sendWindow) : pendingBytes w' p = pendingBytes w p := by
  unfold pendingBytes
  rw [h]

theorem Uncommitted.step {j j' : Job} {e : Event} (hst : j.Staged) (hm : j.Metered)
    (hj : j.Uncommitted) (hfits : j.fitsBoth e = true) (h : j.step e = some j') :
    j'.Uncommitted := by
  intro o'
  rcases e.pump_or_ne with ⟨o, e', rfl⟩ | hne
  · rcases Out.eq_or_eq_other o o' with rfl | rfl
    · exact fits_pump hm h (hj o')
    · rw [step_other h]
      rcases pump_counts h with hsame | ⟨last, f, rfl, hpc⟩
      · rw [hsame]
        exact hj o.other
      · obtain ⟨hsend, hcount⟩ := reserve_counts hm hpc h
        unfold Fits
        rw [hcount, hsend, pendingBytes_congr hsend]
        simpa [fitsBoth, hpc] using hfits
  · obtain ⟨hwindow, -, hpumps⟩ := step_pumps hst h hne
    have hold : Fits j.window (j.pump o') := hj o'
    unfold Fits pendingBytes at hold ⊢
    rw [hwindow]
    rcases hpumps o' with hpc | ⟨hpc, hpc'⟩
    · rw [hpc]
      exact hold
    · rw [hpc']
      rw [hpc] at hold
      exact hold

/-! ## One pump going on alone -/

/-- The bytes in flight are within the window. -/
def withinWindow (j : Job) : Bool := j.window.bytesInFlight ≤ j.window.sendWindow

/-- A pump takes `n` further steps, and nobody else moves. -/
def goesOn (j : Job) (o : Out) (n : Nat) : Option Job :=
  machine.run j (List.replicate n (.pump o .step))

theorem Fits.withinWindow {j : Job} {o : Out} (h : Fits j.window (j.pump o)) :
    j.withinWindow = true := by
  unfold Job.withinWindow
  rw [decide_eq_true_eq, UInt64.le_iff_toNat_le]
  exact Nat.le_trans (Nat.le_add_right _ _) h

/-- A pump whose frame fits goes on without overcommitting the window. -/
theorem withinWindow_goesOn {j j' : Job} {o : Out} {n : Nat} (hr : machine.Reachable j)
    (hfits : Fits j.window (j.pump o)) (h : j.goesOn o n = some j') :
    j'.withinWindow = true := by
  induction n generalizing j with
  | zero =>
    cases h
    exact hfits.withinWindow
  | succ n ih =>
    simp only [goesOn, List.replicate_succ, StepMachine.run,
      Option.bind_eq_some_iff] at h
    obtain ⟨u, hstep, hrun⟩ := h
    exact ih (hr.step trivial hstep) (fits_pump (metered_reachable hr) hstep hfits) hrun

/-- A pump whose test passes can go on to add its frame. -/
theorem exists_step_pass {j : Job} {o : Out} {last : Bool} {f : Frame} {inFlight : UInt64}
    (hpc : (j.pump o).pc = .trySend last f (.loadWindow inFlight))
    (hg : StreamPump.guard inFlight (dataLen f) j.window.sendWindow = true) :
    ∃ j', j.step (.pump o .step) = some j' ∧ j'.window = j.window ∧
      (j'.pump o).pc = .trySend last f .fetchAdd := by
  have hs : j.step (.pump o .step) = some (settle { j with
      pump := Function.update j.pump o { j.pump o with pc := .trySend last f .fetchAdd }
      pipe := Function.update j.pipe o (j.pipe o)
      sent := j.sent ++ []
      refused := j.refused ++ [] }) := by
    simp [step, act, readPipe, Pump.step, hpc, hg, refuses]
  refine ⟨_, hs, by rw [settle_window], ?_⟩
  rw [settle_pump]
  show (Function.update j.pump o _ o).pc = _
  rw [Function.update_self]

theorem exists_step_reserve {j : Job} {o : Out} {last : Bool} {f : Frame}
    (hpc : (j.pump o).pc = .trySend last f .fetchAdd) :
    ∃ j', j.step (.pump o .step) = some j' := by
  simp [step, act, readPipe, Pump.step, hpc]

/-- A pump with a frame pending adds it within two steps. -/
theorem exists_goesOn {j : Job} {o : Out} (hr : machine.Reachable j) :
    ∃ n j', j.goesOn o n = some j' ∧ j'.window.sendWindow = j.window.sendWindow ∧
      j'.window.bytesInFlight.toNat =
        j.window.bytesInFlight.toNat + pendingBytes j.window (j.pump o) := by
  unfold pendingBytes
  split
  · rename_i last f inFlight hpc
    split
    · rename_i hg
      obtain ⟨u, hpass, hwindow, hpc'⟩ := exists_step_pass hpc hg
      obtain ⟨j', hstep⟩ := exists_step_reserve hpc'
      have hcounts := reserve_counts (metered_reachable (hr.step trivial hpass)) hpc' hstep
      rw [hwindow] at hcounts
      have hpath : machine.Path StepMachine.Any j [.pump o .step, .pump o .step] j' :=
        .cons trivial hpass (.cons trivial hstep (.nil j'))
      exact ⟨2, j', hpath.run_eq, hcounts⟩
    · exact ⟨0, j, rfl, rfl, rfl⟩
  · rename_i last f hpc
    obtain ⟨j', hstep⟩ := exists_step_reserve hpc
    have hpath : machine.Path StepMachine.Any j [.pump o .step] j' :=
      .cons trivial hstep (.nil j')
    exact ⟨1, j', hpath.run_eq, reserve_counts (metered_reachable hr) hpc hstep⟩
  · exact ⟨0, j, rfl, rfl, rfl⟩

/-- A pump that adds its frame although the other's does not fit behind it lets
the other overcommit the window. -/
theorem overcommits_of_breaks {j j' : Job} {e : Event} (hr : machine.Reachable j)
    (h : j.step e = some j') (hbreak : j.fitsBoth e = false) :
    ∃ o n v, j'.goesOn o n = some v ∧ v.withinWindow = false := by
  unfold fitsBoth at hbreak
  split at hbreak
  · rename_i o
    split at hbreak
    · rename_i last f hpc
      rw [decide_eq_false_iff_not, Nat.not_le] at hbreak
      obtain ⟨n, v, hrun, hsend, hcount⟩ := exists_goesOn (o := o.other) (hr.step trivial h)
      refine ⟨o.other, n, v, hrun, ?_⟩
      rw [step_other h] at hcount
      unfold withinWindow
      rw [decide_eq_false_iff_not, UInt64.le_iff_toNat_le, Nat.not_le, hsend, hcount]
      obtain ⟨hw, hadd⟩ := reserve_counts (metered_reachable hr) hpc h
      rw [hw, pendingBytes_congr hw, hadd]
      exact hbreak
    · cases hbreak
  · cases hbreak

/-- In no state of a run, nor when one of the pumps goes on alone from there, is
the window overcommitted, exactly if in every step of the run in which a pump adds
its frame, the frame that the other has pending still fits behind it. -/
theorem overcommit_iff {j₀ j : Job} {es : List Event} (h0 : Initial j₀)
    (hp : machine.Path StepMachine.Any j₀ es j) :
    (∀ u ∈ machine.states j₀ es, u.withinWindow = true ∧
        ∀ o n v, u.goesOn o n = some v → v.withinWindow = true) ↔
      machine.Path (fun j e => j.fitsBoth e = true) j₀ es j := by
  refine hp.forall_states_iff_path (I := fun j => machine.Reachable j ∧ j.Uncommitted)
    ?_ ?_ ?_ ⟨⟨j₀, [], h0, .nil j₀⟩, ?_⟩
  · intro u hu
    exact ⟨(hu.2 .stdout).withinWindow,
      fun o n v hrun => withinWindow_goesOn hu.1 (hu.2 o) hrun⟩
  · intro u e v hu hfits hstep
    exact ⟨hu.1.step trivial hstep,
      hu.2.step (staged_reachable hu.1) (metered_reachable hu.1) hfits hstep⟩
  · intro u e v hu hstep hbreak hv
    obtain ⟨o, n, t, hrun, ht⟩ := overcommits_of_breaks hu.1 hstep (by simpa using hbreak)
    rw [hv.2 o n t hrun] at ht
    cases ht
  · obtain ⟨jobId, timeout, now, last, rfl⟩ := h0
    exact uncommitted_create jobId timeout now last

/-- Both pumps of a job take a byte past the window and then add it. -/
def bothPassEvents : List Event :=
  launchEvents 0 ++ offerEvents .stdout [0] ++ offerEvents .stderr [0] ++
    ([.pump .stdout .step, .pump .stderr .step] : List Event)

theorem overcommit_iff_both_pass :
    ∃ j, machine.Path StepMachine.Any (create 1 none 0 0) bothPassEvents j ∧
      j.window.bytesInFlight = 2 ∧
      ∀ u ∈ machine.states (create 1 none 0 0) bothPassEvents, u.withinWindow = true ∧
        ∀ o n v, u.goesOn o n = some v → v.withinWindow = true := by
  have hrun : (machine.runIf (fun j e => j.fitsBoth e = true) (create 1 none 0 0)
      bothPassEvents).any (fun j => j.window.bytesInFlight = 2) = true := by
    decide +kernel
  obtain ⟨j, hj, hcount⟩ := (Option.any_eq_true _ _).mp hrun
  have hall := StepMachine.path_of_runIf hj
  have hpath := hall.mono (D := StepMachine.Any) fun _ _ _ => trivial
  exact ⟨j, hpath, by simpa using hcount,
    (overcommit_iff ⟨1, none, 0, 0, rfl⟩ hpath).mpr hall⟩

/-! ## A job at its limit -/

/-- A job whose process has just been launched. -/
theorem exists_ready :
    ∃ j, machine.Reachable j ∧ (∀ o, j.Ready o) ∧ j.window = StreamPump.new 65536 false ∧
      j.calls = [] ∧ j.handle.state = .running := by
  obtain ⟨j, hr, hp⟩ := StepMachine.reach_of_runIf machine StepMachine.Any
    ⟨1, none, 0, 0, rfl⟩ (launchEvents 0)
    (fun j => j.registered && j.process.isSome && !j.handle.cancellationToken &&
      decide (j.window = StreamPump.new 65536 false) && decide (j.calls = []) &&
      decide (j.handle.state = .running) &&
      ([.stdout, .stderr] : List Out).all fun o => decide ((j.pump o).pc = .checkToken) &&
        decide (j.pipe o = Pipe.fresh))
    (by decide +kernel)
  simp only [Bool.and_eq_true, Bool.not_eq_true', decide_eq_true_eq, List.all_cons,
    List.all_nil, Bool.and_true] at hp
  obtain ⟨⟨⟨⟨⟨⟨hreg, hproc⟩, htoken⟩, hwindow⟩, hcalls⟩, hstate⟩, hout, herr⟩ := hp
  refine ⟨j, hr, ?_, hwindow, hcalls, hstate⟩
  intro o
  have hpump : (j.pump o).pc = .checkToken ∧ j.pipe o = Pipe.fresh := by
    cases o
    · exact hout
    · exact herr
  exact ⟨hreg, hproc, htoken, hpump.1, by rw [hpump.2]; rfl, by rw [hpump.2]; rfl,
    by rw [hwindow]; rfl⟩

/-- A payload of full size. -/
def fullPayload : List UInt8 := List.replicate maxPayloadSize 0

theorem length_fullPayload : fullPayload.length = maxPayloadSize := List.length_replicate ..

theorem fullPayload_ne_nil : fullPayload ≠ [] := by
  intro hnil
  have hlen := length_fullPayload
  rw [hnil] at hlen
  cases hlen

/-- A job with one byte in flight. -/
theorem exists_one_byte :
    ∃ j, machine.Reachable j ∧ (∀ o, j.Ready o) ∧ j.window = ⟨65536, 1, false⟩ := by
  obtain ⟨j, hr, hready, hwindow, -⟩ := exists_ready
  have hrun := (hready .stdout).run_delivered [0] (by simp) (by decide)
    (by rw [hwindow]; decide)
  refine ⟨_, hr.path (StepMachine.path_of_run hrun), fun o => (hready o).delivered [0], ?_⟩
  show (⟨_, j.window.bytesInFlight + 1, _⟩ : StreamPump) = _
  rw [hwindow]
  rfl

/-- Both pumps of the job take a payload of full size past the window. -/
theorem exists_both_pass :
    ∃ j, machine.Reachable j ∧ j.window = ⟨65536, 1, false⟩ ∧ ∀ o, ∃ f : Frame,
      (j.pump o).pc = .trySend false f .fetchAdd ∧ f.payload = fullPayload := by
  obtain ⟨j, hr, hready, hwindow⟩ := exists_one_byte
  have hle : fullPayload.length ≤ maxPayloadSize := Nat.le_of_eq length_fullPayload
  have hroom : StreamPump.guard j.window.bytesInFlight
      (UInt64.ofNat fullPayload.length) j.window.sendWindow = true := by
    rw [hwindow, length_fullPayload]
    decide
  have hout := (hready .stdout).run_offering fullPayload fullPayload_ne_nil hle
  rw [if_pos hroom] at hout
  have herr := ((hready .stderr).offering (o := .stdout) (by simp) fullPayload
    .fetchAdd).run_offering fullPayload fullPayload_ne_nil hle
  rw [if_pos (by exact hroom)] at herr
  refine ⟨_, (hr.path (StepMachine.path_of_run hout)).path (StepMachine.path_of_run herr),
    hwindow, ?_⟩
  intro o
  cases o with
  | stdout =>
    exact ⟨dataFrame j.handle.jobId .stdout (j.pump .stdout).sequence fullPayload,
      by simp [offering, Out.streamId], rfl⟩
  | stderr =>
    exact ⟨dataFrame j.handle.jobId .stderr (j.pump .stderr).sequence fullPayload,
      by simp [offering, Out.streamId], rfl⟩

/-- With one byte in flight, there is room for a payload of full size, but not for
two. -/
theorem overcommitted : ∃ j, machine.Reachable j ∧ j.withinWindow = false := by
  obtain ⟨j, hr, hwindow, hpumps⟩ := exists_both_pass
  obtain ⟨f, hpc, hf⟩ := hpumps .stdout
  obtain ⟨g, hpc', hg⟩ := hpumps .stderr
  have hpending : pendingBytes j.window (j.pump Out.stdout.other) = maxPayloadSize := by
    show pendingBytes j.window (j.pump .stderr) = maxPayloadSize
    simp only [pendingBytes, hpc', hg, length_fullPayload]
  have hbreak : j.fitsBoth (.pump .stdout .step) = false := by
    simp only [fitsBoth, hpc, hf, hpending, length_fullPayload]
    rw [hwindow]
    decide
  obtain ⟨j', hstep⟩ := exists_step_reserve hpc
  obtain ⟨o, n, v, hrun, hv⟩ := overcommits_of_breaks hr hstep hbreak
  have hr' : machine.Reachable j' := hr.step trivial hstep
  exact ⟨v, hr'.path (StepMachine.path_of_run hrun), hv⟩

/-! ## Pumps that wait under a cancelled token -/

/-- The pump waits for the window.  Nobody notifies, so no wake-up is pending. -/
def blocked (p : Pump) : Bool :=
  match p.pc with
  | .trySend _ _ .waiting => true
  | _ => false

def anyBlocked (j : Job) : Bool := blocked (j.pump .stdout) || blocked (j.pump .stderr)

/-- A pump waits for the window of a job that is cancelled. -/
def stuck (j : Job) : Bool := j.handle.cancellationToken && j.anyBlocked

/-- The token is cancelled only while no pump waits, and a pump finds the window
full only while the token is clear. -/
def releases (j : Job) (e : Event) : Bool :=
  !(j.cancels e && j.anyBlocked) &&
    match e with
    | .pump o .step =>
      match (j.pump o).pc with
      | .trySend _ f (.loadWindow inFlight) =>
        StreamPump.guard inFlight (dataLen f) j.window.sendWindow ||
          !j.handle.cancellationToken
      | _ => true
    | _ => true

theorem anyBlocked_iff {j : Job} : j.anyBlocked = true ↔ ∃ o, blocked (j.pump o) = true := by
  unfold anyBlocked
  rw [Bool.or_eq_true]
  constructor
  · intro h
    rcases h with h | h
    · exact ⟨.stdout, h⟩
    · exact ⟨.stderr, h⟩
  · rintro ⟨o, h⟩
    cases o
    · exact .inl h
    · exact .inr h

/-- A pump waits after a step exactly if its test has failed in it. -/
theorem blocked_pump {jobId : UInt32} {streamId : StreamId} {token : Bool}
    {w w' : StreamPump} {p p' : Pump} {e : PumpEvent} {fs : List Frame}
    (hdrop : w.dropPolicy = false)
    (h : p.step jobId streamId token w e = some (w', p', fs)) :
    blocked p' = true ↔ ∃ last f inFlight, e = .step ∧
      p.pc = .trySend last f (.loadWindow inFlight) ∧
      StreamPump.guard inFlight (dataLen f) w.sendWindow = false := by
  constructor
  · intro hb
    cases Pump.step_move h with
    | block last f inFlight hpc =>
      refine ⟨last, f, inFlight, rfl, hpc, ?_⟩
      cases hg : StreamPump.guard inFlight (dataLen f) w.sendWindow with
      | false => rfl
      | true => simp [Pump.step, hpc, hg] at h
    | read r p' hpc hm => cases hm <;> cases hb
    | drop last f inFlight hpc hd | send last f hpc => cases last <;> cases hb
    | cancelled hpc ht | goOn hpc ht | load last f hpc | pass last f inFlight hpc hg
    | reserve last f hpc | refused last f hpc | notified last f hpc => cases hb
  · rintro ⟨last, f, inFlight, rfl, hpc, hg⟩
    simp only [Pump.step, hpc, hg, hdrop, Bool.false_eq_true, if_false, Option.some.injEq,
      Prod.mk.injEq] at h
    rw [← h.2.1]
    rfl

/-- A pump that waits takes no step. -/
theorem blocked_no_step {j : Job} {o : Out} {e : PumpEvent}
    (hb : blocked (j.pump o) = true) : j.step (.pump o e) = none := by
  unfold blocked at hb
  split at hb
  · rename_i last f hpc
    cases e <;> simp [step, act, readPipe, Pump.step, hpc]
  · cases hb

/-- A step that cancels the token leaves it cancelled. -/
theorem token_of_cancels {j j' : Job} {e : Event} (hc : j.cancels e = true)
    (h : j.step e = some j') : j'.handle.cancellationToken = true := by
  cases e with
  | call i e =>
    obtain ⟨c, a, registered, c', hget, hs, rfl⟩ := step_call h
    have hcall : c.cancels = true := by simpa [cancels, hget] using hc
    rw [settle_token]
    show a.cancellationToken = true
    unfold Call.cancels at hcall
    split at hcall
    · cases e <;> simp [Call.step, CancelPc.step] at hs
      rw [← hs.1]
      rfl
    · cases e <;> simp [Call.step, IdlePc.step, SweepPc.step, CleanupPc.step] at hs
      rw [← hs.1]
      rfl
    · cases e <;> simp [Call.step, SweepPc.step, CleanupPc.step] at hs
      rw [← hs.1]
      rfl
    · cases hcall
  | monitor e =>
    obtain ⟨a, pc, hs, hm, rfl⟩ := step_monitor h
    have hpc : j.monitor = .cancelToken := by simpa [cancels] using hc
    rw [settle_token]
    show a.cancellationToken = true
    rw [hpc] at hm
    cases e <;> simp [MonitorPc.step] at hm
    rw [← hm.1]
    rfl
  | _ => cases hc

/-- Under a cancelled token, what is asked of a pump is that it does not find the
window full. -/
theorem releases_pump {j : Job} {o : Out} {e : PumpEvent} :
    j.releases (.pump o e) = true ↔ j.handle.cancellationToken = false ∨
      ¬ ∃ last f inFlight, e = .step ∧
        (j.pump o).pc = .trySend last f (.loadWindow inFlight) ∧
        StreamPump.guard inFlight (dataLen f) j.window.sendWindow = false := by
  unfold releases
  simp only [cancels, Bool.false_and, Bool.not_false, Bool.true_and]
  split
  · rename_i o' heq
    cases heq
    split
    · rename_i last f inFlight hpc
      rw [Bool.or_eq_true, Bool.not_eq_true', Or.comm]
      refine or_congr_right ?_
      constructor
      · rintro hg ⟨last', f', inFlight', -, hpc', hg'⟩
        rw [hpc] at hpc'
        cases hpc'
        rw [hg] at hg'
        cases hg'
      · intro hnot
        rw [← Bool.not_eq_false]
        intro hg
        exact hnot ⟨last, f, inFlight, rfl, hpc, hg⟩
    · rename_i hpc
      refine iff_of_true rfl (.inr ?_)
      rintro ⟨last, f, inFlight, -, hpc', -⟩
      exact hpc last f inFlight hpc'
  · rename_i heq
    refine iff_of_true rfl (.inr ?_)
    rintro ⟨last, f, inFlight, rfl, -, -⟩
    exact heq o rfl

theorem stuck_pump {j j' : Job} {o : Out} {e : PumpEvent} (hsp : j.Speaking)
    (hs : j.stuck = false) (h : j.step (.pump o e) = some j') :
    j'.stuck = false ↔ j.releases (.pump o e) = true := by
  have hother := step_other h
  obtain ⟨p, w, q, fs, -, hstep, rfl⟩ := step_pump h
  have hq := blocked_pump hsp.window hstep
  have hself : (settle { j with
      window := w, pump := Function.update j.pump o q
      pipe := Function.update j.pipe o p, sent := j.sent ++ fs
      refused := j.refused ++ refuses (j.pump o) e }).pump o = q := by
    rw [settle_pump]
    exact Function.update_self ..
  rw [releases_pump, ← hq]
  unfold stuck at hs ⊢
  rw [settle_token]
  cases htoken : j.handle.cancellationToken with
  | false => exact iff_of_true rfl (.inl rfl)
  | true =>
    -- nobody waits yet, so only this pump can be the one that does
    rw [htoken, Bool.true_and] at hs
    rw [Bool.true_and, ← Bool.not_eq_true, anyBlocked_iff]
    constructor
    · intro hnot
      right
      intro hb
      exact hnot ⟨o, by rw [hself]; exact hb⟩
    · rintro (hfalse | hnot) ⟨o', hb⟩
      · cases hfalse
      · rcases Out.eq_or_eq_other o o' with rfl | rfl
        · rw [hself] at hb
          exact hnot hb
        · rw [hother] at hb
          rw [anyBlocked_iff.mpr ⟨o.other, hb⟩] at hs
          cases hs

theorem stuck_step {j j' : Job} {e : Event} (hst : j.Staged) (hsp : j.Speaking)
    (hs : j.stuck = false) (h : j.step e = some j') :
    j'.stuck = false ↔ j.releases e = true := by
  rcases e.pump_or_ne with ⟨o, e', rfl⟩ | hne
  · exact stuck_pump hsp hs h
  · obtain ⟨-, -, hpumps⟩ := step_pumps hst h hne
    have hsame : j'.anyBlocked = j.anyBlocked := by
      have hblocked : ∀ o, blocked (j'.pump o) = blocked (j.pump o) := by
        intro o
        unfold blocked
        rcases hpumps o with hpc | ⟨hpc, hpc'⟩
        · rw [hpc]
        · rw [hpc, hpc']
      unfold anyBlocked
      rw [hblocked, hblocked]
    have hreleases : j.releases e = !(j.cancels e && j.anyBlocked) := by
      cases e with
      | pump o e => exact absurd rfl (hne o e)
      | _ => exact Bool.and_true _
    unfold stuck at hs ⊢
    rw [hreleases, hsame]
    cases hany : j.anyBlocked with
    | false => simp
    | true =>
      rw [hany, Bool.and_true] at hs
      rw [Bool.and_true, Bool.and_true, Bool.not_eq_true']
      cases hc : j.cancels e with
      | true =>
        rw [token_of_cancels hc h]
      | false =>
        rw [eq_self_iff_true, iff_true]
        rcases step_token h with htoken | hcancels | ⟨-, hrun⟩
        · rw [htoken, hs]
        · rw [hc] at hcancels
          cases hcancels
        · -- a job that was never launched has no pumps
          have hnone := hst.unlaunched (by rw [hrun]; rfl)
          obtain ⟨o, hb⟩ := anyBlocked_iff.mp hany
          rw [hst.pumps o (.inr hnone)] at hb
          cases hb

/-- In no state of a run does a pump wait for the window under a cancelled token,
exactly if in every step of the run the token is cancelled only while no pump
waits, and a pump finds the window full only while the token is clear. -/
theorem released_iff {j₀ j : Job} {es : List Event} (h0 : Initial j₀)
    (hp : machine.Path StepMachine.Any j₀ es j) :
    (∀ u ∈ machine.states j₀ es, u.stuck = false) ↔
      machine.Path (fun j e => j.releases e = true) j₀ es j := by
  have hstep : ∀ u e v, machine.Reachable u → u.stuck = false → machine.step u e = some v →
      (v.stuck = false ↔ u.releases e = true) := by
    intro u e v hr hu h
    exact stuck_step (staged_reachable hr) (speaking_reachable hr) hu h
  refine hp.forall_states_iff_path (I := fun j => machine.Reachable j ∧ j.stuck = false)
    (fun _ hu => hu.2) ?_ ?_ ⟨⟨j₀, [], h0, .nil j₀⟩, ?_⟩
  · intro u e v hu hd h
    exact ⟨hu.1.step trivial h, (hstep u e v hu.1 hu.2 h).mpr hd⟩
  · intro u e v hu h hbreak hv
    exact hbreak ((hstep u e v hu.1 hu.2 h).mp hv)
  · obtain ⟨jobId, timeout, now, last, rfl⟩ := h0
    rfl

theorem released_iff_cancelled :
    ∃ j, machine.Path StepMachine.Any (create 1 none 0 0) (launchEvents 0 ++ cancelEvents 0)
        j ∧ j.handle.cancellationToken = true ∧
      ∀ u ∈ machine.states (create 1 none 0 0) (launchEvents 0 ++ cancelEvents 0),
        u.stuck = false := by
  have hrun : (machine.runIf (fun j e => j.releases e = true) (create 1 none 0 0)
      (launchEvents 0 ++ cancelEvents 0)).any
      (fun j => j.handle.cancellationToken) = true := by
    decide +kernel
  obtain ⟨j, hj, htoken⟩ := (Option.any_eq_true _ _).mp hrun
  have hall := StepMachine.path_of_runIf hj
  have hpath := hall.mono (D := StepMachine.Any) fun _ _ _ => trivial
  exact ⟨j, hpath, htoken, (released_iff ⟨1, none, 0, 0, rfl⟩ hpath).mpr hall⟩

/-- A call of `cancel_job` up to the cancellation of the token. -/
theorem run_cancelToken {j : Job} (hreg : j.registered = true) (hcalls : j.calls = [])
    (hstate : j.handle.state = .running) :
    machine.run j [.begin .cancelJob, .call 0 (.step 0), .call 0 (.step 0),
        .call 0 (.step 0)] =
      some { j with
        handle := j.handle.cancel, calls := [.cancelJob (.toCanceled .getJob)] } := by
  have hterminal : j.handle.state.isTerminal = false := by
    rw [hstate]
    rfl
  simp [machine, StepMachine.run, step, act, settle_of_registered, hreg, hcalls, Op.begin,
    Call.step, CancelPc.step, hterminal]

/-- Two payloads of full size fill the window. -/
theorem exists_full_window :
    ∃ j, machine.Reachable j ∧ j.Ready .stdout ∧ j.window = ⟨65536, 65536, false⟩ ∧
      j.calls = [] ∧ j.handle.state = .running := by
  obtain ⟨j, hr, hready, hwindow, hcalls, hstate⟩ := exists_ready
  have hle : fullPayload.length ≤ maxPayloadSize := Nat.le_of_eq length_fullPayload
  have hfirst := (hready .stdout).run_delivered fullPayload fullPayload_ne_nil hle
    (by rw [hwindow, length_fullPayload]; decide)
  have hready₁ := (hready .stdout).delivered (o := .stdout) fullPayload
  have hwindow₁ : (j.delivered .stdout fullPayload).window = ⟨65536, 32768, false⟩ := by
    show (⟨_, j.window.bytesInFlight + UInt64.ofNat fullPayload.length, _⟩ : StreamPump) = _
    rw [hwindow, length_fullPayload]
    rfl
  have hr₁ := hr.path (StepMachine.path_of_run hfirst)
  have hsecond := hready₁.run_delivered fullPayload fullPayload_ne_nil hle
    (by rw [hwindow₁, length_fullPayload]; decide)
  refine ⟨_, hr₁.path (StepMachine.path_of_run hsecond), hready₁.delivered fullPayload, ?_,
    hcalls, hstate⟩
  show (⟨_, (j.delivered .stdout fullPayload).window.bytesInFlight +
    UInt64.ofNat fullPayload.length, _⟩ : StreamPump) = _
  rw [hwindow₁, length_fullPayload]
  rfl

/-- A pump waits in front of the full window with the next byte, `cancel_job`
cancels the token, and the pump takes no step any more. -/
theorem waits_under_cancelled_token :
    ∃ j, machine.Reachable j ∧ j.stuck = true ∧ ∀ e, j.step (.pump .stdout e) = none := by
  obtain ⟨j, hr, hready, hwindow, hcalls, hstate⟩ := exists_full_window
  have hoffer := hready.run_offering [0] (by simp) (by decide)
  rw [if_neg (by rw [hwindow]; decide)] at hoffer
  have hcancel := run_cancelToken (j := j.offering .stdout [0] .waiting)
    hready.registered hcalls hstate
  refine ⟨_, (hr.path (StepMachine.path_of_run hoffer)).path
    (StepMachine.path_of_run hcancel), ?_, ?_⟩
  · simp [stuck, anyBlocked, blocked, offering, JobHandle.cancel]
  · intro e
    apply blocked_no_step
    simp [blocked, offering]

end RemoteAgent.Job
