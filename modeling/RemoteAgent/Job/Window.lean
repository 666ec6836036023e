import RemoteAgent.CodeLib.CheckThenAdd
import RemoteAgent.Job.Drain

/-!
# The window of a job

Both pumps of a job send through one `StreamPump`.  Its counter of bytes in
flight goes up with every frame and comes down only in `update_window`, which
nobody calls.

* `Metered` is the invariant: the window has its initial size, the counter is
  the number of bytes that have passed it, and it stays within the window and
  one more payload, since `try_send_frame` tests the counter and adds to it in
  two steps (`CodeLib.CheckThenAdd`).
* `canSend_iff`: the pumps can send any next frame exactly as long as the job
  has offered no more than 32768 bytes in its life.
-/

namespace RemoteAgent.Job

open CodeLib Protocol IoPump
open JobManager (SystemTime Duration HANDLE JobState JobHandle)

/-! ## What passes the window -/

/-- The payload bytes of the OUTPUT frames. -/
def outputBytes (fs : List Frame) : Nat :=
  ((fs.filter fun f => f.frameType = .output).map fun f => f.payload.length).sum

/-- The bytes of a frame that has passed the window and waits for the channel. -/
def inSend (p : Pump) : Nat :=
  match p.pc with
  | .trySend _ f .send => f.payload.length
  | _ => 0

/-- The bytes that have passed the window: those of the frames that the channel
has accepted or refused, and of the frames that wait for it. -/
def offered (j : Job) : Nat :=
  outputBytes j.sent + outputBytes j.refused + inSend (j.pump .stdout) +
    inSend (j.pump .stderr)

/-- A pump as a party to the counter. -/
def party (p : Pump) : CheckThenAdd.Party :=
  match p.pc with
  | .trySend _ _ (.loadWindow inFlight) => ⟨0, some inFlight.toNat⟩
  | .trySend _ f .fetchAdd => ⟨f.payload.length, none⟩
  | _ => .idle

theorem outputBytes_append (fs gs : List Frame) :
    outputBytes (fs ++ gs) = outputBytes fs + outputBytes gs := by
  unfold outputBytes
  rw [List.filter_append, List.map_append, List.sum_append]

theorem outputBytes_singleton {f : Frame} (h : f.frameType = .output) :
    outputBytes [f] = f.payload.length := by
  simp [outputBytes, h]

theorem outputBytes_eq_zero {f : Frame} (h : f.frameType ≠ .output) :
    outputBytes [f] = 0 := by
  simp [outputBytes, h]

/-- The counter of the window against the pumps. -/
structure Metered (j : Job) : Prop where
  window : j.window.sendWindow = 65536
  sized : ∀ o last f pc, (j.pump o).pc = .trySend last f pc →
    f.payload.length ≤ maxPayloadSize
  within : CheckThenAdd.Within 65536 maxPayloadSize j.window.bytesInFlight.toNat
    (party (j.pump .stdout)) (party (j.pump .stderr))
  count : j.window.bytesInFlight.toNat = j.offered

theorem metered_create (jobId : UInt32) (timeout : Option Duration)
    (now last : SystemTime) : (create jobId timeout now last).Metered where
  window := rfl
  sized := fun o last f pc h => by cases h
  within := CheckThenAdd.within_idle (Nat.zero_le _)
  count := rfl

/-! ## One step of a pump -/

section pump

variable {jobId : UInt32} {streamId : StreamId} {token : Bool} {w w' : StreamPump}
  {p p' : Pump} {e : PumpEvent} {sent fs : List Frame} {q : CheckThenAdd.Party}

/-- The guard of `try_send_frame` in numbers, when the sum does not wrap. -/
theorem guard_iff {inFlight window : UInt64} {n : Nat}
    (hle : inFlight.toNat + n < 2 ^ 64) :
    StreamPump.guard inFlight (UInt64.ofNat n) window = true ↔
      inFlight.toNat + n ≤ window.toNat := by
  unfold StreamPump.guard
  rw [decide_eq_true_eq, UInt64.le_iff_toNat_le, UInt64.toNat_add, UInt64.toNat_ofNat']
  have hmod : n % 2 ^ 64 = n := Nat.mod_eq_of_lt (by omega)
  rw [hmod, Nat.mod_eq_of_lt hle]

/-- The counter does not wrap when an amount that has passed the test is added. -/
theorem toNat_reserve {last : Bool} {f : Frame} (hpc : p.pc = .trySend last f .fetchAdd)
    (hwithin : CheckThenAdd.Within 65536 maxPayloadSize w.bytesInFlight.toNat (party p) q) :
    (w.bytesInFlight + dataLen f).toNat = w.bytesInFlight.toNat + f.payload.length := by
  have hmax : maxPayloadSize = 32768 := rfl
  have hclaim : (party p).claim = f.payload.length := by simp [party, hpc]
  have hbound := hwithin.bound
  rw [hclaim] at hbound
  rw [UInt64.toNat_add, dataLen, UInt64.toNat_ofNat']
  omega

/-- A step of a pump is an action on the counter, and the counter does not
wrap. -/
theorem pump_act (h : p.step jobId streamId token w e = some (w', p', fs))
    (hwindow : w.sendWindow = 65536)
    (hsized : ∀ last f pc, p.pc = .trySend last f pc → f.payload.length ≤ maxPayloadSize)
    (hwithin : CheckThenAdd.Within 65536 maxPayloadSize w.bytesInFlight.toNat (party p) q) :
    CheckThenAdd.Act 65536 maxPayloadSize w.bytesInFlight.toNat (party p)
      w'.bytesInFlight.toNat (party p') := by
  have hmax : maxPayloadSize = 32768 := rfl
  cases Pump.step_move h with
  | load last f hpc => exact .load
  | pass last f inFlight hpc hg =>
    have hloaded : (party p).loaded = some inFlight.toNat := by simp [party, hpc]
    have hn : f.payload.length ≤ maxPayloadSize := hsized last f _ hpc
    have hle := hwithin.loaded_le hloaded
    refine .pass inFlight.toNat f.payload.length hloaded hn ?_
    rw [hwindow, dataLen, guard_iff (by omega)] at hg
    exact hg
  | reserve last f hpc =>
    have hclaim : (party p).claim = f.payload.length := by simp [party, hpc]
    show CheckThenAdd.Act _ _ _ _ (w.bytesInFlight + dataLen f).toNat _
    rw [toNat_reserve hpc hwithin, ← hclaim]
    exact .add
  | read r p' hpc hm => cases hm <;> exact .idle
  | drop last f inFlight hpc hd | send last f hpc => cases last <;> exact .idle
  | cancelled hpc ht | goOn hpc ht | block last f inFlight hpc | refused last f hpc
  | notified last f hpc => exact .idle

/-- What passes the window in a step is what the counter goes up by. -/
theorem pump_count (h : p.step jobId streamId token w e = some (w', p', fs))
    (hsound : p.At jobId streamId sent) (hdrop : w.dropPolicy = false)
    (hwithin : CheckThenAdd.Within 65536 maxPayloadSize w.bytesInFlight.toNat (party p) q) :
    w'.bytesInFlight.toNat + inSend p = w.bytesInFlight.toNat + outputBytes fs +
      outputBytes (refuses p e) + inSend p' := by
  cases Pump.step_move h with
  | reserve last f hpc =>
    show (w.bytesInFlight + dataLen f).toNat + inSend p = _
    rw [toNat_reserve hpc hwithin]
    simp [inSend, refuses, outputBytes, hpc]
  | send last f hpc =>
    rw [outputBytes_singleton (hsound.frame hpc).1.1]
    cases last <;> simp [inSend, refuses, outputBytes, hpc, Pump.afterSend]
  | refused last f hpc =>
    have hrefuses : refuses p .closed = [f] := by simp [refuses, hpc]
    rw [hrefuses, outputBytes_singleton (hsound.frame hpc).1.1]
    simp [inSend, outputBytes, hpc]
  | drop last f inFlight hpc hd =>
    rw [hdrop] at hd
    cases hd
  | read r p' hpc hm => cases hm <;> simp [inSend, refuses, outputBytes, hpc, Pump.finish]
  | cancelled hpc ht | goOn hpc ht | load last f hpc | pass last f inFlight hpc hg
  | block last f inFlight hpc | notified last f hpc =>
    simp [inSend, refuses, outputBytes, hpc, Pump.finish]

/-- The frames in hand fit the limit on payloads, since reads do. -/
theorem pump_sized {pipe pipe' : Pipe}
    (h : p.step jobId streamId token w e = some (w', p', fs))
    (hp : readPipe pipe e = some pipe')
    (hsized : ∀ last f pc, p.pc = .trySend last f pc → f.payload.length ≤ maxPayloadSize)
    {last : Bool} {f : Frame} {pc : SendPc} (hpc' : p'.pc = .trySend last f pc) :
    f.payload.length ≤ maxPayloadSize := by
  cases Pump.step_move h with
  | read r p' hpc hm =>
    obtain ⟨-, hlen, -⟩ := Pipe.readFile_spec hp
    cases hm with
    | data r data hne hdata =>
      cases hpc'
      rcases hdata with rfl | ⟨code, rfl, -⟩ <;> exact hlen
    | eof r heof =>
      cases hpc'
      exact Nat.zero_le _
    | _ => cases hpc'
  | cancelled hpc ht =>
    cases hpc'
    exact Nat.zero_le _
  | goOn hpc ht => cases hpc'
  | load last f hpc | pass last f inFlight hpc hg | block last f inFlight hpc
  | reserve last f hpc | notified last f hpc =>
    cases hpc'
    exact hsized _ _ _ hpc
  | drop last f inFlight hpc hd | send last f hpc => cases last <;> cases hpc'
  | refused last f hpc => cases hpc'

end pump

/-! ## The invariant -/

theorem Metered.congr {j j' : Job} (hj : j.Metered) (hwindow : j'.window = j.window)
    (hrefused : j'.refused = j.refused) (hsent : outputBytes j'.sent = outputBytes j.sent)
    (hpump : ∀ o, (j'.pump o).pc = (j.pump o).pc ∨
      (j.pump o).pc = .notSpawned ∧ (j'.pump o).pc = .checkToken) : j'.Metered := by
  have hparty : ∀ o, party (j'.pump o) = party (j.pump o) := by
    intro o
    unfold party
    rcases hpump o with h | ⟨h, h'⟩
    · rw [h]
    · rw [h, h']
  have hinSend : ∀ o, inSend (j'.pump o) = inSend (j.pump o) := by
    intro o
    unfold inSend
    rcases hpump o with h | ⟨h, h'⟩
    · rw [h]
    · rw [h, h']
  refine ⟨?_, ?_, ?_, ?_⟩
  · rw [hwindow]
    exact hj.window
  · intro o last f pc hpc
    rcases hpump o with h | ⟨-, h'⟩
    · rw [h] at hpc
      exact hj.sized o last f pc hpc
    · rw [h'] at hpc
      cases hpc
  · rw [hwindow, hparty, hparty]
    exact hj.within
  · rw [hwindow, hj.count]
    unfold offered
    rw [hsent, hrefused, hinSend, hinSend]

/-- A frame that another task than a pump sends does not count. -/
theorem outputBytes_of_sends {j : Job} {e : Event} {fs : List Frame} (h : Sends j e fs)
    (hne : ∀ o e', e ≠ .pump o e') : outputBytes fs = 0 := by
  cases h with
  | nothing => rfl
  | runAck hpc | error msg hpc | exit code hpc => exact outputBytes_eq_zero (by simp)
  | output o last f hpc => exact absurd rfl (hne o .sent)

theorem Metered.pump {j j' : Job} {o : Out} {e : PumpEvent} (hsp : j.Speaking)
    (hj : j.Metered) (h : j.step (.pump o e) = some j') : j'.Metered := by
  obtain ⟨p, w, q, fs, hp, hs, rfl⟩ := step_pump h
  have hat := (hsp.pumps o).at_pc
  have hwindow : w.sendWindow = 65536 := (Pump.step_sendWindow hs).trans hj.window
  have hsized : ∀ o' last f pc, (Function.update j.pump o q o').pc = .trySend last f pc →
      f.payload.length ≤ maxPayloadSize := by
    intro o' last f pc hpc
    by_cases heq : o' = o
    · subst heq
      rw [Function.update_self] at hpc
      exact pump_sized hs hp (hj.sized o') hpc
    · rw [Function.update_of_ne heq] at hpc
      exact hj.sized o' last f pc hpc
  have hcount : outputBytes (j.sent ++ fs) + outputBytes (j.refused ++ refuses (j.pump o) e) =
      outputBytes j.sent + outputBytes j.refused + outputBytes fs +
        outputBytes (refuses (j.pump o) e) := by
    rw [outputBytes_append, outputBytes_append]
    omega
  have hold : j.window.bytesInFlight.toNat = outputBytes j.sent + outputBytes j.refused +
      inSend (j.pump .stdout) + inSend (j.pump .stderr) := hj.count
  refine ⟨by simpa using hwindow, by simpa using hsized, ?_, ?_⟩
  · rw [settle_window, settle_pump]
    cases o with
    | stdout => exact hj.within.act (pump_act hs hj.window (hj.sized _) hj.within)
    | stderr =>
      have hwithin := hj.within.symm
      exact (hwithin.act (pump_act hs hj.window (hj.sized _) hwithin)).symm
  · unfold offered
    rw [settle_window, settle_pump, settle_sent, settle_refused]
    cases o with
    | stdout =>
      have hstep := pump_count hs hat hsp.window hj.within
      simp only [Function.update_self, Function.update_of_ne (by simp : Out.stderr ≠ .stdout)]
      omega
    | stderr =>
      have hstep := pump_count hs hat hsp.window hj.within.symm
      simp only [Function.update_self, Function.update_of_ne (by simp : Out.stdout ≠ .stderr)]
      omega

/-- A step of another task than a pump leaves the window alone, and at most it
spawns a pump. -/
theorem step_pumps {j j' : Job} {e : Event} (hst : j.Staged) (h : j.step e = some j')
    (hne : ∀ o e', e ≠ .pump o e') :
    j'.window = j.window ∧ j'.refused = j.refused ∧
      ∀ o, (j'.pump o).pc = (j.pump o).pc ∨
        (j.pump o).pc = .notSpawned ∧ (j'.pump o).pc = .checkToken := by
  cases e with
  | pump o e => exact absurd rfl (hne o e)
  | run e =>
    obtain ⟨a, pc, eff, hs, rfl⟩ := step_run h
    refine ⟨by simp, by simp, ?_⟩
    intro o
    rw [settle_pump]
    by_cases hspawn : eff = .spawnPump o
    · right
      rw [hst.pumps o (.inl ((RunPc.step_follows hs).spawnPump o hspawn)), hspawn]
      simp [effect, Pump.fresh]
    · left
      rw [effect_pump _ hspawn]
  | _ =>
    have hf := step_frame h (by simp)
    refine ⟨hf.window (by simp), hf.refused (by simp), ?_⟩
    intro o
    rw [hf.pump (by simp)]
    exact .inl rfl

theorem Metered.step {j j' : Job} {e : Event} (hst : j.Staged) (hsp : j.Speaking)
    (hj : j.Metered) (h : j.step e = some j') : j'.Metered := by
  rcases e.pump_or_ne with ⟨o, e', rfl⟩ | hne
  · exact hj.pump hsp h
  · obtain ⟨fs, hsends, hsent⟩ := step_sends h
    obtain ⟨hwindow, hrefused, hpumps⟩ := step_pumps hst h hne
    refine hj.congr hwindow hrefused ?_ hpumps
    rw [hsent, outputBytes_append, outputBytes_of_sends hsends hne, Nat.add_zero]

theorem metered_reachable {C : Job → Event → Prop} {j : Job} (h : machine.Reach C j) :
    j.Metered := by
  refine h.invariant_of (J := fun j => j.Staged ∧ j.Speaking)
    (fun _ hr => ⟨staged_reachable hr, speaking_reachable hr⟩) ?_ ?_
  · rintro _ ⟨jobId, timeout, now, last, rfl⟩
    exact metered_create jobId timeout now last
  · intro s e u hJ hs _ hstep
    exact Metered.step hJ.1 hJ.2 hs hstep

/-! ## Who can send -/

/-- The window of the job takes a next frame with any payload. -/
def CanSend (j : Job) : Prop :=
  ∀ len, len ≤ maxPayloadSize →
    StreamPump.guard j.window.bytesInFlight (UInt64.ofNat len) j.window.sendWindow = true

theorem Metered.canSend_iff {j : Job} (hj : j.Metered) :
    j.CanSend ↔ j.offered ≤ 32768 := by
  have hmax : maxPayloadSize = 32768 := rfl
  have hbound := hj.within.bound
  have hcount := hj.count
  have hguard : ∀ len, len ≤ maxPayloadSize →
      (StreamPump.guard j.window.bytesInFlight (UInt64.ofNat len) j.window.sendWindow = true ↔
        j.window.bytesInFlight.toNat + len ≤ 65536) := by
    intro len hlen
    rw [hj.window]
    exact guard_iff (by omega)
  constructor
  · intro h
    have hlast := (hguard maxPayloadSize (Nat.le_refl _)).mp (h _ (Nat.le_refl _))
    omega
  · intro hle len hlen
    rw [hguard len hlen]
    omega

/-! ## A chunk on its way -/

/-- A registered job keeps its handles. -/
theorem settle_of_registered {j : Job} (h : j.registered = true) : j.settle = j := by
  unfold settle held
  rw [h]
  rfl

/-- A pump at the head of its loop, with the token clear and an empty pipe. -/
structure Ready (j : Job) (o : Out) : Prop where
  registered : j.registered = true
  process : j.process.isSome = true
  token : j.handle.cancellationToken = false
  pump : (j.pump o).pc = .checkToken
  unread : (j.pipe o).unread = []
  writers : (j.pipe o).writersOpen = true
  policy : j.window.dropPolicy = false

/-- The job after its process has written a chunk, with which a pump has come to
`pc` in `try_send_frame`. -/
def offering (j : Job) (o : Out) (data : List UInt8) (pc : SendPc) : Job :=
  { j with
    pump := Function.update j.pump o ⟨(j.pump o).sequence + 1, .trySend false
      (dataFrame j.handle.jobId o.streamId (j.pump o).sequence data) pc⟩
    pipe := Function.update j.pipe o
      { j.pipe o with consumed := (j.pipe o).consumed ++ data } }

/-- The job after its process has written a chunk and a pump has sent it. -/
def delivered (j : Job) (o : Out) (data : List UInt8) : Job :=
  { j with
    window := { j.window with
      bytesInFlight := j.window.bytesInFlight + UInt64.ofNat data.length }
    pump := Function.update j.pump o ⟨(j.pump o).sequence + 1, .checkToken⟩
    pipe := Function.update j.pipe o
      { j.pipe o with consumed := (j.pipe o).consumed ++ data }
    sent := j.sent ++ [dataFrame j.handle.jobId o.streamId (j.pump o).sequence data] }

/-- A process writes a chunk, and a pump reads it and makes its test. -/
def offerEvents (o : Out) (data : List UInt8) : List Event :=
  [.os (.write o data), .pump o .step, .pump o (.readDone (.ok data)), .pump o .step,
    .pump o .step]

section chunk

variable {j : Job} {o : Out}

theorem Ready.delivered {o' : Out} (h : j.Ready o') (data : List UInt8) :
    (j.delivered o data).Ready o' := by
  by_cases heq : o' = o
  · subst heq
    exact ⟨h.registered, h.process, h.token, by simp [Job.delivered],
      by simp [Job.delivered, h.unread], by simp [Job.delivered, h.writers], h.policy⟩
  · exact ⟨h.registered, h.process, h.token, by simp [Job.delivered, heq, h.pump],
      by simp [Job.delivered, heq, h.unread], by simp [Job.delivered, heq, h.writers],
      h.policy⟩

theorem Ready.offering {o' : Out} (h : j.Ready o') (hne : o' ≠ o) (data : List UInt8)
    (pc : SendPc) : (j.offering o data pc).Ready o' :=
  ⟨h.registered, h.process, h.token, by simp [Job.offering, hne, h.pump],
    by simp [Job.offering, hne, h.unread], by simp [Job.offering, hne, h.writers],
    h.policy⟩

/-- A pump that is ready takes a chunk to its test, which it passes if the window
has room. -/
theorem Ready.run_offering (h : j.Ready o) (data : List UInt8) (hne : data ≠ [])
    (hlen : data.length ≤ maxPayloadSize) :
    machine.run j (offerEvents o data) = some (j.offering o data
      (if StreamPump.guard j.window.bytesInFlight (UInt64.ofNat data.length)
        j.window.sendWindow then .fetchAdd else .waiting)) := by
  obtain ⟨b, bs, rfl⟩ := List.exists_cons_of_ne_nil hne
  obtain ⟨hreg, hproc, htoken, hpc, hunread, hopen, hpolicy⟩ := h
  have hlen' : bs.length + 1 ≤ maxPayloadSize := hlen
  have hlength : dataLen (dataFrame j.handle.jobId o.streamId (j.pump o).sequence
      (b :: bs)) = UInt64.ofNat (b :: bs).length := rfl
  have hread : Pump.handleRead j.handle.jobId o.streamId ⟨(j.pump o).sequence, .read⟩
      (.ok (b :: bs)) = ⟨(j.pump o).sequence + 1, .trySend false
        (dataFrame j.handle.jobId o.streamId (j.pump o).sequence (b :: bs)) .loadInFlight⟩ :=
    rfl
  have hdrop : List.drop bs.length (List.map some bs) = [] := by simp
  by_cases hroom : StreamPump.guard j.window.bytesInFlight
      (UInt64.ofNat (b :: bs).length) j.window.sendWindow = true
  · rw [if_pos hroom]
    rw [← hlength] at hroom
    simp [machine, StepMachine.run, offerEvents, step, act, osStep, hproc, Pipe.write,
      hopen, hunread, settle_of_registered, hreg, readPipe, Pump.step, hpc, htoken,
      Pipe.readFile, Pipe.take, hlen', hroom, hread, refuses, hdrop, Job.offering]
  · rw [if_neg hroom]
    rw [← hlength] at hroom
    simp [machine, StepMachine.run, offerEvents, step, act, osStep, hproc, Pipe.write,
      hopen, hunread, settle_of_registered, hreg, readPipe, Pump.step, hpc, htoken,
      Pipe.readFile, Pipe.take, hlen', hroom, hread, refuses, hdrop, Job.offering, hpolicy]

/-- With room in the window, the pump carries the chunk through. -/
theorem Ready.run_delivered (h : j.Ready o) (data : List UInt8) (hne : data ≠ [])
    (hlen : data.length ≤ maxPayloadSize)
    (hroom : StreamPump.guard j.window.bytesInFlight (UInt64.ofNat data.length)
      j.window.sendWindow = true) :
    machine.run j (.os (.write o data) :: pumpEvents o (.ok data)) =
      some (j.delivered o data) := by
  have hoffer := h.run_offering data hne hlen
  rw [if_pos hroom] at hoffer
  have hsend : machine.run (j.offering o data .fetchAdd) [.pump o .step, .pump o .sent] =
      some (j.delivered o data) := by
    simp [machine, StepMachine.run, step, act, readPipe, Job.offering, Pump.step, refuses,
      settle_of_registered, h.registered, Pump.afterSend, Job.delivered, dataLen,
      dataFrame, Frame.withPayload]
  exact ((StepMachine.path_of_run hoffer).append (StepMachine.path_of_run hsend)).run_eq

end chunk

end RemoteAgent.Job
