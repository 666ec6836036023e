import RemoteAgent.Job.Drain

/-!
# Output that is sent is output that was written

`Drain` says when a stream is carried over completely.  This module says what holds of
every run, also of one in which the token is cancelled at any moment, reads fail and the
channel is closed: what a job has sent on a stream is the beginning of what its process has
written to it.

A pump that stops may have a chunk in its hands that is not sent any more.  `Forwarding`
has that chunk between what is sent and what was read, and `pump_carries` is the step of
the pump.
-/

namespace RemoteAgent.Job

open CodeLib Protocol IoPump
open JobManager (SystemTime Duration HANDLE JobState JobHandle)

/-- What the pump has read is sent or pending, but for what it lost when it returned. -/
def Forwarding (j : Job) (o : Out) : Prop :=
  ∃ lost, payloads o j.sent ++ pending (j.pump o) ++ lost = (j.pipe o).consumed ∧
    (hasReturned (j.pump o) = false → lost = [])

/-- A step of the pump takes bytes out of the pipe and puts bytes into frames, and loses some
only if it returns. -/
theorem pump_carries {jobId : UInt32} {o : Out} {token : Bool} {w w' : StreamPump}
    {pump q : Pump} {pipe p : Pipe} {e : PumpEvent} {fs : List Frame}
    (hframe : ∀ last f pc, pump.pc = .trySend last f pc → OfStream jobId o.streamId f)
    (hend : ∀ f pc, pump.pc = .trySend true f pc → f.payload = [])
    (hdrop : w.dropPolicy = false) (hp : readPipe pipe e = some p)
    (hs : pump.step jobId o.streamId token w e = some (w', q, fs)) :
    ∃ got lost, p.consumed = pipe.consumed ++ got ∧
      pending pump ++ got = payloads o fs ++ pending q ++ lost ∧
      (hasReturned q = false → lost = []) := by
  cases Pump.step_move hs with
  | read r q hpc hm =>
    have hpump : pending pump = [] := by simp [pending, hpc]
    refine ⟨bytesOf r, if hasReturned q then bytesOf r else [], (Pipe.readFile_spec hp).1, ?_, ?_⟩
    · rw [hpump]
      cases hret : hasReturned q with
      | true =>
        have hq : pending q = [] := by
          unfold hasReturned at hret
          unfold pending
          split at hret
          · rename_i hq
            rw [hq]
          · cases hret
        rw [hq]
        rfl
      | false =>
        rw [pending_read hp hm hret]
        simp [payloads, stream]
    · intro hret
      rw [hret]
      rfl
  | send last f hpc =>
    cases hp
    refine ⟨[], [], (List.append_nil _).symm, ?_, fun _ => rfl⟩
    rw [payloads_singleton (hframe last f _ hpc)]
    cases last with
    | true => simp [pending, hpc, Pump.afterSend, hend f _ hpc]
    | false => simp [pending, hpc, Pump.afterSend]
  | refused last f hpc =>
    cases hp
    exact ⟨[], pending pump, (List.append_nil _).symm, by simp [payloads, stream, pending],
      fun hret => by cases hret⟩
  | drop last f inFlight hpc hd =>
    rw [hdrop] at hd
    cases hd
  | notified last f hpc => cases hp
  | cancelled hpc ht | goOn hpc ht =>
    cases hp
    exact ⟨[], [], (List.append_nil _).symm,
      by simp [payloads, stream, pending, Pump.finish, hpc], fun _ => rfl⟩
  | load last f hpc | pass last f inFlight hpc hg | block last f inFlight hpc
  | reserve last f hpc =>
    cases hp
    refine ⟨[], [], (List.append_nil _).symm, ?_, fun _ => rfl⟩
    cases last <;> simp [payloads, stream, pending, hpc]

/-- The frame that ends a stream carries nothing. -/
theorem payload_of_last {jobId : UInt32} {streamId : StreamId} {p : Pump} {fs : List Frame}
    {f : Frame} {pc : SendPc} (h : p.At jobId streamId fs) (hpc : p.pc = .trySend true f pc) :
    f.payload = [] := by
  unfold Pump.At at h
  rw [hpc] at h
  rw [h.1]
  rfl

/-- The same for the pump of a job. -/
theorem Forwarding.pump {j : Job} {o : Out} {e : PumpEvent} {p : Pipe} {w : StreamPump}
    {q : Pump} {fs : List Frame} (hsp : j.Speaking) (hj : j.Forwarding o)
    (hp : readPipe (j.pipe o) e = some p)
    (hs : (j.pump o).step j.handle.jobId o.streamId j.handle.cancellationToken j.window e =
      some (w, q, fs)) :
    ∃ lost, payloads o (j.sent ++ fs) ++ pending q ++ lost = p.consumed ∧
      (hasReturned q = false → lost = []) := by
  obtain ⟨lost₀, hsent, hlost₀⟩ := hj
  have hat := (hsp.pumps o).at_pc
  obtain ⟨got, lost, hgot, hcarried, hlost⟩ := pump_carries
    (fun last f pc hpc => (hat.frame hpc).1) (fun f pc hpc => payload_of_last hat hpc)
    hsp.window hp hs
  have hrunning : hasReturned (j.pump o) = false := by
    cases Pump.step_move hs <;> simp [hasReturned, *]
  rw [hlost₀ hrunning, List.append_nil] at hsent
  refine ⟨lost, ?_, hlost⟩
  calc payloads o (j.sent ++ fs) ++ pending q ++ lost
      = payloads o j.sent ++ (payloads o fs ++ pending q ++ lost) := by
        simp only [payloads_append, List.append_assoc]
    _ = payloads o j.sent ++ (pending (j.pump o) ++ got) := by rw [hcarried]
    _ = p.consumed := by rw [← List.append_assoc, hsent, hgot]

/-- A step that is not one of the stream's pump. -/
theorem Forwarding.of_same {j j' : Job} {o : Out} (hj : j.Forwarding o)
    (hsent : payloads o j'.sent = payloads o j.sent)
    (hpending : pending (j'.pump o) = pending (j.pump o))
    (hret : hasReturned (j'.pump o) = hasReturned (j.pump o))
    (hconsumed : (j'.pipe o).consumed = (j.pipe o).consumed) : j'.Forwarding o := by
  obtain ⟨lost, hall, hlost⟩ := hj
  exact ⟨lost, by rw [hsent, hpending, hconsumed]; exact hall, by rw [hret]; exact hlost⟩

theorem Forwarding.step {j j' : Job} {e : Event} {o : Out} (hst : j.Staged) (hsp : j.Speaking)
    (hj : j.Forwarding o) (h : j.step e = some j') : j'.Forwarding o := by
  obtain ⟨fs, hsends, hsent⟩ := step_sends h
  have hsame : e ≠ .pump o .sent → payloads o j'.sent = payloads o j.sent := by
    intro hne
    rw [hsent, payloads_append, payloads_of_sends hsp hsends hne, List.append_nil]
  cases e with
  | run e =>
    have hpayloads := hsame (by simp)
    obtain ⟨a, pc, eff, hs, rfl⟩ := step_run h
    have hpipe := effect_pipe { j with handle := a, run := pc } eff
    by_cases hspawn : eff = .spawnPump o
    · have hfresh := hst.pumps o (.inl ((RunPc.step_follows hs).spawnPump o hspawn))
      refine hj.of_same hpayloads ?_ ?_ (by rw [settle_pipe, hpipe])
      · rw [settle_pump, hspawn, hfresh]
        simp [effect, pending, Pump.fresh]
      · rw [settle_pump, hspawn, hfresh]
        simp [effect, hasReturned, Pump.fresh]
    · have hpump : (settle (effect { j with handle := a, run := pc } eff)).pump o =
          j.pump o := by rw [settle_pump, effect_pump _ hspawn]
      exact hj.of_same hpayloads (by rw [hpump]) (by rw [hpump]) (by rw [settle_pipe, hpipe])
  | pump o' e =>
    by_cases heq : o = o'
    · subst heq
      obtain ⟨p, w, q, fs', hp, hs, rfl⟩ := step_pump h
      unfold Forwarding
      simp only [settle_pump, settle_pipe, settle_sent, Function.update_self]
      exact hj.pump hsp hp hs
    · have hpayloads := hsame fun hpump => heq (Event.pump.inj hpump).1.symm
      obtain ⟨p, w, q, fs', hp, hs, rfl⟩ := step_pump h
      refine hj.of_same hpayloads ?_ ?_ ?_ <;>
        simp only [settle_pump, settle_pipe, Function.update_of_ne heq]
  | os e =>
    have hpump := (step_frame h (by simp)).pump (by simp)
    refine hj.of_same (hsame (by simp)) (by rw [hpump]) (by rw [hpump]) ?_
    rcases step_os h with ⟨o', data, p, -, -, hw, rfl⟩ | ⟨o', -, rfl⟩ | ⟨code, p, -, -, rfl⟩ |
      ⟨now, -, rfl⟩ <;> rw [settle_pipe]
    · show (Function.update j.pipe o' p o).consumed = _
      by_cases heq : o = o'
      · subst heq
        rw [Function.update_self]
        exact (Pipe.write_spec hw).1
      · rw [Function.update_of_ne heq]
    · show (Function.update j.pipe o' _ o).consumed = _
      by_cases heq : o = o'
      · subst heq
        rw [Function.update_self]
      · rw [Function.update_of_ne heq]
  | _ =>
    have hf := step_frame h (by simp)
    have hpump := hf.pump (by simp)
    exact hj.of_same (hsame (by simp)) (by rw [hpump]) (by rw [hpump])
      (by rw [hf.pipe (by simp) (by simp)])

theorem forwarding_reachable {C : Job → Event → Prop} {j : Job} (h : machine.Reach C j)
    (o : Out) : j.Forwarding o := by
  refine h.invariant_of (J := fun j => j.Staged ∧ j.Speaking) (I := fun j => j.Forwarding o)
    (fun _ hr => ⟨staged_reachable hr, speaking_reachable hr⟩) ?_ ?_
  · rintro _ ⟨jobId, timeout, now, last, rfl⟩
    exact ⟨[], rfl, fun _ => rfl⟩
  · intro s e u hJ hs _ hstep
    exact hs.step hJ.1 hJ.2 hstep

/-- In every run of a job, what it has sent on a stream is the beginning of what was written
to the stream. -/
theorem payloads_prefix_written {C : Job → Event → Prop} {j : Job} (h : machine.Reach C j)
    (o : Out) : payloads o j.sent <+: (j.pipe o).written := by
  obtain ⟨lost, hall, -⟩ := forwarding_reachable h o
  unfold Pipe.written
  rw [← hall, List.append_assoc, List.append_assoc]
  exact List.prefix_append _ _

end RemoteAgent.Job
