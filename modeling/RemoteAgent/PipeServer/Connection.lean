import RemoteAgent.PipeServer.Framing

/-!
# What a connection makes of the client's bytes

`handle_client` from its first byte on.  The handshake reads one frame and
answers it.  When the answer is HELLO_ACK and is written, the session starts, and
its request loop reads the frames that follow from the same pipe.

* `requests` are the frames that a client asks the session to act on: the records
  of a byte stream up to the first that is GOODBYE, too long, incomplete, or not a
  frame.
* `Connection` runs the session with the results of `read_frame` taken from the
  pipe.  `failedRun` remembers that `handle_run` has returned an error.
* `Follows` is the invariant of the request loop: what it has dispatched and what
  the pipe still holds are together what the client asked for.
* `Connection.replay` is the simulation behind the independence results: the same
  events lead to the same session on every pipe with the same bytes, and on every
  pipe that differs in bytes that were not read.
-/

namespace RemoteAgent

open CodeLib Protocol

namespace PipeServer

/-! ## The records of a byte stream -/

theorem length_recordBody {eof : IoError} {len : Nat} {bytes data rest : List UInt8}
    (h : recordBody eof len bytes = (.ok data, rest)) : rest.length ≤ bytes.length := by
  unfold recordBody at h
  split at h
  · exact absurd h (by simp)
  · split at h
    · exact absurd h (by simp)
    · simp only [Prod.mk.injEq] at h
      rw [← h.2, List.length_drop]
      omega

/-- A record that is read takes at least its length from the stream. -/
theorem length_nextRecord {eof : IoError} {bytes data rest : List UInt8}
    (h : nextRecord eof bytes = (.ok data, rest)) : rest.length < bytes.length := by
  unfold nextRecord at h
  split at h
  · have hle := length_recordBody h
    simp only [List.length_cons]
    omega
  · exact absurd h (by simp)

theorem nextFrame_ok {eof : IoError} {bytes rest : List UInt8} {f : Frame}
    (h : nextFrame eof bytes = (.ok f, rest)) :
    ∃ data, nextRecord eof bytes = (.ok data, rest) ∧ Frame.decode data = .ok f := by
  simp only [nextFrame, Prod.mk.injEq] at h
  cases hr : (nextRecord eof bytes).1 with
  | error e =>
    rw [hr] at h
    exact absurd h.1 (by simp [Except.bind])
  | ok data =>
    rw [hr] at h
    exact ⟨data, Prod.ext hr h.2, h.1⟩

theorem length_nextFrame {eof : IoError} {bytes rest : List UInt8} {f : Frame}
    (h : nextFrame eof bytes = (.ok f, rest)) : rest.length < bytes.length := by
  obtain ⟨data, hrecord, -⟩ := nextFrame_ok h
  exact length_nextRecord hrecord

/-- The frames that the request loop is asked to dispatch. -/
def requests (eof : IoError) (bytes : List UInt8) : List Frame :=
  match _h : nextFrame eof bytes with
  | (.ok f, rest) =>
    if f.frameType = .goodbye then [] else f :: requests eof rest
  | (.error _, _) => []
termination_by bytes.length
decreasing_by exact length_nextFrame _h

theorem requests_of_ok {eof : IoError} {bytes rest : List UInt8} {f : Frame}
    (h : nextFrame eof bytes = (.ok f, rest)) :
    requests eof bytes =
      if f.frameType = .goodbye then [] else f :: requests eof rest := by
  rw [requests]
  split
  · rename_i f' rest' h'
    rw [h] at h'
    cases h'
    rfl
  · rename_i e rest' h'
    rw [h] at h'
    cases h'

theorem requests_of_error {eof : IoError} {bytes rest : List UInt8} {e : Error}
    (h : nextFrame eof bytes = (.error e, rest)) : requests eof bytes = [] := by
  rw [requests]
  split
  · rename_i f' rest' h'
    rw [h] at h'
    cases h'
  · rfl

/-- What is left of a stream is the end of what there was, and unless the stream has
come to its end the record does not depend on it. -/
theorem recordBody_local (eof : IoError) (len : Nat) (bytes : List UInt8) :
    ∃ a, bytes = a ++ (recordBody eof len bytes).2 ∧
      ((recordBody eof len bytes).2 ≠ [] → ∀ tail,
        recordBody eof len (a ++ tail) = ((recordBody eof len bytes).1, tail)) := by
  unfold recordBody
  by_cases hbig : len > 1024 * 1024
  · simp only [if_pos hbig]
    exact ⟨[], rfl, fun _ _ => rfl⟩
  · simp only [if_neg hbig]
    by_cases hshort : bytes.length < len
    · simp only [if_pos hshort]
      exact ⟨bytes, (List.append_nil _).symm, fun hne => absurd rfl hne⟩
    · simp only [if_neg hshort]
      refine ⟨bytes.take len, (List.take_append_drop len bytes).symm, fun _ tail => ?_⟩
      have htake : (bytes.take len).length = len := by
        rw [List.length_take]
        omega
      have hnot : ¬ (bytes.take len ++ tail).length < len := by
        rw [List.length_append]
        omega
      rw [if_neg hnot, List.take_left' htake, List.drop_left' htake]

theorem nextRecord_local (eof : IoError) (bytes : List UInt8) :
    ∃ a, bytes = a ++ (nextRecord eof bytes).2 ∧
      ((nextRecord eof bytes).2 ≠ [] → ∀ tail,
        nextRecord eof (a ++ tail) = ((nextRecord eof bytes).1, tail)) := by
  unfold nextRecord
  split
  · rename_i b₀ b₁ b₂ b₃ rest
    obtain ⟨a, ha, hlocal⟩ :=
      recordBody_local eof (CodeLib.ByteOrder.ofBeBytes32 b₀ b₁ b₂ b₃).toNat rest
    refine ⟨b₀ :: b₁ :: b₂ :: b₃ :: a, ?_, fun hne tail => ?_⟩
    · simp only [List.cons_append, ← ha]
    · simp only [List.cons_append, hlocal hne tail]
  · exact ⟨bytes, (List.append_nil _).symm, fun hne => absurd rfl hne⟩

theorem nextFrame_local (eof : IoError) (bytes : List UInt8) :
    ∃ a, bytes = a ++ (nextFrame eof bytes).2 ∧
      ((nextFrame eof bytes).2 ≠ [] → ∀ tail,
        nextFrame eof (a ++ tail) = ((nextFrame eof bytes).1, tail)) := by
  obtain ⟨a, ha, hlocal⟩ := nextRecord_local eof bytes
  refine ⟨a, ha, fun hne tail => ?_⟩
  simp only [nextFrame, hlocal hne tail]

/-! ## The request loop step by step -/

/-- `process_requests` has returned. -/
def RequestPc.finished : RequestPc → Bool
  | .returned _ => true
  | _ => false

/-- `process_requests` is inside `handle_run`. -/
def RequestPc.handlingRun : RequestPc → Bool
  | .creating _ | .running _ => true
  | _ => false

end PipeServer

open PipeServer

namespace Session

/-- The frames that the request loop has dispatched.  GOODBYE only ends the loop. -/
def dispatched (s : Session) : List Frame :=
  s.handled.filter fun f => f.frameType ≠ .goodbye

/-- In this step `handle_run` returns an error: the payload does not parse,
`create_job` refuses the job, or the launch comes to a failed transition. -/
def runFails (serde : Serde) (s : Session) : Event → Bool
  | .read (.ok f) =>
    f.frameType = .run && (match serde.runFromSlice f.payload with
      | .error _ => true
      | .ok _ => false)
  | .refused _ => true
  | .resume =>
    match s.requests with
    | .running i =>
      match (s.jobs[i]?).map Job.run with
      | some (.returned (.error _)) => true
      | _ => false
    | _ => false
  | _ => false

/-- What a step other than a read does to the request loop. -/
structure Goes (serde : Serde) (s : Session) (e : Event) (s' : Session) : Prop where
  handled : s'.handled = s.handled
  stays : s.requests.finished = true → s'.requests = s.requests
  finishes : s'.requests.finished = true →
    s.requests.finished = true ∨ s.runFails serde e = true
  running : s'.requests.handlingRun = true → s.requests.handlingRun = true
  fails : s.runFails serde e = true →
    s'.requests.finished = true ∧ s.requests.handlingRun = true

theorem Goes.of_same {serde : Serde} {s s' : Session} {e : Event}
    (hh : s'.handled = s.handled) (hr : s'.requests = s.requests)
    (hf : s.runFails serde e = false) : Goes serde s e s' := by
  refine ⟨hh, fun _ => hr, fun h => Or.inl (hr ▸ h), fun h => hr ▸ h, fun h => ?_⟩
  rw [hf] at h
  exact absurd h (by simp)

theorem step_goes {serde : Serde} {s s' : Session} {e : Event}
    (h : s.step serde e = some s') (hread : ∀ r, e ≠ .read r) : Goes serde s e s' := by
  cases e with
  | read r => exact absurd rfl (hread r)
  | created jobId now last =>
    simp only [step] at h
    split at h
    · rename_i hpc
      cases h
      exact ⟨rfl, by simp [hpc, RequestPc.finished], by simp [RequestPc.finished],
        by simp [hpc, RequestPc.handlingRun], by simp [runFails]⟩
    · cases h
  | refused e =>
    simp only [step] at h
    split at h
    · rename_i hpc
      cases h
      exact ⟨rfl, by simp [hpc, RequestPc.finished], by simp [runFails],
        by simp [RequestPc.handlingRun],
        by simp [hpc, RequestPc.finished, RequestPc.handlingRun]⟩
    · cases h
  | resume =>
    simp only [step, resume] at h
    split at h
    · rename_i i hpc
      split at h
      · rename_i hret
        have hfails : s.runFails serde .resume = false := by simp only [runFails, hpc, hret]
        cases h
        exact ⟨rfl, by simp [hpc, RequestPc.finished], by simp [RequestPc.finished],
          by simp [RequestPc.handlingRun], by simp [hfails]⟩
      · rename_i hret
        have hfails : s.runFails serde .resume = true := by simp only [runFails, hpc, hret]
        cases h
        exact ⟨rfl, by simp [hpc, RequestPc.finished], fun _ => Or.inr hfails,
          by simp [RequestPc.handlingRun],
          by simp [hpc, RequestPc.finished, RequestPc.handlingRun]⟩
      · cases h
    · rename_i i c cancel hpc
      split at h
      · split at h
        · obtain ⟨s₁, hs, rfl⟩ := Option.map_eq_some_iff.mp h
          obtain ⟨j, j', -, -, -, rfl⟩ := stepJob_eq hs
          exact ⟨rfl, by simp [hpc, RequestPc.finished], by simp [RequestPc.finished],
            by simp [RequestPc.handlingRun], by simp [runFails, hpc]⟩
        · cases h
          exact ⟨rfl, by simp [hpc, RequestPc.finished], by simp [RequestPc.finished],
            by simp [RequestPc.handlingRun], by simp [runFails, hpc]⟩
      · cases h
    · rename_i i c hpc
      split at h
      · cases h
        exact ⟨rfl, by simp [hpc, RequestPc.finished], by simp [RequestPc.finished],
          by simp [RequestPc.handlingRun], by simp [runFails, hpc]⟩
      · cases h
    · cases h
  | job i e =>
    obtain ⟨j, j', -, -, -, rfl⟩ := stepJob_eq h
    exact Goes.of_same rfl rfl rfl
  | writer e =>
    have hsame : s'.handled = s.handled ∧ s'.requests = s.requests := by
      cases stepWriter_move h <;> exact ⟨rfl, rfl⟩
    exact Goes.of_same hsame.1 hsame.2 rfl

/-- What the request loop does with a frame that it has read. -/
structure Takes (serde : Serde) (s : Session) (f : Frame) (s' : Session) : Prop where
  reading : s.requests = .reading
  handled : s'.handled = s.handled ++ [f]
  finishes : s'.requests.finished =
    (decide (f.frameType = .goodbye) || s.runFails serde (.read (.ok f)))
  running : s'.requests.handlingRun = true → f.frameType = .run

theorem updateActivity_requests {s s' : Session} {jobId : UInt32} {cancel : Bool}
    (h : s.updateActivity jobId cancel = some s') :
    s'.handled = s.handled ∧
      (s'.requests = s.requests ∨ ∃ i c, s'.requests = .updating i c cancel) := by
  unfold updateActivity at h
  split at h
  · rename_i i _
    obtain ⟨s₁, hs, rfl⟩ := Option.map_eq_some_iff.mp h
    obtain ⟨j, j', -, -, -, rfl⟩ := stepJob_eq hs
    exact ⟨rfl, Or.inr ⟨_, _, rfl⟩⟩
  · cases h
    exact ⟨rfl, Or.inl rfl⟩

theorem takes_of_activity {serde : Serde} {s s' : Session} {f : Frame} {cancel : Bool}
    (hreading : s.requests = .reading) (hrun : f.frameType ≠ .run)
    (hbye : f.frameType ≠ .goodbye)
    (h : ({ s with handled := s.handled ++ [f] } : Session).updateActivity f.jobId cancel =
      some s') : Takes serde s f s' := by
  obtain ⟨hh, hr⟩ := updateActivity_requests h
  have hpc : s'.requests.finished = false ∧ s'.requests.handlingRun = false := by
    rcases hr with hr | ⟨i, c, hr⟩
    · rw [hr, hreading]
      exact ⟨rfl, rfl⟩
    · rw [hr]
      exact ⟨rfl, rfl⟩
  refine ⟨hreading, hh, by simp [hpc.1, runFails, hrun, hbye], ?_⟩
  rw [hpc.2]
  exact fun h => absurd h (by simp)

theorem step_read_ok {serde : Serde} {s s' : Session} {f : Frame}
    (h : s.step serde (.read (.ok f)) = some s') : Takes serde s f s' := by
  simp only [step] at h
  split at h
  · rename_i hreading
    simp only [dispatch] at h
    split at h
    · rename_i hrun
      split at h
      · rename_i e he
        cases h
        exact ⟨hreading, rfl, by simp [RequestPc.finished, runFails, hrun, he], fun _ => hrun⟩
      · rename_i payload hp
        cases h
        exact ⟨hreading, rfl, by simp [RequestPc.finished, runFails, hrun, hp], fun _ => hrun⟩
    · rename_i hcancel
      exact takes_of_activity hreading (by simp [hcancel]) (by simp [hcancel]) h
    · rename_i hwindow
      exact takes_of_activity hreading (by simp [hwindow]) (by simp [hwindow]) h
    · rename_i hbye
      cases h
      exact ⟨hreading, rfl, by simp [RequestPc.finished, hbye],
        by simp [RequestPc.handlingRun]⟩
    · rename_i hrun _ _ hbye
      split at h
      · exact takes_of_activity hreading hrun hbye h
      · cases h
        have hrun' : f.frameType ≠ .run := hrun
        have hbye' : f.frameType ≠ .goodbye := hbye
        exact ⟨hreading, rfl, by simp [hreading, RequestPc.finished, runFails, hrun', hbye'],
          by simp [hreading, RequestPc.handlingRun]⟩
  · cases h

theorem step_read_error {serde : Serde} {s s' : Session} {e : Error}
    (h : s.step serde (.read (.error e)) = some s') :
    s.requests = .reading ∧ s'.handled = s.handled ∧ s'.requests.finished = true ∧
      s'.requests.handlingRun = false := by
  simp only [step] at h
  split at h
  · rename_i hreading
    cases h
    exact ⟨hreading, rfl, rfl, rfl⟩
  · cases h

/-! ## Following the stream -/

/-- The request loop on a stream of which `input` is not read yet, `rest` being all
that came after the handshake. -/
structure Follows (eof : IoError) (rest input : List UInt8) (failed : Bool)
    (s : Session) : Prop where
  within : s.dispatched <+: PipeServer.requests eof rest
  ahead : s.requests.finished = false →
    failed = false ∧
      PipeServer.requests eof rest = s.dispatched ++ PipeServer.requests eof input
  all : s.requests.finished = true → failed = false →
    s.dispatched = PipeServer.requests eof rest
  run : s.requests.handlingRun = true ∨ failed = true →
    ∃ f, s.dispatched.getLast? = some f ∧ f.frameType = .run
  stopped : failed = true → s.requests.finished = true

section follows

variable {serde : Serde} {eof : IoError} {rest input : List UInt8} {failed : Bool}
  {s s' : Session}

theorem Follows.start (ack : Frame) : Follows eof rest rest false (start ack) := by
  refine ⟨List.nil_prefix, fun _ => ⟨rfl, rfl⟩, ?_, ?_, ?_⟩
  · intro h
    exact absurd h (by simp [Session.start, RequestPc.finished])
  · intro h
    exact absurd h (by simp [Session.start, RequestPc.handlingRun])
  · intro h
    exact absurd h (by simp)

/-- A step that reads nothing. -/
theorem Follows.goes {e : Event} (h : Follows eof rest input failed s)
    (hgo : Goes serde s e s') :
    Follows eof rest input (failed || s.runFails serde e) s' := by
  have hd : s'.dispatched = s.dispatched := by rw [dispatched, dispatched, hgo.handled]
  have hopen : s'.requests.finished = false → s.requests.finished = false := by
    intro hfin
    cases hold : s.requests.finished with
    | false => rfl
    | true =>
      rw [hgo.stays hold, hold] at hfin
      exact hfin
  refine ⟨?_, ?_, ?_, ?_, ?_⟩
  · rw [hd]
    exact h.within
  · intro hfin
    obtain ⟨hfailed, hahead⟩ := h.ahead (hopen hfin)
    refine ⟨?_, by rw [hd]; exact hahead⟩
    cases hruns : s.runFails serde e with
    | false => rw [hfailed]; rfl
    | true =>
      rw [(hgo.fails hruns).1] at hfin
      exact absurd hfin (by simp)
  · intro hfin hno
    rw [Bool.or_eq_false_iff] at hno
    rw [hd]
    rcases hgo.finishes hfin with hold | hruns
    · exact h.all hold hno.1
    · rw [hno.2] at hruns
      exact absurd hruns (by simp)
  · intro hrun
    rw [hd]
    refine h.run ?_
    rcases hrun with hrun | hfail
    · exact Or.inl (hgo.running hrun)
    · rcases (Bool.or_eq_true _ _).mp hfail with hfail | hruns
      · exact Or.inr hfail
      · exact Or.inl (hgo.fails hruns).2
  · intro hfail
    rcases (Bool.or_eq_true _ _).mp hfail with hfail | hruns
    · rw [hgo.stays (h.stopped hfail)]
      exact h.stopped hfail
    · exact (hgo.fails hruns).1

/-- The loop reads a frame. -/
theorem Follows.takes {f : Frame} {input' : List UInt8}
    (h : Follows eof rest input failed s)
    (hnext : nextFrame eof input = (.ok f, input')) (ht : Takes serde s f s') :
    Follows eof rest input' (failed || s.runFails serde (.read (.ok f))) s' := by
  obtain ⟨rfl, hahead⟩ := h.ahead (by rw [ht.reading]; rfl)
  rw [Bool.false_or]
  rw [requests_of_ok hnext] at hahead
  have hfin := ht.finishes
  by_cases hbye : f.frameType = .goodbye
  · have hd : s'.dispatched = s.dispatched := by
      simp [dispatched, ht.handled, List.filter_append, hbye]
    have hruns : s.runFails serde (.read (.ok f)) = false := by simp [runFails, hbye]
    rw [if_pos hbye, List.append_nil] at hahead
    rw [hbye, hruns] at hfin
    rw [hruns]
    have hall : s'.dispatched = PipeServer.requests eof rest := by rw [hd, hahead]
    refine ⟨hall ▸ List.prefix_rfl, ?_, fun _ _ => hall, ?_, by simp⟩
    · intro hopen
      rw [hfin] at hopen
      exact absurd hopen (by simp)
    · intro hrun
      rcases hrun with hrun | hrun
      · rw [ht.running hrun] at hbye
        exact absurd hbye (by simp)
      · exact absurd hrun (by simp)
  · have hd : s'.dispatched = s.dispatched ++ [f] := by
      simp [dispatched, ht.handled, List.filter_append, hbye]
    rw [if_neg hbye] at hahead
    have hahead' : PipeServer.requests eof rest =
        s'.dispatched ++ PipeServer.requests eof input' := by
      rw [hd, hahead, List.append_assoc]
      rfl
    have hfin' : s'.requests.finished = s.runFails serde (.read (.ok f)) := by
      rw [hfin, decide_eq_false hbye, Bool.false_or]
    refine ⟨⟨_, hahead'.symm⟩, ?_, ?_, ?_, ?_⟩
    · intro hopen
      exact ⟨by rw [← hfin', hopen], hahead'⟩
    · intro hclosed hno
      rw [hfin', hno] at hclosed
      exact absurd hclosed (by simp)
    · intro hrun
      refine ⟨f, by rw [hd]; simp, ?_⟩
      rcases hrun with hrun | hruns
      · exact ht.running hrun
      · simp only [runFails, Bool.and_eq_true, decide_eq_true_eq] at hruns
        exact hruns.1
    · intro hruns
      rw [hfin', hruns]

/-- The read of the loop fails. -/
theorem Follows.ends {e : Error} {input' : List UInt8} (h : Follows eof rest input failed s)
    (hnext : nextFrame eof input = (.error e, input'))
    (hstep : s.step serde (.read (.error e)) = some s') :
    Follows eof rest input' failed s' := by
  obtain ⟨hreading, hh, hfin, hnot⟩ := step_read_error hstep
  obtain ⟨rfl, hahead⟩ := h.ahead (by rw [hreading]; rfl)
  have hd : s'.dispatched = s.dispatched := by rw [dispatched, dispatched, hh]
  rw [requests_of_error hnext, List.append_nil] at hahead
  have hall : s'.dispatched = PipeServer.requests eof rest := by rw [hd, hahead]
  refine ⟨hall ▸ List.prefix_rfl, ?_, fun _ _ => hall, ?_, by simp⟩
  · intro hopen
    rw [hfin] at hopen
    exact absurd hopen (by simp)
  · intro hrun
    rw [hnot] at hrun
    exact absurd hrun (by simp)

end follows

end Session

/-! ## The connection -/

namespace PipeServer

/-- Where `handle_client` stands: in the handshake, in a session, or at its end
without one. -/
inductive Phase where
  | greeting
  | session (s : Session)
  | returned (r : Except Error Unit)
  | panicked

def Phase.ofFault : Fault → Phase
  | .err e => .returned (.error e)
  | .outOfRange => .panicked

end PipeServer

/-- One connection.  `failedRun` is kept for the proofs: `handle_run` has returned an
error. -/
structure Connection where
  input : Inbound
  output : Outbound
  phase : Phase
  failedRun : Bool

namespace Connection

def start (input : Inbound) (output : Outbound) : Connection :=
  ⟨input, output, .greeting, false⟩

/-- In `read` the request loop calls `read_frame`.  All other steps of the session
are its own. -/
inductive Event where
  | greet
  | read
  | session (e : Session.Event)

/-- The handshake, from the result of the first `read_frame` on. -/
def greet (serde : Serde) (output : Outbound) (r : Except Fault Frame) :
    Phase × Outbound :=
  match r with
  | .error fault => (.ofFault fault, output)
  | .ok helloFrame =>
    match negotiate serde helloFrame with
    | .drop e => (.returned (.error e), output)
    | .refuse reply e =>
      match output.writeFrameStatic reply with
      | (.error fault, output') => (.ofFault fault, output')
      | (.ok (), output') => (.returned (.error e), output')
    | .accept ack =>
      match output.writeFrameStatic ack with
      | (.error fault, output') => (.ofFault fault, output')
      | (.ok (), output') => (.session (Session.start ack), output')

/-- A round of the request loop, from the result of `read_frame` on. -/
def afterRead (serde : Serde) (s : Session) (failed : Bool) :
    Except Fault Frame → Option (Phase × Bool)
  | .error .outOfRange => some (.panicked, failed)
  | .error (.err e) =>
    (s.step serde (.read (.error e))).map fun s' => (.session s', failed)
  | .ok f =>
    (s.step serde (.read (.ok f))).map fun s' =>
      (.session s', failed || s.runFails serde (.read (.ok f)))

theorem greet_session {serde : Serde} {output : Outbound} {r : Except Fault Frame}
    {s : Session} (h : (greet serde output r).1 = .session s) :
    ∃ hello ack, negotiate serde hello = .accept ack ∧
      (output.writeFrameStatic ack).1 = .ok () ∧ s = Session.start ack := by
  unfold greet at h
  split at h
  · rename_i fault
    cases fault <;> cases h
  · rename_i helloFrame
    split at h
    · cases h
    · split at h
      · rename_i fault _ _
        cases fault <;> cases h
      · cases h
    · rename_i ack hneg
      split at h
      · rename_i fault _ _
        cases fault <;> cases h
      · rename_i output' hwrite
        cases h
        exact ⟨helloFrame, ack, hneg, by rw [hwrite], rfl⟩

theorem afterRead_session {serde : Serde} {s s' : Session} {failed failed' : Bool}
    {r : Except Fault Frame}
    (h : afterRead serde s failed r = some (.session s', failed')) :
    ∃ r', s.step serde (.read r') = some s' := by
  unfold afterRead at h
  split at h
  · cases h
  · obtain ⟨s₁, hs₁, hpair⟩ := Option.map_eq_some_iff.mp h
    cases hpair
    exact ⟨_, hs₁⟩
  · obtain ⟨s₁, hs₁, hpair⟩ := Option.map_eq_some_iff.mp h
    cases hpair
    exact ⟨_, hs₁⟩

/-- Any other step of the session. -/
def afterStep (serde : Serde) (s : Session) (failed : Bool) :
    Session.Event → Option (Phase × Bool)
  | .read _ => none
  | e => (s.step serde e).map fun s' => (.session s', failed || s.runFails serde e)

theorem afterStep_eq {serde : Serde} {s : Session} {failed failed' : Bool}
    {e : Session.Event} {phase : Phase}
    (h : afterStep serde s failed e = some (phase, failed')) :
    (∀ r, e ≠ .read r) ∧ ∃ s', s.step serde e = some s' ∧ phase = .session s' ∧
      failed' = (failed || s.runFails serde e) := by
  unfold afterStep at h
  split at h
  · cases h
  · rename_i hnoread
    obtain ⟨s', hs', hpair⟩ := Option.map_eq_some_iff.mp h
    simp only [Prod.mk.injEq] at hpair
    exact ⟨hnoread, s', hs', hpair.1.symm, hpair.2.symm⟩

def step (serde : Serde) (c : Connection) : Event → Option Connection
  | .greet =>
    match c.phase with
    | .greeting =>
      some { c with
        input := c.input.readFrameStatic.2
        phase := (greet serde c.output c.input.readFrameStatic.1).1
        output := (greet serde c.output c.input.readFrameStatic.1).2 }
    | _ => none
  | .read =>
    match c.phase with
    | .session s =>
      (afterRead serde s c.failedRun c.input.readFrameStatic.1).map fun r =>
        { c with input := c.input.readFrameStatic.2, phase := r.1, failedRun := r.2 }
    | _ => none
  | .session e =>
    match c.phase with
    | .session s =>
      (afterStep serde s c.failedRun e).map fun r =>
        { c with phase := r.1, failedRun := r.2 }
    | _ => none

/-- The machine of one connection. -/
def machine (serde : Serde) : StepMachine Connection Event where
  Init c := ∃ input output, c = start input output
  step := step serde

/-! ## What the connection acts on -/

/-- The answer to a HELLO of the right version. -/
def helloAck (serde : Serde) (hello : HelloPayload) : Frame :=
  (Frame.new .helloAck .control).withPayload
    (serde.helloToVec ⟨protocolVersion, hello.clientId⟩)

/-- The first record of the stream decodes to a HELLO frame whose payload parses with
the version of the protocol, HELLO_ACK can be written, and `rest` follows the
record. -/
def Admits (serde : Serde) (input : Inbound) (output : Outbound)
    (rest : List UInt8) : Prop :=
  ∃ helloFrame hello,
    nextFrame input.endError input.bytes = (.ok helloFrame, rest) ∧
    helloFrame.frameType = .hello ∧
    serde.helloFromSlice helloFrame.payload = .ok hello ∧
    hello.version = protocolVersion ∧
    (output.writeFrameStatic (helloAck serde hello)).1 = .ok ()

theorem negotiate_eq_accept {serde : Serde} {f : Frame} {hello : HelloPayload}
    (htype : f.frameType = .hello) (hparse : serde.helloFromSlice f.payload = .ok hello)
    (hversion : hello.version = protocolVersion) :
    negotiate serde f = .accept (helloAck serde hello) := by
  rw [negotiate, if_neg (by simp [htype]), hparse]
  simp only [hversion, ne_eq, not_true_eq_false, if_false]
  rfl

theorem negotiate_accept {serde : Serde} {f ack : Frame}
    (h : negotiate serde f = .accept ack) :
    f.frameType = .hello ∧ ∃ hello, serde.helloFromSlice f.payload = .ok hello ∧
      hello.version = protocolVersion ∧ ack = helloAck serde hello := by
  unfold negotiate at h
  split at h
  · cases h
  · rename_i htype
    split at h
    · cases h
    · rename_i hello hparse
      split at h
      · cases h
      · rename_i hversion
        cases h
        exact ⟨not_not.mp htype, hello, hparse, not_not.mp hversion, rfl⟩

/-- What follows the HELLO is determined. -/
theorem admits_unique {serde : Serde} {input : Inbound} {output : Outbound}
    {rest rest' : List UInt8} (h : Admits serde input output rest)
    (h' : Admits serde input output rest') : rest = rest' := by
  obtain ⟨f, hello, hnext, -⟩ := h
  obtain ⟨f', hello', hnext', -⟩ := h'
  rw [hnext] at hnext'
  cases hnext'
  rfl

/-- The invariant of a connection that began with these two ends of the pipe. -/
structure Sound (serde : Serde) (input : Inbound) (output : Outbound) (c : Connection) :
    Prop where
  atEnd : c.input.atEnd = input.atEnd
  greeting : c.phase = .greeting → c = start input output
  session : ∀ s, c.phase = .session s → ∃ rest, Admits serde input output rest ∧
    Session.Follows input.endError rest c.input.bytes c.failedRun s
  returned : ∀ r, c.phase = .returned r → ∀ rest, ¬ Admits serde input output rest
  inRange : c.phase ≠ .panicked

section sound

variable {serde : Serde} {input : Inbound} {output : Outbound} {c c' : Connection}

theorem sound_start : Sound serde input output (start input output) := by
  refine ⟨rfl, fun _ => rfl, ?_, ?_, ?_⟩
  · intro s hs
    exact absurd hs (by simp [start])
  · intro r hr
    exact absurd hr (by simp [start])
  · simp [start]

/-- A connection that has returned from a handshake that did not admit the client. -/
theorem Sound.of_returned {input' : Inbound} {output' : Outbound} {r : Except Error Unit}
    {failed : Bool} (hend : input'.atEnd = input.atEnd)
    (hno : ∀ rest, ¬ Admits serde input output rest) :
    Sound serde input output ⟨input', output', .returned r, failed⟩ :=
  ⟨hend, by simp, by simp, fun _ _ => hno, by simp⟩

theorem not_admits {f : Frame} {rest : List UInt8}
    (hnext : nextFrame input.endError input.bytes = (.ok f, rest))
    (hno : ∀ ack, negotiate serde f = .accept ack →
      (output.writeFrameStatic ack).1 ≠ .ok ()) :
    ∀ rest, ¬ Admits serde input output rest := by
  rintro rest' ⟨f', hello, hnext', htype, hparse, hversion, hwrite⟩
  rw [hnext] at hnext'
  cases hnext'
  exact hno _ (negotiate_eq_accept htype hparse hversion) hwrite

theorem sound_greet {input' : Inbound} {r : Except Error Frame}
    (hnext : nextFrame input.endError input.bytes = (r, input'.bytes))
    (hend : input'.atEnd = input.atEnd) :
    Sound serde input output ⟨input', (greet serde output (r.mapError Fault.err)).2,
      (greet serde output (r.mapError Fault.err)).1, false⟩ := by
  cases r with
  | error e =>
    refine Sound.of_returned hend ?_
    rintro rest ⟨f, hello, hok, -⟩
    rw [hnext] at hok
    cases hok
  | ok f =>
    rw [mapError_ok]
    cases hneg : negotiate serde f with
    | drop e =>
      simp only [greet, hneg]
      exact Sound.of_returned hend (not_admits hnext (by simp [hneg]))
    | refuse reply e =>
      simp only [greet, hneg]
      split
      · rename_i fault output' hwrite
        have hin := output.writeFrameStatic_inRange reply
        rw [hwrite] at hin
        cases fault with
        | err e' => exact Sound.of_returned hend (not_admits hnext (by simp [hneg]))
        | outOfRange => exact absurd rfl hin
      · exact Sound.of_returned hend (not_admits hnext (by simp [hneg]))
    | accept ack =>
      simp only [greet, hneg]
      split
      · rename_i fault output' hwrite
        have hin := output.writeFrameStatic_inRange ack
        rw [hwrite] at hin
        cases fault with
        | err e' =>
          refine Sound.of_returned hend (not_admits hnext ?_)
          intro ack' hack'
          rw [hneg] at hack'
          cases hack'
          simp [hwrite]
        | outOfRange => exact absurd rfl hin
      · rename_i output' hwrite
        obtain ⟨htype, hello, hparse, hversion, rfl⟩ := negotiate_accept hneg
        refine ⟨hend, by simp, ?_, by simp, by simp⟩
        intro s hs
        cases hs
        exact ⟨input'.bytes, ⟨f, hello, hnext, htype, hparse, hversion, by rw [hwrite]⟩,
          Session.Follows.start _⟩

theorem sound_step {e : Event} (h : Sound serde input output c)
    (hstep : c.step serde e = some c') : Sound serde input output c' := by
  obtain ⟨input', hread, hrest, hend⟩ := c.input.readFrameStatic_spec
  have heof : c.input.endError = input.endError := by
    rw [Inbound.endError, Inbound.endError, h.atEnd]
  cases e with
  | greet =>
    simp only [step] at hstep
    split at hstep
    · rename_i hphase
      obtain rfl := h.greeting hphase
      cases hstep
      rw [hread]
      exact sound_greet (Prod.ext rfl hrest.symm) hend
    · cases hstep
  | read =>
    simp only [step] at hstep
    split at hstep
    · rename_i s hphase
      obtain ⟨rest, hadmits, hfollows⟩ := h.session s hphase
      rw [heof] at hread hrest
      obtain ⟨⟨phase, failed⟩, hafter, rfl⟩ := Option.map_eq_some_iff.mp hstep
      rw [hread] at hafter ⊢
      cases hnext : (nextFrame input.endError c.input.bytes).1 with
      | error e =>
        rw [hnext] at hafter
        obtain ⟨s', hs', hpair⟩ := Option.map_eq_some_iff.mp hafter
        cases hpair
        refine ⟨hend.trans h.atEnd, by simp, ?_, by simp, by simp⟩
        intro s₁ hs₁
        cases hs₁
        exact ⟨rest, hadmits, hfollows.ends (Prod.ext hnext hrest.symm) hs'⟩
      | ok f =>
        rw [hnext] at hafter
        obtain ⟨s', hs', hpair⟩ := Option.map_eq_some_iff.mp hafter
        cases hpair
        refine ⟨hend.trans h.atEnd, by simp, ?_, by simp, by simp⟩
        intro s₁ hs₁
        cases hs₁
        exact ⟨rest, hadmits,
          hfollows.takes (Prod.ext hnext hrest.symm) (Session.step_read_ok hs')⟩
    · cases hstep
  | session e =>
    simp only [step] at hstep
    split at hstep
    · rename_i s hphase
      obtain ⟨rest, hadmits, hfollows⟩ := h.session s hphase
      obtain ⟨⟨phase, failed⟩, hafter, rfl⟩ := Option.map_eq_some_iff.mp hstep
      obtain ⟨hnoread, s', hs', rfl, rfl⟩ := afterStep_eq hafter
      refine ⟨h.atEnd, by simp, ?_, by simp, by simp⟩
      intro s₁ hs₁
      cases hs₁
      exact ⟨rest, hadmits, hfollows.goes (Session.step_goes hs' hnoread)⟩
    · cases hstep

theorem sound_path {es : List Event}
    (hp : (machine serde).Path StepMachine.Any (start input output) es c) :
    Sound serde input output c :=
  hp.invariant (fun _ _ _ h _ hstep => sound_step h hstep) sound_start

end sound

/-- The session of a connection is a state of the session's machine, so all that
holds of a session holds of it. -/
theorem session_reachable {serde : Serde} {C : Connection → Event → Prop} {c : Connection}
    (h : (machine serde).Reach C c) {s : Session} (hs : c.phase = .session s) :
    (Session.machine serde).Reachable s := by
  refine h.invariant (I := fun c => ∀ s, c.phase = .session s →
    (Session.machine serde).Reachable s) ?_ ?_ s hs
  · rintro _ ⟨input, output, rfl⟩ s hs
    exact absurd hs (by simp [start])
  · intro c e c' hc _ hstep s' hs'
    cases e with
    | greet =>
      simp only [machine, step] at hstep
      split at hstep
      · cases hstep
        obtain ⟨hello, ack, hneg, hwrite, rfl⟩ := greet_session hs'
        obtain ⟨data, hdata⟩ := Outbound.encode_of_writeFrameStatic hwrite
        obtain ⟨-, rfl⟩ := Frame.encode_eq_ok_iff.mp hdata
        exact ⟨_, [], ⟨hello, ack, hneg, hdata, rfl⟩, .nil _⟩
      · cases hstep
    | read =>
      simp only [machine, step] at hstep
      split at hstep
      · rename_i s hphase
        obtain ⟨⟨phase, failed⟩, hafter, rfl⟩ := Option.map_eq_some_iff.mp hstep
        obtain rfl : phase = .session s' := hs'
        obtain ⟨r, hr⟩ := afterRead_session hafter
        exact (hc s hphase).step (l := .read r) trivial hr
      · cases hstep
    | session e =>
      simp only [machine, step] at hstep
      split at hstep
      · rename_i s hphase
        obtain ⟨⟨phase, failed⟩, hafter, rfl⟩ := Option.map_eq_some_iff.mp hstep
        obtain ⟨-, s₁, hs₁, hp, -⟩ := afterStep_eq hafter
        obtain rfl : s' = s₁ := by
          have hboth := hs'.symm.trans hp
          cases hboth
          rfl
        exact (hc s hphase).step (l := e) trivial hs₁
      · cases hstep

/-! ## The same events on other pipes -/

/-- Two connections that differ in what is still to arrive at most. -/
structure Like (c d : Connection) : Prop where
  output : d.output = c.output
  phase : d.phase = c.phase
  failedRun : d.failedRun = c.failedRun
  atEnd : d.input.atEnd = c.input.atEnd

def Event.reads : Event → Bool
  | .greet | .read => true
  | .session _ => false

/-- What a step leaves to arrive. -/
def Event.leaves (e : Event) (input : Inbound) : Inbound :=
  if e.reads then input.readFrameStatic.2 else input

section replay

variable {serde : Serde} {c c' d : Connection} {es : List Event}

/-- A step depends on what arrives only through the frame that it reads. -/
theorem step_like {e : Event} (hlike : Like c d) (hstep : c.step serde e = some c')
    (hread : e.reads = true → d.input.readFrameStatic.1 = c.input.readFrameStatic.1) :
    c'.input = e.leaves c.input ∧ ∃ d', d.step serde e = some d' ∧
      d'.input = e.leaves d.input ∧ d'.output = c'.output ∧ d'.phase = c'.phase ∧
      d'.failedRun = c'.failedRun := by
  cases e with
  | greet =>
    simp only [step, hlike.phase] at hstep ⊢
    split at hstep
    · rename_i hphase
      cases hstep
      refine ⟨rfl, _, rfl, rfl, ?_, ?_, hlike.failedRun⟩
      · simp only [hread rfl, hlike.output]
      · simp only [hread rfl, hlike.output]
    · cases hstep
  | read =>
    simp only [step, hlike.phase] at hstep ⊢
    split at hstep
    · rename_i s hphase
      obtain ⟨r, hafter, rfl⟩ := Option.map_eq_some_iff.mp hstep
      refine ⟨rfl, { d with
        input := d.input.readFrameStatic.2, phase := r.1, failedRun := r.2 }, ?_, rfl,
        hlike.output, rfl, rfl⟩
      rw [hread rfl, hlike.failedRun, hafter]
      rfl
    · cases hstep
  | session e =>
    simp only [step, hlike.phase] at hstep ⊢
    split at hstep
    · rename_i s hphase
      obtain ⟨r, hafter, rfl⟩ := Option.map_eq_some_iff.mp hstep
      refine ⟨rfl, { d with phase := r.1, failedRun := r.2 }, ?_, rfl, hlike.output, rfl,
        rfl⟩
      rw [hlike.failedRun, hafter]
      rfl
    · cases hstep

theorem readFrameStatic_leaves (input : Inbound) :
    input.readFrameStatic.1 = (nextFrame input.endError input.bytes).1.mapError Fault.err ∧
      input.readFrameStatic.2.bytes = (nextFrame input.endError input.bytes).2 ∧
      input.readFrameStatic.2.atEnd = input.atEnd := by
  obtain ⟨input', hread, hrest, hend⟩ := input.readFrameStatic_spec
  rw [hread]
  exact ⟨rfl, hrest, hend⟩

theorem leaves_atEnd (e : Event) (input : Inbound) :
    (e.leaves input).atEnd = input.atEnd := by
  unfold Event.leaves
  split
  · exact (readFrameStatic_leaves input).2.2
  · rfl

theorem Like.endError (hlike : Like c d) : d.input.endError = c.input.endError := by
  rw [Inbound.endError, Inbound.endError, hlike.atEnd]

/-- One step on a pipe that has the same bytes, however they are cut. -/
theorem step_same {e : Event} (hlike : Like c d) (hbytes : d.input.bytes = c.input.bytes)
    (hstep : c.step serde e = some c') :
    ∃ d', d.step serde e = some d' ∧ Like c' d' ∧ d'.input.bytes = c'.input.bytes := by
  have hread := readFrameStatic_leaves d.input
  rw [hlike.endError, hbytes] at hread
  obtain ⟨hc, d', hd, hinput, houtput, hphase, hfailed⟩ := step_like hlike hstep
    fun _ => hread.1.trans (readFrameStatic_leaves c.input).1.symm
  refine ⟨d', hd, ⟨houtput, hphase, hfailed, ?_⟩, ?_⟩
  · rw [hinput, hc, leaves_atEnd, leaves_atEnd, hlike.atEnd]
  · rw [hinput, hc]
    unfold Event.leaves
    split
    · exact hread.2.1.trans (readFrameStatic_leaves c.input).2.1.symm
    · exact hbytes

/-- One step that does not come to the end of the stream takes a part `a` from its
front, and does the same on every pipe that has `a` in front. -/
theorem step_tail {e : Event} (hstep : c.step serde e = some c')
    (hne : c'.input.bytes ≠ []) :
    ∃ a, c.input.bytes = a ++ c'.input.bytes ∧
      ∀ d tail, Like c d → d.input.bytes = a ++ tail →
        ∃ d', d.step serde e = some d' ∧ Like c' d' ∧ d'.input.bytes = tail := by
  have hself : Like c c := ⟨rfl, rfl, rfl, rfl⟩
  obtain ⟨hc, -⟩ := step_like hself hstep fun _ => rfl
  cases hreads : e.reads with
  | false =>
    have hleave : ∀ input, e.leaves input = input := by simp [Event.leaves, hreads]
    refine ⟨[], by rw [hc, hleave]; rfl, fun d tail hlike hbytes => ?_⟩
    obtain ⟨-, d', hd, hinput, houtput, hphase, hfailed⟩ :=
      step_like hlike hstep (by simp [hreads])
    refine ⟨d', hd, ⟨houtput, hphase, hfailed, ?_⟩, ?_⟩
    · rw [hinput, hc, leaves_atEnd, leaves_atEnd, hlike.atEnd]
    · rw [hinput, hleave, hbytes, List.nil_append]
  | true =>
    have hleave : ∀ input, e.leaves input = input.readFrameStatic.2 := by
      simp [Event.leaves, hreads]
    have hrest : c'.input.bytes = (nextFrame c.input.endError c.input.bytes).2 := by
      rw [hc, hleave, (readFrameStatic_leaves c.input).2.1]
    obtain ⟨a, ha, hlocal⟩ := nextFrame_local c.input.endError c.input.bytes
    rw [← hrest] at ha hlocal
    refine ⟨a, ha, fun d tail hlike hbytes => ?_⟩
    have hread := readFrameStatic_leaves d.input
    rw [hlike.endError, hbytes, hlocal hne tail] at hread
    obtain ⟨-, d', hd, hinput, houtput, hphase, hfailed⟩ := step_like hlike hstep
      fun _ => hread.1.trans (readFrameStatic_leaves c.input).1.symm
    refine ⟨d', hd, ⟨houtput, hphase, hfailed, ?_⟩, ?_⟩
    · rw [hinput, hc, leaves_atEnd, leaves_atEnd, hlike.atEnd]
    · rw [hinput, hleave, hread.2.1]

/-- A run on a pipe that has the same bytes, however they are cut. -/
theorem replay_same {C : Connection → Event → Prop} (hp : (machine serde).Path C c es c')
    (hlike : Like c d) (hbytes : d.input.bytes = c.input.bytes) :
    ∃ d', (machine serde).Path StepMachine.Any d es d' ∧ Like c' d' ∧
      d'.input.bytes = c'.input.bytes := by
  induction hp generalizing d with
  | nil => exact ⟨d, .nil d, hlike, hbytes⟩
  | cons _ hstep _ ih =>
    obtain ⟨d₁, hd₁, hlike₁, hbytes₁⟩ := step_same hlike hbytes hstep
    obtain ⟨d', hpath, hlike', hbytes'⟩ := ih hlike₁ hbytes₁
    exact ⟨d', .cons trivial hd₁ hpath, hlike', hbytes'⟩

/-- A run that leaves bytes unread takes a part `a` from the front of the stream, and
is a run on every pipe that has `a` in front. -/
theorem replay_tail {C : Connection → Event → Prop} (hp : (machine serde).Path C c es c')
    (hne : c'.input.bytes ≠ []) :
    ∃ a, c.input.bytes = a ++ c'.input.bytes ∧
      ∀ d tail, Like c d → d.input.bytes = a ++ tail →
        ∃ d', (machine serde).Path StepMachine.Any d es d' ∧ Like c' d' ∧
          d'.input.bytes = tail := by
  induction hp with
  | nil c => exact ⟨[], rfl, fun d tail hlike hbytes => ⟨d, .nil d, hlike, hbytes⟩⟩
  | @cons c c₁ c' e es _ hstep _ ih =>
    obtain ⟨a₁, ha₁, hreplay⟩ := ih hne
    have hne₁ : c₁.input.bytes ≠ [] := by
      rw [ha₁]
      exact List.append_ne_nil_of_right_ne_nil a₁ hne
    obtain ⟨a₀, ha₀, hfirst⟩ := step_tail hstep hne₁
    refine ⟨a₀ ++ a₁, by rw [ha₀, ha₁, List.append_assoc], fun d tail hlike hbytes => ?_⟩
    rw [List.append_assoc] at hbytes
    obtain ⟨d₁, hd₁, hlike₁, hbytes₁⟩ := hfirst d (a₁ ++ tail) hlike hbytes
    obtain ⟨d', hpath, hlike', hbytes'⟩ := hreplay d₁ tail hlike₁ hbytes₁
    exact ⟨d', .cons trivial hd₁ hpath, hlike', hbytes'⟩

end replay

/-- A connection acts on the well-formed front of the client's bytes.  In every run:
no index or slice is out of range; if the first record is no acceptable HELLO, or
HELLO_ACK cannot be written, no session starts and no step but the handshake is ever
taken; if it is, what the request loop dispatches are the requests that follow it, in
order, all of them once the loop has returned without a failed RUN, and up to the
failed RUN otherwise.  The same events lead to the same session on every pipe with
the same bytes, and on every pipe that differs in bytes that were not read. -/
theorem acts_on_requests {serde : Serde} {input : Inbound} {output : Outbound}
    {es : List Event} {c : Connection}
    (hrun : (machine serde).Path StepMachine.Any (start input output) es c) :
    c.phase ≠ .panicked ∧
    ((∀ rest, ¬ Admits serde input output rest) →
      (c.phase = .greeting ∨ ∃ r, c.phase = .returned r) ∧
        ∀ e c', c.step serde e = some c' → e = .greet) ∧
    (∀ rest, Admits serde input output rest →
      (c.phase = .greeting ∨ ∃ s, c.phase = .session s) ∧
      ∀ s, c.phase = .session s →
        s.dispatched <+: requests input.endError rest ∧
        (s.requests.finished = true → c.failedRun = false →
          s.dispatched = requests input.endError rest) ∧
        (c.failedRun = true → s.requests.finished = true ∧
          ∃ f, s.dispatched.getLast? = some f ∧ f.frameType = .run)) ∧
    (∀ input' : Inbound, input'.atEnd = input.atEnd → input'.bytes = input.bytes →
      ∃ c', (machine serde).Path StepMachine.Any (start input' output) es c' ∧
        c'.phase = c.phase ∧ c'.failedRun = c.failedRun ∧
        c'.input.bytes = c.input.bytes) ∧
    (c.input.bytes ≠ [] → ∃ read, input.bytes = read ++ c.input.bytes ∧
      ∀ (input' : Inbound) (tail : List UInt8), input'.atEnd = input.atEnd →
        input'.bytes = read ++ tail →
        ∃ c', (machine serde).Path StepMachine.Any (start input' output) es c' ∧
          c'.phase = c.phase ∧ c'.failedRun = c.failedRun ∧ c'.input.bytes = tail) := by
  have hsound := sound_path hrun
  refine ⟨hsound.inRange, ?_, ?_, ?_, ?_⟩
  · intro hno
    have hphase : c.phase = .greeting ∨ ∃ r, c.phase = .returned r := by
      cases hp : c.phase with
      | greeting => exact Or.inl rfl
      | returned r => exact Or.inr ⟨r, rfl⟩
      | session s =>
        obtain ⟨rest, hadmits, -⟩ := hsound.session s hp
        exact absurd hadmits (hno rest)
      | panicked => exact absurd hp hsound.inRange
    refine ⟨hphase, ?_⟩
    intro e c' hstep
    cases e with
    | greet => rfl
    | read | session =>
      rcases hphase with hp | ⟨r, hp⟩ <;> simp [step, hp] at hstep
  · intro rest hadmits
    refine ⟨?_, ?_⟩
    · cases hp : c.phase with
      | greeting => exact Or.inl rfl
      | returned r => exact absurd hadmits (hsound.returned r hp rest)
      | session s => exact Or.inr ⟨s, rfl⟩
      | panicked => exact absurd hp hsound.inRange
    · intro s hs
      obtain ⟨rest', hadmits', hfollows⟩ := hsound.session s hs
      obtain rfl := admits_unique hadmits hadmits'
      exact ⟨hfollows.within, hfollows.all, fun hfailed =>
        ⟨hfollows.stopped hfailed, hfollows.run (Or.inr hfailed)⟩⟩
  · intro input' hend hbytes
    obtain ⟨c', hpath, hlike, hrest⟩ := replay_same (d := start input' output) hrun
      ⟨rfl, rfl, rfl, hend⟩ hbytes
    exact ⟨c', hpath, hlike.phase, hlike.failedRun, hrest⟩
  · intro hne
    obtain ⟨read, hread, hreplay⟩ := replay_tail hrun hne
    refine ⟨read, hread, ?_⟩
    intro input' tail hend hbytes
    obtain ⟨c', hpath, hlike, hrest⟩ := hreplay (start input' output) tail
      ⟨rfl, rfl, rfl, hend⟩ hbytes
    exact ⟨c', hpath, hlike.phase, hlike.failedRun, hrest⟩

/-- The frames of a client that greets, pings and leaves, and a byte too many. -/
def sampleRequests : List UInt8 :=
  wire (Frame.new .ping .control) ++ (wire (Frame.new .goodbye .control) ++ [0])

def sampleInput : Inbound :=
  ⟨⟨[⟨wire Session.helloFrame ++ sampleRequests, List.cons_ne_nil _ _⟩]⟩,
    some errorBrokenPipe⟩

/-- A pipe that takes three bytes at a time. -/
def sampleOutput : Outbound :=
  ⟨[], 0, ⟨fun _ => 3, fun _ => by omega⟩, fun _ => none⟩

theorem step_greet_admitted (serde : Serde) {c : Connection} {f ack : Frame}
    {rest data : List UInt8} (hphase : c.phase = .greeting)
    (hnext : nextFrame c.input.endError c.input.bytes = (.ok f, rest))
    (hneg : negotiate serde f = .accept ack) (hrel : c.output.Reliable)
    (hdata : ack.encode = .ok data) :
    ∃ c', c.step serde .greet = some c' ∧ c'.phase = .session (Session.start ack) ∧
      c'.input.bytes = rest ∧ c'.input.atEnd = c.input.atEnd := by
  obtain ⟨hread, hrest, hend⟩ := readFrameStatic_leaves c.input
  rw [hnext] at hread hrest
  obtain ⟨output', hwrite, -⟩ := Outbound.writeFrameStatic_spec hrel hdata
  have hgreet : greet serde c.output c.input.readFrameStatic.1 =
      (.session (Session.start ack), output') := by
    rw [hread, mapError_ok]
    simp only [greet, hneg, hwrite]
  refine ⟨{ c with
    input := c.input.readFrameStatic.2
    phase := .session (Session.start ack)
    output := output' }, ?_, rfl, hrest, hend⟩
  simp only [step, hphase, hgreet]

theorem step_read_dispatched (serde : Serde) {c : Connection} {s s' : Session} {f : Frame}
    {rest : List UInt8} (hphase : c.phase = .session s)
    (hnext : nextFrame c.input.endError c.input.bytes = (.ok f, rest))
    (hs : s.step serde (.read (.ok f)) = some s') :
    ∃ c', c.step serde .read = some c' ∧ c'.phase = .session s' ∧
      c'.input.bytes = rest ∧ c'.input.atEnd = c.input.atEnd := by
  obtain ⟨hread, hrest, hend⟩ := readFrameStatic_leaves c.input
  rw [hnext] at hread hrest
  refine ⟨{ c with
    input := c.input.readFrameStatic.2
    phase := .session s'
    failedRun := c.failedRun || s.runFails serde (.read (.ok f)) }, ?_, rfl, hrest, hend⟩
  simp only [step, hphase]
  rw [hread, mapError_ok, afterRead, hs]
  rfl

/-- The client of the example is admitted, PING is dispatched, and GOODBYE ends the
loop. -/
theorem acts_on_requests_sample :
    ∃ es c s, (machine Session.sampleSerde).Path StepMachine.Any
        (start sampleInput sampleOutput) es c ∧
      c.phase = .session s ∧ s.dispatched = [Frame.new .ping .control] ∧
      s.dispatched <+: requests sampleInput.endError sampleRequests ∧
      c.input.bytes = [0] := by
  have hbytes : sampleInput.bytes = wire Session.helloFrame ++ sampleRequests :=
    List.append_nil _
  have hhello := nextFrame_wire sampleInput.endError
    (Frame.encode_of_le (f := Session.helloFrame) (by decide)) sampleRequests
  rw [← hbytes] at hhello
  obtain ⟨c₁, hstep₁, hphase₁, hrest₁, hend₁⟩ :=
    step_greet_admitted Session.sampleSerde (c := start sampleInput sampleOutput) rfl hhello
      (show negotiate Session.sampleSerde _ = .accept Session.helloAckFrame by decide)
      (fun _ => rfl) (Frame.encode_of_le (by decide))
  have hping := nextFrame_wire c₁.input.endError
    (Frame.encode_of_le (f := Frame.new .ping .control) (by decide))
    (wire (Frame.new .goodbye .control) ++ [0])
  rw [show wire (Frame.new .ping .control) ++ (wire (Frame.new .goodbye .control) ++ [0]) =
    c₁.input.bytes from hrest₁.symm] at hping
  obtain ⟨c₂, hstep₂, hphase₂, hrest₂, hend₂⟩ :=
    step_read_dispatched Session.sampleSerde hphase₁ hping rfl
  have hbye := nextFrame_wire c₂.input.endError
    (Frame.encode_of_le (f := Frame.new .goodbye .control) (by decide)) [0]
  rw [← hrest₂] at hbye
  obtain ⟨c₃, hstep₃, hphase₃, hrest₃, -⟩ :=
    step_read_dispatched Session.sampleSerde hphase₂ hbye rfl
  have hpath : (machine Session.sampleSerde).Path StepMachine.Any
      (start sampleInput sampleOutput) [.greet, .read, .read] c₃ :=
    .cons trivial hstep₁ (.cons trivial hstep₂ (.cons trivial hstep₃ (.nil c₃)))
  have hadmits : Admits Session.sampleSerde sampleInput sampleOutput sampleRequests := by
    have hack := Frame.encode_of_le (f := helloAck Session.sampleSerde ⟨1, none⟩) (by decide)
    obtain ⟨o', hwrite, -⟩ :=
      Outbound.writeFrameStatic_spec (o := sampleOutput) (fun _ => rfl) hack
    exact ⟨_, ⟨1, none⟩, hhello, rfl, by decide, rfl, by rw [hwrite]⟩
  refine ⟨_, c₃, _, hpath, hphase₃, by decide, ?_, hrest₃⟩
  exact (((acts_on_requests hpath).2.2.1 sampleRequests hadmits).2 _ hphase₃).1

end Connection

end RemoteAgent
