import RemoteAgent.PipeServer.Session

/-!
# What a client sees of a session

The bytes that a session writes to its pipe, and the frames that they are made
of, in every reachable state.

* `Piped` ties the position of the writer to the bytes that are out: HELLO_ACK,
  then whole frames in the order of the channel, then a part of one more frame
  while it is being written, or after a write that failed.
* `Woven` says that the channel interleaves the frames of the jobs and nothing
  else.  When the ids of the jobs differ, the frames with the id of a job are
  exactly those that the job has sent.
* `session_transcript` puts the two together with the transcripts of the jobs.
-/

namespace RemoteAgent.Session

open CodeLib CodeLib.ByteOrder Protocol IoPump PipeServer
open JobManager (SystemTime Duration)

/-! ## The bytes on the pipe -/

/-- The pipe has got HELLO_ACK, the first `k` frames of the channel, whole, and
`part` after them. -/
structure Written (s : Session) (k : Nat) (part : List UInt8) : Prop where
  le : k ≤ s.enqueued.length
  encoded : ∀ f ∈ s.enqueued.take k, f.encode = .ok f.bytes
  out : s.pipeOut = wire s.helloAck ++ (s.enqueued.take k).flatMap wire ++ part

/-- `part` is the beginning of the frame at position `k` of the channel. -/
def Begins (s : Session) (k : Nat) (part : List UInt8) : Prop :=
  ∃ f, s.enqueued[k]? = some f ∧ part <+: wire f

/-- Where the writer stands, against the bytes that are out. -/
def Piped (s : Session) : Prop :=
  match s.writer with
  | .recv => s.Written s.taken []
  | .write rest next =>
    ∃ k part f, s.taken = k + 1 ∧ s.enqueued[k]? = some f ∧ f.encode = .ok f.bytes ∧
      part ++ rest ++ next.getD [] = wire f ∧ s.Written k part
  | .returned (.error (.io _)) => ∃ k part, s.Begins k part ∧ s.Written k part
  | .returned _ => ∃ k, s.Written k []

/-- More frames on the channel do not touch what is written. -/
theorem Written.mono {s s' : Session} {k : Nat} {part : List UInt8} (h : s.Written k part)
    (hack : s'.helloAck = s.helloAck) (hout : s'.pipeOut = s.pipeOut)
    (henq : s.enqueued <+: s'.enqueued) : s'.Written k part := by
  have htake : s'.enqueued.take k = s.enqueued.take k := by
    obtain ⟨fs, hfs⟩ := henq
    rw [← hfs, List.take_append_of_le_length h.le]
  refine ⟨Nat.le_trans h.le henq.length_le, ?_, ?_⟩
  · rw [htake]
    exact h.encoded
  · rw [htake, hout, hack]
    exact h.out

theorem Piped.mono {s s' : Session} (h : s.Piped) (hack : s'.helloAck = s.helloAck)
    (hout : s'.pipeOut = s.pipeOut) (henq : s.enqueued <+: s'.enqueued)
    (htaken : s'.taken = s.taken) (hwriter : s'.writer = s.writer) : s'.Piped := by
  unfold Piped at h ⊢
  rw [hwriter]
  split at h
  · rw [htaken]
    exact h.mono hack hout henq
  · obtain ⟨k, part, f, hk, hget, henc, hrest, hw⟩ := h
    exact ⟨k, part, f, htaken.trans hk, getElem?_mono henq hget, henc, hrest,
      hw.mono hack hout henq⟩
  · obtain ⟨k, part, ⟨f, hget, hpart⟩, hw⟩ := h
    exact ⟨k, part, ⟨f, getElem?_mono henq hget, hpart⟩, hw.mono hack hout henq⟩
  · obtain ⟨k, hw⟩ := h
    exact ⟨k, hw.mono hack hout henq⟩

/-- One more whole frame is out. -/
theorem Written.succ {s : Session} {k : Nat} {f : Frame} (h : s.Written k (wire f))
    (hget : s.enqueued[k]? = some f) (henc : f.encode = .ok f.bytes) :
    s.Written (k + 1) [] := by
  have hlt : k < s.enqueued.length := (List.getElem?_eq_some_iff.mp hget).1
  have htake : s.enqueued.take (k + 1) = s.enqueued.take k ++ [f] := by
    rw [List.take_add_one, hget]
    rfl
  refine ⟨hlt, ?_, ?_⟩
  · rw [htake]
    intro g hg
    rcases List.mem_append.mp hg with hg | hg
    · exact h.encoded g hg
    · rw [List.mem_singleton.mp hg]
      exact henc
  · rw [htake, List.flatMap_append, List.append_nil, ← List.append_assoc, h.out]
    simp

/-- Some bytes of the frame in hand go out. -/
theorem Written.extend {s s' : Session} {k : Nat} {part more : List UInt8}
    (h : s.Written k part) (hack : s'.helloAck = s.helloAck)
    (henq : s'.enqueued = s.enqueued) (hout : s'.pipeOut = s.pipeOut ++ more) :
    s'.Written k (part ++ more) := by
  refine ⟨?_, ?_, ?_⟩
  · rw [henq]
    exact h.le
  · rw [henq]
    exact h.encoded
  · rw [hout, hack, henq, h.out, List.append_assoc]

theorem Piped.writer {s s' : Session} (h : s.Piped) (hm : WriterMove s s') : s'.Piped := by
  unfold Piped at h
  cases hm with
  | receive f hw hget henc =>
    rw [hw] at h
    refine ⟨s.taken, [], f, rfl, hget, henc, rfl, ?_⟩
    exact h.mono rfl rfl (List.prefix_refl _)
  | refuse f msg hw hget =>
    rw [hw] at h
    exact ⟨s.taken, h.mono rfl rfl (List.prefix_refl _)⟩
  | hungUp hw =>
    rw [hw] at h
    exact ⟨s.taken, h.mono rfl rfl (List.prefix_refl _)⟩
  | failed rest next n e hw =>
    rw [hw] at h
    obtain ⟨k, part, f, hk, hget, henc, hrest, hwritten⟩ := h
    refine ⟨k, part ++ rest.take n, ⟨f, hget, ?_⟩, hwritten.extend rfl rfl rfl⟩
    -- what a failed write leaves behind is the beginning of the frame
    rw [← hrest, List.append_assoc]
    apply (List.prefix_append_right_inj part).mpr
    exact (List.take_prefix n rest).trans (List.prefix_append rest _)
  | wrote rest next n hw hn =>
    rw [hw] at h
    obtain ⟨k, part, f, hk, hget, henc, hrest, hwritten⟩ := h
    have hsplit : part ++ rest.take n ++ rest.drop n ++ next.getD [] = wire f := by
      rw [List.append_assoc part, List.take_append_drop]
      exact hrest
    generalize hpc : WriterPc.afterWrite (rest.drop n) next = pc
    have hmore : ({ s with pipeOut := s.pipeOut ++ rest.take n, writer := pc } :
        Session).Written k (part ++ rest.take n) := hwritten.extend rfl rfl rfl
    unfold WriterPc.afterWrite at hpc
    split at hpc
    · rename_i hempty
      rw [List.isEmpty_iff.mp hempty, List.append_nil] at hsplit
      split at hpc
      · subst hpc
        refine ⟨k, part ++ rest.take n, f, hk, hget, henc, ?_, hmore⟩
        rw [Option.getD_none, List.append_nil]
        exact hsplit
      · -- the frame is complete
        subst hpc
        rw [Option.getD_none, List.append_nil] at hsplit
        rw [hsplit] at hmore
        have hsucc := hmore.succ hget henc
        rw [← hk] at hsucc
        exact hsucc
    · subst hpc
      exact ⟨k, part ++ rest.take n, f, hk, hget, henc, hsplit, hmore⟩

theorem piped_reachable {serde : Serde} {C : Session → Event → Prop} {s : Session}
    (h : (machine serde).Reach C s) : s.Piped := by
  refine h.invariant ?_ ?_
  · rintro _ ⟨hello, ack, -, -, rfl⟩
    exact ⟨Nat.le_refl 0, fun f hf => absurd hf List.not_mem_nil, by simp [start]⟩
  · intro s e s' hs _ hstep
    cases step_move hstep with
    | request requests handled => exact hs.mono rfl rfl (List.prefix_refl _) rfl rfl
    | job i j j' e requests handled hget hallows hjob =>
      exact hs.mono rfl rfl (List.prefix_append _ _) rfl rfl
    | create jobId timeout now last requests =>
      exact hs.mono rfl rfl (List.prefix_refl _) rfl rfl
    | writer e s' hw => exact hs.writer (stepWriter_move hw)

/-! ## The frames on the channel -/

def jobIds (s : Session) : List UInt32 := s.jobs.map fun j => j.handle.jobId

/-- The frames of one job. -/
def ofJob (jobId : UInt32) (fs : List Frame) : List Frame :=
  fs.filter fun f => f.jobId = jobId

/-- Every frame on the channel is one of a job, and the frames of each job are
those that it has sent, in its order. -/
structure Woven (s : Session) : Prop where
  owned : ∀ f ∈ s.enqueued, f.jobId ∈ s.jobIds
  sent : s.jobIds.Nodup → ∀ (i : Nat) (j : Job), s.jobs[i]? = some j →
    ofJob j.handle.jobId s.enqueued = j.sent

theorem ofJob_append (jobId : UInt32) (fs gs : List Frame) :
    ofJob jobId (fs ++ gs) = ofJob jobId fs ++ ofJob jobId gs := List.filter_append ..

theorem ofJob_self {jobId : UInt32} {fs : List Frame} (h : ∀ f ∈ fs, f.jobId = jobId) :
    ofJob jobId fs = fs := by
  apply List.filter_eq_self.mpr
  intro f hf
  exact decide_eq_true (h f hf)

theorem ofJob_ne {jobId jobId' : UInt32} {fs : List Frame}
    (h : ∀ f ∈ fs, f.jobId = jobId) (hne : jobId' ≠ jobId) : ofJob jobId' fs = [] := by
  apply List.filter_eq_nil_iff.mpr
  intro f hf
  rw [h f hf]
  simp [hne.symm]

/-- A step of a job does not change the ids of the session. -/
theorem jobIds_set {s : Session} {i : Nat} {j j' : Job} (hget : s.jobs[i]? = some j)
    (hid : j'.handle.jobId = j.handle.jobId) :
    (s.jobs.set i j').map (fun j => j.handle.jobId) = s.jobIds := by
  unfold jobIds
  rw [List.map_set, hid]
  apply List.ext_getElem?
  intro k
  by_cases hk : k = i
  · subst hk
    simp [List.getElem?_set_self', hget]
  · rw [List.getElem?_set_ne (Ne.symm hk)]

theorem Woven.job {s : Session} {i : Nat} {j j' : Job} {e : Job.Event} (hs : s.Woven)
    (hsp : j'.Speaking) (hget : s.jobs[i]? = some j) (hstep : j.step e = some j')
    (requests : RequestPc) (handled : List Frame) :
    Woven { s with
      jobs := s.jobs.set i j'
      enqueued := s.enqueued ++ j'.sent.drop j.sent.length
      requests := requests
      handled := handled } := by
  have hid : j'.handle.jobId = j.handle.jobId := Job.step_jobId hstep
  have hids : (s.jobs.set i j').map (fun j => j.handle.jobId) = s.jobIds :=
    jobIds_set hget hid
  obtain ⟨fs, -, hsent⟩ := Job.step_sends hstep
  have hdrop : j'.sent.drop j.sent.length = fs := by rw [hsent, List.drop_left]
  rw [hdrop]
  have hfs : ∀ f ∈ fs, f.jobId = j.handle.jobId := by
    intro f hf
    rw [← hid]
    apply hsp.jobId
    rw [hsent]
    exact List.mem_append_right _ hf
  refine ⟨?_, ?_⟩
  · intro f hf
    show f.jobId ∈ (s.jobs.set i j').map _
    rw [hids]
    rcases List.mem_append.mp hf with hf | hf
    · exact hs.owned f hf
    · rw [hfs f hf]
      exact List.mem_map_of_mem (List.mem_of_getElem? hget)
  · intro hnodup k x hk
    have hnodup' : s.jobIds.Nodup := by
      rw [← hids]
      exact hnodup
    show ofJob x.handle.jobId (s.enqueued ++ fs) = x.sent
    rw [ofJob_append]
    rcases getElem?_set_cases hk with ⟨rfl, rfl⟩ | ⟨hne, hk⟩
    · rw [hid, hs.sent hnodup' k j hget, ofJob_self hfs, hsent]
    · -- another job has another id
      have hother : x.handle.jobId ≠ j.handle.jobId := by
        intro heq
        apply hne
        have hlt : k < s.jobIds.length := by
          rw [jobIds, List.length_map]
          exact (List.getElem?_eq_some_iff.mp hk).1
        apply (List.getElem?_inj hlt hnodup').mp
        rw [jobIds, List.getElem?_map, List.getElem?_map, hk, hget]
        exact congrArg some heq
      rw [ofJob_ne hfs hother, List.append_nil]
      exact hs.sent hnodup' k x hk

theorem Woven.create {s : Session} (hs : s.Woven) (jobId : UInt32)
    (timeout : Option Duration) (now last : SystemTime) (requests : RequestPc) :
    Woven { s with
      jobs := s.jobs ++ [Job.create jobId timeout now last], requests := requests } := by
  have hids : (s.jobs ++ [Job.create jobId timeout now last]).map
      (fun j => j.handle.jobId) = s.jobIds ++ [jobId] := by
    rw [List.map_append]
    rfl
  refine ⟨?_, ?_⟩
  · intro f hf
    show f.jobId ∈ (s.jobs ++ _).map _
    rw [hids]
    exact List.mem_append_left _ (hs.owned f hf)
  · intro hnodup k x hk
    have hnodup' : (s.jobIds ++ [jobId]).Nodup := by
      rw [← hids]
      exact hnodup
    rw [List.nodup_append] at hnodup'
    obtain ⟨hold, -, hnew⟩ := hnodup'
    rcases getElem?_concat_cases hk with hk | ⟨-, rfl⟩
    · exact hs.sent hold k x hk
    · -- no frame has the id of a job that was not there
      show ofJob jobId s.enqueued = []
      apply List.filter_eq_nil_iff.mpr
      intro f hf heq
      exact hnew f.jobId (hs.owned f hf) jobId (List.mem_singleton_self _)
        (of_decide_eq_true heq)

theorem woven_reachable {serde : Serde} {C : Session → Event → Prop} {s : Session}
    (h : (machine serde).Reach C s) : s.Woven := by
  refine h.invariant_of (J := fun s => ∀ j ∈ s.jobs, Job.machine.Reachable j)
    (fun _ hr => jobs_reachable hr) ?_ ?_
  · rintro _ ⟨hello, ack, -, -, rfl⟩
    exact ⟨fun f hf => absurd hf List.not_mem_nil, fun _ i j hj => by cases hj⟩
  · intro s e s' hjobs hs _ hstep
    cases step_move hstep with
    | request requests handled => exact ⟨hs.owned, hs.sent⟩
    | job i j j' e requests handled hget hallows hjob =>
      have hreach := hjobs j (List.mem_of_getElem? hget)
      have hsp : j'.Speaking := Job.speaking_reachable (hreach.step trivial hjob)
      exact hs.job hsp hget hjob requests handled
    | create jobId timeout now last requests =>
      exact hs.create jobId timeout now last requests
    | writer e s' hw =>
      obtain ⟨hj, he⟩ := stepWriter_keeps hw
      refine ⟨?_, ?_⟩
      · rw [jobIds, hj, he]
        exact hs.owned
      · rw [jobIds, hj, he]
        exact hs.sent

/-! ## The session as a whole -/

/-- The writer is inside a frame, or a write has failed. -/
def interrupted (s : Session) : Bool :=
  match s.writer with
  | .write _ _ => true
  | .returned (.error (.io _)) => true
  | _ => false

/-- What a client can rely on.  The pipe carries HELLO_ACK and whole frames, in
the order of the channel; only the last frame may be incomplete, and only while
it is being written or after a write that failed.  Every frame is one of a job,
and up to any moment the frames of each job are a transcript. -/
structure Legible (s : Session) : Prop where
  bytes : ∃ k part, s.Written k part ∧
    (part = [] ∨ s.Begins k part ∧ s.interrupted = true)
  owned : ∀ f ∈ s.enqueued, f.jobId ∈ s.jobIds
  jobs : ∀ j ∈ s.jobs, ∀ fs, fs <+: s.enqueued →
    Job.Transcript j.handle.jobId (ofJob j.handle.jobId fs)

theorem Piped.bytes {s : Session} (h : s.Piped) :
    ∃ k part, s.Written k part ∧ (part = [] ∨ s.Begins k part ∧ s.interrupted = true) := by
  unfold Piped at h
  unfold interrupted
  split at h
  · exact ⟨s.taken, [], h, .inl rfl⟩
  · rename_i rest next hw
    obtain ⟨k, part, f, -, hget, -, hrest, hwritten⟩ := h
    refine ⟨k, part, hwritten, .inr ⟨⟨f, hget, ?_⟩, ?_⟩⟩
    · rw [← hrest, List.append_assoc]
      exact List.prefix_append part _
    · rw [hw]
  · rename_i e hw
    obtain ⟨k, part, hbegins, hwritten⟩ := h
    exact ⟨k, part, hwritten, .inr ⟨hbegins, by rw [hw]⟩⟩
  · obtain ⟨k, hwritten⟩ := h
    exact ⟨k, [], hwritten, .inl rfl⟩

/-- Every session whose jobs have different ids is legible in every state that
any interleaving of its request loop, its jobs and its writer reaches. -/
theorem session_transcript {serde : Serde} {C : Session → Event → Prop} {s : Session}
    (h : (machine serde).Reach C s) (hids : s.jobIds.Nodup) : s.Legible := by
  have hwoven := woven_reachable h
  refine ⟨(piped_reachable h).bytes, hwoven.owned, ?_⟩
  intro j hj fs hfs
  obtain ⟨i, hget⟩ := List.getElem?_of_mem hj
  have hsent : ofJob j.handle.jobId s.enqueued = j.sent := hwoven.sent hids i j hget
  have htranscript : Job.Transcript j.handle.jobId j.sent :=
    Job.transcript_reachable (jobs_reachable h j hj)
  rw [← hsent] at htranscript
  exact htranscript.mono (hfs.filter _)

/-- Two jobs, with output of the first between the frames of the second, and a
client that goes away inside the second frame. -/
def twoJobs : List Event :=
  runEvents 0 1 ++ [.job 0 (.os (.write .stdout [104]))] ++
    runEvents 1 2 ++ (Job.pumpEvents .stdout (.ok [104])).map (.job 0) ++
    [.writer .received, .writer (.wrote 4), .writer (.wrote 12), .writer .received,
      .writer (.wrote 4), .writer (.writeFailed 232 5)]

theorem session_transcript_two :
    ∃ s, (machine sampleSerde).Reachable s ∧ s.jobIds = [1, 2] ∧
      s.enqueued.map (fun f => (f.jobId, f.frameType)) =
        [(1, .runAck), (2, .runAck), (1, .output)] ∧
      s.pipeOut.length = (wire helloAckFrame).length + 16 + 9 ∧ s.Legible := by
  obtain ⟨s, hr, hp⟩ := StepMachine.reach_of_runIf (machine sampleSerde) StepMachine.Any
    initial_sample twoJobs
    (fun s => s.jobIds = [1, 2] &&
      s.enqueued.map (fun f => (f.jobId, f.frameType)) =
        [(1, .runAck), (2, .runAck), (1, .output)] &&
      s.pipeOut.length = (wire helloAckFrame).length + 16 + 9)
    (by decide +kernel)
  obtain ⟨⟨hids, henq⟩, hlen⟩ : (s.jobIds = [1, 2] ∧
      s.enqueued.map (fun f => (f.jobId, f.frameType)) =
        [(1, .runAck), (2, .runAck), (1, .output)]) ∧
      s.pipeOut.length = (wire helloAckFrame).length + 16 + 9 := by simpa using hp
  exact ⟨s, hr, hids, henq, hlen, session_transcript hr (by rw [hids]; decide)⟩

end RemoteAgent.Session
