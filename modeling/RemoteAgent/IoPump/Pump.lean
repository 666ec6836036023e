import RemoteAgent.CodeLib.Lists
import RemoteAgent.Protocol.Frame

/-!
# The output pump

`io_pump.rs`: the window that both pumps of a job share, one read of a child's
pipe, and the pump task itself as a machine of atomic steps.

A pump task checks the cancellation token, reads a chunk, and sends it as an
OUTPUT frame through `try_send_frame`, until the pipe ends or the token is
cancelled; then it sends an empty frame with the end-of-stream flag.
`try_send_frame` loads the bytes in flight, loads the window and tests, adds to
the bytes in flight, and sends on the channel; these are separate steps, so the
two pumps of a job interleave inside it.  A pump whose test fails waits for a
notification, and after one it starts the test again.

* `Move` and `ReadMove` say once what a step of a pump can do.
* `Pump.Sound` relates a pump to the frames of its stream that the channel has
  accepted: they are numbered from zero, and only the last may end the stream.
  `Pump.Sound.step` is its step lemma.
-/

namespace RemoteAgent.IoPump

open CodeLib Protocol

/-! ## The window -/

/-- `StreamPump`.  The waiters of `window_condvar` are the pumps that stand at
`SendPc.waiting`. -/
structure StreamPump where
  sendWindow : UInt64
  bytesInFlight : UInt64
  dropPolicy : Bool
  deriving DecidableEq, Repr

namespace StreamPump

def new (initialWindow : UInt64) (dropPolicy : Bool) : StreamPump where
  sendWindow := initialWindow
  bytesInFlight := 0
  dropPolicy := dropPolicy

/-- `update_window`, run without interruption. -/
def updateWindow (w : StreamPump) (bytesConsumed : UInt64) : StreamPump :=
  { w with
    sendWindow := w.sendWindow + bytesConsumed
    bytesInFlight := w.bytesInFlight - min bytesConsumed w.bytesInFlight }

/-- The guard of `try_send_frame`, on the values that it has loaded.  The
release profile has overflow checks off, so the sum wraps. -/
def guard (inFlight dataLen window : UInt64) : Bool := inFlight + dataLen ≤ window

end StreamPump

/-- `frame.payload.len() as u64`. -/
def dataLen (f : Frame) : UInt64 := UInt64.ofNat f.payload.length

/-! ## Reading a pipe -/

/-- What `ReadFile` on a child's pipe returns: success with some bytes, or a
Win32 error with the bytes that were read before it. -/
inductive ReadOutcome where
  | ok (data : List UInt8)
  | err (code : UInt32) (data : List UInt8)
  deriving DecidableEq, Repr

structure PipeReadResult where
  data : List UInt8
  bytesRead : Nat
  isEof : Bool
  deriving DecidableEq, Repr

def readPipeBlocking : ReadOutcome → Except Error PipeReadResult
  | .ok data =>
    if data.length = 0 then .ok ⟨[], 0, true⟩
    else .ok ⟨data, data.length, false⟩
  | .err code data =>
    if hresultFromWin32 code = hresultFromWin32 errorBrokenPipe then .ok ⟨[], 0, true⟩
    else if hresultFromWin32 code = hresultFromWin32 errorMoreData then
      .ok ⟨data, data.length, false⟩
    else .error (.io (.rawOs (hresultFromWin32 code)))

/-! ## The pump task -/

/-- Where a call of `try_send_frame` stands. -/
inductive SendPc where
  | loadInFlight
  | loadWindow (inFlight : UInt64)
  | fetchAdd
  | send
  | waiting
  deriving DecidableEq, Repr

/-- Where a pump stands.  `last` marks the frame that ends the stream. -/
inductive PumpPc where
  | notSpawned
  | checkToken
  | read
  | trySend (last : Bool) (f : Frame) (pc : SendPc)
  | returned (r : Except Error Unit)
  deriving DecidableEq

structure Pump where
  sequence : UInt32
  pc : PumpPc
  deriving DecidableEq

/-- A pump before its task is spawned. -/
def Pump.fresh : Pump := ⟨0, .notSpawned⟩

/-- What happens to a pump in one step: it runs on, its read returns, its send
on the channel succeeds or finds the channel closed, or it is notified. -/
inductive PumpEvent where
  | step
  | readDone (r : ReadOutcome)
  | sent
  | closed
  | notified
  deriving DecidableEq, Repr

/-- The frame of one chunk. -/
def dataFrame (jobId : UInt32) (streamId : StreamId) (sequence : UInt32)
    (data : List UInt8) : Frame :=
  (((Frame.new .output streamId).withJobId jobId).withSequence sequence).withPayload data

/-- The frame that ends a stream. -/
def eosFrame (jobId : UInt32) (streamId : StreamId) (sequence : UInt32) : Frame :=
  (((Frame.new .output streamId).withJobId jobId).withSequence sequence).withFlag flagEos

/-- The error of a send on a closed channel. -/
def sendError : Error := .protocol "Failed to send frame: channel closed"

namespace Pump

/-- After a frame is sent or dropped the loop goes on, unless it was the last. -/
def afterSend (p : Pump) (last : Bool) : Pump :=
  { p with pc := if last then .returned (.ok ()) else .checkToken }

/-- Leave the read loop. -/
def finish (jobId : UInt32) (streamId : StreamId) (p : Pump) : Pump :=
  { p with pc := .trySend true (eosFrame jobId streamId p.sequence) .loadInFlight }

/-- What the pump does with the result of a read. -/
def handleRead (jobId : UInt32) (streamId : StreamId) (p : Pump) (r : ReadOutcome) :
    Pump :=
  match readPipeBlocking r with
  | .error e => { p with pc := .returned (.error e) }
  | .ok result =>
    if result.isEof then p.finish jobId streamId
    else if result.bytesRead = 0 then { p with pc := .checkToken }
    else
      { sequence := p.sequence + 1
        pc := .trySend false (dataFrame jobId streamId p.sequence result.data)
          .loadInFlight }

/-- One step of a pump, with the window after it and the frame that the channel
has accepted in it. -/
def step (jobId : UInt32) (streamId : StreamId) (token : Bool) (w : StreamPump)
    (p : Pump) : PumpEvent → Option (StreamPump × Pump × List Frame) :=
  fun e =>
    match p.pc, e with
    | .checkToken, .step =>
      if token then some (w, p.finish jobId streamId, [])
      else some (w, { p with pc := .read }, [])
    | .read, .readDone r => some (w, p.handleRead jobId streamId r, [])
    | .trySend last f .loadInFlight, .step =>
      some (w, { p with pc := .trySend last f (.loadWindow w.bytesInFlight) }, [])
    | .trySend last f (.loadWindow inFlight), .step =>
      if StreamPump.guard inFlight (dataLen f) w.sendWindow then
        some (w, { p with pc := .trySend last f .fetchAdd }, [])
      else if w.dropPolicy then some (w, p.afterSend last, [])
      else some (w, { p with pc := .trySend last f .waiting }, [])
    | .trySend last f .fetchAdd, .step =>
      some ({ w with bytesInFlight := w.bytesInFlight + dataLen f },
        { p with pc := .trySend last f .send }, [])
    | .trySend last f .send, .sent => some (w, p.afterSend last, [f])
    | .trySend _ _ .send, .closed =>
      some (w, { p with pc := .returned (.error sendError) }, [])
    | .trySend last f .waiting, .notified =>
      some (w, { p with pc := .trySend last f .loadInFlight }, [])
    | _, _ => none

end Pump

/-! ## What a step of a pump can do -/

/-- What the pump makes of a read. -/
inductive ReadMove (jobId : UInt32) (streamId : StreamId) (p : Pump) :
    ReadOutcome → Pump → Prop where
  | error (code : UInt32) (data : List UInt8) (e : Error) :
    ReadMove jobId streamId p (.err code data) { p with pc := .returned (.error e) }
  | eof (r : ReadOutcome)
    (hr : r = .ok [] ∨
      ∃ code data, r = .err code data ∧
        hresultFromWin32 code = hresultFromWin32 errorBrokenPipe) :
    ReadMove jobId streamId p r (p.finish jobId streamId)
  | nothing (code : UInt32) :
    ReadMove jobId streamId p (.err code []) { p with pc := .checkToken }
  | data (r : ReadOutcome) (data : List UInt8) (hne : data ≠ [])
    (hr : r = .ok data ∨
      ∃ code, r = .err code data ∧
        hresultFromWin32 code = hresultFromWin32 errorMoreData) :
    ReadMove jobId streamId p r
      { sequence := p.sequence + 1
        pc := .trySend false (dataFrame jobId streamId p.sequence data) .loadInFlight }

/-- The moves of a pump, one constructor for each branch of the code. -/
inductive Move (jobId : UInt32) (streamId : StreamId) (token : Bool) (w : StreamPump)
    (p : Pump) : PumpEvent → StreamPump → Pump → List Frame → Prop where
  | cancelled (hpc : p.pc = .checkToken) (ht : token = true) :
    Move jobId streamId token w p .step w (p.finish jobId streamId) []
  | goOn (hpc : p.pc = .checkToken) (ht : token = false) :
    Move jobId streamId token w p .step w { p with pc := .read } []
  | read (r : ReadOutcome) (p' : Pump) (hpc : p.pc = .read)
    (hm : ReadMove jobId streamId p r p') :
    Move jobId streamId token w p (.readDone r) w p' []
  | load (last : Bool) (f : Frame) (hpc : p.pc = .trySend last f .loadInFlight) :
    Move jobId streamId token w p .step w
      { p with pc := .trySend last f (.loadWindow w.bytesInFlight) } []
  | pass (last : Bool) (f : Frame) (inFlight : UInt64)
    (hpc : p.pc = .trySend last f (.loadWindow inFlight))
    (hg : StreamPump.guard inFlight (dataLen f) w.sendWindow = true) :
    Move jobId streamId token w p .step w { p with pc := .trySend last f .fetchAdd } []
  | drop (last : Bool) (f : Frame) (inFlight : UInt64)
    (hpc : p.pc = .trySend last f (.loadWindow inFlight)) (hd : w.dropPolicy = true) :
    Move jobId streamId token w p .step w (p.afterSend last) []
  | block (last : Bool) (f : Frame) (inFlight : UInt64)
    (hpc : p.pc = .trySend last f (.loadWindow inFlight)) :
    Move jobId streamId token w p .step w { p with pc := .trySend last f .waiting } []
  | reserve (last : Bool) (f : Frame) (hpc : p.pc = .trySend last f .fetchAdd) :
    Move jobId streamId token w p .step
      { w with bytesInFlight := w.bytesInFlight + dataLen f }
      { p with pc := .trySend last f .send } []
  | send (last : Bool) (f : Frame) (hpc : p.pc = .trySend last f .send) :
    Move jobId streamId token w p .sent w (p.afterSend last) [f]
  | refused (last : Bool) (f : Frame) (hpc : p.pc = .trySend last f .send) :
    Move jobId streamId token w p .closed w
      { p with pc := .returned (.error sendError) } []
  | notified (last : Bool) (f : Frame) (hpc : p.pc = .trySend last f .waiting) :
    Move jobId streamId token w p .notified w
      { p with pc := .trySend last f .loadInFlight } []

namespace Pump

section moves

variable {jobId : UInt32} {streamId : StreamId} {token : Bool} {w w' : StreamPump}
  {p p' : Pump} {e : PumpEvent} {fs : List Frame}

theorem handleRead_move (p : Pump) (r : ReadOutcome) :
    ReadMove jobId streamId p r (p.handleRead jobId streamId r) := by
  cases r with
  | ok data =>
    cases data with
    | nil => exact .eof _ (.inl rfl)
    | cons b bs =>
      have h : p.handleRead jobId streamId (.ok (b :: bs)) =
          { sequence := p.sequence + 1
            pc := .trySend false (dataFrame jobId streamId p.sequence (b :: bs))
              .loadInFlight } := by
        simp [handleRead, readPipeBlocking]
      rw [h]
      exact .data _ _ (by simp) (.inl rfl)
  | err code data =>
    unfold handleRead readPipeBlocking
    by_cases hb : hresultFromWin32 code = hresultFromWin32 errorBrokenPipe
    · simp only [hb, if_true]
      exact .eof _ (.inr ⟨code, data, rfl, hb⟩)
    · by_cases hm : hresultFromWin32 code = hresultFromWin32 errorMoreData
      · cases data with
        | nil =>
          simp only [hm, if_true]
          exact .nothing code
        | cons b bs =>
          simp only [hm, if_true]
          exact .data _ _ (by simp) (.inr ⟨code, rfl, hm⟩)
      · simp only [hb, if_false, hm]
        exact .error code data _

theorem step_move (h : p.step jobId streamId token w e = some (w', p', fs)) :
    Move jobId streamId token w p e w' p' fs := by
  unfold step at h
  split at h
  · rename_i hpc
    split at h
    · rename_i ht
      cases h
      exact .cancelled hpc ht
    · rename_i ht
      cases h
      exact .goOn hpc (by simpa using ht)
  · rename_i r hpc
    cases h
    exact .read r _ hpc (handleRead_move p r)
  · rename_i last f hpc
    cases h
    exact .load last f hpc
  · rename_i last f inFlight hpc
    split at h
    · rename_i hg
      cases h
      exact .pass last f inFlight hpc hg
    · split at h
      · rename_i hd
        cases h
        exact .drop last f inFlight hpc hd
      · cases h
        exact .block last f inFlight hpc
  · rename_i last f hpc
    cases h
    exact .reserve last f hpc
  · rename_i last f hpc
    cases h
    exact .send last f hpc
  · rename_i last f hpc
    cases h
    exact .refused last f hpc
  · rename_i last f hpc
    cases h
    exact .notified last f hpc
  · exact absurd h (by simp)

end moves

end Pump

/-! ## The frames of one stream -/

/-- A frame that a pump sends for a stream. -/
def OfStream (jobId : UInt32) (streamId : StreamId) (f : Frame) : Prop :=
  f.frameType = .output ∧ f.streamId = streamId ∧ f.jobId = jobId

/-- The sequence numbers count from zero and wrap at 2^32. -/
def Numbered (fs : List Frame) : Prop :=
  ∀ i f, fs[i]? = some f → f.sequenceNumber = UInt32.ofNat i

/-- A frame that ends the stream is the last one. -/
def EndsLast (fs : List Frame) : Prop :=
  ∀ i f, fs[i]? = some f → f.hasFlag flagEos = true → i + 1 = fs.length

/-- No frame ends the stream. -/
def Unended (fs : List Frame) : Prop := ∀ f ∈ fs, f.hasFlag flagEos = false

theorem dataFrame_hasFlag (jobId : UInt32) (streamId : StreamId) (sequence : UInt32)
    (data : List UInt8) :
    (dataFrame jobId streamId sequence data).hasFlag flagEos = false := by
  show (((0 : UInt16) &&& flagEos) != 0) = false
  decide

theorem eosFrame_hasFlag (jobId : UInt32) (streamId : StreamId) (sequence : UInt32) :
    (eosFrame jobId streamId sequence).hasFlag flagEos = true := by
  show ((((0 : UInt16) ||| flagEos) &&& flagEos) != 0) = true
  decide

theorem Numbered.concat {fs : List Frame} {f : Frame} (h : Numbered fs)
    (hf : f.sequenceNumber = UInt32.ofNat fs.length) : Numbered (fs ++ [f]) := by
  intro i g hg
  rcases getElem?_concat_cases hg with hg | ⟨rfl, rfl⟩
  · exact h i g hg
  · exact hf

theorem Numbered.mono {fs gs : List Frame} (h : Numbered gs) (hp : fs <+: gs) :
    Numbered fs := by
  intro i f hf
  exact h i f (getElem?_mono hp hf)

theorem EndsLast.mono {fs gs : List Frame} (h : EndsLast gs) (hp : fs <+: gs) :
    EndsLast fs := by
  intro i f hf hflag
  have hlast : i + 1 = gs.length := h i f (getElem?_mono hp hf) hflag
  have hlt : i < fs.length := (List.getElem?_eq_some_iff.mp hf).1
  have hle : fs.length ≤ gs.length := hp.length_le
  omega

theorem Unended.endsLast {fs : List Frame} (h : Unended fs) : EndsLast fs := by
  intro i f hf hflag
  rw [h f (List.mem_of_getElem? hf)] at hflag
  exact absurd hflag (by simp)

theorem Unended.concat {fs : List Frame} {f : Frame} (h : Unended fs)
    (hf : f.hasFlag flagEos = false) : Unended (fs ++ [f]) := by
  intro g hg
  rcases List.mem_append.mp hg with hg | hg
  · exact h g hg
  · rw [List.mem_singleton.mp hg]
    exact hf

theorem Unended.concat_endsLast {fs : List Frame} (h : Unended fs) (f : Frame) :
    EndsLast (fs ++ [f]) := by
  intro i g hg hflag
  rcases getElem?_concat_cases hg with hg | ⟨rfl, rfl⟩
  · rw [h g (List.mem_of_getElem? hg)] at hflag
    exact absurd hflag (by simp)
  · simp

namespace Pump

/-- Where a pump stands, against the number of frames that it has sent. -/
def At (jobId : UInt32) (streamId : StreamId) (p : Pump) (fs : List Frame) : Prop :=
  match p.pc with
  | .notSpawned | .checkToken | .read =>
    p.sequence = UInt32.ofNat fs.length ∧ Unended fs
  | .trySend false f _ =>
    (∃ data, f = dataFrame jobId streamId (UInt32.ofNat fs.length) data) ∧
      p.sequence = UInt32.ofNat (fs.length + 1) ∧ Unended fs
  | .trySend true f _ =>
    f = eosFrame jobId streamId (UInt32.ofNat fs.length) ∧ Unended fs
  | .returned _ => EndsLast fs

/-- A pump and the frames of its stream that the channel has accepted. -/
structure Sound (jobId : UInt32) (streamId : StreamId) (p : Pump) (fs : List Frame) :
    Prop where
  ofStream : ∀ f ∈ fs, OfStream jobId streamId f
  numbered : Numbered fs
  at_pc : p.At jobId streamId fs

theorem Sound.endsLast {jobId : UInt32} {streamId : StreamId} {p : Pump}
    {fs : List Frame} (h : p.Sound jobId streamId fs) : EndsLast fs := by
  have hat := h.at_pc
  unfold At at hat
  split at hat
  · exact hat.2.endsLast
  · exact hat.2.endsLast
  · exact hat.2.endsLast
  · exact hat.2.2.endsLast
  · exact hat.2.endsLast
  · exact hat

theorem sound_fresh (jobId : UInt32) (streamId : StreamId) :
    fresh.Sound jobId streamId [] where
  ofStream := fun _ h => absurd h List.not_mem_nil
  numbered := fun _ _ h => by simp at h
  at_pc := ⟨rfl, fun _ h => absurd h List.not_mem_nil⟩

/-- The frame that a pump is about to send belongs to its stream and carries the
next number. -/
theorem At.frame {jobId : UInt32} {streamId : StreamId} {p : Pump} {fs : List Frame}
    {last : Bool} {f : Frame} {pc : SendPc} (h : p.At jobId streamId fs)
    (hpc : p.pc = .trySend last f pc) :
    OfStream jobId streamId f ∧ f.sequenceNumber = UInt32.ofNat fs.length ∧
      f.hasFlag flagEos = last ∧ Unended fs := by
  unfold At at h
  rw [hpc] at h
  cases last with
  | false =>
    obtain ⟨⟨data, rfl⟩, -, hun⟩ := h
    exact ⟨⟨rfl, rfl, rfl⟩, rfl, dataFrame_hasFlag .., hun⟩
  | true =>
    obtain ⟨rfl, hun⟩ := h
    exact ⟨⟨rfl, rfl, rfl⟩, rfl, eosFrame_hasFlag .., hun⟩

/-- Moving inside `try_send_frame` keeps the position. -/
theorem At.trySend {jobId : UInt32} {streamId : StreamId} {p : Pump} {fs : List Frame}
    {last : Bool} {f : Frame} {pc : SendPc} (h : p.At jobId streamId fs)
    (hpc : p.pc = .trySend last f pc) (pc' : SendPc) :
    ({ p with pc := .trySend last f pc' } : Pump).At jobId streamId fs := by
  unfold At at h ⊢
  rw [hpc] at h
  cases last <;> exact h

theorem At.finish {jobId : UInt32} {streamId : StreamId} {p : Pump} {fs : List Frame}
    (hseq : p.sequence = UInt32.ofNat fs.length) (hun : Unended fs) :
    (p.finish jobId streamId).At jobId streamId fs := by
  show eosFrame jobId streamId p.sequence = _ ∧ _
  rw [hseq]
  exact ⟨rfl, hun⟩

theorem At.read {jobId : UInt32} {streamId : StreamId} {p p' : Pump} {fs : List Frame}
    {r : ReadOutcome} (hseq : p.sequence = UInt32.ofNat fs.length) (hun : Unended fs)
    (hm : ReadMove jobId streamId p r p') : p'.At jobId streamId fs := by
  cases hm with
  | error code data e => exact hun.endsLast
  | eof r hr => exact At.finish hseq hun
  | nothing code => exact ⟨hseq, hun⟩
  | data r data hne hr =>
    refine ⟨⟨data, by rw [hseq]⟩, ?_, hun⟩
    show p.sequence + 1 = _
    rw [hseq, UInt32.ofNat_add]
    rfl

/-- A frame that was sent, dropped or refused is behind the pump. -/
theorem At.afterSend {jobId : UInt32} {streamId : StreamId} {p : Pump} {fs : List Frame}
    {last : Bool} {f : Frame} {pc : SendPc} (h : p.At jobId streamId fs)
    (hpc : p.pc = .trySend last f pc) :
    (p.afterSend last).At jobId streamId (fs ++ [f]) := by
  have hf := h.frame hpc
  unfold At at h
  rw [hpc] at h
  cases last with
  | false =>
    obtain ⟨-, hseq, hun⟩ := h
    refine ⟨?_, hun.concat hf.2.2.1⟩
    rw [List.length_append, List.length_singleton]
    exact hseq
  | true =>
    obtain ⟨-, hun⟩ := h
    exact hun.concat_endsLast f

/-- A step of a pump keeps it in line with the frames of its stream. -/
theorem Sound.step {jobId : UInt32} {streamId : StreamId} {token : Bool}
    {w w' : StreamPump} {p p' : Pump} {e : PumpEvent} {sent fs : List Frame}
    (hp : p.Sound jobId streamId sent) (hw : w.dropPolicy = false)
    (h : p.step jobId streamId token w e = some (w', p', fs)) :
    p'.Sound jobId streamId (sent ++ fs) := by
  obtain ⟨hof, hnum, hat⟩ := hp
  cases step_move h with
  | cancelled hpc ht =>
    rw [List.append_nil]
    unfold At at hat
    rw [hpc] at hat
    exact ⟨hof, hnum, At.finish hat.1 hat.2⟩
  | goOn hpc ht =>
    rw [List.append_nil]
    unfold At at hat
    rw [hpc] at hat
    exact ⟨hof, hnum, hat⟩
  | read r p' hpc hm =>
    rw [List.append_nil]
    unfold At at hat
    rw [hpc] at hat
    exact ⟨hof, hnum, At.read hat.1 hat.2 hm⟩
  | load last f hpc =>
    rw [List.append_nil]
    exact ⟨hof, hnum, hat.trySend hpc _⟩
  | pass last f inFlight hpc hg =>
    rw [List.append_nil]
    exact ⟨hof, hnum, hat.trySend hpc _⟩
  | drop last f inFlight hpc hd =>
    rw [hw] at hd
    exact absurd hd (by simp)
  | block last f inFlight hpc =>
    rw [List.append_nil]
    exact ⟨hof, hnum, hat.trySend hpc _⟩
  | reserve last f hpc =>
    rw [List.append_nil]
    exact ⟨hof, hnum, hat.trySend hpc _⟩
  | send last f hpc =>
    obtain ⟨hf, hseq, -⟩ := hat.frame hpc
    refine ⟨?_, hnum.concat hseq, hat.afterSend hpc⟩
    intro g hg
    rcases List.mem_append.mp hg with hg | hg
    · exact hof g hg
    · rw [List.mem_singleton.mp hg]
      exact hf
  | refused last f hpc =>
    rw [List.append_nil]
    exact ⟨hof, hnum, (hat.frame hpc).2.2.2.endsLast⟩
  | notified last f hpc =>
    rw [List.append_nil]
    exact ⟨hof, hnum, hat.trySend hpc _⟩

theorem step_dropPolicy {jobId : UInt32} {streamId : StreamId} {token : Bool}
    {w w' : StreamPump} {p p' : Pump} {e : PumpEvent} {fs : List Frame}
    (h : p.step jobId streamId token w e = some (w', p', fs)) :
    w'.dropPolicy = w.dropPolicy := by
  cases step_move h <;> rfl

/-- No step of a pump changes the size of the window. -/
theorem step_sendWindow {jobId : UInt32} {streamId : StreamId} {token : Bool}
    {w w' : StreamPump} {p p' : Pump} {e : PumpEvent} {fs : List Frame}
    (h : p.step jobId streamId token w e = some (w', p', fs)) :
    w'.sendWindow = w.sendWindow := by
  cases step_move h <;> rfl

end Pump

end RemoteAgent.IoPump
