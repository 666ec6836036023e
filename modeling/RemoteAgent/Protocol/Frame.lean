import Mathlib.Data.Set.Function
import RemoteAgent.CodeLib.ByteOrder
import RemoteAgent.Error

/-!
# Frames and their codec

`protocol.rs`: the frame types, the stream ids, the frame with its builder
functions, and the two halves of the codec.

The encoder converts each multi-byte field with `to_be` and then hands it to a
writer that fixes big-endian order itself.  On a little-endian host the two
conversions add up to a reversal, while the decoder undoes only one of them.
`decode_bytes` says what comes back: the frame with the bytes of its flags,
job id and sequence number reversed.

The reversal loses nothing.  `encode_range` says that the encoder is injective
and that what it produces is what the decoder accepts, up to the longest frame.
-/

namespace RemoteAgent.Protocol

open CodeLib.ByteOrder

def protocolVersion : UInt8 := 1
def maxFrameSize : Nat := 1048576
def maxPayloadSize : Nat := 32768

/-- Every Windows target of the crate is little-endian. -/
def hostEndian : Endian := .little

/-! ## Frame types and stream ids -/

inductive FrameType where
  | hello
  | helloAck
  | run
  | runAck
  | output
  | status
  | exit
  | cancel
  | cancelAck
  | windowUpdate
  | error
  | ping
  | pong
  | goodbye
  deriving DecidableEq, Repr

/-- `frame_type as u8`: the discriminants of the `repr(u8)` enumeration. -/
def FrameType.toU8 : FrameType → UInt8
  | .hello => 0x01
  | .helloAck => 0x02
  | .run => 0x10
  | .runAck => 0x11
  | .output => 0x20
  | .status => 0x30
  | .exit => 0x40
  | .cancel => 0x50
  | .cancelAck => 0x51
  | .windowUpdate => 0x60
  | .error => 0xF0
  | .ping => 0xFE
  | .pong => 0xFF
  | .goodbye => 0xFD

/-- One lower-case hexadecimal digit. -/
def hexDigit (n : Nat) : Char := Nat.digitChar n

/-- A byte as `{:02x}` prints it. -/
def hex02 (value : UInt8) : String :=
  String.ofList [hexDigit (value.toNat / 16), hexDigit (value.toNat % 16)]

/-- `TryFrom<u8> for FrameType`. -/
def FrameType.tryFrom (value : UInt8) : Except Error FrameType :=
  match value with
  | 0x01 => .ok .hello
  | 0x02 => .ok .helloAck
  | 0x10 => .ok .run
  | 0x11 => .ok .runAck
  | 0x20 => .ok .output
  | 0x30 => .ok .status
  | 0x40 => .ok .exit
  | 0x50 => .ok .cancel
  | 0x51 => .ok .cancelAck
  | 0x60 => .ok .windowUpdate
  | 0xF0 => .ok .error
  | 0xFD => .ok .goodbye
  | 0xFE => .ok .ping
  | 0xFF => .ok .pong
  | _ => .error (.protocol ("Unknown frame type: 0x" ++ hex02 value))

inductive StreamId where
  | control
  | stdout
  | stderr
  | stdin
  deriving DecidableEq, Repr

/-- `stream_id as u8`. -/
def StreamId.toU8 : StreamId → UInt8
  | .control => 0
  | .stdout => 1
  | .stderr => 2
  | .stdin => 3

/-- `TryFrom<u8> for StreamId`. -/
def StreamId.tryFrom (value : UInt8) : Except Error StreamId :=
  match value with
  | 0 => .ok .control
  | 1 => .ok .stdout
  | 2 => .ok .stderr
  | 3 => .ok .stdin
  | _ => .error (.protocol ("Invalid stream ID: " ++ toString value.toNat))

/-- The decoder's table of frame types inverts the discriminants. -/
@[simp] theorem FrameType.tryFrom_toU8 (t : FrameType) :
    FrameType.tryFrom t.toU8 = .ok t := by
  cases t <;> rfl

/-- The decoder's table of stream ids inverts the discriminants. -/
@[simp] theorem StreamId.tryFrom_toU8 (s : StreamId) :
    StreamId.tryFrom s.toU8 = .ok s := by
  cases s <;> rfl

/-- A byte that the decoder's table knows is the discriminant of its type. -/
theorem FrameType.toU8_of_tryFrom {v : UInt8} {t : FrameType}
    (h : FrameType.tryFrom v = .ok t) : t.toU8 = v := by
  unfold FrameType.tryFrom at h
  split at h <;> cases h <;> rfl

theorem StreamId.toU8_of_tryFrom {v : UInt8} {i : StreamId}
    (h : StreamId.tryFrom v = .ok i) : i.toU8 = v := by
  unfold StreamId.tryFrom at h
  split at h <;> cases h <;> rfl

/-! ## Frames -/

structure Frame where
  frameType : FrameType
  streamId : StreamId
  flags : UInt16
  jobId : UInt32
  sequenceNumber : UInt32
  payload : List UInt8
  deriving DecidableEq, Repr

def flagEos : UInt16 := 0x01

namespace Frame

def new (frameType : FrameType) (streamId : StreamId) : Frame where
  frameType := frameType
  streamId := streamId
  flags := 0
  jobId := 0
  sequenceNumber := 0
  payload := []

def withJobId (f : Frame) (jobId : UInt32) : Frame := { f with jobId := jobId }

def withSequence (f : Frame) (seq : UInt32) : Frame :=
  { f with sequenceNumber := seq }

def withPayload (f : Frame) (payload : List UInt8) : Frame :=
  { f with payload := payload }

def withFlag (f : Frame) (flag : UInt16) : Frame :=
  { f with flags := f.flags ||| flag }

def hasFlag (f : Frame) (flag : UInt16) : Bool := f.flags &&& flag != 0

/-! ## The codec -/

/-- What `encode` puts into its buffer.  `put_u16` and `put_u32` write
big-endian, and what they are given has already gone through `to_be`. -/
def bytes (f : Frame) : List UInt8 :=
  [f.frameType.toU8, f.streamId.toU8] ++
    beBytes16 (toBe16 hostEndian f.flags) ++
    beBytes32 (toBe32 hostEndian f.jobId) ++
    beBytes32 (toBe32 hostEndian f.sequenceNumber) ++ f.payload

/-- `Frame::encode`. -/
def encode (f : Frame) : Except Error (List UInt8) :=
  let payloadLen := f.payload.length
  if payloadLen > maxPayloadSize then
    .error (.protocol
      s!"Payload too large: {payloadLen} bytes (max: {maxPayloadSize})")
  else
    let frameLen := 1 + 1 + 2 + 4 + 4 + payloadLen
    if frameLen > maxFrameSize then
      .error (.protocol
        s!"Frame too large: {frameLen} bytes (max: {maxFrameSize})")
    else
      .ok f.bytes

/-- `Frame::decode`.  The list pattern is the length check: it fails exactly on
fewer than twelve bytes. -/
def decode (data : List UInt8) : Except Error Frame :=
  match data with
  | d₀ :: d₁ :: d₂ :: d₃ :: d₄ :: d₅ :: d₆ :: d₇ :: d₈ :: d₉ :: d₁₀ :: d₁₁ ::
      payload => do
    let frameType ← FrameType.tryFrom d₀
    let streamId ← StreamId.tryFrom d₁
    return { frameType, streamId, payload
             flags := ofBeBytes16 d₂ d₃
             jobId := ofBeBytes32 d₄ d₅ d₆ d₇
             sequenceNumber := ofBeBytes32 d₈ d₉ d₁₀ d₁₁ }
  | _ => .error (.protocol "Frame too short")

/-- The payload limit is the only one that can refuse a frame: the frame limit
is out of reach behind it. -/
theorem encode_of_le {f : Frame} (h : f.payload.length ≤ maxPayloadSize) :
    f.encode = .ok f.bytes := by
  have hframe : ¬ 1 + 1 + 2 + 4 + 4 + f.payload.length > maxFrameSize := by
    simp only [maxPayloadSize, maxFrameSize] at h ⊢
    omega
  rw [encode, if_neg (by omega), if_neg hframe]

/-- `encode` succeeds exactly on payloads within the limit, and then it gives
`bytes`. -/
theorem encode_eq_ok_iff {f : Frame} {bs : List UInt8} :
    f.encode = .ok bs ↔ f.payload.length ≤ maxPayloadSize ∧ bs = f.bytes := by
  by_cases h : f.payload.length ≤ maxPayloadSize
  · rw [encode_of_le h]
    simp [h, eq_comm]
  · have herr : ∃ e, f.encode = .error e := by
      rw [encode, if_pos (by omega)]
      exact ⟨_, rfl⟩
    obtain ⟨e, he⟩ := herr
    simp [he, h]

/-- What `encode` refuses it refuses as a breach of the protocol. -/
theorem encode_error {f : Frame} {e : Error} (h : f.encode = .error e) :
    ∃ msg, e = .protocol msg := by
  simp only [encode] at h
  split at h
  · cases h
    exact ⟨_, rfl⟩
  · split at h <;> cases h
    exact ⟨_, rfl⟩

/-- What the codec makes of a frame: the bytes of the three numeric fields are
reversed. -/
def swapped (f : Frame) : Frame :=
  { f with
    flags := toBe16 hostEndian f.flags
    jobId := toBe32 hostEndian f.jobId
    sequenceNumber := toBe32 hostEndian f.sequenceNumber }

/-- Decoding what the encoder wrote gives the swapped frame. -/
theorem decode_bytes (f : Frame) : decode f.bytes = .ok f.swapped := by
  simp only [bytes, beBytes16, beBytes32, List.cons_append, List.nil_append, decode,
    FrameType.tryFrom_toU8, StreamId.tryFrom_toU8, ofBeBytes16_beBytes16,
    ofBeBytes32_beBytes32]
  rfl

/-- A frame survives the codec exactly when each of its numeric fields reads
the same in both byte orders. -/
theorem swapped_eq_iff (f : Frame) :
    f.swapped = f ↔ swapBytes16 f.flags = f.flags ∧
      swapBytes32 f.jobId = f.jobId ∧
      swapBytes32 f.sequenceNumber = f.sequenceNumber := by
  cases f
  simp [swapped, hostEndian, toBe16, toBe32]

/-- The round trip of the codec, for every frame the encoder does not refuse:
it gives the frame back if and only if the flags, the job id and the sequence
number are each equal to their own byte reversal. -/
theorem decode_encode_iff (f : Frame) (h : f.payload.length ≤ maxPayloadSize) :
    (∃ bs, f.encode = .ok bs ∧ decode bs = .ok f) ↔
      swapBytes16 f.flags = f.flags ∧ swapBytes32 f.jobId = f.jobId ∧
        swapBytes32 f.sequenceNumber = f.sequenceNumber := by
  rw [← swapped_eq_iff]
  constructor
  · rintro ⟨bs, henc, hdec⟩
    obtain ⟨-, rfl⟩ := encode_eq_ok_iff.mp henc
    rw [decode_bytes] at hdec
    exact Except.ok.inj hdec
  · intro hswap
    refine ⟨f.bytes, encode_of_le h, ?_⟩
    rw [decode_bytes, hswap]

/-- The first RUN_ACK a service sends does not survive the codec: its job id 1
comes back as `0x01000000`. -/
theorem decode_encode_runAck_one :
    ¬ ∃ bs, ((new .runAck .control).withJobId 1).encode = .ok bs ∧
      decode bs = .ok ((new .runAck .control).withJobId 1) := by
  rintro ⟨bs, henc, hdec⟩
  obtain ⟨-, rfl⟩ := encode_eq_ok_iff.mp henc
  rw [decode_bytes] at hdec
  exact absurd (Except.ok.inj hdec) (by decide)

/-- The acknowledgement of a session, with all its numbers zero, does survive. -/
theorem decode_encode_iff_helloAck :
    (new .helloAck .control).payload.length ≤ maxPayloadSize ∧
      ∃ bs, (new .helloAck .control).encode = .ok bs ∧
        decode bs = .ok (new .helloAck .control) :=
  ⟨by decide, (decode_encode_iff _ (by decide)).mpr (by decide)⟩

/-! ## What the encoder produces and the decoder accepts -/

@[simp] theorem length_bytes (f : Frame) : f.bytes.length = 12 + f.payload.length := by
  simp only [bytes, beBytes16, beBytes32, List.length_append, List.length_cons,
    List.length_nil]

@[simp] theorem swapped_swapped (f : Frame) : f.swapped.swapped = f := by
  cases f
  simp only [swapped, hostEndian, toBe16, toBe32, swapBytes16_swapBytes16,
    swapBytes32_swapBytes32]

/-- What the decoder accepts is twelve bytes of header, with a type and a stream
id of its tables, and the payload. -/
theorem decode_eq_ok {data : List UInt8} {g : Frame} (h : decode data = .ok g) :
    data = [g.frameType.toU8, g.streamId.toU8] ++ beBytes16 g.flags ++
      beBytes32 g.jobId ++ beBytes32 g.sequenceNumber ++ g.payload := by
  unfold decode at h
  split at h
  · rename_i d₀ d₁ d₂ d₃ d₄ d₅ d₆ d₇ d₈ d₉ d₁₀ d₁₁ payload
    cases htype : FrameType.tryFrom d₀ with
    | error e => simp [htype, bind, Except.bind] at h
    | ok t =>
      cases hstream : StreamId.tryFrom d₁ with
      | error e => simp [htype, hstream, bind, Except.bind] at h
      | ok i =>
        simp only [htype, hstream, bind, Except.bind, pure, Except.pure] at h
        cases h
        simp only [beBytes16_ofBeBytes16, beBytes32_ofBeBytes32,
          FrameType.toU8_of_tryFrom htype, StreamId.toU8_of_tryFrom hstream]
        rfl
  · cases h

/-- What the decoder accepts is what the encoder writes for the swapped frame. -/
theorem bytes_swapped_of_decode {data : List UInt8} {g : Frame}
    (h : decode data = .ok g) : g.swapped.bytes = data := by
  rw [decode_eq_ok h, bytes]
  simp only [swapped, hostEndian, toBe16, toBe32, swapBytes16_swapBytes16,
    swapBytes32_swapBytes32]

theorem bytes_inj {f g : Frame} (h : f.bytes = g.bytes) : f = g := by
  have hdec := decode_bytes f
  rw [h, decode_bytes] at hdec
  have hswap := congrArg swapped (Except.ok.inj hdec)
  simpa using hswap.symm

theorem encode_inj {f g : Frame} {bs : List UInt8} (hf : f.encode = .ok bs)
    (hg : g.encode = .ok bs) : f = g := by
  obtain ⟨-, hfb⟩ := encode_eq_ok_iff.mp hf
  obtain ⟨-, hgb⟩ := encode_eq_ok_iff.mp hg
  exact bytes_inj (hfb.symm.trans hgb)

/-- A byte string is an encoded frame exactly when it is short enough and the
decoder accepts it. -/
theorem exists_encode_iff {bs : List UInt8} :
    (∃ f, encode f = .ok bs) ↔
      bs.length ≤ 12 + maxPayloadSize ∧ ∃ g, decode bs = .ok g := by
  constructor
  · rintro ⟨f, hf⟩
    obtain ⟨hlen, rfl⟩ := encode_eq_ok_iff.mp hf
    refine ⟨?_, f.swapped, decode_bytes f⟩
    rw [length_bytes]
    omega
  · rintro ⟨hlen, g, hg⟩
    have hbytes := bytes_swapped_of_decode hg
    refine ⟨g.swapped, encode_eq_ok_iff.mpr ⟨?_, hbytes.symm⟩⟩
    rw [← hbytes, length_bytes] at hlen
    omega

/-- The encoder is injective on the frames that it takes, and its image is what
the decoder accepts among the strings that are not longer than the longest
frame.  The decoder then finds the type, the stream and the payload of the one
frame that the string encodes. -/
theorem encode_range :
    Set.InjOn encode {f | f.payload.length ≤ maxPayloadSize} ∧
    {bs | ∃ f : Frame, f.payload.length ≤ maxPayloadSize ∧ f.encode = .ok bs} =
      {bs | bs.length ≤ 12 + maxPayloadSize ∧ ∃ g, decode bs = .ok g} ∧
    ∀ bs : List UInt8, bs.length ≤ 12 + maxPayloadSize →
      ((∃ g, decode bs = .ok g) ↔ ∃! f : Frame, f.encode = .ok bs) ∧
      ∀ f : Frame, f.encode = .ok bs →
        ∃ g, decode bs = .ok g ∧ g.frameType = f.frameType ∧ g.streamId = f.streamId ∧
          g.payload = f.payload := by
  refine ⟨?_, ?_, ?_⟩
  · intro f hf g hg heq
    rw [encode_of_le hf, encode_of_le hg] at heq
    exact bytes_inj (Except.ok.inj heq)
  · ext bs
    rw [Set.mem_ofPred_eq, Set.mem_ofPred_eq, ← exists_encode_iff]
    constructor
    · rintro ⟨f, -, hf⟩
      exact ⟨f, hf⟩
    · rintro ⟨f, hf⟩
      exact ⟨f, (encode_eq_ok_iff.mp hf).1, hf⟩
  · intro bs hlen
    refine ⟨?_, ?_⟩
    · constructor
      · intro hdec
        obtain ⟨f, hf⟩ := exists_encode_iff.mpr ⟨hlen, hdec⟩
        exact ⟨f, hf, fun g hg => encode_inj hg hf⟩
      · rintro ⟨f, hf, -⟩
        exact (exists_encode_iff.mp ⟨f, hf⟩).2
    · intro f hf
      obtain ⟨-, rfl⟩ := encode_eq_ok_iff.mp hf
      exact ⟨f.swapped, decode_bytes f, rfl, rfl, rfl⟩

end Frame

/-! ## Payloads -/

structure HelloPayload where
  version : UInt8
  clientId : Option String
  deriving DecidableEq, Repr

structure RunPayload where
  command : String
  workingDirectory : Option String
  environment : Option (List (String × String))
  timeoutMs : Option UInt64
  deriving DecidableEq, Repr

structure ExitPayload where
  exitCode : Int32
  deriving DecidableEq, Repr

structure WindowUpdatePayload where
  streamId : UInt8
  bytesConsumed : UInt64
  deriving DecidableEq, Repr

end RemoteAgent.Protocol
