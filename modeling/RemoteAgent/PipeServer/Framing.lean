import RemoteAgent.CodeLib.Stream
import RemoteAgent.PipeServer.Session

/-!
# Frames on the pipe

`pipe_server.rs`, the functions that move frames through the pipe:
`read_frame_static` over `read_exact`, and `write_frame_static` over `write_all`.
Both loops deal with a pipe that gives and takes less than they ask for.

A function here either fails with an error of the agent or panics on an index or
a slice that is out of range, and `Fault` keeps the two apart.

* `nextRecord` says what a read of one record is, on the bytes alone, and
  `readRecord_spec` that the loop over the chunks computes it.  Whatever the
  chunks are, the result and the bytes that are left are the same, and no index
  is out of range.
* `writeFrameStatic_spec`: a frame that `encode` accepts goes out as `wire` has
  it, whatever the pipe takes at a time.
* `framing_round_trip` puts both together for a list of frames.
-/

namespace RemoteAgent.PipeServer

open CodeLib CodeLib.ByteOrder Protocol

/-! ## Indices and slices -/

/-- The ways in which a function does not return a value. -/
inductive Fault where
  | err (e : Error)
  | outOfRange
  deriving DecidableEq, Repr

/-- `data[i]`. -/
def index (data : List UInt8) (i : Nat) : Except Fault UInt8 :=
  match data[i]? with
  | some b => .ok b
  | none => .error .outOfRange

/-- `&data[offset..]`. -/
def sliceFrom (data : List UInt8) (offset : Nat) : Except Fault (List UInt8) :=
  if offset ≤ data.length then .ok (data.drop offset) else .error .outOfRange

theorem sliceFrom_of_le {data : List UInt8} {offset : Nat} (h : offset ≤ data.length) :
    sliceFrom data offset = .ok (data.drop offset) := if_pos h

/-- `u32::from_be_bytes` of the first four bytes. -/
def beWord (buf : List UInt8) : Except Fault UInt32 := do
  let b₀ ← index buf 0
  let b₁ ← index buf 1
  let b₂ ← index buf 2
  let b₃ ← index buf 3
  return ofBeBytes32 b₀ b₁ b₂ b₃

/-- `Frame::decode` with its indices and its slice. -/
def decodeIndexed (data : List UInt8) : Except Fault Frame :=
  if data.length < 12 then .error (.err (.protocol "Frame too short"))
  else do
    let frameType ← (FrameType.tryFrom (← index data 0)).mapError Fault.err
    let streamId ← (StreamId.tryFrom (← index data 1)).mapError Fault.err
    let flags := ofBeBytes16 (← index data 2) (← index data 3)
    let jobId := ofBeBytes32 (← index data 4) (← index data 5) (← index data 6)
      (← index data 7)
    let sequenceNumber := ofBeBytes32 (← index data 8) (← index data 9) (← index data 10)
      (← index data 11)
    let payload ← sliceFrom data 12
    return { frameType, streamId, flags, jobId, sequenceNumber, payload }

@[simp] theorem index_zero (d : UInt8) (l : List UInt8) : index (d :: l) 0 = .ok d := rfl

@[simp] theorem index_succ (d : UInt8) (l : List UInt8) (n : Nat) :
    index (d :: l) (n + 1) = index l n := rfl

theorem ok_bind {ε α β : Type} (a : α) (f : α → Except ε β) :
    (Except.ok a >>= f) = f a := rfl

theorem error_bind {ε α β : Type} (e : ε) (f : α → Except ε β) :
    (Except.error e >>= f) = .error e := rfl

theorem mapError_ok {α : Type} (a : α) :
    (Except.ok a : Except Error α).mapError Fault.err = .ok a := rfl

theorem mapError_error {α : Type} (e : Error) :
    (Except.error e : Except Error α).mapError Fault.err = .error (.err e) := rfl

theorem exists_cons_of_le {n : Nat} {l : List UInt8} (h : n + 1 ≤ l.length) :
    ∃ b t, l = b :: t ∧ n ≤ t.length := by
  cases l with
  | nil => simp at h
  | cons b t => exact ⟨b, t, rfl, by simpa using h⟩

/-- The length check keeps every index of the decoder in range. -/
theorem decodeIndexed_eq (data : List UInt8) :
    decodeIndexed data = (Frame.decode data).mapError Fault.err := by
  by_cases hlen : data.length < 12
  · rw [decodeIndexed, if_pos hlen]
    unfold Frame.decode
    split
    · simp only [List.length_cons] at hlen
      omega
    · rfl
  · rw [decodeIndexed, if_neg hlen]
    obtain ⟨d₀, data, rfl, h₀⟩ := exists_cons_of_le (n := 11) (Nat.le_of_not_lt hlen)
    obtain ⟨d₁, data, rfl, h₁⟩ := exists_cons_of_le (n := 10) h₀
    obtain ⟨d₂, data, rfl, h₂⟩ := exists_cons_of_le (n := 9) h₁
    obtain ⟨d₃, data, rfl, h₃⟩ := exists_cons_of_le (n := 8) h₂
    obtain ⟨d₄, data, rfl, h₄⟩ := exists_cons_of_le (n := 7) h₃
    obtain ⟨d₅, data, rfl, h₅⟩ := exists_cons_of_le (n := 6) h₄
    obtain ⟨d₆, data, rfl, h₆⟩ := exists_cons_of_le (n := 5) h₅
    obtain ⟨d₇, data, rfl, h₇⟩ := exists_cons_of_le (n := 4) h₆
    obtain ⟨d₈, data, rfl, h₈⟩ := exists_cons_of_le (n := 3) h₇
    obtain ⟨d₉, data, rfl, h₉⟩ := exists_cons_of_le (n := 2) h₈
    obtain ⟨d₁₀, data, rfl, h₁₀⟩ := exists_cons_of_le (n := 1) h₉
    obtain ⟨d₁₁, payload, rfl, -⟩ := exists_cons_of_le (n := 0) h₁₀
    rw [sliceFrom_of_le (by simp)]
    cases htype : FrameType.tryFrom d₀ with
    | error e =>
      simp only [index_zero, index_succ, Frame.decode, htype, ok_bind, error_bind,
        mapError_error]
    | ok t =>
      cases hstream : StreamId.tryFrom d₁ with
      | error e =>
        simp only [index_zero, index_succ, Frame.decode, htype, hstream, ok_bind,
          error_bind, mapError_ok, mapError_error]
      | ok i =>
        simp only [index_zero, index_succ, Frame.decode, htype, hstream, ok_bind,
          mapError_ok]
        rfl

/-! ## Reading -/

/-- The reading end of the pipe: what is still to arrive, and what `ReadFile` does
when nothing is left, fail with a code or read zero bytes. -/
structure Inbound where
  input : Chunked UInt8
  atEnd : Option UInt32

namespace Inbound

/-- The bytes that are still to arrive. -/
def bytes (p : Inbound) : List UInt8 := p.input.flat

/-- `ReadFile` into a buffer of the given size. -/
def readFile (p : Inbound) (size : Nat) : Except UInt32 (List UInt8) × Inbound :=
  if p.input.chunks.isEmpty then
    match p.atEnd with
    | some code => (.error code, p)
    | none => (.ok [], p)
  else
    (.ok (p.input.shortRead size).1, { p with input := (p.input.shortRead size).2 })

/-- The loop of `read_exact`. -/
def readExactLoop (size : Nat) (p : Inbound) (buffer : List UInt8) (offset : Nat) :
    Except Fault (List UInt8) × Inbound :=
  if offset < size then
    match sliceFrom buffer offset with
    | .error e => (.error e, p)
    | .ok window =>
      match p.readFile window.length with
      | (.error code, p') => (.error (.err (.io (.rawOs (hresultFromWin32 code)))), p')
      | (.ok bytesRead, p') =>
        if bytesRead.length = 0 then (.error (.err (.io .unexpectedEof)), p')
        else
          readExactLoop size p' (splice buffer offset bytesRead)
            (offset + bytesRead.length)
  else (.ok buffer, p)
termination_by size - offset

def readExact (p : Inbound) (size : Nat) : Except Fault (List UInt8) × Inbound :=
  readExactLoop size p (List.replicate size 0) 0

/-- `read_frame_static` up to the call of `Frame::decode`: the bytes that it
decodes. -/
def readRecord (p : Inbound) : Except Fault (List UInt8) × Inbound :=
  match p.readExact 4 with
  | (.error e, p₁) => (.error e, p₁)
  | (.ok lenBuf, p₁) =>
    match beWord lenBuf with
    | .error e => (.error e, p₁)
    | .ok len =>
      if len.toNat > 1024 * 1024 then (.error (.err (.protocol "Frame too large")), p₁)
      else p₁.readExact len.toNat

def readFrameStatic (p : Inbound) : Except Fault Frame × Inbound :=
  match p.readRecord with
  | (.error e, p₁) => (.error e, p₁)
  | (.ok data, p₁) => (decodeIndexed data, p₁)

/-! ## What a read is on the bytes alone -/

/-- The error of a read that meets the end. -/
def endError (p : Inbound) : IoError :=
  match p.atEnd with
  | some code => .rawOs (hresultFromWin32 code)
  | none => .unexpectedEof

end Inbound

/-- A record behind its announced length, or why there is none, and what is left of
the stream. -/
def recordBody (eof : IoError) (len : Nat) (rest : List UInt8) :
    Except Error (List UInt8) × List UInt8 :=
  if len > 1024 * 1024 then (.error (.protocol "Frame too large"), rest)
  else if rest.length < len then (.error (.io eof), [])
  else (.ok (rest.take len), rest.drop len)

/-- The next record of a byte stream, or why there is none, and what is left of the
stream. -/
def nextRecord (eof : IoError) (bytes : List UInt8) :
    Except Error (List UInt8) × List UInt8 :=
  match bytes with
  | b₀ :: b₁ :: b₂ :: b₃ :: rest => recordBody eof (ofBeBytes32 b₀ b₁ b₂ b₃).toNat rest
  | _ => (.error (.io eof), [])

/-- The next frame of a byte stream, or why there is none, and what is left. -/
def nextFrame (eof : IoError) (bytes : List UInt8) : Except Error Frame × List UInt8 :=
  ((nextRecord eof bytes).1.bind Frame.decode, (nextRecord eof bytes).2)

namespace Inbound

/-- `ReadFile` while there is something to read. -/
theorem readFile_of_ne {p : Inbound} (h : p.bytes ≠ []) {size : Nat} (hs : 0 < size) :
    ∃ bytesRead p', p.readFile size = (.ok bytesRead, p') ∧ bytesRead ≠ [] ∧
      bytesRead.length ≤ size ∧ bytesRead ++ p'.bytes = p.bytes ∧ p'.atEnd = p.atEnd := by
  have hne : p.input.chunks.isEmpty = false := by
    rw [List.isEmpty_eq_false_iff]
    intro hnil
    exact h (Chunked.flat_eq_nil_iff.mpr hnil)
  refine ⟨(p.input.shortRead size).1, { p with input := (p.input.shortRead size).2 }, ?_,
    Chunked.shortRead_ne_nil hs h, p.input.length_shortRead_le size,
    p.input.shortRead_append_flat size, rfl⟩
  rw [readFile, hne]
  rfl

/-- `ReadFile` at the end. -/
theorem readFile_of_nil {p : Inbound} (h : p.bytes = []) (size : Nat) :
    p.readFile size = (match p.atEnd with
      | some code => .error code
      | none => .ok [], p) := by
  rw [readFile, Chunked.flat_eq_nil_iff.mp h]
  cases p.atEnd <;> rfl

/-- The loop of `read_exact` with enough bytes to come.  The part of the buffer in
front of `offset` is filled. -/
theorem readExactLoop_ok {size : Nat} (p : Inbound) (buffer : List UInt8) (offset : Nat)
    (hbuffer : buffer.length = size) (hoffset : offset ≤ size)
    (hbytes : size - offset ≤ p.bytes.length) :
    ∃ p', readExactLoop size p buffer offset =
        (.ok (buffer.take offset ++ p.bytes.take (size - offset)), p') ∧
      p'.bytes = p.bytes.drop (size - offset) ∧ p'.atEnd = p.atEnd := by
  induction hn : size - offset using Nat.strong_induction_on
    generalizing p buffer offset with
  | _ n ih =>
    subst hn
    by_cases hmore : offset < size
    · have hpos : 0 < (buffer.drop offset).length := by
        rw [List.length_drop]
        omega
      have hne : p.bytes ≠ [] := by
        intro hnil
        rw [hnil, List.length_nil] at hbytes
        omega
      obtain ⟨read, p₁, hread, hnonempty, hle, happ, hend⟩ := readFile_of_ne hne hpos
      have hlen : 0 < read.length := List.length_pos_iff.mpr hnonempty
      rw [List.length_drop] at hle
      have htotal : read.length + p₁.bytes.length = p.bytes.length := by
        rw [← List.length_append, happ]
      have hfit : offset + read.length ≤ buffer.length := by omega
      obtain ⟨p', hloop, hrest, hend'⟩ := ih (size - (offset + read.length)) (by omega) p₁
        (splice buffer offset read) (offset + read.length)
        (by rw [length_splice hfit, hbuffer]) (by omega) (by omega) rfl
      have hsub : size - offset - read.length = size - (offset + read.length) := by omega
      refine ⟨p', ?_, ?_, hend'.trans hend⟩
      · rw [readExactLoop, if_pos hmore, sliceFrom_of_le (by omega)]
        simp only [hread]
        rw [if_neg (by omega), hloop, take_splice hfit, ← happ, List.take_append, hsub,
          List.take_of_length_le (by omega : read.length ≤ size - offset),
          List.append_assoc]
      · rw [hrest, ← happ, List.drop_append, hsub,
          List.drop_of_length_le (by omega : read.length ≤ size - offset), List.nil_append]
    · have hzero : size - offset = 0 := by omega
      refine ⟨p, ?_, by rw [hzero, List.drop_zero], rfl⟩
      rw [readExactLoop, if_neg hmore, hzero, List.take_zero, List.append_nil,
        List.take_of_length_le (by omega)]

/-- The loop of `read_exact` when the stream ends too early. -/
theorem readExactLoop_short {size : Nat} (p : Inbound) (buffer : List UInt8) (offset : Nat)
    (hbuffer : buffer.length = size) (hbytes : p.bytes.length < size - offset) :
    ∃ p', readExactLoop size p buffer offset = (.error (.err (.io p.endError)), p') ∧
      p'.bytes = [] ∧ p'.atEnd = p.atEnd := by
  induction hn : size - offset using Nat.strong_induction_on
    generalizing p buffer offset with
  | _ n ih =>
    subst hn
    have hmore : offset < size := by omega
    by_cases hnil : p.bytes = []
    · refine ⟨p, ?_, hnil, rfl⟩
      rw [readExactLoop, if_pos hmore, sliceFrom_of_le (by omega)]
      simp only [readFile_of_nil hnil, endError]
      cases p.atEnd <;> rfl
    · have hpos : 0 < (buffer.drop offset).length := by
        rw [List.length_drop]
        omega
      obtain ⟨read, p₁, hread, hnonempty, hle, happ, hend⟩ := readFile_of_ne hnil hpos
      have hlen : 0 < read.length := List.length_pos_iff.mpr hnonempty
      rw [List.length_drop] at hle
      have htotal : read.length + p₁.bytes.length = p.bytes.length := by
        rw [← List.length_append, happ]
      have hfit : offset + read.length ≤ buffer.length := by omega
      obtain ⟨p', hloop, hrest, hend'⟩ := ih (size - (offset + read.length)) (by omega) p₁
        (splice buffer offset read) (offset + read.length)
        (by rw [length_splice hfit, hbuffer]) (by omega) rfl
      refine ⟨p', ?_, hrest, hend'.trans hend⟩
      rw [readExactLoop, if_pos hmore, sliceFrom_of_le (by omega)]
      simp only [hread]
      rw [if_neg (by omega), hloop, endError, hend, endError]

theorem readExact_ok {size : Nat} {p : Inbound} (h : size ≤ p.bytes.length) :
    ∃ p', p.readExact size = (.ok (p.bytes.take size), p') ∧
      p'.bytes = p.bytes.drop size ∧ p'.atEnd = p.atEnd := by
  have hloop := readExactLoop_ok p (List.replicate size 0) 0 (List.length_replicate ..)
    (Nat.zero_le size) (by omega)
  simpa [readExact] using hloop

theorem readExact_short {size : Nat} {p : Inbound} (h : p.bytes.length < size) :
    ∃ p', p.readExact size = (.error (.err (.io p.endError)), p') ∧
      p'.bytes = [] ∧ p'.atEnd = p.atEnd :=
  readExactLoop_short p (List.replicate size 0) 0 (List.length_replicate ..) (by omega)

/-- `readRecord` computes `nextRecord`, whatever the chunks are. -/
theorem readRecord_spec (p : Inbound) :
    ∃ p', p.readRecord = ((nextRecord p.endError p.bytes).1.mapError Fault.err, p') ∧
      p'.bytes = (nextRecord p.endError p.bytes).2 ∧ p'.atEnd = p.atEnd := by
  by_cases hlen : p.bytes.length < 4
  · obtain ⟨p', hread, hrest, hend⟩ := readExact_short hlen
    have hnone : nextRecord p.endError p.bytes = (.error (.io p.endError), []) := by
      unfold nextRecord
      split
      · rename_i hbytes
        rw [hbytes] at hlen
        simp only [List.length_cons] at hlen
        omega
      · rfl
    refine ⟨p', ?_, by rw [hrest, hnone], hend⟩
    rw [readRecord, hread, hnone]
    rfl
  · obtain ⟨p₁, hread, hrest, hend⟩ := readExact_ok (Nat.le_of_not_lt hlen)
    obtain ⟨b₀, bytes₀, h₀, hl₀⟩ := exists_cons_of_le (n := 3) (Nat.le_of_not_lt hlen)
    obtain ⟨b₁, bytes₁, rfl, hl₁⟩ := exists_cons_of_le (n := 2) hl₀
    obtain ⟨b₂, bytes₂, rfl, hl₂⟩ := exists_cons_of_le (n := 1) hl₁
    obtain ⟨b₃, rest, rfl, -⟩ := exists_cons_of_le (n := 0) hl₂
    rw [h₀] at hread hrest
    have hword : beWord [b₀, b₁, b₂, b₃] = .ok (ofBeBytes32 b₀ b₁ b₂ b₃) := by
      simp only [beWord, index_zero, index_succ, ok_bind]
      rfl
    have hbytes₁ : p₁.bytes = rest := hrest
    have hread₁ : p.readExact 4 = (.ok [b₀, b₁, b₂, b₃], p₁) := hread
    have herr : p₁.endError = p.endError := by rw [endError, endError, hend]
    rw [h₀, nextRecord, recordBody]
    by_cases hbig : (ofBeBytes32 b₀ b₁ b₂ b₃).toNat > 1024 * 1024
    · rw [if_pos hbig]
      refine ⟨p₁, ?_, hbytes₁, hend⟩
      rw [readRecord, hread₁]
      simp only [hword]
      rw [if_pos hbig, mapError_error]
    · rw [if_neg hbig]
      by_cases hshort : rest.length < (ofBeBytes32 b₀ b₁ b₂ b₃).toNat
      · rw [if_pos hshort]
        obtain ⟨p', hread', hrest', hend'⟩ := readExact_short (p := p₁) (by rwa [hbytes₁])
        refine ⟨p', ?_, hrest', hend'.trans hend⟩
        rw [readRecord, hread₁]
        simp only [hword]
        rw [if_neg hbig, hread', herr, mapError_error]
      · rw [if_neg hshort]
        have hfits : (ofBeBytes32 b₀ b₁ b₂ b₃).toNat ≤ p₁.bytes.length := by
          rw [hbytes₁]
          exact Nat.le_of_not_lt hshort
        obtain ⟨p', hread', hrest', hend'⟩ := readExact_ok hfits
        rw [hbytes₁] at hread' hrest'
        refine ⟨p', ?_, hrest', hend'.trans hend⟩
        rw [readRecord, hread₁]
        simp only [hword]
        rw [if_neg hbig, hread', mapError_ok]

/-- `read_frame_static` computes `nextFrame`, and it does not panic. -/
theorem readFrameStatic_spec (p : Inbound) :
    ∃ p', p.readFrameStatic = ((nextFrame p.endError p.bytes).1.mapError Fault.err, p') ∧
      p'.bytes = (nextFrame p.endError p.bytes).2 ∧ p'.atEnd = p.atEnd := by
  obtain ⟨p', hread, hrest, hend⟩ := p.readRecord_spec
  refine ⟨p', ?_, ?_, hend⟩
  · rw [readFrameStatic, hread, nextFrame]
    cases (nextRecord p.endError p.bytes).1 with
    | error e => rfl
    | ok data =>
      simp only [mapError_ok, decodeIndexed_eq]
      rfl
  · rw [hrest, nextFrame]

end Inbound

/-! ## Writing -/

/-- The writing end of the pipe: what was written, the number of `WriteFile` calls,
how much each of them takes, and which of them fail, with what code and after how
many bytes. -/
structure Outbound where
  written : List UInt8
  calls : Nat
  intake : Intake
  failure : Nat → Option (UInt32 × Nat)

namespace Outbound

/-- `WriteFile`: the number of bytes that it takes. -/
def writeFile (o : Outbound) (data : List UInt8) : Except UInt32 Nat × Outbound :=
  match o.failure o.calls with
  | some (code, n) =>
    (.error code, { o with written := o.written ++ data.take n, calls := o.calls + 1 })
  | none =>
    (.ok (o.intake.taken o.calls data.length),
      { o with
        written := o.written ++ data.take (o.intake.taken o.calls data.length)
        calls := o.calls + 1 })

theorem writeFile_pos {o o' : Outbound} {data : List UInt8} {n : Nat}
    (h : o.writeFile data = (.ok n, o')) (hdata : 0 < data.length) : 0 < n := by
  unfold writeFile at h
  split at h
  · exact absurd h (by simp)
  · simp only [Prod.mk.injEq, Except.ok.injEq] at h
    rw [← h.1]
    exact o.intake.taken_pos o.calls hdata

theorem length_of_sliceFrom {data rest : List UInt8} {offset : Nat}
    (h : sliceFrom data offset = .ok rest) : rest.length = data.length - offset := by
  unfold sliceFrom at h
  split at h
  · cases h
    exact List.length_drop
  · cases h

/-- The loop of `write_all`. -/
def writeAllLoop (data : List UInt8) (o : Outbound) (offset : Nat) :
    Except Fault Unit × Outbound :=
  if offset < data.length then
    match _hslice : sliceFrom data offset with
    | .error e => (.error e, o)
    | .ok rest =>
      match _hwrite : o.writeFile rest with
      | (.error code, o') => (.error (.err (.io (.rawOs (hresultFromWin32 code)))), o')
      | (.ok bytesWritten, o') => writeAllLoop data o' (offset + bytesWritten)
  else (.ok (), o)
termination_by data.length - offset
decreasing_by
  have hlen := length_of_sliceFrom _hslice
  have hpos := writeFile_pos _hwrite (by omega)
  omega

def writeAll (o : Outbound) (data : List UInt8) : Except Fault Unit × Outbound :=
  writeAllLoop data o 0

def writeFrameStatic (o : Outbound) (frame : Frame) : Except Fault Unit × Outbound :=
  match frame.encode with
  | .error e => (.error (.err e), o)
  | .ok data =>
    match o.writeAll (beBytes32 (UInt32.ofNat data.length)) with
    | (.error e, o₁) => (.error e, o₁)
    | (.ok (), o₁) => o₁.writeAll data

/-- The loop of `write_all` stays in its data, also when a write fails. -/
theorem writeAllLoop_inRange (data : List UInt8) (o : Outbound) (offset : Nat) :
    (writeAllLoop data o offset).1 ≠ .error .outOfRange := by
  induction hn : data.length - offset using Nat.strong_induction_on
    generalizing o offset with
  | _ n ih =>
    subst hn
    rw [writeAllLoop]
    split
    · rename_i hmore
      split
      · rename_i e hslice
        rw [sliceFrom_of_le (Nat.le_of_lt hmore)] at hslice
        cases hslice
      · rename_i rest hslice
        have hlen := length_of_sliceFrom hslice
        split
        · simp
        · rename_i bytesWritten o' hwrite
          have hpos := writeFile_pos hwrite (by omega)
          exact ih (data.length - (offset + bytesWritten)) (by omega) o'
            (offset + bytesWritten) rfl
    · simp

theorem writeFrameStatic_inRange (o : Outbound) (frame : Frame) :
    (o.writeFrameStatic frame).1 ≠ .error .outOfRange := by
  unfold writeFrameStatic
  split
  · simp
  · rename_i data _
    split
    · rename_i e o₁ hwrite
      have hin := writeAllLoop_inRange (beBytes32 (UInt32.ofNat data.length)) o 0
      rw [show writeAllLoop _ o 0 = (.error e, o₁) from hwrite] at hin
      exact hin
    · rename_i o₁ _
      exact writeAllLoop_inRange data o₁ 0

/-- Only a frame that `encode` accepts is written. -/
theorem encode_of_writeFrameStatic {o : Outbound} {frame : Frame}
    (h : (o.writeFrameStatic frame).1 = .ok ()) : ∃ data, frame.encode = .ok data := by
  unfold writeFrameStatic at h
  split at h
  · cases h
  · rename_i data hdata
    exact ⟨data, hdata⟩

/-- No call of `WriteFile` fails. -/
def Reliable (o : Outbound) : Prop := ∀ k, o.failure k = none

/-- One call on a pipe that does not fail. -/
theorem writeFile_of_reliable {o : Outbound} (h : o.Reliable) (data : List UInt8) :
    o.writeFile data = (.ok (o.intake.taken o.calls data.length),
      { o with
        written := o.written ++ data.take (o.intake.taken o.calls data.length)
        calls := o.calls + 1 }) := by
  rw [writeFile, h o.calls]

/-- `write_all` hands over what is left of the data, in as many pieces as it takes. -/
theorem writeAllLoop_spec {data : List UInt8} (o : Outbound) (offset : Nat)
    (h : o.Reliable) (hoffset : offset ≤ data.length) :
    ∃ o', writeAllLoop data o offset = (.ok (), o') ∧
      o'.written = o.written ++ data.drop offset ∧ o'.Reliable := by
  induction hn : data.length - offset using Nat.strong_induction_on
    generalizing o offset with
  | _ n ih =>
    subst hn
    by_cases hmore : offset < data.length
    · have hlen : (data.drop offset).length = data.length - offset := List.length_drop
      have hpos : 0 < o.intake.taken o.calls (data.drop offset).length :=
        o.intake.taken_pos o.calls (by omega)
      have hle := o.intake.taken_le o.calls (data.drop offset).length
      generalize htaken : o.intake.taken o.calls (data.drop offset).length = n at hpos hle
      obtain ⟨o', hloop, hwritten, hrel⟩ := ih (data.length - (offset + n)) (by omega)
        { o with
          written := o.written ++ (data.drop offset).take n, calls := o.calls + 1 }
        (offset + n) h (by omega) rfl
      refine ⟨o', ?_, ?_, hrel⟩
      · rw [writeAllLoop, if_pos hmore]
        split
        · rename_i e hslice
          rw [sliceFrom_of_le hoffset] at hslice
          cases hslice
        · rename_i rest hslice
          rw [sliceFrom_of_le hoffset] at hslice
          cases hslice
          split
          · rename_i code o₁ hwrite
            rw [writeFile_of_reliable h] at hwrite
            cases hwrite
          · rename_i written o₁ hwrite
            rw [writeFile_of_reliable h, htaken] at hwrite
            cases hwrite
            exact hloop
      · rw [hwritten, List.append_assoc, ← List.drop_drop, List.take_append_drop]
    · refine ⟨o, ?_, ?_, h⟩
      · rw [writeAllLoop, if_neg hmore]
      · rw [List.drop_of_length_le (by omega), List.append_nil]

theorem writeAll_spec {o : Outbound} (h : o.Reliable) (data : List UInt8) :
    ∃ o', o.writeAll data = (.ok (), o') ∧ o'.written = o.written ++ data ∧
      o'.Reliable :=
  writeAllLoop_spec o 0 h (Nat.zero_le _)

/-- A frame goes out as its length and its bytes. -/
theorem writeFrameStatic_spec {o : Outbound} (h : o.Reliable) {frame : Frame}
    {data : List UInt8} (hdata : frame.encode = .ok data) :
    ∃ o', o.writeFrameStatic frame = (.ok (), o') ∧
      o'.written = o.written ++ wire frame ∧ o'.Reliable := by
  obtain ⟨-, rfl⟩ := Frame.encode_eq_ok_iff.mp hdata
  obtain ⟨o₁, hlen, hwritten₁, hrel₁⟩ :=
    writeAll_spec h (beBytes32 (UInt32.ofNat frame.bytes.length))
  obtain ⟨o₂, hbody, hwritten₂, hrel₂⟩ := writeAll_spec hrel₁ frame.bytes
  refine ⟨o₂, ?_, ?_, hrel₂⟩
  · rw [writeFrameStatic, hdata]
    simp only [hlen]
    exact hbody
  · rw [hwritten₂, hwritten₁, wire, List.append_assoc]

/-- `write_frame_static` on one frame after another, up to the first error. -/
def writeFrames (o : Outbound) : List Frame → Except Fault Unit × Outbound
  | [] => (.ok (), o)
  | frame :: frames =>
    match o.writeFrameStatic frame with
    | (.error e, o₁) => (.error e, o₁)
    | (.ok (), o₁) => o₁.writeFrames frames

theorem writeFrames_spec (frames : List Frame) {o : Outbound} (h : o.Reliable)
    (hencode : ∀ f ∈ frames, ∃ data, f.encode = .ok data) :
    ∃ o', o.writeFrames frames = (.ok (), o') ∧
      o'.written = o.written ++ frames.flatMap wire := by
  induction frames generalizing o with
  | nil => exact ⟨o, rfl, by simp⟩
  | cons f frames ih =>
    obtain ⟨data, hdata⟩ := hencode f List.mem_cons_self
    obtain ⟨o₁, hwrite, hwritten₁, hrel₁⟩ := writeFrameStatic_spec h hdata
    obtain ⟨o', hrest, hwritten'⟩ := ih hrel₁ fun g hg => hencode g (List.mem_cons_of_mem f hg)
    refine ⟨o', ?_, ?_⟩
    · rw [writeFrames, hwrite]
      exact hrest
    · rw [hwritten', hwritten₁, List.flatMap_cons, List.append_assoc]

end Outbound

/-! ## Frames through the pipe -/

/-- The first record of a stream that begins with a frame is the frame's, as long as the
reader takes records of that length. -/
theorem nextRecord_of_length (eof : IoError) {f : Frame} (h : f.bytes.length ≤ 1024 * 1024)
    (tail : List UInt8) : nextRecord eof (wire f ++ tail) = (.ok f.bytes, tail) := by
  have hword : (UInt32.ofNat f.bytes.length).toNat = f.bytes.length := by
    rw [UInt32.toNat_ofNat', Nat.mod_eq_of_lt]
    omega
  have hfits : ¬ (f.bytes ++ tail).length < f.bytes.length := by
    rw [List.length_append]
    omega
  simp only [wire, beBytes32, List.cons_append, List.nil_append, nextRecord,
    ofBeBytes32_beBytes32]
  rw [hword, recordBody, if_neg (Nat.not_lt.mpr h), if_neg hfits, List.take_left,
    List.drop_left]

theorem nextFrame_of_length (eof : IoError) {f : Frame} (h : f.bytes.length ≤ 1024 * 1024)
    (tail : List UInt8) : nextFrame eof (wire f ++ tail) = (.ok f.swapped, tail) := by
  rw [nextFrame, nextRecord_of_length eof h tail]
  show ((Frame.decode f.bytes), tail) = _
  rw [Frame.decode_bytes]

/-- The writer's limit is below the reader's. -/
theorem length_bytes_of_encode {f : Frame} {data : List UInt8} (h : f.encode = .ok data) :
    f.bytes.length ≤ 1024 * 1024 := by
  have hpayload := (Frame.encode_eq_ok_iff.mp h).1
  rw [Frame.length_bytes]
  simp only [maxPayloadSize] at hpayload
  omega

theorem nextRecord_wire (eof : IoError) {f : Frame} {data : List UInt8}
    (hdata : f.encode = .ok data) (tail : List UInt8) :
    nextRecord eof (wire f ++ tail) = (.ok data, tail) := by
  rw [nextRecord_of_length eof (length_bytes_of_encode hdata) tail,
    (Frame.encode_eq_ok_iff.mp hdata).2]

theorem nextFrame_wire (eof : IoError) {f : Frame} {data : List UInt8}
    (hdata : f.encode = .ok data) (tail : List UInt8) :
    nextFrame eof (wire f ++ tail) = (.ok f.swapped, tail) :=
  nextFrame_of_length eof (length_bytes_of_encode hdata) tail

namespace Inbound

/-- Calls of `read_frame_static` one after another: for each the bytes that it
passes to `Frame::decode` and what it returns, and the pipe after the last. -/
def readCalls : Nat → Inbound →
    List (Except Fault (List UInt8) × Except Fault Frame) × Inbound
  | 0, p => ([], p)
  | n + 1, p =>
    ((p.readRecord.1, p.readFrameStatic.1) :: (readCalls n p.readFrameStatic.2).1,
      (readCalls n p.readFrameStatic.2).2)

/-- The calls on a stream that begins with frames. -/
theorem readCalls_spec (frames : List Frame) {p : Inbound} {tail : List UInt8}
    (hencode : ∀ f ∈ frames, ∃ data, f.encode = .ok data)
    (hbytes : p.bytes = frames.flatMap wire ++ tail) :
    (readCalls frames.length p).1 =
        frames.map (fun f => (f.encode.mapError Fault.err, .ok f.swapped)) ∧
      (readCalls frames.length p).2.bytes = tail ∧
      (readCalls frames.length p).2.atEnd = p.atEnd := by
  induction frames generalizing p with
  | nil => exact ⟨rfl, hbytes, rfl⟩
  | cons f frames ih =>
    obtain ⟨data, hdata⟩ := hencode f List.mem_cons_self
    rw [List.flatMap_cons, List.append_assoc] at hbytes
    obtain ⟨p₁, hrecord, -, -⟩ := p.readRecord_spec
    obtain ⟨p₂, hframe, hrest, hend⟩ := p.readFrameStatic_spec
    rw [hbytes, nextRecord_wire _ hdata] at hrecord
    rw [hbytes, nextFrame_wire _ hdata] at hframe hrest
    obtain ⟨hcalls, htail, hend'⟩ := ih (fun g hg => hencode g (List.mem_cons_of_mem f hg))
      (p := p₂) hrest
    refine ⟨?_, ?_, ?_⟩
    · simp only [List.length_cons, readCalls, hframe, hrecord, List.map_cons, hcalls, hdata]
      rfl
    · simp only [List.length_cons, readCalls, hframe, htail]
    · simp only [List.length_cons, readCalls, hframe, hend', hend]

end Inbound

/-- Frames survive any fragmentation.  Frames that `encode` accepts are written one
after another, in as many pieces as the pipe makes of them, and arrive in any
chunks: the calls of `read_frame_static` pass the encoded bodies to `Frame::decode`,
one for each call and in order, every call returns a frame, and the call after the
last finds nothing left and meets the end of the stream. -/
theorem framing_round_trip (frames : List Frame) (bodies : List (List UInt8))
    (hencode : frames.map Frame.encode = bodies.map Except.ok) (o : Outbound)
    (hreliable : o.Reliable) (hwritten : o.written = []) :
    ∃ o', o.writeFrames frames = (.ok (), o') ∧
      ∀ p : Inbound, p.bytes = o'.written →
        (p.readCalls frames.length).1.map Prod.fst = bodies.map Except.ok ∧
        (p.readCalls frames.length).1.map Prod.snd =
          frames.map (fun f => Except.ok f.swapped) ∧
        (p.readCalls frames.length).2.bytes = [] ∧
        (p.readCalls frames.length).2.readFrameStatic.1 =
          .error (.err (.io p.endError)) := by
  have heach : ∀ f ∈ frames, ∃ data, f.encode = .ok data := by
    intro f hf
    have hmem : f.encode ∈ bodies.map (Except.ok (ε := Error)) := by
      rw [← hencode]
      exact List.mem_map_of_mem hf
    obtain ⟨data, -, hdata⟩ := List.mem_map.mp hmem
    exact ⟨data, hdata.symm⟩
  obtain ⟨o', hwrite, hout⟩ := Outbound.writeFrames_spec frames hreliable heach
  refine ⟨o', hwrite, ?_⟩
  intro p hp
  have hbytes : p.bytes = frames.flatMap wire ++ [] := by
    rw [hp, hout, hwritten, List.nil_append, List.append_nil]
  obtain ⟨hcalls, hrest, hend⟩ := Inbound.readCalls_spec frames heach hbytes
  refine ⟨?_, ?_, hrest, ?_⟩
  · rw [hcalls, List.map_map]
    have hmap := congrArg (List.map (Except.mapError Fault.err)) hencode
    rw [List.map_map, List.map_map] at hmap
    exact hmap
  · rw [hcalls, List.map_map]
    rfl
  · obtain ⟨p', hframe, -, -⟩ :=
      Inbound.readFrameStatic_spec (p.readCalls frames.length).2
    rw [hframe, hrest, Inbound.endError, hend]
    rfl

/-- Two frames through a pipe that takes one byte at a time. -/
theorem framing_round_trip_bytewise :
    ∃ o', (⟨[], 0, ⟨fun _ => 1, fun _ => Nat.one_pos⟩, fun _ => none⟩ :
        Outbound).writeFrames [Frame.new .ping .control, Frame.new .goodbye .control] =
        (.ok (), o') ∧
      ∀ p : Inbound, p.bytes = o'.written →
        (p.readCalls 2).1.map Prod.fst =
          [.ok (Frame.new .ping .control).bytes, .ok (Frame.new .goodbye .control).bytes] ∧
        (p.readCalls 2).2.bytes = [] := by
  obtain ⟨o', hwrite, hread⟩ := framing_round_trip
    [Frame.new .ping .control, Frame.new .goodbye .control]
    [(Frame.new .ping .control).bytes, (Frame.new .goodbye .control).bytes]
    (by rw [List.map_cons, List.map_cons, Frame.encode_of_le (by decide),
          Frame.encode_of_le (by decide)]; rfl)
    ⟨[], 0, ⟨fun _ => 1, fun _ => Nat.one_pos⟩, fun _ => none⟩ (fun _ => rfl) rfl
  exact ⟨o', hwrite, fun p hp => ⟨(hread p hp).1, (hread p hp).2.2.1⟩⟩

end RemoteAgent.PipeServer
