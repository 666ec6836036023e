import RemoteAgent.PipeServer.Connection

/-!
# The client hangs up

`process_requests` returns `Ok` when `read_frame` fails with `ERROR_BROKEN_PIPE`, and
an output pump takes the same failure for the end of its pipe.  Both get the failure as
an `HRESULT`.  The pump compares it with the `HRESULT` of `ERROR_BROKEN_PIPE`; the
request loop compares the raw code of the `io::Error`, in which `read_exact` has stored
the `HRESULT`, with the Win32 code.

* `hresult_ne_brokenPipe`: the two never meet.
* `Incomplete` are the streams on which `read_frame` meets a failing `ReadFile`: at a
  record boundary, in the length, or inside the record (`nextFrame_incomplete`).
* `hangup_iff`: the request loop tells the broken pipe from other errors as the pump
  does, for every error code except that of the broken pipe itself.
-/

namespace RemoteAgent

open CodeLib CodeLib.ByteOrder Protocol PipeServer IoPump

/-- No `HRESULT` of a Win32 error is the Win32 code of a broken pipe. -/
theorem hresult_ne_brokenPipe (code : UInt32) :
    hresultFromWin32 code ≠ errorBrokenPipe.toInt32 := by
  unfold hresultFromWin32
  split
  · -- the code is its own `HRESULT`, and it is not positive
    rename_i hle
    intro heq
    rw [heq] at hle
    exact absurd hle (by decide)
  · intro heq
    have hu := congrArg (fun x => x.toUInt32.toNat) heq
    simp only [UInt32.toUInt32_toInt32, UInt32.toNat_or] at hu
    have hbit := Nat.right_le_or (n := (code &&& 0x0000FFFF).toNat ||| UInt32.toNat 0x00070000)
      (m := UInt32.toNat 0x80000000)
    rw [hu] at hbit
    exact absurd hbit (by decide)

/-- The pump takes the failure for the end of its pipe. -/
def IoPump.takesForEof (code : UInt32) (data : List UInt8) : Bool :=
  match readPipeBlocking (.err code data) with
  | .ok result => result.isEof
  | .error _ => false

theorem takesForEof_iff {code : UInt32} (h : IsWin32Error code) (data : List UInt8) :
    takesForEof code data = true ↔ code = errorBrokenPipe := by
  have hbroken : IsWin32Error errorBrokenPipe := by decide
  unfold takesForEof readPipeBlocking
  constructor
  · intro heof
    by_cases hb : hresultFromWin32 code = hresultFromWin32 errorBrokenPipe
    · exact hresultFromWin32_inj h hbroken hb
    · by_cases hm : hresultFromWin32 code = hresultFromWin32 errorMoreData
      · simp only [if_neg hb, if_pos hm] at heof
        cases heof
      · simp only [if_neg hb, if_neg hm] at heof
        cases heof
  · rintro rfl
    simp

namespace PipeServer

/-- The stream ends before the next record does. -/
def Incomplete : List UInt8 → Prop
  | b₀ :: b₁ :: b₂ :: b₃ :: rest =>
    (ofBeBytes32 b₀ b₁ b₂ b₃).toNat ≤ 1024 * 1024 ∧
      rest.length < (ofBeBytes32 b₀ b₁ b₂ b₃).toNat
  | _ => True

theorem nextFrame_incomplete {bytes : List UInt8} (h : Incomplete bytes) (eof : IoError) :
    nextFrame eof bytes = (.error (.io eof), []) := by
  have hrecord : nextRecord eof bytes = (.error (.io eof), []) := by
    rcases bytes with _ | ⟨b₀, _ | ⟨b₁, _ | ⟨b₂, _ | ⟨b₃, rest⟩⟩⟩⟩
    case cons.cons.cons.cons =>
      obtain ⟨hmax, hshort⟩ := h
      rw [nextRecord, recordBody, if_neg (by omega), if_pos hshort]
    all_goals rfl
  rw [nextFrame, hrecord]
  rfl

end PipeServer

namespace Connection

/-- The request loop ends, and it ends with `Ok` exactly if the code is that of a broken
pipe. -/
def TellsHangup (serde : Serde) (c : Connection) (code : UInt32) : Prop :=
  ∃ c' s' r, c.step serde .read = some c' ∧ c'.phase = .session s' ∧
    s'.requests = .returned r ∧ (r = .ok () ↔ code = errorBrokenPipe)

/-- A `ReadFile` that fails ends the request loop with the `HRESULT` of the failure. -/
theorem step_read_fails (serde : Serde) {c : Connection} {s : Session} {code : UInt32}
    (hphase : c.phase = .session s) (hreading : s.requests = .reading)
    (hend : c.input.atEnd = some code) (hinc : Incomplete c.input.bytes) :
    ∃ c' s', c.step serde .read = some c' ∧ c'.phase = .session s' ∧
      s'.requests = .returned (.error (.io (.rawOs (hresultFromWin32 code)))) := by
  obtain ⟨hread, -, -⟩ := readFrameStatic_leaves c.input
  have heof : c.input.endError = .rawOs (hresultFromWin32 code) := by
    rw [Inbound.endError, hend]
  rw [nextFrame_incomplete hinc, heof, mapError_error] at hread
  have hne : ¬ Error.io (.rawOs (hresultFromWin32 code)) =
      .io (.rawOs errorBrokenPipe.toInt32) := by
    intro h
    injection h with h
    injection h with h
    exact hresult_ne_brokenPipe code h
  have hsession : s.step serde (.read (.error (.io (.rawOs (hresultFromWin32 code))))) =
      some { s with
        requests := .returned (.error (.io (.rawOs (hresultFromWin32 code)))) } := by
    simp only [Session.step, hreading, Session.dispatch, if_neg hne]
  refine ⟨{ c with
      input := c.input.readFrameStatic.2
      phase := .session { s with
        requests := .returned (.error (.io (.rawOs (hresultFromWin32 code)))) } },
    _, ?_, rfl, rfl⟩
  simp only [step, hphase, hread, afterRead, hsession, Option.map_some]

theorem tellsHangup_iff (serde : Serde) {c : Connection} {s : Session} {code : UInt32}
    (hphase : c.phase = .session s) (hreading : s.requests = .reading)
    (hend : c.input.atEnd = some code) (hinc : Incomplete c.input.bytes) :
    c.TellsHangup serde code ↔ code ≠ errorBrokenPipe := by
  obtain ⟨c₁, s₁, hstep, hphase₁, hret⟩ := step_read_fails serde hphase hreading hend hinc
  constructor
  · rintro ⟨c', s', r, hstep', hphase', hret', hiff⟩ hbroken
    obtain rfl : c₁ = c' := Option.some.inj (hstep.symm.trans hstep')
    rw [hphase₁] at hphase'
    cases hphase'
    rw [hret] at hret'
    cases hret'
    exact absurd (hiff.mpr hbroken) (by simp)
  · intro hne
    refine ⟨c₁, s₁, _, hstep, hphase₁, hret, ?_⟩
    exact ⟨fun h => (by cases h), fun h => absurd h hne⟩

/-- A session past the handshake whose `ReadFile` fails, at a record boundary or inside a
record: the request loop classifies the failure as the output pumps do, exactly if it
is not the broken pipe. -/
theorem hangup_iff (serde : Serde) {c : Connection} {s : Session} {code : UInt32}
    (hcode : IsWin32Error code) (hphase : c.phase = .session s)
    (hreading : s.requests = .reading) (hend : c.input.atEnd = some code)
    (hinc : Incomplete c.input.bytes) :
    (c.TellsHangup serde code ∧
        ∀ data, takesForEof code data = true ↔ code = errorBrokenPipe) ↔
      code ≠ errorBrokenPipe := by
  rw [tellsHangup_iff serde hphase hreading hend hinc]
  exact and_iff_left (takesForEof_iff hcode)

/-- A client that has got its HELLO_ACK, and then sends `rest` before its end of the pipe
fails with the code. -/
theorem exists_greeted (rest : List UInt8) (code : UInt32) :
    ∃ c, (machine Session.sampleSerde).Reachable c ∧
      c.phase = .session (Session.start Session.helloAckFrame) ∧ c.input.bytes = rest ∧
      c.input.atEnd = some code := by
  let input : Inbound :=
    ⟨⟨[⟨wire Session.helloFrame ++ rest, List.cons_ne_nil _ _⟩]⟩, some code⟩
  have hbytes : input.bytes = wire Session.helloFrame ++ rest := List.append_nil _
  have hhello := nextFrame_wire input.endError
    (Frame.encode_of_le (f := Session.helloFrame) (by decide)) rest
  rw [← hbytes] at hhello
  obtain ⟨c, hstep, hphase, hrest, hend⟩ :=
    step_greet_admitted Session.sampleSerde (c := start input sampleOutput) rfl hhello
      (show negotiate Session.sampleSerde _ = .accept Session.helloAckFrame by decide)
      (fun _ => rfl) (Frame.encode_of_le (by decide))
  exact ⟨c, ⟨_, [.greet], ⟨input, sampleOutput, rfl⟩, .cons trivial hstep (.nil c)⟩, hphase,
    hrest, hend⟩

/-- The pipe is gone (`ERROR_PIPE_NOT_CONNECTED`) inside the length of a record. -/
theorem hangup_iff_not_connected :
    ∃ c, (machine Session.sampleSerde).Reachable c ∧ c.input.bytes = [0, 0, 0] ∧
      c.TellsHangup Session.sampleSerde 233 ∧
      ∀ data, takesForEof 233 data = true ↔ 233 = errorBrokenPipe := by
  obtain ⟨c, hreach, hphase, hbytes, hend⟩ := exists_greeted [0, 0, 0] 233
  have hinc : Incomplete c.input.bytes := by
    rw [hbytes]
    trivial
  exact ⟨c, hreach, hbytes,
    (hangup_iff Session.sampleSerde (by decide) hphase rfl hend hinc).mpr (by decide)⟩

/-- A client that disconnects between two frames: the pump would take it for the end of
its pipe, and the request loop returns an error. -/
theorem broken_pipe_is_error :
    ∃ c, (machine Session.sampleSerde).Reachable c ∧ c.input.bytes = [] ∧
      c.input.atEnd = some errorBrokenPipe ∧ takesForEof errorBrokenPipe [] = true ∧
      ¬ c.TellsHangup Session.sampleSerde errorBrokenPipe := by
  obtain ⟨c, hreach, hphase, hbytes, hend⟩ := exists_greeted [] errorBrokenPipe
  have hinc : Incomplete c.input.bytes := by
    rw [hbytes]
    trivial
  refine ⟨c, hreach, hbytes, hend, by decide, ?_⟩
  rw [tellsHangup_iff Session.sampleSerde hphase rfl hend hinc]
  simp

end Connection

end RemoteAgent
