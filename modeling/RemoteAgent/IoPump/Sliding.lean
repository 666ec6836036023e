import RemoteAgent.IoPump.Flow

/-!
# The window under one call after another

The two methods of `StreamPump` when each call has the pump to itself, and the
bytes that a client has not acknowledged yet.

* `trySendFrame` and `StreamPump.updateWindow` are the whole calls.  They are
  what the calls of `IoPump.Flow` come to when nobody interrupts them
  (`Flow.run_trySendFrame`, `Flow.run_updateWindow`).  A call whose frame does
  not fit waits under the block policy, and since the next call would only start
  after it, no call returns any more.
* `Line` adds up what was sent and what was acknowledged.
* `unacked_le_iff`: an acknowledgement moves both counters, so the test of
  `try_send_frame` leaves twice the room that it should.  The unacknowledged
  bytes stay within the initial window exactly as long as no frame makes use of
  that.
-/

namespace RemoteAgent.IoPump

open CodeLib Protocol

/-! ## The calls as a whole -/

/-- `try_send_frame`, run without interruption: the window and the result, and
the frames that the channel has accepted.  A call that waits is `none`. -/
def StreamPump.trySendFrame (w : StreamPump) (accepted : Bool) (f : Frame) :
    Option (StreamPump × Except Error Unit × List Frame) :=
  if StreamPump.guard w.bytesInFlight (dataLen f) w.sendWindow then
    let w' := { w with bytesInFlight := w.bytesInFlight + dataLen f }
    if accepted then some (w', .ok (), [f]) else some (w', .error sendError, [])
  else if w.dropPolicy then some (w, .ok (), [])
  else none

namespace Flow

/-- A call of `try_send_frame` with nothing in between, from its start on. -/
def sendAlone (s : Flow) (f : Frame) (accepted : Bool) (n : Nat) : Option Flow :=
  machine.run s (.trySendFrame f :: List.replicate n (.sender s.senders.length accepted))

/-- A call that has the pump to itself returns what `trySendFrame` says, and one
that waits can take no further step. -/
theorem run_trySendFrame (s : Flow) (f : Frame) (accepted : Bool) :
    match s.pump.trySendFrame accepted f with
    | some (w, r, _) =>
      ∃ n, s.sendAlone f accepted n =
        some { s with pump := w, senders := s.senders ++ [⟨f, .ret r⟩] }
    | none =>
      s.sendAlone f accepted 4 =
          some { s with senders := s.senders ++ [⟨f, .waiting false⟩] } ∧
        s.sendAlone f accepted 5 = none := by
  unfold StreamPump.trySendFrame
  by_cases hg : StreamPump.guard s.pump.bytesInFlight (dataLen f) s.pump.sendWindow = true
  · cases accepted <;> simp only [hg, if_true, Bool.false_eq_true, if_false] <;>
      refine ⟨5, ?_⟩ <;>
      simp [sendAlone, machine, StepMachine.run, step, TrySend.step, hg]
  · by_cases hd : s.pump.dropPolicy = true
    · simp only [hg, hd, if_true]
      refine ⟨3, ?_⟩
      simp [sendAlone, machine, StepMachine.run, step, TrySend.step, hg, hd]
    · simp [hg, hd, sendAlone, machine, StepMachine.run, step, TrySend.step]

/-- A call of `update_window` that has the pump to itself does what
`updateWindow` says, and wakes everyone. -/
theorem run_updateWindow (s : Flow) (n : UInt64) :
    machine.run s (.updateWindow n :: List.replicate 4 (.update s.updates.length)) =
      some { pump := s.pump.updateWindow n
             senders := s.senders.map TrySend.wake
             updates := s.updates ++ [⟨n, .ret⟩] } := by
  simp [machine, StepMachine.run, step, Update.step, StreamPump.updateWindow]

end Flow

/-! ## What is on the way to the client -/

/-- A `StreamPump` in front of its channel, with the bytes that the channel has
accepted and those that the client has acknowledged. -/
structure Line where
  pump : StreamPump
  closed : Bool
  sent : Nat
  acked : Nat
  deriving DecidableEq

/-- One call after another, and the end of the writer task, which closes the
channel for good. -/
inductive Use where
  | trySendFrame (f : Frame)
  | updateWindow (bytesConsumed : UInt64)
  | close
  deriving DecidableEq

namespace Line

def new (initialWindow : UInt64) (dropPolicy : Bool) : Line where
  pump := StreamPump.new initialWindow dropPolicy
  closed := false
  sent := 0
  acked := 0

def step (s : Line) : Use → Option Line
  | .trySendFrame f =>
    (s.pump.trySendFrame (!s.closed) f).map fun (w, _, fs) =>
      { s with pump := w, sent := s.sent + (fs.map fun f => f.payload.length).sum }
  | .updateWindow n =>
    some { s with pump := s.pump.updateWindow n, acked := s.acked + n.toNat }
  | .close => some { s with closed := true }

def machine (initialWindow : UInt64) (dropPolicy : Bool) : StepMachine Line Use where
  Init := fun s => s = new initialWindow dropPolicy
  step := step

/-- The payload bytes that are sent and not acknowledged. -/
def unacked (s : Line) : Nat := s.sent - s.acked

/-- The client acknowledges no more than it was sent. -/
def Honest (s : Line) : Use → Prop
  | .updateWindow n => s.acked + n.toNat ≤ s.sent
  | _ => True

/-- A frame that passes the test of `try_send_frame`, which is made against the
grown window, passes it against the initial window as well. -/
def FitsInitial (initialWindow : UInt64) (s : Line) : Use → Prop
  | .trySendFrame f =>
    s.closed = false →
    StreamPump.guard s.pump.bytesInFlight (dataLen f) s.pump.sendWindow = true →
      s.pump.bytesInFlight.toNat + f.payload.length ≤ initialWindow.toNat
  | _ => True

instance (s : Line) : (u : Use) → Decidable (s.Honest u)
  | .updateWindow n => inferInstanceAs (Decidable (s.acked + n.toNat ≤ s.sent))
  | .trySendFrame _ | .close => isTrue trivial

instance (initialWindow : UInt64) (s : Line) :
    (u : Use) → Decidable (s.FitsInitial initialWindow u)
  | .trySendFrame f => inferInstanceAs (Decidable (s.closed = false →
      StreamPump.guard s.pump.bytesInFlight (dataLen f) s.pump.sendWindow = true →
        s.pump.bytesInFlight.toNat + f.payload.length ≤ initialWindow.toNat))
  | .updateWindow _ | .close => isTrue trivial

/-- The counters against the bytes, as long as no frame has outgrown the initial
window.  Once the channel is closed the counter of the pump says nothing. -/
structure Balanced (initialWindow : UInt64) (s : Line) : Prop where
  acked_le : s.acked ≤ s.sent
  within : s.sent ≤ s.acked + initialWindow.toNat
  inFlight : s.closed = false → s.pump.bytesInFlight.toNat + s.acked = s.sent

section balanced

variable {initialWindow : UInt64} {s s' : Line}

theorem balanced_new (initialWindow : UInt64) (dropPolicy : Bool) :
    (new initialWindow dropPolicy).Balanced initialWindow where
  acked_le := Nat.le_refl 0
  within := Nat.zero_le _
  inFlight := fun _ => rfl

/-- What a call of `try_send_frame` can do: send, fail on a closed channel, or
drop the frame. -/
theorem step_trySendFrame {f : Frame} (h : s.step (.trySendFrame f) = some s') :
    (s.closed = false ∧
        StreamPump.guard s.pump.bytesInFlight (dataLen f) s.pump.sendWindow = true ∧
        s' = { s with
          pump := { s.pump with bytesInFlight := s.pump.bytesInFlight + dataLen f }
          sent := s.sent + f.payload.length }) ∨
      (s.closed = true ∧ s'.closed = true ∧ s'.sent = s.sent ∧ s'.acked = s.acked) ∨
      (StreamPump.guard s.pump.bytesInFlight (dataLen f) s.pump.sendWindow = false ∧
        s' = s) := by
  simp only [step, StreamPump.trySendFrame, Option.map_eq_some_iff] at h
  obtain ⟨⟨w, r, fs⟩, hsend, rfl⟩ := h
  cases hclosed : s.closed with
  | false =>
    simp only [hclosed, Bool.not_false, if_true] at hsend
    split_ifs at hsend with hg hd
    · cases hsend
      exact .inl ⟨rfl, hg, by simp⟩
    · cases hsend
      exact .inr (.inr ⟨by simpa using hg, by simp [← hclosed]⟩)
  | true =>
    simp only [hclosed, Bool.not_true, Bool.false_eq_true, if_false] at hsend
    split_ifs at hsend with hg hd
    · cases hsend
      exact .inr (.inl ⟨rfl, rfl, rfl, rfl⟩)
    · cases hsend
      exact .inr (.inl ⟨rfl, rfl, rfl, rfl⟩)

/-- The counter comes down by what is acknowledged. -/
theorem toNat_updateWindow {w : StreamPump} {n : UInt64}
    (hn : n.toNat ≤ w.bytesInFlight.toNat) :
    (w.updateWindow n).bytesInFlight.toNat = w.bytesInFlight.toNat - n.toNat := by
  have hle : n ≤ w.bytesInFlight := UInt64.le_iff_toNat_le.mpr hn
  have hmin : min n w.bytesInFlight = n := if_pos hle
  show (w.bytesInFlight - min n w.bytesInFlight).toNat = _
  rw [hmin, UInt64.toNat_sub_of_le _ _ hle]

theorem Balanced.step {u : Use} (hs : s.Balanced initialWindow) (hu : s.Honest u)
    (hfits : s.FitsInitial initialWindow u) (h : s.step u = some s') :
    s'.Balanced initialWindow := by
  have hle := hs.acked_le
  have hwithin := hs.within
  have hlt := initialWindow.toNat_lt
  cases u with
  | close =>
    cases h
    exact ⟨hle, hwithin, fun hopen => by cases hopen⟩
  | updateWindow n =>
    have hhonest : s.acked + n.toNat ≤ s.sent := hu
    cases h
    refine ⟨hhonest, ?_, ?_⟩
    · show s.sent ≤ s.acked + n.toNat + initialWindow.toNat
      omega
    · intro hopen
      have hcount := hs.inFlight hopen
      have hn : n.toNat ≤ s.pump.bytesInFlight.toNat := by omega
      show (s.pump.updateWindow n).bytesInFlight.toNat + (s.acked + n.toNat) = s.sent
      rw [toNat_updateWindow hn]
      omega
  | trySendFrame f =>
    rcases step_trySendFrame h with ⟨hopen, hg, rfl⟩ | ⟨-, hclosed, hsent, hacked⟩ | ⟨-, rfl⟩
    · have hroom := hfits hopen hg
      have hcount := hs.inFlight hopen
      refine ⟨?_, ?_, ?_⟩
      · show s.acked ≤ s.sent + f.payload.length
        omega
      · show s.sent + f.payload.length ≤ s.acked + initialWindow.toNat
        omega
      · intro _
        show (s.pump.bytesInFlight + dataLen f).toNat + s.acked = s.sent + f.payload.length
        rw [UInt64.toNat_add, dataLen, UInt64.toNat_ofNat']
        omega
    · refine ⟨?_, ?_, ?_⟩
      · omega
      · omega
      · intro hopen
        rw [hclosed] at hopen
        cases hopen
    · exact hs

/-- A frame that outgrows the initial window takes the unacknowledged bytes
beyond it. -/
theorem Balanced.outgrown {u : Use} (hs : s.Balanced initialWindow)
    (hfits : ¬ s.FitsInitial initialWindow u) (h : s.step u = some s') :
    initialWindow.toNat < s'.unacked := by
  cases u with
  | close | updateWindow n => exact absurd trivial hfits
  | trySendFrame f =>
    simp only [FitsInitial, not_forall, Nat.not_le] at hfits
    obtain ⟨hopen, hg, hlarge⟩ := hfits
    have hcount := hs.inFlight hopen
    rcases step_trySendFrame h with ⟨-, -, rfl⟩ | ⟨hclosed, -⟩ | ⟨hblocked, -⟩
    · show initialWindow.toNat < s.sent + f.payload.length - s.acked
      omega
    · rw [hopen] at hclosed
      cases hclosed
    · rw [hg] at hblocked
      cases hblocked

end balanced

/-- The unacknowledged bytes stay within the initial window over a run of calls,
exactly if every frame of the run that is sent fits the initial window. -/
theorem unacked_le_iff {initialWindow : UInt64} {dropPolicy : Bool} {s : Line}
    {us : List Use} (hp : (machine initialWindow dropPolicy).Path Honest
      (new initialWindow dropPolicy) us s) :
    (∀ t ∈ (machine initialWindow dropPolicy).states (new initialWindow dropPolicy) us,
        t.unacked ≤ initialWindow.toNat) ↔
      (machine initialWindow dropPolicy).Path
        (fun s u => s.Honest u ∧ s.FitsInitial initialWindow u)
        (new initialWindow dropPolicy) us s := by
  refine hp.forall_states_iff (I := Balanced initialWindow) ?_ ?_ ?_
    (balanced_new initialWindow dropPolicy)
  · intro t ht
    have hwithin := ht.within
    unfold unacked
    omega
  · intro t u t' ht hhonest hfits hstep
    exact ht.step hhonest hfits hstep
  · intro t u t' ht _ hstep hbreak
    exact Nat.not_le.mpr (ht.outgrown hbreak hstep)

/-- With a window of ten bytes: ten bytes go out, five are acknowledged, and
`n` bytes follow. -/
def afterAck (n : Nat) : List Use :=
  [.trySendFrame (dataFrame 1 .stdout 0 (List.replicate 10 0)), .updateWindow 5,
    .trySendFrame (dataFrame 1 .stdout 1 (List.replicate n 0))]

theorem unacked_le_refilled :
    ∃ s, (machine 10 false).Path Honest (new 10 false) (afterAck 5) s ∧ s.sent = 15 ∧
      ∀ t ∈ (machine 10 false).states (new 10 false) (afterAck 5), t.unacked ≤ 10 := by
  have hrun : ((machine 10 false).runIf
      (fun s u => s.Honest u ∧ s.FitsInitial 10 u) (new 10 false) (afterAck 5)).any
      (fun s => s.sent = 15) = true := by
    decide +kernel
  obtain ⟨s, hs, hsent⟩ := (Option.any_eq_true _ _).mp hrun
  have hall := StepMachine.path_of_runIf hs
  have hpath := hall.mono (D := Honest) fun _ _ h => h.1
  exact ⟨s, hpath, by simpa using hsent, (unacked_le_iff hpath).mpr hall⟩

/-- After five of ten bytes are acknowledged there is room for ten more. -/
theorem unacked_exceeds_window :
    ∃ s, (machine 10 false).Path Honest (new 10 false) (afterAck 10) s ∧
      10 < s.unacked := by
  have hrun : ((machine 10 false).runIf Honest (new 10 false) (afterAck 10)).any
      (fun s => 10 < s.unacked) = true := by
    decide +kernel
  obtain ⟨s, hs, hunacked⟩ := (Option.any_eq_true _ _).mp hrun
  exact ⟨s, StepMachine.path_of_runIf hs, by simpa using hunacked⟩

end Line

end RemoteAgent.IoPump
