import RemoteAgent.IoPump.Sliding
import RemoteAgent.Job.Backpressure

/-!
# Two streams behind one window

`handle_run` gives both pumps of a job the same `StreamPump`, so what one stream sends
takes room from the other.

* `Streams` is the window of a job with its two pumps, where a call of `try_send_frame`
  is one step (`StreamPump.trySendFrame`).
* `Coupled` is the invariant: the counter is what both streams have sent, and a pump that
  waits does so because its frame does not fit.
* `admitted_iff`: two runs with the same frames on one stream let the same of them
  through exactly if in both or in neither of them a frame had to wait for the other
  stream only.  `chatty_stdout` is a pair of runs of the other kind.
* `streams_reachable` is the refinement: a job whose pumps do not interleave inside a call
  is, seen from its window, in a state of `Streams`.  `streams_admitted_eq_iff` reads the
  comparison of two runs off it for two such jobs.
-/

namespace RemoteAgent.Job

open CodeLib Protocol IoPump

/-- The window of a job, the frames that each of its pumps has got past it, and the
frames with which they wait. -/
structure Streams where
  window : StreamPump
  admitted : Out → List Frame
  waiting : Out → Option Frame

namespace Streams

/-- `handle_run` makes one `StreamPump` and clones the `Arc` for the second pump. -/
def new : Streams where
  window := StreamPump.new 65536 false
  admitted := fun _ => []
  waiting := fun _ => none

/-- A pump calls `try_send_frame`, or the client acknowledges bytes of a stream. -/
inductive Event where
  | trySendFrame (o : Out) (f : Frame)
  | windowUpdate (o : Out) (bytesConsumed : UInt64)
  deriving DecidableEq

/-- A pump that waits makes no calls, and its frames have the size of a read at most.  The
request loop does not look at what a WINDOW_UPDATE acknowledges. -/
def step (s : Streams) : Event → Option Streams
  | .trySendFrame o f =>
    if s.waiting o = none ∧ f.payload.length ≤ maxPayloadSize then
      match s.window.trySendFrame true f with
      | some (w, _, fs) =>
        some { s with
          window := w
          admitted := Function.update s.admitted o (s.admitted o ++ fs) }
      | none => some { s with waiting := Function.update s.waiting o (some f) }
    else none
  | .windowUpdate _ _ => some s

/-- The machine of one window. -/
def machine : StepMachine Streams Event where
  Init s := s = new
  step := step

/-- The frames that a run offers on a stream. -/
def offered (o : Out) (es : List Event) : List Frame :=
  es.filterMap fun
    | .trySendFrame o' f => if o' = o then some f else none
    | .windowUpdate _ _ => none

/-- The bytes that the client acknowledges for a stream. -/
def acknowledged (o : Out) (es : List Event) : List UInt64 :=
  es.filterMap fun
    | .windowUpdate o' n => if o' = o then some n else none
    | .trySendFrame _ _ => none

/-- The payload bytes of the frames that a stream has got past the window. -/
def bytes (s : Streams) (o : Out) : Nat := ((s.admitted o).map fun f => f.payload.length).sum

/-- A frame that fits the window behind the frames of its own stream also fits behind
those of both. -/
def KeepsRoom (o : Out) (s : Streams) : Event → Prop
  | .trySendFrame o' f => o' = o → s.bytes o + f.payload.length ≤ 65536 →
      s.bytes .stdout + s.bytes .stderr + f.payload.length ≤ 65536
  | .windowUpdate _ _ => True

instance (o : Out) (s : Streams) : (e : Event) → Decidable (KeepsRoom o s e)
  | .trySendFrame _ _ => inferInstanceAs (Decidable (_ → _ → _))
  | .windowUpdate _ _ => isTrue trivial

/-! ## The invariant -/

/-- The counter against the frames. -/
structure Coupled (s : Streams) : Prop where
  window : s.window.sendWindow = 65536
  policy : s.window.dropPolicy = false
  count : s.window.bytesInFlight.toNat = s.bytes .stdout + s.bytes .stderr
  within : s.bytes .stdout + s.bytes .stderr ≤ 65536
  full : ∀ o f, s.waiting o = some f →
    65536 < s.bytes .stdout + s.bytes .stderr + f.payload.length

theorem coupled_new : new.Coupled where
  window := rfl
  policy := rfl
  count := rfl
  within := Nat.zero_le _
  full := fun o f h => by cases h

/-- The state after a frame has got past the window. -/
def grant (s : Streams) (o : Out) (f : Frame) : Streams :=
  { s with
    window := { s.window with bytesInFlight := s.window.bytesInFlight + dataLen f }
    admitted := Function.update s.admitted o (s.admitted o ++ [f]) }

/-- The state after a frame has been held up. -/
def hold (s : Streams) (o : Out) (f : Frame) : Streams :=
  { s with waiting := Function.update s.waiting o (some f) }

@[simp] theorem waiting_grant (s : Streams) (o : Out) (f : Frame) :
    (s.grant o f).waiting = s.waiting := rfl

@[simp] theorem admitted_hold (s : Streams) (o : Out) (f : Frame) :
    (s.hold o f).admitted = s.admitted := rfl

@[simp] theorem bytes_hold (s : Streams) (o o' : Out) (f : Frame) :
    (s.hold o f).bytes o' = s.bytes o' := rfl

theorem waiting_hold (s : Streams) (o o' : Out) (f : Frame) :
    (s.hold o f).waiting o' = if o' = o then some f else s.waiting o' :=
  Function.update_apply s.waiting o (some f) o'

theorem bytes_grant (s : Streams) (o o' : Out) (f : Frame) :
    (s.grant o f).bytes o' = s.bytes o' + if o' = o then f.payload.length else 0 := by
  by_cases h : o' = o
  · subst h
    simp [bytes, grant]
  · simp [bytes, grant, h]

/-- Both streams together, with one more frame on one of them. -/
theorem total_grant (s : Streams) (o : Out) (f : Frame) :
    (s.grant o f).bytes .stdout + (s.grant o f).bytes .stderr =
      s.bytes .stdout + s.bytes .stderr + f.payload.length := by
  rw [bytes_grant, bytes_grant]
  cases o <;> simp <;> omega

/-- A call whose test succeeds. -/
theorem step_pass {s : Streams} {o : Out} {f : Frame} (hfree : s.waiting o = none)
    (hlen : f.payload.length ≤ maxPayloadSize)
    (hg : StreamPump.guard s.window.bytesInFlight (dataLen f) s.window.sendWindow = true) :
    s.step (.trySendFrame o f) = some (s.grant o f) := by
  rw [step, if_pos ⟨hfree, hlen⟩]
  simp only [StreamPump.trySendFrame, hg, if_true]
  rfl

/-- A call whose test fails. -/
theorem step_block {s : Streams} {o : Out} {f : Frame} (hfree : s.waiting o = none)
    (hlen : f.payload.length ≤ maxPayloadSize) (hpolicy : s.window.dropPolicy = false)
    (hg : StreamPump.guard s.window.bytesInFlight (dataLen f) s.window.sendWindow = false) :
    s.step (.trySendFrame o f) = some (s.hold o f) := by
  rw [step, if_pos ⟨hfree, hlen⟩]
  simp only [StreamPump.trySendFrame, hg, hpolicy]
  rfl

/-- A call gets its frame through if the frame fits behind those of both streams, and
waits if it does not. -/
theorem step_trySendFrame {s : Streams} {o : Out} {f : Frame} (hs : s.Coupled)
    (hfree : s.waiting o = none) (hlen : f.payload.length ≤ maxPayloadSize) :
    s.step (.trySendFrame o f) =
      some (if s.bytes .stdout + s.bytes .stderr + f.payload.length ≤ 65536 then s.grant o f
        else s.hold o f) := by
  have hmax : maxPayloadSize = 32768 := rfl
  have hwithin := hs.within
  have hfits : StreamPump.guard s.window.bytesInFlight (dataLen f) s.window.sendWindow = true ↔
      s.bytes .stdout + s.bytes .stderr + f.payload.length ≤ 65536 := by
    rw [dataLen, guard_iff (by rw [hs.count]; omega), hs.count, hs.window]
    rfl
  by_cases hg : StreamPump.guard s.window.bytesInFlight (dataLen f) s.window.sendWindow = true
  · rw [if_pos (hfits.mp hg)]
    exact step_pass hfree hlen hg
  · rw [if_neg fun hle => hg (hfits.mpr hle)]
    exact step_block hfree hlen hs.policy (Bool.eq_false_iff.mpr hg)

theorem step_grant {s : Streams} {o : Out} {f : Frame} (hs : s.Coupled)
    (hfree : s.waiting o = none) (hlen : f.payload.length ≤ maxPayloadSize)
    (hfits : s.bytes .stdout + s.bytes .stderr + f.payload.length ≤ 65536) :
    machine.step s (.trySendFrame o f) = some (s.grant o f) :=
  (step_trySendFrame hs hfree hlen).trans (by rw [if_pos hfits])

theorem step_hold {s : Streams} {o : Out} {f : Frame} (hs : s.Coupled)
    (hfree : s.waiting o = none) (hlen : f.payload.length ≤ maxPayloadSize)
    (hfull : 65536 < s.bytes .stdout + s.bytes .stderr + f.payload.length) :
    machine.step s (.trySendFrame o f) = some (s.hold o f) :=
  (step_trySendFrame hs hfree hlen).trans (by rw [if_neg (Nat.not_le.mpr hfull)])

/-- What can happen at the window. -/
theorem step_cases {s s' : Streams} {e : Event} (hs : s.Coupled) (h : s.step e = some s') :
    (∃ o n, e = .windowUpdate o n ∧ s' = s) ∨
      ∃ o f, e = .trySendFrame o f ∧ s.waiting o = none ∧
        (s.bytes .stdout + s.bytes .stderr + f.payload.length ≤ 65536 ∧ s' = s.grant o f ∨
          65536 < s.bytes .stdout + s.bytes .stderr + f.payload.length ∧ s' = s.hold o f) := by
  cases e with
  | windowUpdate o n =>
    cases h
    exact .inl ⟨o, n, rfl, rfl⟩
  | trySendFrame o f =>
    refine .inr ⟨o, f, rfl, ?_⟩
    by_cases hcall : s.waiting o = none ∧ f.payload.length ≤ maxPayloadSize
    · rw [step_trySendFrame hs hcall.1 hcall.2] at h
      refine ⟨hcall.1, ?_⟩
      split_ifs at h with hfits <;> cases h
      · exact .inl ⟨hfits, rfl⟩
      · exact .inr ⟨Nat.lt_of_not_le hfits, rfl⟩
    · rw [step, if_neg hcall] at h
      cases h

section step

variable {s s' : Streams} {o : Out} {e : Event}

theorem Coupled.step (hs : s.Coupled) (h : s.step e = some s') : s'.Coupled := by
  rcases step_cases hs h with ⟨-, -, -, rfl⟩ | ⟨o, f, -, -, ⟨hfits, rfl⟩ | ⟨hfull, rfl⟩⟩
  · exact hs
  · have hcount : (s.window.bytesInFlight + dataLen f).toNat =
        s.bytes .stdout + s.bytes .stderr + f.payload.length := by
      rw [UInt64.toNat_add, dataLen, UInt64.toNat_ofNat', hs.count]
      omega
    refine ⟨hs.window, hs.policy, ?_, ?_, ?_⟩
    · rw [total_grant]
      exact hcount
    · rw [total_grant]
      exact hfits
    · intro o' g hg
      have hold := hs.full o' g hg
      rw [total_grant]
      omega
  · refine ⟨hs.window, hs.policy, hs.count, hs.within, ?_⟩
    intro o' g hg
    rw [waiting_hold] at hg
    split_ifs at hg
    · cases hg
      exact hfull
    · exact hs.full o' g hg

theorem coupled_of_path {es : List Event} (h : machine.Path StepMachine.Any new es s) :
    s.Coupled :=
  h.invariant (fun _ _ _ hs _ hstep => hs.step hstep) coupled_new

theorem coupled_reachable (h : machine.Reachable s) : s.Coupled := by
  obtain ⟨s₀, es, hnew, hpath⟩ := h
  obtain rfl : s₀ = new := hnew
  exact coupled_of_path hpath

/-! ## The frames that a run offers -/

/-- What a stream has offered: the frames that are past the window, and one that waits. -/
def tried (s : Streams) (o : Out) : List Frame := s.admitted o ++ (s.waiting o).toList

theorem tried_step (hs : s.Coupled) (h : s.step e = some s') (o : Out) :
    s'.tried o = s.tried o ++ offered o [e] := by
  rcases step_cases hs h with ⟨o', n, rfl, rfl⟩ |
    ⟨o', f, rfl, hfree, ⟨-, rfl⟩ | ⟨-, rfl⟩⟩
  · simp [offered]
  · by_cases ho : o' = o
    · subst ho
      simp [tried, offered, grant, hfree]
    · simp [tried, offered, grant, ho, Ne.symm ho]
  · by_cases ho : o' = o
    · subst ho
      simp [tried, offered, hold, hfree]
    · simp [tried, offered, hold, ho, Ne.symm ho]

theorem tried_of_path {es : List Event} (h : machine.Path StepMachine.Any s es s')
    (hs : s.Coupled) (o : Out) : s'.tried o = s.tried o ++ offered o es := by
  induction h with
  | nil s => simp [offered]
  | @cons s u t e es _ hstep _ ih =>
    have hcons : offered o (e :: es) = offered o [e] ++ offered o es :=
      List.filterMap_append (l := [e])
    rw [ih (hs.step hstep), tried_step hs hstep, hcons, List.append_assoc]

/-! ## Waiting for the other stream -/

/-- The pump waits, and without the other stream its frame would fit. -/
def CrowdedOut (o : Out) (s : Streams) : Prop :=
  ∃ f, s.waiting o = some f ∧ s.bytes o + f.payload.length ≤ 65536

theorem crowdedOut_hold {f : Frame} : (s.hold o f).CrowdedOut o ↔
    s.bytes o + f.payload.length ≤ 65536 := by
  simp [CrowdedOut, waiting_hold]

theorem crowdedOut_hold_of_ne {o' : Out} {f : Frame} (ho : o' ≠ o) :
    (s.hold o' f).CrowdedOut o ↔ s.CrowdedOut o := by
  simp [CrowdedOut, waiting_hold, Ne.symm ho]

theorem crowdedOut_grant {o' : Out} {f : Frame} (hfree : s.waiting o' = none) :
    (s.grant o' f).CrowdedOut o ↔ s.CrowdedOut o := by
  simp only [CrowdedOut, waiting_grant, bytes_grant]
  by_cases ho : o = o'
  · subst ho
    simp [hfree]
  · simp [ho]

/-- A step crowds a stream out exactly if it does not keep room for it. -/
theorem crowdedOut_step (hs : s.Coupled) (hnot : ¬ s.CrowdedOut o) (h : s.step e = some s') :
    s'.CrowdedOut o ↔ ¬ KeepsRoom o s e := by
  rcases step_cases hs h with ⟨o', n, rfl, rfl⟩ |
    ⟨o', f, rfl, hfree, ⟨hfits, rfl⟩ | ⟨hfull, rfl⟩⟩
  · exact iff_of_false hnot (not_not_intro trivial)
  · rw [crowdedOut_grant hfree]
    exact iff_of_false hnot (not_not_intro fun _ _ => hfits)
  · by_cases ho : o' = o
    · subst ho
      rw [crowdedOut_hold]
      simp only [KeepsRoom, forall_const]
      omega
    · rw [crowdedOut_hold_of_ne ho]
      exact iff_of_false hnot (not_not_intro fun heq => absurd heq ho)

theorem CrowdedOut.stays (hs : s.Coupled) (hc : s.CrowdedOut o) (h : s.step e = some s') :
    s'.CrowdedOut o := by
  rcases step_cases hs h with ⟨-, -, -, rfl⟩ | ⟨o', f, -, hfree, ⟨-, rfl⟩ | ⟨-, rfl⟩⟩
  · exact hc
  · exact (crowdedOut_grant hfree).mpr hc
  · have ho : o' ≠ o := by
      rintro rfl
      obtain ⟨g, hg, -⟩ := hc
      rw [hfree] at hg
      cases hg
    exact (crowdedOut_hold_of_ne ho).mpr hc

/-- A run keeps room for a stream exactly if it does not crowd it out. -/
theorem keepsRoom_iff {es : List Event} (h : machine.Path StepMachine.Any new es s) :
    machine.Path (KeepsRoom o) new es s ↔ ¬ s.CrowdedOut o := by
  refine h.iff_not_of_stays (I := Coupled) (P := CrowdedOut o)
    (fun _ _ _ hs hstep => hs.step hstep)
    (fun _ _ _ hs hnot hstep => crowdedOut_step hs hnot hstep)
    (fun _ _ _ hs hc hstep => hc.stays hs hstep) coupled_new ?_
  rintro ⟨f, hf, -⟩
  cases hf

end step

/-! ## Two runs -/

/-- The runs agree on what is offered on a stream and acknowledged for it. -/
structure Agree (o : Out) (es₁ es₂ : List Event) : Prop where
  offered : offered o es₁ = offered o es₂
  acknowledged : acknowledged o es₁ = acknowledged o es₂

section two

variable {o : Out} {s₁ s₂ : Streams} {f : Frame}

theorem crowdedOut_iff (hf : s₁.waiting o = some f) :
    s₁.CrowdedOut o ↔ s₁.bytes o + f.payload.length ≤ 65536 := by
  simp [CrowdedOut, hf]

theorem not_crowdedOut (hfree : s₁.waiting o = none) : ¬ s₁.CrowdedOut o := by
  simp [CrowdedOut, hfree]

/-- What one run holds up and another lets through was held up by the other stream. -/
theorem crowdedOut_of_tried (h₂ : s₂.Coupled) (hf : s₁.waiting o = some f)
    (hfree : s₂.waiting o = none) (htried : s₁.tried o = s₂.tried o) :
    s₁.CrowdedOut o ∧ s₁.admitted o ≠ s₂.admitted o := by
  have hlist : s₂.admitted o = s₁.admitted o ++ [f] := by
    simpa [tried, hf, hfree] using htried.symm
  have hbytes : s₂.bytes o = s₁.bytes o + f.payload.length := by
    simp [bytes, hlist]
  have hle : s₂.bytes o ≤ 65536 := by
    have hwithin := h₂.within
    cases o <;> omega
  refine ⟨(crowdedOut_iff hf).mpr (hbytes ▸ hle), ?_⟩
  rw [hlist]
  simp

/-- Two states in which the same frames of a stream have been tried. -/
theorem admitted_eq_iff (h₁ : s₁.Coupled) (h₂ : s₂.Coupled)
    (htried : s₁.tried o = s₂.tried o) :
    s₁.admitted o = s₂.admitted o ↔ (s₁.CrowdedOut o ↔ s₂.CrowdedOut o) := by
  cases hw₁ : s₁.waiting o with
  | none =>
    cases hw₂ : s₂.waiting o with
    | none =>
      have heq : s₁.admitted o = s₂.admitted o := by simpa [tried, hw₁, hw₂] using htried
      exact iff_of_true heq (iff_of_false (not_crowdedOut hw₁) (not_crowdedOut hw₂))
    | some g =>
      obtain ⟨hcrowded, hne⟩ := crowdedOut_of_tried h₁ hw₂ hw₁ htried.symm
      exact iff_of_false hne.symm fun h => not_crowdedOut hw₁ (h.mpr hcrowded)
  | some f =>
    cases hw₂ : s₂.waiting o with
    | none =>
      obtain ⟨hcrowded, hne⟩ := crowdedOut_of_tried h₂ hw₁ hw₂ htried
      exact iff_of_false hne fun h => not_crowdedOut hw₂ (h.mp hcrowded)
    | some g =>
      have hlist : s₁.admitted o ++ [f] = s₂.admitted o ++ [g] := by
        rw [tried, tried, hw₁, hw₂] at htried
        exact htried
      obtain ⟨heq, hlast⟩ := List.append_inj' hlist rfl
      obtain rfl := (List.cons.inj hlast).1
      refine iff_of_true heq ?_
      rw [crowdedOut_iff hw₁, crowdedOut_iff hw₂, bytes, bytes, heq]

end two

/-- Two runs that agree on a stream let the same of its frames through without waiting,
exactly if both or neither of them keep room for it. -/
theorem admitted_iff {o : Out} {es₁ es₂ : List Event} {s₁ s₂ : Streams}
    (h₁ : machine.Path StepMachine.Any new es₁ s₁)
    (h₂ : machine.Path StepMachine.Any new es₂ s₂) (hagree : Agree o es₁ es₂) :
    s₁.admitted o = s₂.admitted o ↔
      (machine.Path (KeepsRoom o) new es₁ s₁ ↔ machine.Path (KeepsRoom o) new es₂ s₂) := by
  have htried : s₁.tried o = s₂.tried o := by
    rw [tried_of_path h₁ coupled_new, tried_of_path h₂ coupled_new, hagree.offered]
  rw [keepsRoom_iff h₁, keepsRoom_iff h₂, not_iff_not]
  exact admitted_eq_iff (coupled_of_path h₁) (coupled_of_path h₂) htried

/-- A chunk of one stream. -/
def chunk (o : Out) (n : Nat) : Frame := dataFrame 1 o.streamId 0 (List.replicate n 0)

theorem length_chunk (o : Out) (n : Nat) : (chunk o n).payload.length = n :=
  List.length_replicate

/-- A small chunk on stdout leaves room for one on stderr. -/
theorem admitted_iff_short :
    ∃ s₁ s₂, machine.Path StepMachine.Any new [.trySendFrame .stderr (chunk .stderr 3)] s₁ ∧
      machine.Path StepMachine.Any new
        [.trySendFrame .stdout (chunk .stdout 5), .windowUpdate .stdout 5,
          .trySendFrame .stderr (chunk .stderr 3)] s₂ ∧
      s₁.admitted .stderr = s₂.admitted .stderr ∧
      s₁.admitted .stderr = [chunk .stderr 3] := by
  let es₁ : List Event := [.trySendFrame .stderr (chunk .stderr 3)]
  let es₂ : List Event := [.trySendFrame .stdout (chunk .stdout 5), .windowUpdate .stdout 5,
    .trySendFrame .stderr (chunk .stderr 3)]
  have hsent : (machine.runIf (KeepsRoom .stderr) new es₁).any
      (fun s => s.admitted .stderr = [chunk .stderr 3]) = true := by decide
  obtain ⟨s₁, hrun₁, hs₁⟩ := (Option.any_eq_true _ _).mp hsent
  obtain ⟨s₂, hrun₂⟩ : ∃ s₂, machine.runIf (KeepsRoom .stderr) new es₂ = some s₂ :=
    Option.isSome_iff_exists.mp (by decide)
  have hkeeps₁ := StepMachine.path_of_runIf hrun₁
  have hkeeps₂ := StepMachine.path_of_runIf hrun₂
  have h₁ := hkeeps₁.mono (D := StepMachine.Any) fun _ _ _ => trivial
  have h₂ := hkeeps₂.mono (D := StepMachine.Any) fun _ _ _ => trivial
  have hagree : Agree .stderr es₁ es₂ := ⟨rfl, rfl⟩
  exact ⟨s₁, s₂, h₁, h₂, (admitted_iff h₁ h₂ hagree).mpr (iff_of_true hkeeps₁ hkeeps₂),
    of_decide_eq_true hs₁⟩

/-- Two full chunks on stdout hold up one byte on stderr. -/
theorem chatty_stdout :
    ∃ es₁ es₂ s₁ s₂, machine.Path StepMachine.Any new es₁ s₁ ∧
      machine.Path StepMachine.Any new es₂ s₂ ∧ Agree .stderr es₁ es₂ ∧
      s₁.admitted .stderr ≠ s₂.admitted .stderr := by
  obtain ⟨full, hfull⟩ : ∃ f : Frame, f.payload.length = 32768 :=
    ⟨chunk .stdout 32768, length_chunk .stdout 32768⟩
  obtain ⟨byte, hbyte⟩ : ∃ f : Frame, f.payload.length = 1 :=
    ⟨chunk .stderr 1, length_chunk .stderr 1⟩
  have hmax : maxPayloadSize = 32768 := rfl
  have hnew : new.bytes .stdout + new.bytes .stderr = 0 := rfl
  have hquiet : machine.step new (.trySendFrame .stderr byte) = some (new.grant .stderr byte) :=
    step_grant coupled_new rfl (by omega) (by omega)
  -- stdout takes the window first
  let u := new.grant .stdout full
  have hone : machine.step new (.trySendFrame .stdout full) = some u :=
    step_grant coupled_new rfl (by omega) (by omega)
  have hu : u.Coupled := coupled_new.step (e := .trySendFrame .stdout full) hone
  have hhalf : u.bytes .stdout + u.bytes .stderr = 32768 := by
    rw [total_grant, hnew, hfull]
  let v := u.grant .stdout full
  have htwo : machine.step u (.trySendFrame .stdout full) = some v :=
    step_grant hu rfl (by omega) (by omega)
  have hv : v.Coupled := hu.step (e := .trySendFrame .stdout full) htwo
  have hwhole : v.bytes .stdout + v.bytes .stderr = 65536 := by
    rw [total_grant, hhalf, hfull]
  have hthree : machine.step v (.trySendFrame .stderr byte) = some (v.hold .stderr byte) :=
    step_hold hv rfl (by omega) (by omega)
  refine ⟨[.trySendFrame .stderr byte],
    [.trySendFrame .stdout full, .trySendFrame .stdout full, .trySendFrame .stderr byte],
    _, _, .cons trivial hquiet (.nil _),
    .cons trivial hone (.cons trivial htwo (.cons trivial hthree (.nil _))), ⟨rfl, rfl⟩, ?_⟩
  have hnothing : (v.hold .stderr byte).admitted .stderr = [] := rfl
  rw [hnothing]
  simp [grant]

end Streams

/-! ## The window of the job machine -/

/-- The frame that has passed the window and waits for the channel. -/
def atChannel (p : Pump) : List Frame :=
  match p.pc with
  | .trySend _ f .send => [f]
  | _ => []

/-- The frame with which a pump waits. -/
def waitsWith (p : Pump) : Option Frame :=
  match p.pc with
  | .trySend _ f .waiting => some f
  | _ => none

/-- The pump is inside a call of `try_send_frame`, between its first load and its addition. -/
def inside (p : Pump) : Bool :=
  match p.pc with
  | .trySend _ _ (.loadWindow _) | .trySend _ _ .fetchAdd => true
  | _ => false

/-- No pump moves while the other is inside a call. -/
def Atomic (j : Job) : Event → Prop
  | .pump o _ => inside (j.pump o.other) = false
  | _ => True

/-- The frames of a stream that have got past the window, also those that the channel has
refused. -/
def past (p : Pump) (sent refused : List Frame) : List Frame := sent ++ atChannel p ++ refused

/-- A job as its window sees it. -/
def streams (j : Job) : Streams where
  window := j.window
  admitted o := past (j.pump o) (stream o j.sent) (stream o j.refused)
  waiting o := waitsWith (j.pump o)

/-- What the pumps that are inside a call know about the counter is still so.  A pump whose
frame was refused has returned. -/
structure Undisturbed (j : Job) : Prop where
  loaded : ∀ o last f inFlight, (j.pump o).pc = .trySend last f (.loadWindow inFlight) →
    inFlight = j.window.bytesInFlight
  passed : ∀ o last f, (j.pump o).pc = .trySend last f .fetchAdd →
    StreamPump.guard j.window.bytesInFlight (dataLen f) j.window.sendWindow = true
  refused : ∀ o, stream o j.refused = [] ∨ ∃ r, (j.pump o).pc = .returned r

theorem streams_create (jobId : UInt32) (timeout : Option JobManager.Duration)
    (now last : JobManager.SystemTime) :
    (create jobId timeout now last).streams = Streams.new := rfl

theorem undisturbed_create (jobId : UInt32) (timeout : Option JobManager.Duration)
    (now last : JobManager.SystemTime) : (create jobId timeout now last).Undisturbed where
  loaded := fun o last f inFlight h => by cases h
  passed := fun o last f h => by cases h
  refused := fun o => .inl rfl

section pump

variable {jobId : UInt32} {o : Out} {token : Bool} {w w' : StreamPump} {p p' : Pump}
  {e : PumpEvent} {sent refused fs : List Frame}

/-- A pump blocks only after a test that has failed. -/
theorem guard_of_block {last : Bool} {f : Frame} {inFlight : UInt64}
    (h : p.step jobId o.streamId token w e = some (w', p', fs))
    (hpc : p.pc = .trySend last f (.loadWindow inFlight)) (hwait : waitsWith p' ≠ none) :
    StreamPump.guard inFlight (dataLen f) w.sendWindow = false := by
  by_contra hg
  rw [Bool.not_eq_false] at hg
  cases e <;> simp only [Pump.step, hpc, hg, if_true, reduceCtorEq, Option.some.injEq,
    Prod.mk.injEq] at h
  obtain ⟨-, rfl, -⟩ := h
  exact hwait rfl

/-- What the window sees of a step of a pump: nothing, a frame that gets past it, or a
frame that is held up. -/
theorem pump_streams (sent : List Frame)
    (h : p.step jobId o.streamId token w e = some (w', p', fs))
    (hpolicy : w.dropPolicy = false) (hcall : e ≠ .notified)
    (hrefused : refused = [] ∨ ∃ r, p.pc = .returned r) :
    (w' = w ∧ waitsWith p' = waitsWith p ∧
        past p' (sent ++ fs) (refused ++ refuses p e) = past p sent refused) ∨
      (∃ last f, p.pc = .trySend last f .fetchAdd ∧
        w' = { w with bytesInFlight := w.bytesInFlight + dataLen f } ∧ waitsWith p' = none ∧
        past p' (sent ++ fs) (refused ++ refuses p e) = past p sent refused ++ [f]) ∨
      ∃ last f inFlight, p.pc = .trySend last f (.loadWindow inFlight) ∧
        StreamPump.guard inFlight (dataLen f) w.sendWindow = false ∧ w' = w ∧
        waitsWith p' = some f ∧
        past p' (sent ++ fs) (refused ++ refuses p e) = past p sent refused := by
  -- a pump that moves has not returned
  have hnil : refused = [] := by
    rcases hrefused with hnil | ⟨r, hpc⟩
    · exact hnil
    · simp [Pump.step, hpc] at h
  subst hnil
  cases Pump.step_move h with
  | reserve last f hpc =>
    refine .inr (.inl ⟨last, f, hpc, rfl, rfl, ?_⟩)
    simp [past, atChannel, refuses, hpc]
  | block last f inFlight hpc =>
    refine .inr (.inr ⟨last, f, inFlight, hpc, ?_, rfl, rfl, ?_⟩)
    · exact guard_of_block h hpc (by simp [waitsWith])
    · simp [past, atChannel, refuses, hpc]
  | drop last f inFlight hpc hd =>
    rw [hpolicy] at hd
    cases hd
  | notified last f hpc => exact absurd rfl hcall
  | send last f hpc =>
    cases last <;>
      exact .inl ⟨rfl, by simp [waitsWith, Pump.afterSend, hpc],
        by simp [past, atChannel, refuses, Pump.afterSend, hpc]⟩
  | read r p' hpc hm =>
    cases hm <;>
      exact .inl ⟨rfl, by simp [waitsWith, Pump.finish, hpc],
        by simp [past, atChannel, refuses, Pump.finish, hpc]⟩
  | cancelled hpc ht | goOn hpc ht | load last f hpc | pass last f inFlight hpc hg
  | refused last f hpc =>
    exact .inl ⟨rfl, by simp [waitsWith, Pump.finish, hpc],
      by simp [past, atChannel, refuses, Pump.finish, hpc]⟩

theorem pump_ofStream (h : p.step jobId o.streamId token w e = some (w', p', fs))
    (hat : p.At jobId o.streamId sent) :
    (∀ f ∈ fs, OfStream jobId o.streamId f) ∧
      ∀ f ∈ refuses p e, OfStream jobId o.streamId f := by
  cases Pump.step_move h with
  | send last f hpc => simp [refuses, (hat.frame hpc).1]
  | refused last f hpc => simp [refuses, hpc, (hat.frame hpc).1]
  | _ => simp [refuses]

/-- A pump that has loaded the counter is right about it. -/
theorem pump_loaded {last : Bool} {f : Frame} {inFlight : UInt64}
    (h : p.step jobId o.streamId token w e = some (w', p', fs))
    (hpc' : p'.pc = .trySend last f (.loadWindow inFlight)) : inFlight = w'.bytesInFlight := by
  cases Pump.step_move h with
  | load last f hpc =>
    cases hpc'
    rfl
  | read r p' hpc hm => cases hm <;> cases hpc'
  | drop last f inFlight hpc hd | send last f hpc => cases last <;> cases hpc'
  | _ => cases hpc'

/-- A pump stands before its addition after a test that its frame has passed. -/
theorem pump_passed {last : Bool} {f : Frame}
    (h : p.step jobId o.streamId token w e = some (w', p', fs))
    (hpc' : p'.pc = .trySend last f .fetchAdd) :
    w' = w ∧ ∃ inFlight, p.pc = .trySend last f (.loadWindow inFlight) ∧
      StreamPump.guard inFlight (dataLen f) w.sendWindow = true := by
  cases Pump.step_move h with
  | pass last f inFlight hpc hg =>
    cases hpc'
    exact ⟨rfl, inFlight, hpc, hg⟩
  | read r p' hpc hm => cases hm <;> cases hpc'
  | drop last f inFlight hpc hd | send last f hpc => cases last <;> cases hpc'
  | _ => cases hpc'

theorem pump_refused (h : p.step jobId o.streamId token w e = some (w', p', fs)) :
    refuses p e = [] ∨ ∃ r, p'.pc = .returned r := by
  cases Pump.step_move h with
  | refused last f hpc => exact .inr ⟨_, rfl⟩
  | _ => exact .inl rfl

end pump

section step

variable {j j' : Job} {o : Out}

/-- A step of a pump, seen from the window. -/
theorem streams_pump {e : PumpEvent} (hsp : j.Speaking) (h : j.step (.pump o e) = some j') :
    ∃ p w q fs, readPipe (j.pipe o) e = some p ∧
      (j.pump o).step j.handle.jobId o.streamId j.handle.cancellationToken j.window e =
        some (w, q, fs) ∧
      j'.pump = Function.update j.pump o q ∧ j'.window = w ∧
      (∀ o', stream o' j'.refused =
        stream o' j.refused ++ if o' = o then refuses (j.pump o) e else []) ∧
      j'.streams = ⟨w,
        Function.update j.streams.admitted o
          (past q (stream o j.sent ++ fs) (stream o j.refused ++ refuses (j.pump o) e)),
        Function.update j.streams.waiting o (waitsWith q)⟩ := by
  obtain ⟨p, w, q, fs, hp, hs, rfl⟩ := step_pump h
  obtain ⟨hfs, hrefuses⟩ := pump_ofStream hs (hsp.pumps o).at_pc
  refine ⟨p, w, q, fs, hp, hs, by simp, by simp, ?_, ?_⟩
  · intro o'
    rw [settle_refused, stream_append, stream_of_ofStream hrefuses]
  · unfold streams
    simp only [settle_window, settle_pump, settle_sent, settle_refused, stream_append,
      stream_of_ofStream hfs, stream_of_ofStream hrefuses]
    congr 1 <;> funext o'
    · by_cases ho : o' = o
      · subst ho
        simp
      · simp [ho]
    · by_cases ho : o' = o
      · subst ho
        simp
      · simp [ho]

/-- A step of another task than a pump does nothing at the window. -/
theorem streams_other {e : Event} (hst : j.Staged) (hsp : j.Speaking)
    (h : j.step e = some j') (hne : ∀ o e', e ≠ .pump o e') : j'.streams = j.streams := by
  obtain ⟨hwindow, hrefused, hpumps⟩ := step_pumps hst h hne
  obtain ⟨fs, hsends, hsent⟩ := step_sends h
  have hview : ∀ o, atChannel (j'.pump o) = atChannel (j.pump o) ∧
      waitsWith (j'.pump o) = waitsWith (j.pump o) := by
    intro o
    unfold atChannel waitsWith
    rcases hpumps o with hpc | ⟨hpc, hpc'⟩
    · rw [hpc]
      exact ⟨rfl, rfl⟩
    · rw [hpc, hpc']
      exact ⟨rfl, rfl⟩
  unfold streams past
  rw [hwindow, hrefused, hsent]
  congr 1 <;> funext o
  · rw [(hview o).1, stream_append, stream_of_sends hsp hsends (hne o .sent), List.append_nil]
  · exact (hview o).2

theorem Undisturbed.congr (hj : j.Undisturbed) (hwindow : j'.window = j.window)
    (hrefused : j'.refused = j.refused)
    (hpump : ∀ o, (j'.pump o).pc = (j.pump o).pc ∨
      (j.pump o).pc = .notSpawned ∧ (j'.pump o).pc = .checkToken) : j'.Undisturbed := by
  have hpc : ∀ o last f pc, (j'.pump o).pc = .trySend last f pc →
      (j.pump o).pc = .trySend last f pc := by
    intro o last f pc hpc
    rcases hpump o with hsame | ⟨-, hspawned⟩
    · exact hsame ▸ hpc
    · rw [hspawned] at hpc
      cases hpc
  refine ⟨?_, ?_, ?_⟩
  · intro o last f inFlight hinside
    rw [hwindow]
    exact hj.loaded o last f inFlight (hpc o last f _ hinside)
  · intro o last f hinside
    rw [hwindow]
    exact hj.passed o last f (hpc o last f _ hinside)
  · intro o
    rw [hrefused]
    rcases hj.refused o with hnil | ⟨r, hreturned⟩
    · exact .inl hnil
    · right
      rcases hpump o with hsame | ⟨hnot, -⟩
      · exact ⟨r, hsame.trans hreturned⟩
      · rw [hreturned] at hnot
        cases hnot

theorem Undisturbed.pump {e : PumpEvent} (hsp : j.Speaking) (hj : j.Undisturbed)
    (hatomic : inside (j.pump o.other) = false) (h : j.step (.pump o e) = some j') :
    j'.Undisturbed := by
  obtain ⟨-, w, q, fs, -, hs, hpump, rfl, hrefused, -⟩ := streams_pump hsp h
  -- the other pump is outside
  have hother : ∀ o' last f pc, (j'.pump o').pc = .trySend last f pc → o' ≠ o →
      inside (j'.pump o') = false := by
    intro o' last f pc hpc ho
    obtain rfl : o' = o.other := (Out.eq_or_eq_other o o').resolve_left ho
    rw [step_other h]
    exact hatomic
  refine ⟨?_, ?_, ?_⟩
  · intro o' last f inFlight hpc
    by_cases ho : o' = o
    · subst ho
      rw [hpump, Function.update_self] at hpc
      exact pump_loaded hs hpc
    · have hout := hother o' last f _ hpc ho
      simp [inside, hpc] at hout
  · intro o' last f hpc
    by_cases ho : o' = o
    · subst ho
      rw [hpump, Function.update_self] at hpc
      obtain ⟨hw, inFlight, hold, hg⟩ := pump_passed hs hpc
      rw [hw, ← hj.loaded o' last f inFlight hold]
      exact hg
    · have hout := hother o' last f _ hpc ho
      simp [inside, hpc] at hout
  · intro o'
    rw [hrefused, hpump]
    by_cases ho : o' = o
    · subst ho
      rw [if_pos rfl, Function.update_self]
      rcases hj.refused o' with hnil | ⟨r, hpc⟩
      · rw [hnil, List.nil_append]
        exact pump_refused hs
      · simp [Pump.step, hpc] at hs
    · rw [if_neg ho, List.append_nil, Function.update_of_ne ho]
      exact hj.refused o'

theorem Undisturbed.step {e : Event} (hst : j.Staged) (hsp : j.Speaking) (hj : j.Undisturbed)
    (hatomic : j.Atomic e) (h : j.step e = some j') : j'.Undisturbed := by
  rcases e.pump_or_ne with ⟨o, e', rfl⟩ | hne
  · exact hj.pump hsp hatomic h
  · obtain ⟨hwindow, hrefused, hpumps⟩ := step_pumps hst h hne
    exact hj.congr hwindow hrefused hpumps

/-- A step of the job is nothing at the window, or one call of `try_send_frame`. -/
theorem streams_step {e : Event} (hst : j.Staged) (hsp : j.Speaking) (hm : j.Metered)
    (hj : j.Undisturbed) (h : j.step e = some j') :
    j'.streams = j.streams ∨
      ∃ o f, Streams.machine.step j.streams (.trySendFrame o f) = some j'.streams := by
  rcases e.pump_or_ne with ⟨o, e', rfl⟩ | hne
  · obtain ⟨p, w, q, fs, hp, hs, -, -, -, hview⟩ := streams_pump hsp h
    have hcall : e' ≠ .notified := by
      rintro rfl
      cases hp
    rw [hview]
    rcases pump_streams (stream o j.sent) hs hsp.window hcall (hj.refused o) with
      ⟨rfl, hwaits, hpast⟩ | ⟨last, f, hpc, rfl, hwaits, hpast⟩ |
      ⟨last, f, inFlight, hpc, hg, rfl, hwaits, hpast⟩
    · left
      rw [hwaits, hpast]
      show Streams.mk j.streams.window
        (Function.update j.streams.admitted o (j.streams.admitted o))
        (Function.update j.streams.waiting o (j.streams.waiting o)) = j.streams
      rw [Function.update_eq_self, Function.update_eq_self]
    · refine .inr ⟨o, f, ?_⟩
      have hfree : j.streams.waiting o = none := by simp [streams, waitsWith, hpc]
      rw [hwaits, hpast, ← hfree, Function.update_eq_self]
      exact Streams.step_pass hfree (hm.sized o last f _ hpc) (hj.passed o last f hpc)
    · refine .inr ⟨o, f, ?_⟩
      have hfree : j.streams.waiting o = none := by simp [streams, waitsWith, hpc]
      rw [hj.loaded o last f inFlight hpc] at hg
      have hadmitted : Function.update j.streams.admitted o
          (past (j.pump o) (stream o j.sent) (stream o j.refused)) = j.streams.admitted :=
        Function.update_eq_self o j.streams.admitted
      rw [hwaits, hpast, hadmitted]
      exact Streams.step_block hfree (hm.sized o last f _ hpc) hsp.window hg
  · exact .inl (streams_other hst hsp h hne)

theorem undisturbed_reachable (h : machine.Reach Atomic j) : j.Undisturbed := by
  refine h.invariant_of (J := fun j => j.Staged ∧ j.Speaking)
    (fun _ hr => ⟨staged_reachable hr, speaking_reachable hr⟩) ?_ ?_
  · rintro _ ⟨jobId, timeout, now, last, rfl⟩
    exact undisturbed_create jobId timeout now last
  · intro s e u hJ hs hatomic hstep
    exact Undisturbed.step hJ.1 hJ.2 hs hatomic hstep

/-- A job whose pumps do not interleave inside `try_send_frame`, seen from its window. -/
theorem streams_reachable (h : machine.Reach Atomic j) :
    Streams.machine.Reachable j.streams := by
  refine h.invariant_of (I := fun j => Streams.machine.Reachable j.streams)
    (J := fun j => j.Staged ∧ j.Speaking ∧ j.Metered ∧ j.Undisturbed)
    (fun _ hr => ⟨staged_reachable hr, speaking_reachable hr, metered_reachable hr,
      undisturbed_reachable hr⟩) ?_ ?_
  · rintro _ ⟨jobId, timeout, now, last, rfl⟩
    rw [streams_create]
    exact ⟨Streams.new, [], rfl, .nil _⟩
  · rintro s e u ⟨hst, hsp, hm, hu⟩ hs - hstep
    rcases streams_step hst hsp hm hu hstep with hsame | ⟨o, f, hcall⟩
    · rw [hsame]
      exact hs
    · exact hs.step trivial hcall

end step

/-- Two jobs in which the same frames of a stream have come to the window. -/
theorem streams_admitted_eq_iff {o : Out} {j₁ j₂ : Job} (h₁ : machine.Reach Atomic j₁)
    (h₂ : machine.Reach Atomic j₂) (htried : j₁.streams.tried o = j₂.streams.tried o) :
    j₁.streams.admitted o = j₂.streams.admitted o ↔
      (j₁.streams.CrowdedOut o ↔ j₂.streams.CrowdedOut o) :=
  Streams.admitted_eq_iff (Streams.coupled_reachable (streams_reachable h₁))
    (Streams.coupled_reachable (streams_reachable h₂)) htried

end RemoteAgent.Job
