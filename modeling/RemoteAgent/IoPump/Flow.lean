import RemoteAgent.CodeLib.StepMachine
import RemoteAgent.IoPump.Pump

/-!
# The window under concurrent calls

`io_pump.rs`, the two methods of `StreamPump` as calls that several tasks make
at once.  A step starts a call, or lets one call do its next atomic action: one
load, one `fetch_add`, the creation of a `Notified` future, a notification.

A future that `notified()` has created hears every later `notify_waiters`, and
none before its creation: no permit is kept.  A call of `try_send_frame` whose
test fails is at `createNotified` until it has created its future, and at
`waiting` after that; `woken` says that a notification has come.

* `lostWakeup` is a sender that sleeps although its frame would fit, with no
  call under way that would wake it.
* `lostWakeup_step` says which steps lead to one.  Two can: a future that is
  created too late, and an addition that wraps the counter.
* `never_lost_iff` says the same of whole runs.
-/

namespace RemoteAgent.IoPump

open CodeLib Protocol

/-! ## The calls -/

/-- Where a call of `try_send_frame` stands, with the values that it has
loaded. -/
inductive TrySendPc where
  | loadInFlight
  | loadWindow (inFlight : UInt64)
  | test (inFlight window : UInt64)
  | createNotified
  | waiting (woken : Bool)
  | fetchAdd
  | send
  | ret (r : Except Error Unit)
  deriving DecidableEq

/-- A call of `try_send_frame`. -/
structure TrySend where
  frame : Frame
  pc : TrySendPc
  deriving DecidableEq

namespace TrySend

/-- The next action of a call.  `accepted` says whether the channel is open, and
matters in the send only. -/
def step (w : StreamPump) (accepted : Bool) (c : TrySend) :
    Option (StreamPump × TrySend) :=
  match c.pc with
  | .loadInFlight => some (w, { c with pc := .loadWindow w.bytesInFlight })
  | .loadWindow inFlight => some (w, { c with pc := .test inFlight w.sendWindow })
  | .test inFlight window =>
    if StreamPump.guard inFlight (dataLen c.frame) window then
      some (w, { c with pc := .fetchAdd })
    else if w.dropPolicy then some (w, { c with pc := .ret (.ok ()) })
    else some (w, { c with pc := .createNotified })
  | .createNotified => some (w, { c with pc := .waiting false })
  | .waiting true => some (w, { c with pc := .loadInFlight })
  | .waiting false => none
  | .fetchAdd =>
    some ({ w with bytesInFlight := w.bytesInFlight + dataLen c.frame },
      { c with pc := .send })
  | .send =>
    some (w, { c with pc := .ret (if accepted then .ok () else .error sendError) })
  | .ret _ => none

/-- The call sleeps, and nothing has woken it. -/
def asleep (c : TrySend) : Bool := c.pc = .waiting false

/-- What `notify_waiters` does to a call. -/
def wake (c : TrySend) : TrySend :=
  match c.pc with
  | .waiting _ => { c with pc := .waiting true }
  | _ => c

/-- What a call can do.  It falls asleep, it adds to the bytes in flight, or it
does something that no other call sees. -/
theorem step_cases {w w' : StreamPump} {accepted : Bool} {c c' : TrySend}
    (h : c.step w accepted = some (w', c')) :
    (c.pc = .createNotified ∧ w' = w ∧ c' = { c with pc := .waiting false }) ∨
      (c.pc = .fetchAdd ∧
        w' = { w with bytesInFlight := w.bytesInFlight + dataLen c.frame } ∧
        c' = { c with pc := .send }) ∨
      (c.pc ≠ .createNotified ∧ c.pc ≠ .fetchAdd ∧ c.asleep = false ∧ w' = w ∧
        c'.asleep = false) := by
  obtain ⟨f, pc⟩ := c
  cases pc with
  | createNotified =>
    cases h
    exact .inl ⟨rfl, rfl, rfl⟩
  | fetchAdd =>
    cases h
    exact .inr (.inl ⟨rfl, rfl, rfl⟩)
  | loadInFlight | loadWindow inFlight | send =>
    cases h
    exact .inr (.inr ⟨by simp, by simp, rfl, rfl, rfl⟩)
  | test inFlight window =>
    refine .inr (.inr ⟨by simp, by simp, rfl, ?_⟩)
    simp only [step] at h
    split_ifs at h <;> cases h <;> exact ⟨rfl, rfl⟩
  | waiting woken =>
    cases woken with
    | false => cases h
    | true =>
      cases h
      exact .inr (.inr ⟨by simp, by simp, rfl, rfl, rfl⟩)
  | ret r => cases h

theorem asleep_wake (c : TrySend) : c.wake.asleep = false := by
  unfold wake
  split
  · rfl
  · rename_i hpc
    exact decide_eq_false (hpc false)

end TrySend

/-- Where a call of `update_window` stands. -/
inductive UpdatePc where
  | addWindow
  | loadInFlight
  | subInFlight (current : UInt64)
  | notifyWaiters
  | ret
  deriving DecidableEq

/-- A call of `update_window`. -/
structure Update where
  bytesConsumed : UInt64
  pc : UpdatePc
  deriving DecidableEq

namespace Update

/-- The next action of a call, with the senders after it. -/
def step (w : StreamPump) (senders : List TrySend) (c : Update) :
    Option (StreamPump × List TrySend × Update) :=
  match c.pc with
  | .addWindow =>
    some ({ w with sendWindow := w.sendWindow + c.bytesConsumed }, senders,
      { c with pc := .loadInFlight })
  | .loadInFlight => some (w, senders, { c with pc := .subInFlight w.bytesInFlight })
  | .subInFlight current =>
    some ({ w with bytesInFlight := w.bytesInFlight - min c.bytesConsumed current },
      senders, { c with pc := .notifyWaiters })
  | .notifyWaiters => some (w, senders.map TrySend.wake, { c with pc := .ret })
  | .ret => none

def inProgress (c : Update) : Bool := c.pc ≠ .ret

/-- A call is still in progress after an action, or the action was its
notification. -/
theorem step_inProgress {w w' : StreamPump} {senders senders' : List TrySend}
    {c c' : Update} (h : c.step w senders = some (w', senders', c')) :
    c'.inProgress = true ∨ senders' = senders.map TrySend.wake := by
  unfold step at h
  split at h
  · cases h
    exact .inl rfl
  · cases h
    exact .inl rfl
  · cases h
    exact .inl rfl
  · cases h
    exact .inr rfl
  · cases h

end Update

/-! ## The machine -/

/-- A `StreamPump` and the calls that have been made on it. -/
structure Flow where
  pump : StreamPump
  senders : List TrySend
  updates : List Update

inductive FlowEvent where
  | trySendFrame (f : Frame)
  | updateWindow (bytesConsumed : UInt64)
  | sender (i : Nat) (accepted : Bool)
  | update (i : Nat)
  deriving DecidableEq

namespace Flow

def step (s : Flow) : FlowEvent → Option Flow
  | .trySendFrame f => some { s with senders := s.senders ++ [⟨f, .loadInFlight⟩] }
  | .updateWindow n => some { s with updates := s.updates ++ [⟨n, .addWindow⟩] }
  | .sender i accepted =>
    (s.senders[i]?).bind fun c =>
      (c.step s.pump accepted).map fun (w, c') =>
        { s with pump := w, senders := s.senders.set i c' }
  | .update i =>
    (s.updates[i]?).bind fun c =>
      (c.step s.pump s.senders).map fun (w, senders, c') =>
        { pump := w, senders := senders, updates := s.updates.set i c' }

/-- A new `StreamPump` with the block policy, before any call. -/
def Initial (s : Flow) : Prop :=
  ∃ initialWindow, s = ⟨StreamPump.new initialWindow false, [], []⟩

def machine : StepMachine Flow FlowEvent where
  Init := Initial
  step := step

/-- A call of `update_window` is in progress. -/
def updating (s : Flow) : Bool := s.updates.any Update.inProgress

/-- The guard of a frame on the counters as they are. -/
def fits (s : Flow) (f : Frame) : Bool :=
  StreamPump.guard s.pump.bytesInFlight (dataLen f) s.pump.sendWindow

/-- A sender sleeps with no wake-up pending and no call under way that would
wake it, and its frame fits. -/
def lostWakeup (s : Flow) : Bool :=
  !s.updating && s.senders.any fun c => c.asleep && s.fits c.frame

/-- The condition on a step under which no wake-up is lost.  A future is created
while its frame does not fit, or while some call will still notify.  An addition
to the bytes in flight does not wrap around and make room for a sleeper, unless
some call will still notify. -/
def keepsAwake (s : Flow) : FlowEvent → Bool
  | .sender i _ =>
    match s.senders[i]? with
    | some ⟨f, .createNotified⟩ => s.updating || !s.fits f
    | some ⟨f, .fetchAdd⟩ =>
      s.updating || s.senders.all fun c => !c.asleep ||
        !StreamPump.guard (s.pump.bytesInFlight + dataLen f) (dataLen c.frame)
          s.pump.sendWindow
    | _ => true
  | _ => true

/-! ## Which steps lose a wake-up -/

section lost

variable {s s' : Flow}

/-- Everyone who sleeps has reason to. -/
def Settled (w : StreamPump) (senders : List TrySend) : Prop :=
  ∀ c ∈ senders, c.asleep = true →
    StreamPump.guard w.bytesInFlight (dataLen c.frame) w.sendWindow = false

theorem lostWakeup_eq_false_iff :
    s.lostWakeup = false ↔ s.updating = true ∨ Settled s.pump s.senders := by
  simp only [lostWakeup, Bool.and_eq_false_iff, Bool.not_eq_false', List.any_eq_false,
    Bool.and_eq_true, not_and, Bool.not_eq_true]
  rfl

/-- When a call that is awake moves, the other sleepers stay. -/
theorem settled_set {w : StreamPump} {senders : List TrySend} {i : Nat} {c c' : TrySend}
    (hc : senders[i]? = some c) (hawake : c.asleep = false) :
    Settled w (senders.set i c') ↔
      (c'.asleep = true →
        StreamPump.guard w.bytesInFlight (dataLen c'.frame) w.sendWindow = false) ∧
        Settled w senders := by
  have hi : i < senders.length := (List.getElem?_eq_some_iff.mp hc).1
  constructor
  · intro h
    refine ⟨h c' (List.mem_set hi c'), ?_⟩
    intro d hd hasleep
    obtain ⟨k, hk⟩ := List.mem_iff_getElem?.mp hd
    have hne : i ≠ k := by
      intro heq
      rw [← heq, hc] at hk
      rw [← Option.some.inj hk, hawake] at hasleep
      cases hasleep
    apply h d _ hasleep
    rw [List.mem_iff_getElem?]
    exact ⟨k, by rw [List.getElem?_set_ne hne, hk]⟩
  · intro h d hd hasleep
    rcases List.mem_or_eq_of_mem_set hd with hd | rfl
    · exact h.2 d hd hasleep
    · exact h.1 hasleep

theorem lostWakeup_sender {i : Nat} {accepted : Bool} (hs : s.lostWakeup = false)
    (h : s.step (.sender i accepted) = some s') :
    s'.lostWakeup = false ↔ s.keepsAwake (.sender i accepted) = true := by
  simp only [step, Option.bind_eq_some_iff, Option.map_eq_some_iff] at h
  obtain ⟨⟨f, pc⟩, hc, ⟨w, c'⟩, hstep, rfl⟩ := h
  rw [lostWakeup_eq_false_iff] at hs ⊢
  show s.updating = true ∨ Settled w (s.senders.set i c') ↔ _
  rcases TrySend.step_cases hstep with ⟨hpc, rfl, rfl⟩ | ⟨hpc, rfl, rfl⟩ |
    ⟨hcreate, hadd, hawake, rfl, hawake'⟩
  · obtain rfl : pc = .createNotified := hpc
    have hkeeps : s.keepsAwake (.sender i accepted) = (s.updating || !s.fits f) := by
      simp only [keepsAwake, hc]
    rw [hkeeps, settled_set hc rfl, Bool.or_eq_true, Bool.not_eq_true']
    constructor
    · intro h
      exact h.imp_right fun h => h.1 rfl
    · intro h
      rcases hs with hup | hs
      · exact .inl hup
      · exact h.imp_right fun h => ⟨fun _ => h, hs⟩
  · obtain rfl : pc = .fetchAdd := hpc
    rw [settled_set hc rfl]
    simp [keepsAwake, hc, Settled, TrySend.asleep, imp_iff_not_or]
  · have hkeeps : s.keepsAwake (.sender i accepted) = true := by
      simp only [keepsAwake, hc]
      split
      · rename_i heq
        cases heq
        exact absurd rfl hcreate
      · rename_i heq
        cases heq
        exact absurd rfl hadd
      · rfl
    rw [hkeeps, settled_set hc hawake, hawake']
    simpa using hs

/-- A call of `update_window` loses no wake-up: until its notification it is in
progress, and the notification wakes everyone. -/
theorem lostWakeup_update {i : Nat} (h : s.step (.update i) = some s') :
    s'.lostWakeup = false := by
  simp only [step, Option.bind_eq_some_iff, Option.map_eq_some_iff] at h
  obtain ⟨c, hc, ⟨w, senders, c'⟩, hstep, rfl⟩ := h
  rw [lostWakeup_eq_false_iff]
  rcases Update.step_inProgress hstep with hprogress | rfl
  · left
    exact List.any_eq_true.mpr
      ⟨c', List.mem_set (List.getElem?_eq_some_iff.mp hc).1 c', hprogress⟩
  · right
    intro d hd hasleep
    obtain ⟨c₀, -, rfl⟩ := List.mem_map.mp hd
    rw [TrySend.asleep_wake] at hasleep
    cases hasleep

/-- A step from a state without a lost wake-up leads to one exactly if it does
not meet the condition. -/
theorem lostWakeup_step {e : FlowEvent} (hs : s.lostWakeup = false)
    (h : s.step e = some s') : s'.lostWakeup = false ↔ s.keepsAwake e = true := by
  cases e with
  | sender i accepted => exact lostWakeup_sender hs h
  | update i => exact iff_of_true (lostWakeup_update h) rfl
  | trySendFrame f =>
    refine iff_of_true ?_ rfl
    cases h
    rw [lostWakeup_eq_false_iff] at hs ⊢
    apply hs.imp_right
    intro hs c hc hasleep
    rcases List.mem_append.mp hc with hc | hc
    · exact hs c hc hasleep
    · rw [List.mem_singleton.mp hc] at hasleep
      cases hasleep
  | updateWindow n =>
    refine iff_of_true ?_ rfl
    cases h
    rw [lostWakeup_eq_false_iff]
    left
    simp [updating, Update.inProgress]

end lost

/-- In no state of a run is a wake-up lost, exactly if every step of the run
keeps the senders awake that it should. -/
theorem never_lost_iff {s₀ s : Flow} {es : List FlowEvent} (h0 : Initial s₀)
    (hp : machine.Path StepMachine.Any s₀ es s) :
    (∀ u ∈ machine.states s₀ es, u.lostWakeup = false) ↔
      machine.Path (fun s e => s.keepsAwake e = true) s₀ es s := by
  refine hp.forall_states_iff_path (I := fun s => s.lostWakeup = false)
    (fun _ hu => hu) ?_ ?_ ?_
  · intro u e v hu hkeeps hstep
    exact (lostWakeup_step hu hstep).mpr hkeeps
  · intro u e v hu hstep hbreak hv
    exact hbreak ((lostWakeup_step hu hstep).mp hv)
  · obtain ⟨initialWindow, rfl⟩ := h0
    rfl

/-- With a window of two bytes, a first frame fills it and a second one does not
fit.  The call of the second stands before it creates its future. -/
def windowFull : List FlowEvent :=
  [.trySendFrame (dataFrame 1 .stdout 0 [0, 0]), .sender 0 true, .sender 0 true,
    .sender 0 true, .sender 0 true, .sender 0 true,
    .trySendFrame (dataFrame 1 .stderr 0 [0]), .sender 1 true, .sender 1 true,
    .sender 1 true]

/-- The client acknowledges both bytes. -/
def acknowledged : List FlowEvent :=
  [.updateWindow 2, .update 0, .update 0, .update 0, .update 0]

/-- A future that is created before the acknowledgement hears it. -/
theorem never_lost_woken :
    ∃ s, machine.Path StepMachine.Any ⟨StreamPump.new 2 false, [], []⟩
        (windowFull ++ .sender 1 true :: acknowledged ++ [.sender 1 true]) s ∧
      s.senders.map TrySend.pc = [.ret (.ok ()), .loadInFlight] ∧
      ∀ u ∈ machine.states ⟨StreamPump.new 2 false, [], []⟩
        (windowFull ++ .sender 1 true :: acknowledged ++ [.sender 1 true]),
        u.lostWakeup = false := by
  have hrun : (machine.runIf (fun s e => s.keepsAwake e = true)
      ⟨StreamPump.new 2 false, [], []⟩
      (windowFull ++ .sender 1 true :: acknowledged ++ [.sender 1 true])).any
      (fun s => s.senders.map TrySend.pc = [.ret (.ok ()), .loadInFlight]) = true := by
    decide +kernel
  obtain ⟨s, hs, hpcs⟩ := (Option.any_eq_true _ _).mp hrun
  have hall := StepMachine.path_of_runIf hs
  have hpath := hall.mono (D := StepMachine.Any) fun _ _ _ => trivial
  exact ⟨s, hpath, by simpa using hpcs, (never_lost_iff ⟨2, rfl⟩ hpath).mpr hall⟩

/-- A future that is created after the acknowledgement does not, and its call
sleeps in front of an open window. -/
theorem sleeps_on_open_window :
    ∃ s, machine.Reachable s ∧ s.lostWakeup = true :=
  StepMachine.reach_of_runIf machine StepMachine.Any ⟨2, rfl⟩
    (windowFull ++ acknowledged ++ [.sender 1 true]) lostWakeup (by decide +kernel)

end Flow

end RemoteAgent.IoPump
