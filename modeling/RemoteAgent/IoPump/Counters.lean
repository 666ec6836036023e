import RemoteAgent.CodeLib.Lists
import RemoteAgent.IoPump.Flow

/-!
# Counters that wrap

`io_pump.rs` does arithmetic on the two counters of a `StreamPump` in three places, and
the release profile leaves overflow checks off.  `update_window` adds to the window
whatever the client says, and it subtracts from the bytes in flight an amount that it has
clamped to an earlier value of them.  `try_send_frame` adds the length of its data to the
bytes in flight that it has loaded.

* `Update.credit` and `Update.amount` are what a call of `update_window` is about to add
  and to subtract, and `TrySend.guardSum` is the sum that a call of `try_send_frame` is
  about to test.
* `wraps`: some call under way is about to wrap one of them.
* `wraps_step` says which steps lead to such a state: a call with too large an argument,
  a load of too many bytes in flight, and a step that changes a counter under another
  call that has made up its mind.
* `never_wraps_iff` says the same of whole runs.
-/

namespace RemoteAgent.IoPump

open CodeLib Protocol

/-! ## What a call is about to compute -/

namespace Update

/-- What the call is about to add to the window. -/
def credit (c : Update) : UInt64 :=
  match c.pc with
  | .addWindow => c.bytesConsumed
  | _ => 0

/-- What the call is about to subtract from the bytes in flight. -/
def amount (c : Update) : UInt64 :=
  match c.pc with
  | .subInFlight current => min c.bytesConsumed current
  | _ => 0

/-- The next action of the call makes the window smaller or takes more bytes out of
flight than there are. -/
def wraps (w : StreamPump) (c : Update) : Bool :=
  w.sendWindow + c.credit < w.sendWindow || w.bytesInFlight < c.amount

theorem wraps_eq_false_iff {w : StreamPump} {c : Update} :
    c.wraps w = false ↔ w.sendWindow.toNat + c.credit.toNat < 2 ^ 64 ∧
      c.amount.toNat ≤ w.bytesInFlight.toNat := by
  have hwindow := w.sendWindow.toNat_lt
  have hcredit := c.credit.toNat_lt
  simp only [wraps, Bool.or_eq_false_iff, decide_eq_false_iff_not, UInt64.not_lt,
    UInt64.le_iff_toNat_le, UInt64.toNat_add]
  refine and_congr_left fun _ => ?_
  omega

/-- What an action does to the counters. -/
theorem step_pump {w w' : StreamPump} {senders senders' : List TrySend} {c c' : Update}
    (h : c.step w senders = some (w', senders', c')) :
    w' = { w with
      sendWindow := w.sendWindow + c.credit
      bytesInFlight := w.bytesInFlight - c.amount } := by
  obtain ⟨n, pc⟩ := c
  cases pc with
  | ret => cases h
  | _ =>
    cases h
    simp [credit, amount]

/-- After an action the call has nothing more to add, and it has clamped what it is about
to subtract. -/
theorem step_next {w w' : StreamPump} {senders senders' : List TrySend} {c c' : Update}
    (h : c.step w senders = some (w', senders', c')) :
    c'.credit = 0 ∧ c'.amount ≤ w'.bytesInFlight := by
  obtain ⟨n, pc⟩ := c
  cases pc with
  | loadInFlight =>
    cases h
    exact ⟨rfl, Std.min_le_right⟩
  | ret => cases h
  | _ =>
    cases h
    exact ⟨rfl, UInt64.zero_le⟩

/-- A notification changes where the senders stand.  Nothing else does. -/
theorem step_senders {w w' : StreamPump} {senders senders' : List TrySend}
    {c c' : Update} (h : c.step w senders = some (w', senders', c')) :
    senders' = senders ∨ senders' = senders.map TrySend.wake := by
  obtain ⟨n, pc⟩ := c
  cases pc with
  | notifyWaiters =>
    cases h
    exact Or.inr rfl
  | ret => cases h
  | _ =>
    cases h
    exact Or.inl rfl

theorem wraps_of_step {w w' : StreamPump} {senders senders' : List TrySend}
    {c c' : Update} (h : c.step w senders = some (w', senders', c')) :
    c'.wraps w' = false := by
  obtain ⟨hcredit, hamount⟩ := step_next h
  rw [wraps_eq_false_iff, hcredit]
  exact ⟨w'.sendWindow.toNat_lt, UInt64.le_iff_toNat_le.mp hamount⟩

/-- Another call's action leaves room for this one exactly if the two of them fit
together. -/
theorem wraps_after_iff {w w' : StreamPump} {senders senders' : List TrySend}
    {c c' d : Update} (h : c.step w senders = some (w', senders', c'))
    (hc : c.wraps w = false) :
    d.wraps w' = false ↔
      w.sendWindow.toNat + c.credit.toNat + d.credit.toNat < 2 ^ 64 ∧
        c.amount.toNat + d.amount.toNat ≤ w.bytesInFlight.toNat := by
  rw [wraps_eq_false_iff] at hc ⊢
  rw [step_pump h]
  have hle : c.amount ≤ w.bytesInFlight := UInt64.le_iff_toNat_le.mpr hc.2
  rw [UInt64.toNat_sub_of_le _ _ hle, UInt64.toNat_add, Nat.mod_eq_of_lt hc.1]
  refine and_congr_right fun _ => ?_
  have hle' := hc.2
  omega

end Update

namespace TrySend

/-- The sum that the call is about to compare with the window. -/
def guardSum (c : TrySend) : Nat :=
  match c.pc with
  | .loadWindow inFlight | .test inFlight _ => inFlight.toNat + (dataLen c.frame).toNat
  | _ => 0

/-- The sum does not fit into 64 bits. -/
def wraps (c : TrySend) : Bool := 2 ^ 64 ≤ c.guardSum

theorem wraps_eq_false_iff {c : TrySend} : c.wraps = false ↔ c.guardSum < 2 ^ 64 := by
  rw [wraps, decide_eq_false_iff_not, Nat.not_le]

theorem wraps_wake (c : TrySend) : c.wake.wraps = c.wraps := by
  obtain ⟨f, pc⟩ := c
  cases pc <;> rfl

end TrySend

/-! ## The steps that wrap a counter -/

namespace Flow

/-- The machine of `IoPump.Flow` with any window and either policy to begin with. -/
def counters : StepMachine Flow FlowEvent where
  Init s := ∃ initialWindow dropPolicy, s = ⟨StreamPump.new initialWindow dropPolicy, [], []⟩
  step := step

/-- Some call is about to wrap a counter. -/
def wraps (s : Flow) : Bool :=
  s.updates.any (Update.wraps s.pump) || s.senders.any TrySend.wraps

/-- The condition on a step under which no call comes to wrap a counter.  The argument of
`update_window` fits on top of the window.  A call of `try_send_frame` finds fewer bytes in
flight than would wrap its sum.  What it adds to them does not wrap below what a call of
`update_window` is about to subtract.  And two calls of `update_window` that are under way
fit together: an action of the one leaves room for what the other is about to add, and
leaves in flight what the other is about to subtract. -/
def keepsCounters (s : Flow) : FlowEvent → Bool
  | .trySendFrame _ => true
  | .updateWindow n => s.pump.sendWindow.toNat + n.toNat < 2 ^ 64
  | .sender i _ =>
    match s.senders[i]? with
    | some ⟨f, .loadInFlight⟩ => s.pump.bytesInFlight.toNat + (dataLen f).toNat < 2 ^ 64
    | some ⟨f, .fetchAdd⟩ =>
      s.updates.all fun d => d.amount ≤ s.pump.bytesInFlight + dataLen f
    | _ => true
  | .update i =>
    match s.updates[i]? with
    | some c =>
      (s.updates.eraseIdx i).all fun d =>
        s.pump.sendWindow.toNat + c.credit.toNat + d.credit.toNat < 2 ^ 64 &&
          c.amount.toNat + d.amount.toNat ≤ s.pump.bytesInFlight.toNat
    | none => true

section wraps

variable {s s' : Flow}

theorem wraps_eq_false_iff :
    s.wraps = false ↔ (∀ c ∈ s.updates, c.wraps s.pump = false) ∧
      ∀ c ∈ s.senders, c.wraps = false := by
  simp [wraps]

theorem wraps_update {i : Nat} (hs : s.wraps = false) (h : s.step (.update i) = some s') :
    s'.wraps = false ↔ s.keepsCounters (.update i) = true := by
  simp only [step, Option.bind_eq_some_iff, Option.map_eq_some_iff] at h
  obtain ⟨c, hi, ⟨w, senders, c'⟩, hstep, rfl⟩ := h
  rw [wraps_eq_false_iff] at hs ⊢
  obtain ⟨hupdates, hsenders⟩ := hs
  have hc : c.wraps s.pump = false := hupdates c (List.mem_of_getElem? hi)
  have hsenders' : ∀ d ∈ senders, d.wraps = false := by
    rcases Update.step_senders hstep with rfl | rfl
    · exact hsenders
    · intro d hd
      obtain ⟨e, he, rfl⟩ := List.mem_map.mp hd
      rw [TrySend.wraps_wake]
      exact hsenders e he
  simp only [keepsCounters, hi, List.all_eq_true, Bool.and_eq_true, decide_eq_true_eq]
  rw [and_iff_left hsenders', forall_mem_set (List.getElem?_eq_some_iff.mp hi).1,
    and_iff_right (Update.wraps_of_step hstep)]
  exact forall₂_congr fun d _ => Update.wraps_after_iff hstep hc

/-- A step of a sender that leaves the counters alone. -/
theorem wraps_set_sender {i : Nat} {c c' : TrySend} (hs : s.wraps = false)
    (hi : s.senders[i]? = some c) :
    ({ s with senders := s.senders.set i c' } : Flow).wraps = false ↔ c'.wraps = false := by
  rw [wraps_eq_false_iff] at hs ⊢
  rw [and_iff_right hs.1, forall_mem_set (List.getElem?_eq_some_iff.mp hi).1]
  exact and_iff_left fun d hd => hs.2 d (List.mem_of_mem_eraseIdx hd)

/-- The addition to the bytes in flight. -/
theorem wraps_fetchAdd {i : Nat} {f : Frame} (hs : s.wraps = false)
    (hi : s.senders[i]? = some ⟨f, .fetchAdd⟩) :
    ({ s with
        pump := { s.pump with bytesInFlight := s.pump.bytesInFlight + dataLen f }
        senders := s.senders.set i ⟨f, .send⟩ } : Flow).wraps = false ↔
      ∀ d ∈ s.updates, d.amount ≤ s.pump.bytesInFlight + dataLen f := by
  rw [wraps_eq_false_iff] at hs ⊢
  have hsenders : ∀ d ∈ s.senders.set i ⟨f, .send⟩, d.wraps = false := by
    rw [forall_mem_set (List.getElem?_eq_some_iff.mp hi).1]
    exact ⟨rfl, fun d hd => hs.2 d (List.mem_of_mem_eraseIdx hd)⟩
  rw [and_iff_left hsenders]
  refine forall₂_congr fun d hd => ?_
  rw [Update.wraps_eq_false_iff, UInt64.le_iff_toNat_le]
  exact and_iff_right (Update.wraps_eq_false_iff.mp (hs.1 d hd)).1

theorem wraps_sender {i : Nat} {accepted : Bool} (hs : s.wraps = false)
    (h : s.step (.sender i accepted) = some s') :
    s'.wraps = false ↔ s.keepsCounters (.sender i accepted) = true := by
  simp only [step, Option.bind_eq_some_iff, Option.map_eq_some_iff] at h
  obtain ⟨⟨f, pc⟩, hi, ⟨w, c'⟩, hstep, rfl⟩ := h
  simp only [keepsCounters, hi]
  have hc : (⟨f, pc⟩ : TrySend).wraps = false :=
    (wraps_eq_false_iff.mp hs).2 _ (List.mem_of_getElem? hi)
  cases pc with
  | loadInFlight =>
    cases hstep
    rw [wraps_set_sender hs hi]
    rw [TrySend.wraps_eq_false_iff, decide_eq_true_eq]
    rfl
  | loadWindow inFlight =>
    cases hstep
    rw [wraps_set_sender hs hi]
    exact iff_of_true hc rfl
  | test inFlight window =>
    simp only [TrySend.step] at hstep
    split_ifs at hstep <;> cases hstep <;> rw [wraps_set_sender hs hi] <;>
      exact iff_of_true rfl rfl
  | fetchAdd =>
    cases hstep
    rw [wraps_fetchAdd hs hi]
    simp
  | waiting woken =>
    cases woken with
    | false => cases hstep
    | true =>
      cases hstep
      rw [wraps_set_sender hs hi]
      exact iff_of_true rfl rfl
  | createNotified | send =>
    cases hstep
    rw [wraps_set_sender hs hi]
    exact iff_of_true rfl rfl
  | ret r => cases hstep

/-- A step from a state in which no call is about to wrap a counter leads to such a state
exactly if it meets the condition. -/
theorem wraps_step {e : FlowEvent} (hs : s.wraps = false) (h : s.step e = some s') :
    s'.wraps = false ↔ s.keepsCounters e = true := by
  cases e with
  | sender i accepted => exact wraps_sender hs h
  | update i => exact wraps_update hs h
  | trySendFrame f =>
    refine iff_of_true ?_ rfl
    cases h
    rw [wraps_eq_false_iff] at hs ⊢
    refine ⟨hs.1, fun c hc => ?_⟩
    rcases List.mem_append.mp hc with hold | hnew
    · exact hs.2 c hold
    · rw [List.mem_singleton.mp hnew]
      rfl
  | updateWindow n =>
    cases h
    rw [wraps_eq_false_iff] at hs ⊢
    rw [and_iff_left hs.2, List.forall_mem_append, and_iff_right hs.1, List.forall_mem_singleton,
      Update.wraps_eq_false_iff]
    simp [keepsCounters, Update.credit, Update.amount]

end wraps

/-- In no state of a run is a call about to wrap a counter, exactly if every step of the
run meets the condition. -/
theorem never_wraps_iff {s₀ s : Flow} {es : List FlowEvent} (h0 : counters.Init s₀)
    (hp : counters.Path StepMachine.Any s₀ es s) :
    (∀ u ∈ counters.states s₀ es, u.wraps = false) ↔
      counters.Path (fun s e => s.keepsCounters e = true) s₀ es s := by
  refine hp.forall_states_iff_path (I := fun s => s.wraps = false) (fun _ hu => hu) ?_ ?_ ?_
  · intro u e v hu hkeeps hstep
    exact (wraps_step hu hstep).mpr hkeeps
  · intro u e v hu hstep hbreak hv
    exact hbreak ((wraps_step hu hstep).mp hv)
  · obtain ⟨initialWindow, dropPolicy, rfl⟩ := h0
    rfl

/-- A frame of two bytes goes out, and fills a window of two. -/
def sent : List FlowEvent :=
  [.trySendFrame (dataFrame 1 .stdout 0 [0, 0]), .sender 0 true, .sender 0 true,
    .sender 0 true, .sender 0 true, .sender 0 true]

/-- Two acknowledgements of the frame, both of which have loaded the bytes in flight. -/
def acknowledgedTwice : List FlowEvent :=
  [.updateWindow 2, .update 0, .update 0, .updateWindow 2, .update 1, .update 1]

/-- One acknowledgement after another. -/
theorem never_wraps_twice :
    ∃ s es, counters.Path StepMachine.Any ⟨StreamPump.new 2 false, [], []⟩ es s ∧
      (∀ u ∈ counters.states ⟨StreamPump.new 2 false, [], []⟩ es, u.wraps = false) ∧
      s.pump = ⟨6, 0, false⟩ := by
  let es : List FlowEvent :=
    sent ++ [.updateWindow 2, .update 0, .update 0, .update 0, .update 0,
      .updateWindow 2, .update 1, .update 1, .update 1, .update 1]
  have hrun : (counters.runIf (fun s e => s.keepsCounters e = true)
      ⟨StreamPump.new 2 false, [], []⟩ es).any (fun s => s.pump = ⟨6, 0, false⟩) = true := by
    decide +kernel
  obtain ⟨s, hs, hpump⟩ := (Option.any_eq_true _ _).mp hrun
  have hkeeps := StepMachine.path_of_runIf hs
  have hpath := hkeeps.mono (D := StepMachine.Any) fun _ _ _ => trivial
  exact ⟨s, es, hpath, (never_wraps_iff ⟨2, false, rfl⟩ hpath).mpr hkeeps,
    of_decide_eq_true hpump⟩

/-- The largest argument makes a window smaller.  Of two acknowledgements that overlap, the
second takes bytes out of flight that are not there.  And on what is left then, the sum of
a frame of two bytes overflows. -/
theorem counters_wrap :
    (∃ s, counters.Reachable s ∧ ∃ c ∈ s.updates, c.pc = .addWindow ∧
        s.pump.sendWindow + c.bytesConsumed < s.pump.sendWindow) ∧
      (∃ s, counters.Reachable s ∧ ∃ c ∈ s.updates,
        s.pump.bytesInFlight < c.amount) ∧
      ∃ s, counters.Reachable s ∧ ∃ c ∈ s.senders, 2 ^ 64 ≤ c.guardSum := by
  have h0 : counters.Init ⟨StreamPump.new 2 false, [], []⟩ := ⟨2, false, rfl⟩
  refine ⟨?_, ?_, ?_⟩
  · obtain ⟨s, hs, hprop⟩ := StepMachine.reach_of_runIf counters StepMachine.Any h0
      [.updateWindow 0xffffffffffffffff]
      (fun s => s.updates.any fun c => c.pc = .addWindow &&
        s.pump.sendWindow + c.bytesConsumed < s.pump.sendWindow) (by decide +kernel)
    simp only [List.any_eq_true, Bool.and_eq_true, decide_eq_true_eq] at hprop
    exact ⟨s, hs, hprop⟩
  · obtain ⟨s, hs, hprop⟩ := StepMachine.reach_of_runIf counters StepMachine.Any h0
      (sent ++ acknowledgedTwice ++ [.update 0])
      (fun s => s.updates.any fun c => s.pump.bytesInFlight < c.amount) (by decide +kernel)
    simp only [List.any_eq_true, decide_eq_true_eq] at hprop
    exact ⟨s, hs, hprop⟩
  · obtain ⟨s, hs, hprop⟩ := StepMachine.reach_of_runIf counters StepMachine.Any h0
      (sent ++ acknowledgedTwice ++ [.update 0, .update 1,
        .trySendFrame (dataFrame 1 .stdout 1 [0, 0]), .sender 1 true])
      (fun s => s.senders.any fun c => 2 ^ 64 ≤ c.guardSum) (by decide +kernel)
    simp only [List.any_eq_true, decide_eq_true_eq] at hprop
    exact ⟨s, hs, hprop⟩

end Flow

end RemoteAgent.IoPump
