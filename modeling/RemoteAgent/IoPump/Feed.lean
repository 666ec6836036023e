import RemoteAgent.CodeLib.StepMachine
import RemoteAgent.IoPump.Pump

/-!
# What a pump makes of its pipe

`start_output_pump` from its first check of the token to its return, in front of an
open channel.  Everything that it depends on comes from outside: what its reads
return, when the token is cancelled, and what other tasks do to the window.

* `chunks` are the chunks that the reads have brought, without the empty ones, and
  `numbered` the frames that they make.
* `Feed.At` says where the pump stands against these frames.  `Feed.At.step` is its
  step lemma.
* `Forwarded` is what holds in every state of a run (`forwarded`): nothing is lost,
  repeated or misnumbered, and the stream is closed by one frame.
-/

namespace RemoteAgent.IoPump

open CodeLib Protocol

/-! ## What a read brings -/

namespace ReadOutcome

/-- The bytes that were read, with or without an error. -/
def bytesRead : ReadOutcome → Nat
  | .ok data | .err _ data => data.length

/-- There is nothing more to read. -/
def isEof : ReadOutcome → Bool
  | .ok data => data.isEmpty
  | .err code _ => hresultFromWin32 code = hresultFromWin32 errorBrokenPipe

/-- A part of a message was read. -/
def isMoreData : ReadOutcome → Bool
  | .ok _ => false
  | .err code _ => hresultFromWin32 code = hresultFromWin32 errorMoreData

/-- An error that is neither of the two. -/
def fails (r : ReadOutcome) : Bool :=
  match r with
  | .ok _ => false
  | .err _ _ => !r.isEof && !r.isMoreData

/-- The chunk that a read has brought. -/
def chunk (r : ReadOutcome) : List UInt8 :=
  match r with
  | .ok data => data
  | .err _ data => if r.isMoreData then data else []

end ReadOutcome

namespace Pump

/-- What the pump does with a read. -/
theorem handleRead_cases (jobId : UInt32) (streamId : StreamId) (p : Pump)
    (r : ReadOutcome) :
    (r.fails = true ∧ r.chunk = [] ∧
        ∃ e, p.handleRead jobId streamId r = { p with pc := .returned (.error e) }) ∨
      (r.isEof = true ∧ r.chunk = [] ∧
        p.handleRead jobId streamId r = p.finish jobId streamId) ∨
      (r.chunk = [] ∧ p.handleRead jobId streamId r = { p with pc := .checkToken }) ∨
      (r.chunk ≠ [] ∧ p.handleRead jobId streamId r =
        { sequence := p.sequence + 1
          pc := .trySend false (dataFrame jobId streamId p.sequence r.chunk)
            .loadInFlight }) := by
  cases r with
  | ok data =>
    cases data with
    | nil => exact .inr (.inl ⟨rfl, rfl, rfl⟩)
    | cons b bs =>
      exact .inr (.inr (.inr ⟨by simp [ReadOutcome.chunk],
        by simp [handleRead, readPipeBlocking, ReadOutcome.chunk]⟩))
  | err code data =>
    have hne : hresultFromWin32 errorBrokenPipe ≠ hresultFromWin32 errorMoreData := by
      decide
    by_cases heof : hresultFromWin32 code = hresultFromWin32 errorBrokenPipe
    · refine .inr (.inl ⟨by simp [ReadOutcome.isEof, heof], ?_, ?_⟩)
      · simp [ReadOutcome.chunk, ReadOutcome.isMoreData, heof, hne]
      · simp [handleRead, readPipeBlocking, heof]
    · by_cases hmore : hresultFromWin32 code = hresultFromWin32 errorMoreData
      · cases data with
        | nil =>
          refine .inr (.inr (.inl ⟨by simp [ReadOutcome.chunk], ?_⟩))
          simp [handleRead, readPipeBlocking, hmore, hne.symm]
        | cons b bs =>
          refine .inr (.inr (.inr ⟨?_, ?_⟩))
          · simp [ReadOutcome.chunk, ReadOutcome.isMoreData, hmore]
          · simp [handleRead, readPipeBlocking, ReadOutcome.chunk, ReadOutcome.isMoreData,
              hmore, hne.symm]
      · refine .inl ⟨?_, ?_, ?_⟩
        · simp [ReadOutcome.fails, ReadOutcome.isEof, ReadOutcome.isMoreData, heof, hmore]
        · simp [ReadOutcome.chunk, ReadOutcome.isMoreData, hmore]
        · refine ⟨.io (.rawOs (hresultFromWin32 code)), ?_⟩
          simp [handleRead, readPipeBlocking, heof, hmore]

end Pump

/-! ## The pump and its surroundings -/

/-- A pump task with everything it sees.  `reads` are the results of its reads so far,
`frames` the frames that the channel has accepted from it. -/
structure Feed where
  pump : Pump
  window : StreamPump
  token : Bool
  reads : List ReadOutcome
  frames : List Frame

/-- A step of the pump, a cancellation of the token, or a change of the window by
another task. -/
inductive FeedEvent where
  | pump (e : PumpEvent)
  | cancel
  | window (sendWindow bytesInFlight : UInt64)
  deriving DecidableEq

namespace Feed

/-- The channel is open, and a read brings no more than fits its buffer. -/
def allows : PumpEvent → Bool
  | .closed => false
  | .readDone r => r.bytesRead ≤ maxPayloadSize
  | _ => true

/-- The read that ends in this step. -/
def readOf : PumpEvent → List ReadOutcome
  | .readDone r => [r]
  | _ => []

def step (jobId : UInt32) (streamId : StreamId) (s : Feed) : FeedEvent → Option Feed
  | .pump e =>
    if allows e then
      (s.pump.step jobId streamId s.token s.window e).map fun (w, p, fs) =>
        { s with
          pump := p
          window := w
          reads := s.reads ++ readOf e
          frames := s.frames ++ fs }
    else none
  | .cancel => some { s with token := true }
  | .window sendWindow bytesInFlight =>
    some { s with
      window := { s.window with sendWindow := sendWindow, bytesInFlight := bytesInFlight } }

/-- The task is spawned, with any window and any token. -/
def Initial (s : Feed) : Prop :=
  s.pump = ⟨0, .checkToken⟩ ∧ s.reads = [] ∧ s.frames = []

def machine (jobId : UInt32) (streamId : StreamId) : StepMachine Feed FeedEvent where
  Init := Initial
  step := step jobId streamId

/-! ## Chunks and frames -/

/-- The chunks that were read, without the empty ones. -/
def chunks (s : Feed) : List (List UInt8) :=
  (s.reads.map ReadOutcome.chunk).filter fun c => !c.isEmpty

/-- The frames that chunks make: the `i`-th has the number `i`, modulo 2^32. -/
def numbered (jobId : UInt32) (streamId : StreamId) (cs : List (List UInt8)) :
    List Frame :=
  cs.mapIdx fun i c => dataFrame jobId streamId (UInt32.ofNat i) c

/-- The frame that ends a stream of so many chunks. -/
def eosOf (jobId : UInt32) (streamId : StreamId) (cs : List (List UInt8)) : Frame :=
  eosFrame jobId streamId (UInt32.ofNat cs.length)

/-- The data frames that the channel has accepted. -/
def dataFrames (s : Feed) : List Frame := s.frames.filter fun f => !f.hasFlag flagEos

/-- The pump has left its loop because the token was cancelled or the pipe has come
to its end. -/
def ended (s : Feed) : Prop :=
  s.token = true ∨ ∃ r, s.reads.getLast? = some r ∧ r.isEof = true

/-- Frames against those that were offered to the channel: all of them, or with the
drop policy those that were not dropped. -/
def Kept (dropPolicy : Bool) (frames offered : List Frame) : Prop :=
  if dropPolicy then frames.Sublist offered else frames = offered

/-- Where the pump stands. -/
def At (jobId : UInt32) (streamId : StreamId) (s : Feed) : Prop :=
  let fs := numbered jobId streamId s.chunks
  let kept := Kept s.window.dropPolicy s.frames
  match s.pump.pc with
  | .notSpawned | .checkToken | .read =>
    s.pump.sequence = UInt32.ofNat s.chunks.length ∧ kept fs
  | .trySend false f _ =>
    s.pump.sequence = UInt32.ofNat s.chunks.length ∧
      ∃ before, fs = before ++ [f] ∧ kept before
  | .trySend true f _ => f = eosOf jobId streamId s.chunks ∧ s.ended ∧ kept fs
  | .returned (.ok ()) => s.ended ∧ kept (fs ++ [eosOf jobId streamId s.chunks])
  | .returned (.error _) =>
    (∃ r, s.reads.getLast? = some r ∧ r.fails = true) ∧ kept fs

section lists

variable {jobId : UInt32} {streamId : StreamId} {dropPolicy : Bool} {fs gs : List Frame}

theorem numbered_concat (cs : List (List UInt8)) (c : List UInt8) :
    numbered jobId streamId (cs ++ [c]) =
      numbered jobId streamId cs ++ [dataFrame jobId streamId (UInt32.ofNat cs.length) c] := by
  simp [numbered, List.mapIdx_concat]

theorem Kept.concat (h : Kept dropPolicy fs gs) (f : Frame) :
    Kept dropPolicy (fs ++ [f]) (gs ++ [f]) := by
  cases dropPolicy with
  | false => exact congrArg (· ++ [f]) h
  | true => exact List.Sublist.append_right h [f]

/-- A frame is dropped. -/
theorem Kept.skip (h : Kept dropPolicy fs gs) (hd : dropPolicy = true) (f : Frame) :
    Kept dropPolicy fs (gs ++ [f]) := by
  subst hd
  exact List.Sublist.trans h (List.sublist_append_left gs [f])

/-- The last of the offered frames is there, or it was dropped. -/
theorem Kept.split {f : Frame} (h : Kept dropPolicy fs (gs ++ [f])) :
    ∃ ds, Kept dropPolicy ds gs ∧ (fs = ds ++ [f] ∨ dropPolicy = true ∧ fs = ds) := by
  cases dropPolicy with
  | false => exact ⟨gs, rfl, .inl h⟩
  | true =>
    obtain ⟨ds, es, rfl, hds, hes⟩ := List.sublist_append_iff.mp h
    rcases List.sublist_singleton.mp hes with rfl | rfl
    · exact ⟨ds, hds, .inr ⟨rfl, List.append_nil ds⟩⟩
    · exact ⟨ds, hds, .inl rfl⟩

theorem Kept.sublist (h : Kept dropPolicy fs gs) : fs.Sublist gs := by
  cases dropPolicy with
  | false => exact h ▸ List.Sublist.refl _
  | true => exact h

end lists

section steps

variable {jobId : UInt32} {streamId : StreamId} {s s' : Feed}

theorem at_initial (h : Initial s) : s.At jobId streamId := by
  obtain ⟨hpump, hreads, hframes⟩ := h
  have hchunks : s.chunks = [] := by simp [chunks, hreads]
  unfold At
  rw [hpump, hchunks, hframes]
  refine ⟨rfl, ?_⟩
  cases s.window.dropPolicy with
  | false => rfl
  | true => exact List.Sublist.refl []

/-- A step in which nothing is read leaves the chunks as they are. -/
theorem chunks_congr (h : s'.reads = s.reads) : s'.chunks = s.chunks := by
  rw [chunks, chunks, h]

theorem chunks_of_read {r : ReadOutcome} (h : s'.reads = s.reads ++ [r]) :
    s'.chunks = if r.chunk = [] then s.chunks else s.chunks ++ [r.chunk] := by
  by_cases hc : r.chunk = [] <;> simp [chunks, h, List.filter_append, hc]

theorem ended_mono (hreads : s'.reads = s.reads) (htoken : s.token = true → s'.token = true)
    (h : s.ended) : s'.ended := by
  unfold ended at h ⊢
  rw [hreads]
  exact h.imp_left htoken

/-- What happens around the pump moves it nowhere. -/
theorem At.congr (h : s.At jobId streamId) (hpump : s'.pump = s.pump)
    (hpolicy : s'.window.dropPolicy = s.window.dropPolicy) (hreads : s'.reads = s.reads)
    (hframes : s'.frames = s.frames) (htoken : s.token = true → s'.token = true) :
    s'.At jobId streamId := by
  unfold At at h ⊢
  rw [hpump, hpolicy, hframes, chunks_congr hreads, hreads]
  split
  all_goals rename_i hpc; simp only [hpc] at h
  · exact h
  · exact h
  · exact h
  · exact h
  · exact ⟨h.1, ended_mono hreads htoken h.2.1, h.2.2⟩
  · exact ⟨ended_mono hreads htoken h.1, h.2⟩
  · exact h

/-- Moving inside `try_send_frame` keeps the place. -/
theorem At.trySend {last : Bool} {f : Frame} {pc pc' : SendPc} (h : s.At jobId streamId)
    (hpc : s.pump.pc = .trySend last f pc)
    (hpump : s'.pump = { s.pump with pc := .trySend last f pc' })
    (hpolicy : s'.window.dropPolicy = s.window.dropPolicy) (hreads : s'.reads = s.reads)
    (hframes : s'.frames = s.frames) (htoken : s'.token = s.token) :
    s'.At jobId streamId := by
  unfold At at h ⊢
  rw [hpump, hpolicy, hframes, chunks_congr hreads]
  simp only [hpc] at h
  cases last with
  | false => exact h
  | true => exact ⟨h.1, ended_mono hreads (fun ht => htoken.trans ht) h.2.1, h.2.2⟩

/-- A frame is behind the pump, sent or dropped. -/
theorem At.afterSend {last : Bool} {f : Frame} {pc : SendPc} (h : s.At jobId streamId)
    (hpc : s.pump.pc = .trySend last f pc) (hpump : s'.pump = s.pump.afterSend last)
    (hreads : s'.reads = s.reads) (htoken : s'.token = s.token)
    (hkept : ∀ gs, Kept s.window.dropPolicy s.frames gs →
      Kept s'.window.dropPolicy s'.frames (gs ++ [f])) :
    s'.At jobId streamId := by
  unfold At at h ⊢
  rw [hpump, chunks_congr hreads]
  simp only [hpc] at h
  cases last with
  | false =>
    obtain ⟨hseq, before, hbefore, hk⟩ := h
    refine ⟨hseq, ?_⟩
    show Kept s'.window.dropPolicy s'.frames (numbered jobId streamId s.chunks)
    rw [hbefore]
    exact hkept before hk
  | true =>
    obtain ⟨hf, hended, hk⟩ := h
    rw [← hf]
    exact ⟨ended_mono hreads (fun ht => htoken.trans ht) hended, hkept _ hk⟩

/-- The pump leaves its loop. -/
theorem At.finish {p : Pump} (hseq : p.sequence = UInt32.ofNat s'.chunks.length)
    (hkept : Kept s'.window.dropPolicy s'.frames (numbered jobId streamId s'.chunks))
    (hpump : s'.pump = p.finish jobId streamId) (hended : s'.ended) :
    s'.At jobId streamId := by
  unfold At
  rw [hpump]
  refine ⟨?_, hended, hkept⟩
  rw [hseq]
  rfl

/-- The pump has read. -/
theorem At.readDone {r : ReadOutcome} (h : s.At jobId streamId) (hpc : s.pump.pc = .read)
    (hpump : s'.pump = s.pump.handleRead jobId streamId r)
    (hpolicy : s'.window.dropPolicy = s.window.dropPolicy)
    (hreads : s'.reads = s.reads ++ [r]) (hframes : s'.frames = s.frames) :
    s'.At jobId streamId := by
  have hchunks := chunks_of_read hreads
  have hlast : s'.reads.getLast? = some r := by rw [hreads, List.getLast?_concat]
  unfold At at h
  simp only [hpc] at h
  obtain ⟨hseq, hkept⟩ := h
  rw [← hpolicy, ← hframes] at hkept
  rcases s.pump.handleRead_cases jobId streamId r with ⟨hfails, hc, e, hp⟩ | ⟨heof, hc, hp⟩ |
    ⟨hc, hp⟩ | ⟨hc, hp⟩
  · rw [if_pos hc] at hchunks
    unfold At
    rw [hpump, hp, hchunks]
    exact ⟨⟨r, hlast, hfails⟩, hkept⟩
  · rw [if_pos hc] at hchunks
    rw [← hchunks] at hseq hkept
    exact At.finish hseq hkept (hpump.trans hp) (.inr ⟨r, hlast, heof⟩)
  · rw [if_pos hc] at hchunks
    unfold At
    rw [hpump, hp, hchunks]
    exact ⟨hseq, hkept⟩
  · rw [if_neg hc] at hchunks
    unfold At
    rw [hpump, hp, hchunks, numbered_concat]
    refine ⟨?_, numbered jobId streamId s.chunks, by rw [hseq], hkept⟩
    show s.pump.sequence + 1 = _
    rw [hseq, List.length_append, List.length_singleton, UInt32.ofNat_add]
    rfl

theorem At.pump {e : PumpEvent} (h : s.At jobId streamId)
    (hstep : s.step jobId streamId (.pump e) = some s') : s'.At jobId streamId := by
  simp only [step] at hstep
  split at hstep
  · rename_i hallows
    obtain ⟨⟨w, p, fs⟩, hp, rfl⟩ := Option.map_eq_some_iff.mp hstep
    have hat := h
    unfold At at hat
    cases Pump.step_move hp with
    | cancelled hpc ht =>
      simp only [hpc] at hat
      exact At.finish (p := s.pump) (by simpa [chunks, readOf] using hat.1)
        (by simpa [chunks, readOf] using hat.2) rfl (.inl ht)
    | goOn hpc ht =>
      simp only [hpc] at hat
      unfold At
      simpa [chunks, readOf] using hat
    | read r p' hpc hm =>
      have hread : p = s.pump.handleRead jobId streamId r := by
        simp only [Pump.step, hpc, Option.some.injEq, Prod.mk.injEq] at hp
        exact hp.2.1.symm
      exact h.readDone hpc hread rfl rfl (List.append_nil _)
    | load last f hpc =>
      exact h.trySend hpc rfl rfl (List.append_nil _) (List.append_nil _) rfl
    | pass last f inFlight hpc hg =>
      exact h.trySend hpc rfl rfl (List.append_nil _) (List.append_nil _) rfl
    | drop last f inFlight hpc hd =>
      refine h.afterSend hpc rfl (List.append_nil _) rfl ?_
      intro gs hk
      rw [List.append_nil]
      exact hk.skip hd f
    | block last f inFlight hpc =>
      exact h.trySend hpc rfl rfl (List.append_nil _) (List.append_nil _) rfl
    | reserve last f hpc =>
      exact h.trySend hpc rfl rfl (List.append_nil _) (List.append_nil _) rfl
    | send last f hpc =>
      exact h.afterSend hpc rfl (List.append_nil _) rfl fun gs hk => hk.concat f
    | refused last f hpc => cases hallows
    | notified last f hpc =>
      exact h.trySend hpc rfl rfl (List.append_nil _) (List.append_nil _) rfl
  · cases hstep

/-- Every step keeps the place of the pump right. -/
theorem At.step {e : FeedEvent} (h : s.At jobId streamId)
    (hstep : s.step jobId streamId e = some s') : s'.At jobId streamId := by
  cases e with
  | pump e => exact h.pump hstep
  | cancel =>
    cases hstep
    exact h.congr rfl rfl rfl rfl fun _ => rfl
  | window sendWindow bytesInFlight =>
    cases hstep
    exact h.congr rfl rfl rfl rfl id

theorem at_reachable (h : (machine jobId streamId).Reachable s) : s.At jobId streamId :=
  h.invariant (fun _ h0 => at_initial h0) fun _ _ _ hs _ hstep => hs.step hstep

end steps

/-! ## Data frames -/

section data

variable {jobId : UInt32} {streamId : StreamId} {s s' : Feed}

/-- The chunks fit the buffer. -/
theorem length_chunk_le (r : ReadOutcome) : r.chunk.length ≤ r.bytesRead := by
  cases r with
  | ok data => exact Nat.le_refl _
  | err code data =>
    simp only [ReadOutcome.chunk, ReadOutcome.bytesRead]
    split
    · exact Nat.le_refl _
    · exact Nat.zero_le _

theorem reads_fit (h : (machine jobId streamId).Reachable s) :
    ∀ r ∈ s.reads, r.bytesRead ≤ maxPayloadSize := by
  refine h.invariant (I := fun s => ∀ r ∈ s.reads, r.bytesRead ≤ maxPayloadSize) ?_ ?_
  · rintro s ⟨-, hreads, -⟩
    simp [hreads]
  · intro s e s' hs _ hstep
    cases e with
    | cancel | window sendWindow bytesInFlight =>
      cases hstep
      exact hs
    | pump e =>
      simp only [machine, step] at hstep
      split at hstep
      · rename_i hallows
        obtain ⟨⟨w, p, fs⟩, -, rfl⟩ := Option.map_eq_some_iff.mp hstep
        intro r hr
        rcases List.mem_append.mp hr with hr | hr
        · exact hs r hr
        · cases e with
          | readDone r' =>
            rw [List.mem_singleton.mp hr]
            simpa [allows] using hallows
          | _ => exact absurd hr List.not_mem_nil
      · cases hstep

theorem mem_chunks {c : List UInt8} (hfit : ∀ r ∈ s.reads, r.bytesRead ≤ maxPayloadSize)
    (h : c ∈ s.chunks) : 1 ≤ c.length ∧ c.length ≤ maxPayloadSize := by
  simp only [chunks, List.mem_filter, List.mem_map, Bool.not_eq_true',
    List.isEmpty_eq_false_iff] at h
  obtain ⟨⟨r, hr, rfl⟩, hne⟩ := h
  exact ⟨List.length_pos_iff.mpr hne, (length_chunk_le r).trans (hfit r hr)⟩

theorem mem_numbered {cs : List (List UInt8)} {f : Frame}
    (h : f ∈ numbered jobId streamId cs) : f.payload ∈ cs ∧ f.hasFlag flagEos = false := by
  simp only [numbered, List.mem_mapIdx] at h
  obtain ⟨i, hi, rfl⟩ := h
  exact ⟨List.getElem_mem hi, dataFrame_hasFlag ..⟩

/-- The payloads of the frames, put together, are the bytes that were read. -/
theorem flatMap_numbered (s : Feed) :
    (numbered jobId streamId s.chunks).flatMap Frame.payload =
      s.reads.flatMap ReadOutcome.chunk := by
  have hpayload : (numbered jobId streamId s.chunks).map Frame.payload = s.chunks := by
    apply List.ext_getElem?
    intro i
    rw [numbered, List.getElem?_map, List.getElem?_mapIdx]
    cases s.chunks[i]? <;> rfl
  have hflat : s.chunks.flatten = (s.reads.map ReadOutcome.chunk).flatten :=
    List.flatten_filter_not_isEmpty
  rw [List.flatMap_def, hpayload, hflat, List.flatMap_def]

theorem filter_sublist {fs : List Frame} {cs : List (List UInt8)}
    (h : fs.Sublist (numbered jobId streamId cs)) :
    (fs.filter fun f => !f.hasFlag flagEos) = fs := by
  rw [List.filter_eq_self]
  intro f hf
  rw [(mem_numbered (h.subset hf)).2]
  rfl

end data

/-! ## After a cancellation, and after the return -/

section later

variable {jobId : UInt32} {streamId : StreamId} {s s' : Feed}

/-- The data frames that a pump may still send without a look at the token. -/
def due (p : Pump) : Nat :=
  match p.pc with
  | .read | .trySend false _ _ => 1
  | _ => 0

theorem due_le_one (p : Pump) : due p ≤ 1 := by
  unfold due
  split <;> omega

theorem cancelled_step {e : FeedEvent} (h : s.At jobId streamId) (ht : s.token = true)
    (hstep : s.step jobId streamId e = some s') :
    s'.token = true ∧
      s'.dataFrames.length + due s'.pump ≤ s.dataFrames.length + due s.pump := by
  cases e with
  | cancel =>
    cases hstep
    exact ⟨rfl, Nat.le_refl _⟩
  | window sendWindow bytesInFlight =>
    cases hstep
    exact ⟨ht, Nat.le_refl _⟩
  | pump e =>
    simp only [step] at hstep
    split at hstep
    · obtain ⟨⟨w, p, fs⟩, hp, rfl⟩ := Option.map_eq_some_iff.mp hstep
      refine ⟨ht, ?_⟩
      simp only [dataFrames, List.filter_append, List.length_append]
      cases Pump.step_move hp with
      | cancelled hpc _ => simp [due, hpc, Pump.finish]
      | goOn hpc hclear =>
        rw [ht] at hclear
        cases hclear
      | read r p' hpc hm =>
        have hdue := due_le_one p
        simp only [due, hpc, List.filter_nil, List.length_nil] at hdue ⊢
        omega
      | load last f hpc | block last f inFlight hpc | reserve last f hpc
      | notified last f hpc => cases last <;> simp [due, hpc]
      | pass last f inFlight hpc hg => cases last <;> simp [due, hpc]
      | drop last f inFlight hpc hd => cases last <;> simp [due, hpc, Pump.afterSend]
      | send last f hpc =>
        unfold At at h
        simp only [hpc] at h
        cases last with
        | false =>
          have hlen := List.length_filter_le (fun f => !f.hasFlag flagEos) [f]
          simp only [due, hpc, Pump.afterSend, Bool.false_eq_true, if_false,
            List.length_singleton] at hlen ⊢
          omega
        | true =>
          obtain ⟨rfl, -⟩ := h
          simp [due, hpc, Pump.afterSend, eosOf, eosFrame_hasFlag]
      | refused last f hpc => cases last <;> simp [due, hpc]
    · cases hstep

/-- After the token is cancelled, at most one data frame follows. -/
theorem cancelled_path {es : List FeedEvent} (h : s.At jobId streamId) (ht : s.token = true)
    (hp : (machine jobId streamId).Path StepMachine.Any s es s') :
    s'.dataFrames.length ≤ s.dataFrames.length + 1 := by
  have hinv := hp.invariant (I := fun u => u.At jobId streamId ∧ u.token = true ∧
    u.dataFrames.length + due u.pump ≤ s.dataFrames.length + due s.pump) ?_
    ⟨h, ht, Nat.le_refl _⟩
  · have hone := due_le_one s.pump
    omega
  · rintro u e v ⟨hat, htok, hle⟩ _ hstep
    obtain ⟨htok', hle'⟩ := cancelled_step hat htok hstep
    exact ⟨hat.step hstep, htok', hle'.trans hle⟩

theorem returned_step {r : Except Error Unit} {e : FeedEvent}
    (hpc : s.pump.pc = .returned r) (hstep : s.step jobId streamId e = some s') :
    s'.pump.pc = .returned r ∧ s'.frames = s.frames := by
  cases e with
  | cancel | window sendWindow bytesInFlight =>
    cases hstep
    exact ⟨hpc, rfl⟩
  | pump e =>
    simp only [step] at hstep
    split at hstep
    · obtain ⟨⟨w, p, fs⟩, hp, rfl⟩ := Option.map_eq_some_iff.mp hstep
      simp [Pump.step, hpc] at hp
    · cases hstep

/-- After the return nothing follows. -/
theorem returned_path {r : Except Error Unit} {es : List FeedEvent}
    (hpc : s.pump.pc = .returned r)
    (hp : (machine jobId streamId).Path StepMachine.Any s es s') : s'.frames = s.frames := by
  refine (hp.invariant (I := fun u => u.pump.pc = .returned r ∧ u.frames = s.frames) ?_
    ⟨hpc, rfl⟩).2
  rintro u e v ⟨hu, hframes⟩ _ hstep
  obtain ⟨hv, hsame⟩ := returned_step hu hstep
  exact ⟨hv, hsame.trans hframes⟩

end later

/-! ## The stream as a whole -/

/-- What the channel has got from a pump in front of it, against what the pump has
read. -/
structure Forwarded (jobId : UInt32) (streamId : StreamId) (s : Feed) : Prop where
  /-- The data frames are those of the chunks, but for the one that the pump is still
  about to send. -/
  inOrder : s.window.dropPolicy = false →
    s.dataFrames = numbered jobId streamId s.chunks ∨
      ∃ f pc, s.pump.pc = .trySend false f pc ∧
        s.dataFrames ++ [f] = numbered jobId streamId s.chunks
  /-- With the drop policy some are missing, and the others keep their numbers. -/
  dropped : s.dataFrames.Sublist (numbered jobId streamId s.chunks)
  encodes : ∀ f ∈ s.dataFrames, 1 ≤ f.payload.length ∧
    f.payload.length ≤ maxPayloadSize ∧ f.encode = .ok f.bytes
  /-- Until the return there are only data frames. -/
  unclosed : (∀ r, s.pump.pc ≠ .returned r) → s.frames = s.dataFrames
  complete : s.window.dropPolicy = false → ∀ r, s.pump.pc = .returned r →
    s.dataFrames = numbered jobId streamId s.chunks ∧
      s.dataFrames.flatMap Frame.payload = s.reads.flatMap ReadOutcome.chunk
  /-- A pump that has come to the end of its loop has closed the stream, or dropped
  the frame that closes it.  One that has failed to read has not. -/
  closes : ∀ r, s.pump.pc = .returned r →
    (r = .ok () ∧ s.ended ∧
        (s.frames = s.dataFrames ++ [eosOf jobId streamId s.chunks] ∨
          s.window.dropPolicy = true ∧ s.frames = s.dataFrames)) ∨
      ∃ e outcome, r = .error e ∧ s.reads.getLast? = some outcome ∧
        outcome.fails = true ∧ s.frames = s.dataFrames
  final : ∀ r, s.pump.pc = .returned r → ∀ es t,
    (machine jobId streamId).Path StepMachine.Any s es t → t.frames = s.frames
  cancelled : s.token = true → ∀ es t,
    (machine jobId streamId).Path StepMachine.Any s es t →
      t.dataFrames.length ≤ s.dataFrames.length + 1

section forwarded

variable {jobId : UInt32} {streamId : StreamId} {s : Feed}

/-- Until the return. -/
theorem At.open (h : s.At jobId streamId) (hpc : ∀ r, s.pump.pc ≠ .returned r) :
    s.frames = s.dataFrames ∧ s.dataFrames.Sublist (numbered jobId streamId s.chunks) ∧
      (s.window.dropPolicy = false →
        s.dataFrames = numbered jobId streamId s.chunks ∨
          ∃ f pc, s.pump.pc = .trySend false f pc ∧
            s.dataFrames ++ [f] = numbered jobId streamId s.chunks) := by
  have hall : Kept s.window.dropPolicy s.frames (numbered jobId streamId s.chunks) ∨
      ∃ f pc before, s.pump.pc = .trySend false f pc ∧
        numbered jobId streamId s.chunks = before ++ [f] ∧
        Kept s.window.dropPolicy s.frames before := by
    unfold At at h
    split at h
    · exact .inl h.2
    · exact .inl h.2
    · exact .inl h.2
    · rename_i f pc heq
      obtain ⟨-, before, hbefore, hk⟩ := h
      exact .inr ⟨f, pc, before, heq, hbefore, hk⟩
    · exact .inl h.2.2
    · rename_i heq
      exact absurd heq (hpc _)
    · rename_i heq
      exact absurd heq (hpc _)
  have hsub : s.frames.Sublist (numbered jobId streamId s.chunks) := by
    rcases hall with hk | ⟨f, pc, before, -, hbefore, hk⟩
    · exact hk.sublist
    · rw [hbefore]
      exact hk.sublist.trans (List.sublist_append_left before [f])
  have hdata : s.dataFrames = s.frames := filter_sublist hsub
  rw [hdata]
  refine ⟨rfl, hsub, ?_⟩
  intro hblock
  rw [hblock] at hall
  rcases hall with hk | ⟨f, pc, before, heq, hbefore, hk⟩
  · exact .inl hk
  · exact .inr ⟨f, pc, heq, by rw [hbefore, show s.frames = before from hk]⟩

/-- The data frames of a stream that may be closed. -/
theorem dataFrames_of_frames {ds : List Frame}
    (hds : ds.Sublist (numbered jobId streamId s.chunks))
    (h : s.frames = ds ++ [eosOf jobId streamId s.chunks] ∨ s.frames = ds) :
    s.dataFrames = ds := by
  have hself := filter_sublist hds
  rcases h with h | h
  · rw [dataFrames, h, List.filter_append, hself]
    simp [eosOf, eosFrame_hasFlag]
  · rw [dataFrames, h, hself]

/-- At the return. -/
theorem At.returned {r : Except Error Unit} (h : s.At jobId streamId)
    (hpc : s.pump.pc = .returned r) :
    Kept s.window.dropPolicy s.dataFrames (numbered jobId streamId s.chunks) ∧
      ((r = .ok () ∧ s.ended ∧
          (s.frames = s.dataFrames ++ [eosOf jobId streamId s.chunks] ∨
            s.window.dropPolicy = true ∧ s.frames = s.dataFrames)) ∨
        ∃ e outcome, r = .error e ∧ s.reads.getLast? = some outcome ∧
          outcome.fails = true ∧ s.frames = s.dataFrames) := by
  unfold At at h
  simp only [hpc] at h
  cases r with
  | ok _ =>
    obtain ⟨hended, hkept⟩ := h
    obtain ⟨ds, hds, hframes⟩ := hkept.split
    have hdata : s.dataFrames = ds := by
      apply dataFrames_of_frames hds.sublist
      exact hframes.imp_right fun hf => hf.2
    rw [hdata]
    exact ⟨hds, .inl ⟨rfl, hended, hframes⟩⟩
  | error e =>
    obtain ⟨⟨outcome, hlast, hfails⟩, hkept⟩ := h
    have hdata : s.dataFrames = s.frames := filter_sublist hkept.sublist
    rw [hdata]
    exact ⟨hkept, .inr ⟨e, outcome, rfl, hlast, hfails, rfl⟩⟩

/-- Every pump forwards its stream. -/
theorem forwarded (h : (machine jobId streamId).Reachable s) :
    s.Forwarded jobId streamId := by
  have hat := at_reachable h
  have hsub : s.dataFrames.Sublist (numbered jobId streamId s.chunks) := by
    by_cases hpc : ∀ r, s.pump.pc ≠ .returned r
    · exact (hat.open hpc).2.1
    · simp only [not_forall, not_not] at hpc
      obtain ⟨r, hpc⟩ := hpc
      exact (hat.returned hpc).1.sublist
  refine ⟨?_, hsub, ?_, fun hpc => (hat.open hpc).1, ?_, ?_, ?_, ?_⟩
  · intro hblock
    by_cases hpc : ∀ r, s.pump.pc ≠ .returned r
    · exact (hat.open hpc).2.2 hblock
    · simp only [not_forall, not_not] at hpc
      obtain ⟨r, hpc⟩ := hpc
      have hkept := (hat.returned hpc).1
      rw [hblock] at hkept
      exact .inl hkept
  · intro f hf
    obtain ⟨hlow, hhigh⟩ := mem_chunks (reads_fit h) (mem_numbered (hsub.subset hf)).1
    exact ⟨hlow, hhigh, Frame.encode_of_le hhigh⟩
  · intro hblock r hpc
    have hkept := (hat.returned hpc).1
    rw [hblock] at hkept
    have heq : s.dataFrames = numbered jobId streamId s.chunks := hkept
    exact ⟨heq, by rw [heq, flatMap_numbered]⟩
  · intro r hpc
    exact (hat.returned hpc).2
  · intro r hpc es t hp
    exact returned_path hpc hp
  · intro ht es t hp
    exact cancelled_path hat ht hp

end forwarded

/-- A round of the loop that reads a chunk and sends it. -/
def chunkRound (r : ReadOutcome) : List FeedEvent :=
  [.pump .step, .pump (.readDone r), .pump .step, .pump .step, .pump .step, .pump .sent]

/-- Two chunks, the second in two parts with an empty read between them, and the end of
the pipe. -/
theorem forwarded_three_parts :
    ∃ s, (machine 7 .stdout).Reachable s ∧ s.pump.pc = .returned (.ok ()) ∧
      s.frames = [dataFrame 7 .stdout 0 [104], dataFrame 7 .stdout 1 [105, 106],
        dataFrame 7 .stdout 2 [107], eosFrame 7 .stdout 3] ∧
      s.Forwarded 7 .stdout := by
  obtain ⟨s, hreach, hs⟩ := StepMachine.reach_of_runIf (machine 7 .stdout) StepMachine.Any
    (s := ⟨⟨0, .checkToken⟩, StreamPump.new 65536 false, false, [], []⟩) ⟨rfl, rfl, rfl⟩
    (chunkRound (.ok [104]) ++ chunkRound (.err errorMoreData [105, 106]) ++
      [.pump .step, .pump (.readDone (.err errorMoreData []))] ++ chunkRound (.ok [107]) ++
      [.pump .step, .pump (.readDone (.err errorBrokenPipe [])), .pump .step, .pump .step,
        .pump .step, .pump .sent])
    (fun s => s.pump.pc = .returned (.ok ()) && s.frames = [dataFrame 7 .stdout 0 [104],
      dataFrame 7 .stdout 1 [105, 106], dataFrame 7 .stdout 2 [107], eosFrame 7 .stdout 3])
    (by decide +kernel)
  simp only [Bool.and_eq_true, decide_eq_true_eq] at hs
  exact ⟨s, hreach, hs.1, hs.2, forwarded hreach⟩

end Feed

end RemoteAgent.IoPump
