import RemoteAgent.FileIpc.Server

/-!
# What becomes of a request file

One call of `process_single_request` reads its file, removes it and answers it.  It
reads with `read_to_string`, which fails on a content that is not UTF-8, and then the
call returns before it has removed the file.

* `collect` gathers what the steps of one task do over a run, whoever else takes steps
  in between: the files that it removes, and the response files that it writes.
* `TaskPc.toRemove` and `TaskPc.toAnswer` are what a task still owes.  `owes_step` is the
  law that every step of the task keeps, and `owes_path` the law for a run.
* `consumed_iff`: when the operations of the system succeed, the call removes its file
  and writes one response file, exactly if the content is UTF-8.
-/

namespace RemoteAgent

open CodeLib

namespace FileIpc

/-- An operation that the task has asked the system for has failed. -/
def TaskEvent.fails : TaskEvent → Bool
  | .openFailed | .readFailed | .removeFailed | .spawnFailed _ | .writeFailed => true
  | _ => false

/-- The file that a task has still to remove. -/
def TaskPc.toRemove (path : FileName) : TaskPc → List FileName
  | .opening | .reading _ | .removing _ _ => [path]
  | _ => []

/-- The number of response files that a task has still to write. -/
def TaskPc.toAnswer : TaskPc → Nat
  | .returned _ | .dropped => 0
  | _ => 1

/-- `serde_json` writes every response: its fields are strings, numbers and nulls. -/
def Serde.Total (serde : Serde) : Prop :=
  ∀ response, ∃ json, serde.responseToString response = .ok json

end FileIpc

open FileIpc

namespace FileIpcServer

/-! ## The effects of one task -/

/-- The files that a step removes from the request directory. -/
def removed (s s' : FileIpcServer) : List FileName :=
  s.directory.keys.filter fun name => name ∉ s'.directory

/-- The response files that a step writes. -/
def answered (s s' : FileIpcServer) : List (String × String) :=
  s'.responses.drop s.responses.length

/-- The event is a step of the task `i`. -/
def Event.isOf (i : Nat) : Event → Bool
  | .task k _ => k = i
  | _ => false

/-- What the steps of the task `i` do, collected over a run. -/
def collect {β : Type} (serde : Serde) (i : Nat)
    (effect : FileIpcServer → FileIpcServer → List β) :
    FileIpcServer → List Event → List β
  | _, [] => []
  | s, e :: es =>
    match s.step serde e with
    | none => []
    | some u => (if e.isOf i then effect s u else []) ++ collect serde i effect u es

/-- The operations of the task `i` succeed. -/
def Succeeds (i : Nat) (e : Event) : Prop := ∀ te, e = .task i te → te.fails = false

/-- One call of `process_single_request` by the task `i`, from the open of its file to
its return, with the steps of everyone else in between. -/
structure Call (serde : Serde) (i : Nat) (s : FileIpcServer) (es : List Event)
    (s' : FileIpcServer) : Prop where
  path : (machine serde).Path (fun _ e => Succeeds i e) s (.task i .opened :: es) s'
  returned : ∃ t r, s'.tasks[i]? = some t ∧ t.pc = .returned r

/-- The call has removed its file and nothing else, and has written one response
file. -/
structure Consumed (serde : Serde) (i : Nat) (path : FileName) (s : FileIpcServer)
    (es : List Event) : Prop where
  removes : collect serde i removed s (.task i .opened :: es) = [path]
  answers : ∃ response, collect serde i answered s (.task i .opened :: es) = [response]

/-! ## What a task still owes -/

theorem removed_of_directory {s s' : FileIpcServer} (h : s'.directory = s.directory) :
    removed s s' = [] := by
  simp [removed, h, AList.mem_keys]

theorem removed_erase {s s' : FileIpcServer} {path : FileName} (hp : path ∈ s.directory)
    (h : s'.directory = s.directory.erase path) : removed s s' = [path] := by
  have hpath : removed s s' = s.directory.keys.filter (· = path) := by
    apply List.filter_congr
    intro name hname
    rw [h, decide_eq_decide, AList.mem_erase, AList.mem_keys, not_and_or, not_not]
    exact or_iff_left (not_not.mpr hname)
  rw [hpath, List.filter_eq,
    List.count_eq_one_of_mem s.directory.keys_nodup (AList.mem_keys.mp hp)]
  rfl

theorem answered_of_responses {s s' : FileIpcServer} (h : s'.responses = s.responses) :
    answered s s' = [] := by
  simp [answered, h]

section steps

variable {serde : Serde} {s s' : FileIpcServer} {path : FileName}

/-- A step that changes neither the directory nor the responses. -/
theorem owes_of_same {pc pc' : TaskPc} (hdir : s'.directory = s.directory)
    (hresponses : s'.responses = s.responses) (hremove : pc.toRemove path = pc'.toRemove path)
    (hanswer : pc.toAnswer = pc'.toAnswer) :
    pc.toRemove path = removed s s' ++ pc'.toRemove path ∧
      pc.toAnswer = (answered s s').length + pc'.toAnswer := by
  rw [removed_of_directory hdir, answered_of_responses hresponses]
  exact ⟨hremove, by simpa using hanswer⟩

/-- What a step of a task does, it no longer owes.  The read has to find text. -/
theorem owes_stepTask (hserde : serde.Total) {pc pc' : TaskPc} {e : TaskEvent}
    (hok : e.fails = false) (hread : ∀ p, pc = .reading p → (s.readToString p).isSome = true)
    (h : s.stepTask serde path pc e = some (s', pc')) :
    pc.toRemove path = removed s s' ++ pc'.toRemove path ∧
      pc.toAnswer = (answered s s').length + pc'.toAnswer := by
  unfold stepTask at h
  split at h
  · obtain ⟨p, hp, hpair⟩ := Option.map_eq_some_iff.mp h
    cases hpair
    exact owes_of_same rfl rfl rfl rfl
  · cases hok
  · split at h
    · cases h
      exact owes_of_same rfl rfl rfl rfl
    · rename_i p hnone
      simp [hnone] at hread
  · cases hok
  · split at h
    · rename_i hp
      cases h
      rw [removed_erase hp rfl]
      simp [answered, TaskPc.toRemove, TaskPc.toAnswer]
    · cases h
  · cases hok
  · split at h <;> cases h <;> exact owes_of_same rfl rfl rfl rfl
  · cases h
    exact owes_of_same rfl rfl rfl rfl
  · cases hok
  · split at h <;> cases h
    exact owes_of_same rfl rfl rfl rfl
  · cases h
    exact owes_of_same rfl rfl rfl rfl
  · cases h
    exact owes_of_same rfl rfl rfl rfl
  · rename_i response
    obtain ⟨json, hjson⟩ := hserde response
    simp only [writeResponse, hjson] at h
    cases h
    simp [removed_of_directory, answered, TaskPc.toRemove, TaskPc.toAnswer]
  · cases hok
  · cases h
    exact owes_of_same rfl rfl rfl rfl
  · cases h

/-- A step of a task, with the law. -/
theorem owes_step (hserde : serde.Total) {i : Nat} {t : Task} {e : TaskEvent}
    (ht : s.tasks[i]? = some t) (hok : e.fails = false)
    (hread : ∀ p, t.pc = .reading p → (s.readToString p).isSome = true)
    (h : s.step serde (.task i e) = some s') :
    ∃ t', s'.tasks[i]? = some t' ∧ t'.path = t.path ∧
      t.pc.toRemove t.path = removed s s' ++ t'.pc.toRemove t.path ∧
      t.pc.toAnswer = (answered s s').length + t'.pc.toAnswer := by
  simp only [step, ht, Option.bind_some] at h
  obtain ⟨⟨s₁, pc'⟩, hs, rfl⟩ := Option.map_eq_some_iff.mp h
  have howes := owes_stepTask hserde hok hread hs
  refine ⟨{ t with pc := pc' }, ?_, rfl, howes⟩
  exact List.getElem?_set_self (List.getElem?_eq_some_iff.mp ht).1

/-- Whoever else moves leaves the task where it stands. -/
theorem step_other {i : Nat} {t : Task} {e : Event} (ht : s.tasks[i]? = some t)
    (he : e.isOf i = false) (h : s.step serde e = some s') : s'.tasks[i]? = some t := by
  have hlt : i < s.tasks.length := (List.getElem?_eq_some_iff.mp ht).1
  cases e with
  | task k te =>
    obtain ⟨t', s₁, pc', -, -, rfl⟩ := step_task_inv h
    have hne : k ≠ i := by simpa [Event.isOf] using he
    exact (List.getElem?_set_ne hne).trans ht
  | entry name =>
    simp only [step] at h
    split at h
    · split at h <;> cases h
      unfold processEntry
      split
      · split
        · exact (List.getElem?_append_left hlt).trans ht
        · exact ht
      · exact ht
    · cases h
  | place name content =>
    simp only [step] at h
    split at h <;> cases h
    exact ht
  | childExit k =>
    simp only [step] at h
    split at h <;> cases h
    exact ht
  | _ =>
    simp only [step] at h
    split at h <;> cases h
    exact ht

/-- Files that were put into the directory keep their contents. -/
theorem placements_step {e : Event} (h : s.step serde e = some s') :
    s.placements <+: s'.placements := by
  cases e with
  | task k te =>
    obtain ⟨t', s₁, pc', -, hmove, rfl⟩ := step_task_inv h
    generalize t'.pc = pc at hmove
    cases hmove <;> exact List.prefix_rfl
  | entry name =>
    simp only [step] at h
    split at h
    · split at h <;> cases h
      unfold processEntry
      split
      · split <;> exact List.prefix_rfl
      · exact List.prefix_rfl
    · cases h
  | place name content =>
    simp only [step] at h
    split at h <;> cases h
    exact List.prefix_append _ _
  | childExit k =>
    simp only [step] at h
    split at h <;> cases h
    exact List.prefix_rfl
  | _ =>
    simp only [step] at h
    split at h <;> cases h
    exact List.prefix_rfl

theorem readToString_step {e : Event} {p : Nat} {content : String}
    (h : s.step serde e = some s') (hp : s.readToString p = some content) :
    s'.readToString p = some content := by
  obtain ⟨bytes, hget, hutf8⟩ := Option.bind_eq_some_iff.mp hp
  obtain ⟨more, hmore⟩ := placements_step h
  unfold readToString
  rw [← hmore, List.getElem?_append_left (List.getElem?_eq_some_iff.mp hget).1, hget]
  exact hutf8

/-- The task has its file open, and what it has still to read is text. -/
structure Legible (s : FileIpcServer) (pc : TaskPc) : Prop where
  opened : pc ≠ .opening
  text : ∀ p, pc = .reading p → (s.readToString p).isSome = true

/-- A task that has opened its file opens and reads no other. -/
theorem Legible.of_task {i : Nat} {t t' : Task} {e : TaskEvent} (ht : s.tasks[i]? = some t)
    (hl : s.Legible t.pc) (h : s.step serde (.task i e) = some s')
    (ht' : s'.tasks[i]? = some t') : s'.Legible t'.pc := by
  obtain ⟨x, s₁, pc', hx, hmove, rfl⟩ := step_task_inv h
  obtain rfl : t = x := Option.some.inj (ht.symm.trans hx)
  have hget : some t' = some { t with pc := pc' } :=
    ht'.symm.trans (List.getElem?_set_self (List.getElem?_eq_some_iff.mp ht).1)
  cases hget
  have hopened := hl.opened
  revert hopened
  generalize t.pc = pc at hmove
  intro hopened
  cases hmove with
  | opened p hp => exact absurd rfl hopened
  | _ => exact ⟨by simp, by simp⟩

/-- What a task does in a run, and what it owes after it, is what it has owed before. -/
theorem owes_path (hserde : serde.Total) {i : Nat} {t : Task} {es : List Event}
    (hp : (machine serde).Path (fun _ e => Succeeds i e) s es s')
    (ht : s.tasks[i]? = some t) (hl : s.Legible t.pc) :
    ∃ t', s'.tasks[i]? = some t' ∧
      t.pc.toRemove t.path = collect serde i removed s es ++ t'.pc.toRemove t.path ∧
      t.pc.toAnswer = (collect serde i answered s es).length + t'.pc.toAnswer := by
  induction hp generalizing t with
  | nil s => exact ⟨t, ht, rfl, by simp [collect]⟩
  | @cons s u s' e es hok hstep tail ih =>
    have hu : s.step serde e = some u := hstep
    cases he : e.isOf i with
    | false =>
      have htext : u.Legible t.pc := by
        refine ⟨hl.opened, fun p hpc => ?_⟩
        obtain ⟨content, hcontent⟩ := Option.isSome_iff_exists.mp (hl.text p hpc)
        rw [readToString_step hu hcontent]
        rfl
      obtain ⟨t', ht', hremove, hanswer⟩ := ih (step_other ht he hu) htext
      exact ⟨t', ht', by simpa [collect, hu, he] using hremove,
        by simpa [collect, hu, he] using hanswer⟩
    | true =>
      obtain ⟨te, rfl⟩ : ∃ te, e = .task i te := by
        cases e <;> simp [Event.isOf] at he
        exact ⟨_, by rw [he]⟩
      obtain ⟨x, hx, hpath, hremove, hanswer⟩ := owes_step hserde ht (hok te rfl) hl.text hu
      obtain ⟨t', ht', hremove', hanswer'⟩ := ih hx (hl.of_task ht hu hx)
      refine ⟨t', ht', ?_, ?_⟩
      · rw [hremove, ← hpath, hremove']
        simp [collect, hu, he]
      · rw [hanswer, hanswer']
        simp [collect, hu, he, Nat.add_assoc]

end steps

/-! ## One call -/

/-- The state after the open. -/
theorem step_opened {serde : Serde} {s u : FileIpcServer} {i p : Nat} {path : FileName}
    (ht : s.tasks[i]? = some ⟨path, .opening⟩) (hp : s.directory.lookup path = some p)
    (h : s.step serde (.task i .opened) = some u) :
    u = { s with tasks := s.tasks.set i ⟨path, .reading p⟩ } := by
  simp only [step, ht, Option.bind_some, stepTask, hp, Option.map_some,
    Option.some.injEq] at h
  exact h.symm

/-- A call on a file with text consumes it. -/
theorem consumed_of_text {serde : Serde} (hserde : serde.Total) {s s' : FileIpcServer}
    {i p : Nat} {path : FileName} {es : List Event}
    (ht : s.tasks[i]? = some ⟨path, .opening⟩) (hp : s.directory.lookup path = some p)
    (htext : (s.readToString p).isSome = true) (hcall : Call serde i s es s') :
    Consumed serde i path s es := by
  obtain ⟨t', r, ht', hr⟩ := hcall.returned
  cases hcall.path with
  | @cons _ u _ _ _ hok hstep tail =>
    have hu : s.step serde (.task i .opened) = some u := hstep
    obtain rfl := step_opened ht hp hu
    have hx : (s.tasks.set i ⟨path, .reading p⟩)[i]? = some ⟨path, .reading p⟩ :=
      List.getElem?_set_self (List.getElem?_eq_some_iff.mp ht).1
    have hl : Legible { s with tasks := s.tasks.set i ⟨path, .reading p⟩ } (.reading p) := by
      refine ⟨by simp, fun q hq => ?_⟩
      cases hq
      exact htext
    obtain ⟨y, hy, hremove, hanswer⟩ := owes_path hserde tail hx hl
    obtain rfl : t' = y := Option.some.inj (ht'.symm.trans hy)
    rw [hr] at hremove hanswer
    constructor
    · simpa [collect, hu, Event.isOf, removed_of_directory, TaskPc.toRemove] using
        hremove.symm
    · apply List.length_eq_one_iff.mp
      simpa [collect, hu, Event.isOf, answered, TaskPc.toAnswer] using hanswer.symm

/-! A call can always come to its end, also when nobody else moves. -/

section returns

variable {serde : Serde} {s : FileIpcServer} {i : Nat} {path : FileName}

/-- The task can go on to its return. -/
def Returns (serde : Serde) (i : Nat) (s : FileIpcServer) : Prop :=
  ∃ es s', (machine serde).Path (fun _ e => Succeeds i e) s es s' ∧
    ∃ t r, s'.tasks[i]? = some t ∧ t.pc = .returned r

theorem returns_of_step {s₁ : FileIpcServer} {pc pc' : TaskPc} {e : TaskEvent}
    (ht : s.tasks[i]? = some ⟨path, pc⟩) (hok : e.fails = false)
    (hs : s.stepTask serde path pc e = some (s₁, pc'))
    (hrest : ∀ u, u.tasks[i]? = some ⟨path, pc'⟩ → u.directory = s₁.directory →
      Returns serde i u) : Returns serde i s := by
  have hstep : s.step serde (.task i e) =
      some { s₁ with tasks := s.tasks.set i ⟨path, pc'⟩ } := by
    simp only [step, ht, Option.bind_some, hs, Option.map_some]
  have hset : (s.tasks.set i ⟨path, pc'⟩)[i]? = some ⟨path, pc'⟩ :=
    List.getElem?_set_self (List.getElem?_eq_some_iff.mp ht).1
  obtain ⟨es, s', hp, hret⟩ := hrest { s₁ with tasks := s.tasks.set i ⟨path, pc'⟩ } hset rfl
  refine ⟨.task i e :: es, s', .cons ?_ hstep hp, hret⟩
  intro te he
  cases he
  exact hok

theorem returns_returned {r : Except Failure Unit}
    (ht : s.tasks[i]? = some ⟨path, .returned r⟩) : Returns serde i s :=
  ⟨[], s, .nil s, _, r, ht, rfl⟩

theorem returns_responding {response : Response}
    (ht : s.tasks[i]? = some ⟨path, .responding response⟩) : Returns serde i s := by
  cases hjson : serde.responseToString response with
  | error e =>
    refine returns_of_step (e := .written) ht rfl (by rw [stepTask, writeResponse, hjson]) ?_
    intro u hu _
    exact returns_returned hu
  | ok json =>
    refine returns_of_step (e := .written) ht rfl (by rw [stepTask, writeResponse, hjson]) ?_
    intro u hu _
    exact returns_returned hu

/-- The command may run into its timeout. -/
theorem returns_spawning {p : Nat} {request : Request}
    (ht : s.tasks[i]? = some ⟨path, .spawning p request⟩) : Returns serde i s := by
  refine returns_of_step (e := .spawned) ht rfl rfl fun u hu _ => ?_
  refine returns_of_step (e := .timedOut) hu rfl rfl fun v hv _ => ?_
  exact returns_responding hv

theorem returns_parsing {p : Nat} {content : String}
    (ht : s.tasks[i]? = some ⟨path, .parsing p content⟩) : Returns serde i s := by
  cases hparse : serde.requestFromStr content with
  | error e =>
    refine returns_of_step (e := .parse) ht rfl (by rw [stepTask, hparse]) fun u hu _ => ?_
    exact returns_responding hu
  | ok request =>
    refine returns_of_step (e := .parse) ht rfl (by rw [stepTask, hparse]) fun u hu _ => ?_
    exact returns_spawning hu

theorem returns_reading {p : Nat} (ht : s.tasks[i]? = some ⟨path, .reading p⟩)
    (hdir : path ∈ s.directory) : Returns serde i s := by
  cases hread : s.readToString p with
  | none =>
    refine returns_of_step (e := .read) ht rfl (by rw [stepTask, hread]) fun u hu _ => ?_
    exact returns_returned hu
  | some content =>
    refine returns_of_step (e := .read) ht rfl (by rw [stepTask, hread]) fun u hu hu' => ?_
    refine returns_of_step (e := .removed) hu rfl
      (by rw [stepTask, if_pos (by rw [hu']; exact hdir)]) fun v hv _ => ?_
    exact returns_parsing hv

end returns

theorem exists_call {serde : Serde} {s : FileIpcServer} {i p : Nat} {path : FileName}
    (ht : s.tasks[i]? = some ⟨path, .opening⟩) (hp : s.directory.lookup path = some p) :
    ∃ es s', Call serde i s es s' := by
  have hmem : path ∈ s.directory := AList.lookup_isSome.mp (by rw [hp]; rfl)
  have hstep : s.step serde (.task i .opened) =
      some { s with tasks := s.tasks.set i ⟨path, .reading p⟩ } := by
    simp only [step, ht, Option.bind_some, stepTask, hp, Option.map_some]
  have hset : (s.tasks.set i ⟨path, .reading p⟩)[i]? = some ⟨path, .reading p⟩ :=
    List.getElem?_set_self (List.getElem?_eq_some_iff.mp ht).1
  have hreturns : Returns serde i { s with tasks := s.tasks.set i ⟨path, .reading p⟩ } :=
    returns_reading hset hmem
  obtain ⟨es, s', hpath, hret⟩ := hreturns
  refine ⟨es, s', .cons ?_ hstep hpath, hret⟩
  intro te he
  cases he
  rfl

/-- The read of a content that is not text ends the call. -/
theorem not_consumed_of_not_text (serde : Serde) {s : FileIpcServer} {i p : Nat}
    {path : FileName} (ht : s.tasks[i]? = some ⟨path, .opening⟩)
    (hp : s.directory.lookup path = some p) (htext : s.readToString p = none) :
    ∃ s', Call serde i s [.task i .read] s' ∧ s'.directory = s.directory ∧
      s'.responses = s.responses ∧ ¬ Consumed serde i path s [.task i .read] := by
  have hlt := (List.getElem?_eq_some_iff.mp ht).1
  have hopen : s.step serde (.task i .opened) =
      some { s with tasks := s.tasks.set i ⟨path, .reading p⟩ } := by
    simp only [step, ht, Option.bind_some, stepTask, hp, Option.map_some]
  have hread : ({ s with tasks := s.tasks.set i ⟨path, .reading p⟩ } : FileIpcServer).step
      serde (.task i .read) =
      some { s with tasks := s.tasks.set i ⟨path, .returned (.error .read)⟩ } := by
    have hnone : ({ s with tasks := s.tasks.set i ⟨path, .reading p⟩ } :
        FileIpcServer).readToString p = none := htext
    simp only [step, List.getElem?_set_self hlt, Option.bind_some, stepTask, hnone,
      Option.map_some, List.set_set]
  refine ⟨_, ⟨.cons ?_ hopen (.cons ?_ hread (.nil _)), ?_⟩, rfl, rfl, ?_⟩
  · intro te he
    cases he
    rfl
  · intro te he
    cases he
    rfl
  · exact ⟨_, _, List.getElem?_set_self hlt, rfl⟩
  · intro hconsumed
    have hremoves := hconsumed.removes
    simp [collect, hopen, hread, removed_of_directory] at hremoves

/-- One call on a request file, of whatever content, comes to its end, and it has then
removed the file and written one response file, exactly if the content is UTF-8. -/
theorem consumed_iff {serde : Serde} (hserde : serde.Total) {s : FileIpcServer} {i p : Nat}
    {path : FileName} {content : List UInt8} (ht : s.tasks[i]? = some ⟨path, .opening⟩)
    (hp : s.directory.lookup path = some p) (hcontent : s.placements[p]? = some content) :
    ((∃ es s', Call serde i s es s') ∧
        ∀ es s', Call serde i s es s' → Consumed serde i path s es) ↔
      (String.fromUTF8? ⟨content.toArray⟩).isSome = true := by
  have hread : s.readToString p = String.fromUTF8? ⟨content.toArray⟩ := by
    rw [readToString, hcontent, Option.bind_some]
  rw [← hread]
  constructor
  · rintro ⟨-, hall⟩
    by_contra htext
    obtain ⟨s', hcall, -, -, hnot⟩ := not_consumed_of_not_text serde ht hp
      (by simpa using htext)
    exact hnot (hall _ s' hcall)
  · intro htext
    exact ⟨exists_call ht hp, fun es s' hcall => consumed_of_text hserde ht hp htext hcall⟩

/-- A client puts a file with the content into the directory, and the next poll spawns a
task for it. -/
theorem exists_polled (content : List UInt8) :
    ∃ s, (machine sampleSerde).Reachable s ∧ s.tasks[0]? = some ⟨sampleName, .opening⟩ ∧
      s.directory.lookup sampleName = some 0 ∧ s.placements[0]? = some content ∧
      s.responses = [] := by
  have hrun : (machine sampleSerde).run start
      [.place sampleName content, .readDir, .entry sampleName] =
      some { start with
        directory := AList.insert sampleName 0 ∅
        placements := [content]
        poll := .listing []
        permits := maxConcurrentJobs - 1
        tasks := [⟨sampleName, .opening⟩] } := by
    rfl
  exact ⟨_, ⟨start, _, rfl, StepMachine.path_of_run hrun⟩, rfl, rfl, rfl, rfl⟩

theorem consumed_iff_sample :
    ∃ s, (machine sampleSerde).Reachable s ∧ s.placements[0]? = some sampleContent ∧
      (∃ es s', Call sampleSerde 0 s es s') ∧
      ∀ es s', Call sampleSerde 0 s es s' → Consumed sampleSerde 0 sampleName s es := by
  obtain ⟨s, hreach, ht, hp, hcontent, -⟩ := exists_polled sampleContent
  have htotal : sampleSerde.Total := fun response => ⟨_, rfl⟩
  exact ⟨s, hreach, hcontent, (consumed_iff htotal ht hp hcontent).mpr (by decide +kernel)⟩

/-- The file that holds the one byte 255 is neither removed nor answered. -/
theorem invalid_utf8_not_consumed :
    ∃ s s', (machine sampleSerde).Reachable s ∧ s.placements[0]? = some [255] ∧
      Call sampleSerde 0 s [.task 0 .read] s' ∧ sampleName ∈ s'.directory ∧
      s'.responses = [] ∧ ¬ Consumed sampleSerde 0 sampleName s [.task 0 .read] := by
  obtain ⟨s, hreach, ht, hp, hcontent, hresponses⟩ := exists_polled [255]
  have htext : s.readToString 0 = none := by
    rw [readToString, hcontent, Option.bind_some]
    decide +kernel
  obtain ⟨s', hcall, hdir, hsame, hnot⟩ := not_consumed_of_not_text sampleSerde ht hp htext
  refine ⟨s, s', hreach, hcontent, hcall, ?_, hsame.trans hresponses, hnot⟩
  rw [hdir]
  exact AList.lookup_isSome.mp (by rw [hp]; rfl)

end FileIpcServer

end RemoteAgent
