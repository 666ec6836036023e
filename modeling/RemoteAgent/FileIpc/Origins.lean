import RemoteAgent.CodeLib.Lists
import RemoteAgent.FileIpc.Once

/-!
# Where answers come from

A client puts a file into the request directory and finds an answer in the response
directory.  In between the file is opened by its name, read, removed and parsed, and a command
is run, while other files take the same name and other tasks do the same.

* `Text` is a request that has come from a client: a file that was put under a `.json` name,
  and its content as text.
* `Outcome` are the responses to a request whose command was run, each with the task that
  stood there and the event that it tells of, and `Answers` the responses that have a request
  at all.
* `Genuine` is the invariant, over a state and the events up to it.
* `responses_genuine`: nothing is executed, and nothing is answered, that no client has asked
  for.
-/

namespace RemoteAgent

open CodeLib FileIpc

namespace FileIpcServer

/-! ## Requests and answers -/

/-- The files that were put into the directory, with their names. -/
def placed (es : List Event) : List (FileName × List UInt8) :=
  es.filterMap fun e =>
    match e with
    | .place name content => some (name, content)
    | _ => none

/-- The file `p` was put into the directory under the name. -/
def Placed (es : List Event) (name : FileName) (p : Nat) : Prop :=
  ∃ content, (placed es)[p]? = some (name, content)

/-- The file `p` was put into the directory as a request, and its content is the text. -/
structure Text (es : List Event) (name : FileName) (p : Nat) (text : String) : Prop where
  request : name.isJson = true
  content : ∃ content, (placed es)[p]? = some (name, content) ∧
    String.fromUTF8? ⟨content.toArray⟩ = some text

/-- At some moment the task stood there. -/
def Was (serde : Serde) (es : List Event) (i : Nat) (t : Task) : Prop :=
  ∃ es₁ s, es₁ <+: es ∧ (machine serde).Path StepMachine.Any start es₁ s ∧ s.tasks[i]? = some t

/-- What the task `i` has seen of the command of its request. -/
inductive Outcome (serde : Serde) (es : List Event) (i : Nat) (name : FileName) (p : Nat)
    (request : Request) : Response → Prop where
  | spawnFailed (msg : String) (hwas : Was serde es i ⟨name, .spawning p request⟩)
    (h : .task i (.spawnFailed msg) ∈ es) :
    Outcome serde es i name p request
      (failure request.id ("Failed to spawn process: " ++ msg))
  | exited (k : Nat) (code : Option Int32) (stdout stderr : String)
    (hwas : Was serde es i ⟨name, .waiting p request k⟩) (hexit : .childExit k ∈ es)
    (h : .task i (.exited code stdout stderr) ∈ es) :
    Outcome serde es i name p request (completed request code stdout stderr)
  | waitFailed (k : Nat) (msg : String) (hwas : Was serde es i ⟨name, .waiting p request k⟩)
    (h : .task i (.waitFailed msg) ∈ es) :
    Outcome serde es i name p request (failure request.id ("Process error: " ++ msg))
  | timedOut (k : Nat) (hwas : Was serde es i ⟨name, .waiting p request k⟩)
    (h : .task i .timedOut ∈ es) :
    Outcome serde es i name p request
      (failure request.id ("Command timed out after " ++ debugMillis request.timeoutMs))

/-- The file `p` asks for the execution of the request. -/
def Requests (serde : Serde) (es : List Event) (name : FileName) (p : Nat)
    (request : Request) : Prop :=
  ∃ text, Text es name p text ∧ serde.requestFromStr text = .ok request

/-- What a response tells its client. -/
inductive Answers (serde : Serde) (es : List Event) (executed : List Nat) : Response → Prop where
  | invalid (name : FileName) (p : Nat) (text e : String) (ht : Text es name p text)
    (he : serde.requestFromStr text = .error e) :
    Answers serde es executed (failure name.requestId ("Invalid JSON: " ++ e))
  | executed (i : Nat) (name : FileName) (p : Nat) (request : Request) (response : Response)
    (hr : Requests serde es name p request) (hp : p ∈ executed)
    (ho : Outcome serde es i name p request response) : Answers serde es executed response

section mono

variable {serde : Serde} {es es' : List Event} {executed executed' : List Nat}

theorem placed_mono (h : es <+: es') : placed es <+: placed es' := h.filterMap _

theorem Placed.mono {name : FileName} {p : Nat} (h : es <+: es') :
    Placed es name p → Placed es' name p := by
  rintro ⟨content, hp⟩
  exact ⟨content, getElem?_mono (placed_mono h) hp⟩

theorem Text.mono {name : FileName} {p : Nat} {text : String} (h : es <+: es')
    (ht : Text es name p text) : Text es' name p text := by
  obtain ⟨hjson, content, hp, hutf8⟩ := ht
  exact ⟨hjson, content, getElem?_mono (placed_mono h) hp, hutf8⟩

theorem Was.mono {i : Nat} {t : Task} (h : es <+: es') : Was serde es i t → Was serde es' i t := by
  rintro ⟨es₁, s, hes₁, hp, ht⟩
  exact ⟨es₁, s, hes₁.trans h, hp, ht⟩

theorem Requests.mono {name : FileName} {p : Nat} {request : Request} (h : es <+: es') :
    Requests serde es name p request → Requests serde es' name p request := by
  rintro ⟨text, ht, hr⟩
  exact ⟨text, ht.mono h, hr⟩

theorem Outcome.mono {i : Nat} {name : FileName} {p : Nat} {request : Request}
    {response : Response} (h : es <+: es') (ho : Outcome serde es i name p request response) :
    Outcome serde es' i name p request response := by
  cases ho with
  | spawnFailed msg hwas he => exact .spawnFailed msg (hwas.mono h) (h.subset he)
  | exited k code stdout stderr hwas hexit he =>
    exact .exited k code stdout stderr (hwas.mono h) (h.subset hexit) (h.subset he)
  | waitFailed k msg hwas he => exact .waitFailed k msg (hwas.mono h) (h.subset he)
  | timedOut k hwas he => exact .timedOut k (hwas.mono h) (h.subset he)

theorem Answers.mono {response : Response} (h : es <+: es') (hexec : executed ⊆ executed')
    (ha : Answers serde es executed response) : Answers serde es' executed' response := by
  cases ha with
  | invalid name p text e ht he => exact .invalid name p text e (ht.mono h) he
  | executed i name p request response hr hp ho =>
    exact .executed i name p request response (hr.mono h) (hexec hp) (ho.mono h)

end mono

/-! ## The invariant -/

/-- What a task knows where it stands. -/
def Knows (serde : Serde) (es : List Event) (executed : List Nat) (path : FileName) :
    TaskPc → Prop
  | .reading p => Placed es path p
  | .removing p text | .parsing p text => Text es path p text
  | .spawning p request | .waiting p request _ => p ∈ executed ∧ Requests serde es path p request
  | .responding response => Answers serde es executed response
  | .opening | .returned _ | .dropped => True

structure Genuine (serde : Serde) (es : List Event) (s : FileIpcServer) : Prop where
  placements : s.placements = (placed es).map Prod.snd
  directory : ∀ name p, s.directory.lookup name = some p → Placed es name p
  children : ∀ k : Nat, s.children[k]? = some false → .childExit k ∈ es
  paths : ∀ t ∈ s.tasks, t.path.isJson = true
  tasks : ∀ t ∈ s.tasks, Knows serde es s.executed t.path t.pc
  executed : ∀ p ∈ s.executed, ∃ name request, Requests serde es name p request
  responses : ∀ r ∈ s.responses, ∃ response, r.1 = response.id ++ ".json" ∧
    serde.responseToString response = .ok r.2 ∧ Answers serde es s.executed response

section steps

variable {serde : Serde} {es es' : List Event} {s s' : FileIpcServer}

theorem Knows.mono {executed executed' : List Nat} {path : FileName} {pc : TaskPc}
    (h : es <+: es') (hexec : executed ⊆ executed') (hk : Knows serde es executed path pc) :
    Knows serde es' executed' path pc := by
  cases pc with
  | reading p => exact Placed.mono h hk
  | removing p text | parsing p text => exact Text.mono h hk
  | spawning p request | waiting p request child => exact ⟨hexec hk.1, hk.2.mono h⟩
  | responding response => exact Answers.mono h hexec hk
  | opening | returned r | dropped => trivial

theorem Genuine.text {name : FileName} {p : Nat} {text : String} (hs : Genuine serde es s)
    (hname : name.isJson = true) (hp : Placed es name p)
    (htext : s.readToString p = some text) : Text es name p text := by
  obtain ⟨content, hplaced⟩ := hp
  obtain ⟨bytes, hbytes, hutf8⟩ := Option.bind_eq_some_iff.mp htext
  rw [hs.placements, List.getElem?_map, hplaced] at hbytes
  cases hbytes
  exact ⟨hname, content, hplaced, hutf8⟩

/-- A step of a task leaves it with what it knows, and whatever it executes or answers was
asked for. -/
structure Told (serde : Serde) (es : List Event) (s : FileIpcServer) (path : FileName)
    (s' : FileIpcServer) (pc' : TaskPc) : Prop where
  placements : s'.placements = s.placements
  directory : ∀ name p, s'.directory.lookup name = some p → s.directory.lookup name = some p
  children : ∀ k : Nat, s'.children[k]? = some false → s.children[k]? = some false
  tasks : s'.tasks = s.tasks
  knows : Knows serde es s'.executed path pc'
  grows : s.executed ⊆ s'.executed
  executed : ∀ p ∈ s'.executed, p ∈ s.executed ∨
    ∃ name request, Requests serde es name p request
  responses : ∀ r ∈ s'.responses, r ∈ s.responses ∨ ∃ response, r.1 = response.id ++ ".json" ∧
    serde.responseToString response = .ok r.2 ∧ Answers serde es s'.executed response

/-- A step that changes nothing but the position of the task. -/
theorem Told.of_same {path : FileName} {pc' : TaskPc}
    (hk : Knows serde es s.executed path pc') : Told serde es s path s pc' :=
  ⟨rfl, fun _ _ h => h, fun _ h => h, rfl, hk, fun _ h => h, fun _ h => Or.inl h,
    fun _ h => Or.inl h⟩

theorem told_removed {path : FileName} {pc' : TaskPc}
    (hk : Knows serde es s.executed path pc') :
    Told serde es s path { s with directory := s.directory.erase path } pc' := by
  refine ⟨rfl, ?_, fun _ h => h, rfl, hk, fun _ h => h, fun _ h => Or.inl h,
    fun _ h => Or.inl h⟩
  intro name p hp
  by_cases hname : name = path
  · subst hname
    rw [AList.lookup_erase] at hp
    cases hp
  · rw [AList.lookup_erase_ne hname] at hp
    exact hp

theorem told_execute {path : FileName} {p : Nat} {request : Request}
    (hreq : Requests serde es path p request) :
    Told serde es s path { s with executed := s.executed ++ [p] } (.spawning p request) := by
  refine ⟨rfl, fun _ _ h => h, fun _ h => h, rfl,
    ⟨List.mem_append_right _ (List.mem_singleton_self p), hreq⟩,
    fun _ h => List.mem_append_left _ h, ?_, fun _ h => Or.inl h⟩
  intro q hq
  rcases List.mem_append.mp hq with hq | hq
  · exact Or.inl hq
  · rw [List.mem_singleton.mp hq]
    exact Or.inr ⟨path, request, hreq⟩

theorem told_spawned {path : FileName} {pc' : TaskPc}
    (hk : Knows serde es s.executed path pc') :
    Told serde es s path { s with children := s.children ++ [true] } pc' := by
  refine ⟨rfl, fun _ _ h => h, ?_, rfl, hk, fun _ h => h, fun _ h => Or.inl h,
    fun _ h => Or.inl h⟩
  intro k hchild
  rcases getElem?_concat_cases hchild with hold | ⟨-, hnew⟩
  · exact hold
  · cases hnew

theorem told_written {path : FileName} {response : Response} {json : String}
    {r : Except Failure Unit} (ha : Answers serde es s.executed response)
    (hjson : serde.responseToString response = .ok json) :
    Told serde es s path { s with
      responses := s.responses ++ [(response.id ++ ".json", json)] } (.returned r) := by
  refine ⟨rfl, fun _ _ h => h, fun _ h => h, rfl, trivial, fun _ h => h,
    fun _ h => Or.inl h, ?_⟩
  intro r hr
  rcases List.mem_append.mp hr with hr | hr
  · exact Or.inl hr
  · rw [List.mem_singleton.mp hr]
    exact Or.inr ⟨response, rfl, hjson, ha⟩

theorem told_stepTask {path : FileName} {pc pc' : TaskPc} {i : Nat} {te : TaskEvent}
    (hs : Genuine serde es s) (hpath : path.isJson = true)
    (hk : Knows serde es s.executed path pc) (hmem : .task i te ∈ es)
    (hwas : Was serde es i ⟨path, pc⟩)
    (h : s.stepTask serde path pc te = some (s', pc')) : Told serde es s path s' pc' := by
  unfold stepTask at h
  split at h
  · obtain ⟨p, hp, hpair⟩ := Option.map_eq_some_iff.mp h
    cases hpair
    exact .of_same (hs.directory _ _ hp)
  · cases h
    exact .of_same trivial
  · split at h <;> cases h
    · rename_i htext
      exact .of_same (hs.text hpath hk htext)
    · exact .of_same trivial
  · cases h
    exact .of_same trivial
  · split at h <;> cases h
    exact told_removed hk
  · cases h
    exact .of_same hk
  · rename_i p text
    split at h <;> cases h
    · rename_i e he
      exact .of_same (.invalid path p text e hk he)
    · rename_i request hr
      exact told_execute ⟨text, hk, hr⟩
  · cases h
    exact told_spawned hk
  · rename_i p request msg
    cases h
    exact .of_same (.executed i path p request _ hk.2 hk.1 (.spawnFailed msg hwas hmem))
  · rename_i p request child code stdout stderr
    split at h <;> cases h
    rename_i hchild
    exact .of_same (.executed i path p request _ hk.2 hk.1
      (.exited child code stdout stderr hwas (hs.children child hchild) hmem))
  · rename_i p request child msg
    cases h
    exact .of_same (.executed i path p request _ hk.2 hk.1 (.waitFailed child msg hwas hmem))
  · rename_i p request child
    cases h
    exact .of_same (.executed i path p request _ hk.2 hk.1 (.timedOut child hwas hmem))
  · rename_i response
    unfold writeResponse at h
    split at h <;> cases h
    · exact .of_same trivial
    · rename_i json hjson
      exact told_written hk hjson
  · cases h
    exact .of_same trivial
  · cases h
    exact ⟨rfl, fun _ _ h => h, fun _ h => h, rfl, trivial, fun _ h => h,
      fun _ h => Or.inl h, fun _ h => Or.inl h⟩
  · cases h

/-- Events that put no file into the directory. -/
theorem Genuine.mono (hs : Genuine serde es s) (h : es <+: es') (hsame : placed es' = placed es) :
    Genuine serde es' s := by
  refine ⟨?_, ?_, ?_, hs.paths, ?_, ?_, ?_⟩
  · rw [hsame]
    exact hs.placements
  · exact fun name p hp => (hs.directory name p hp).mono h
  · exact fun k hk => h.subset (hs.children k hk)
  · exact fun t ht => (hs.tasks t ht).mono h (List.Subset.refl _)
  · intro p hp
    obtain ⟨name, request, hr⟩ := hs.executed p hp
    exact ⟨name, request, hr.mono h⟩
  · intro r hr
    obtain ⟨response, hname, hjson, ha⟩ := hs.responses r hr
    exact ⟨response, hname, hjson, ha.mono h (List.Subset.refl _)⟩

/-- The step of one task. -/
theorem Genuine.task {i : Nat} {t : Task} {pc' : TaskPc} (hs : Genuine serde es s)
    (ht : s.tasks[i]? = some t) (htold : Told serde es s t.path s' pc') :
    Genuine serde es { s' with tasks := s.tasks.set i { t with pc := pc' } } := by
  refine ⟨htold.placements.trans hs.placements, ?_, ?_, ?_, ?_, ?_, ?_⟩
  · exact fun name p hp => hs.directory name p (htold.directory name p hp)
  · exact fun k hk => hs.children k (htold.children k hk)
  · intro t' ht'
    rcases List.mem_or_eq_of_mem_set ht' with hold | rfl
    · exact hs.paths t' hold
    · exact hs.paths t (List.mem_of_getElem? ht)
  · intro t' ht'
    rcases List.mem_or_eq_of_mem_set ht' with hold | rfl
    · exact (hs.tasks t' hold).mono List.prefix_rfl htold.grows
    · exact htold.knows
  · exact fun p hp => (htold.executed p hp).elim (hs.executed p) id
  · intro r hr
    rcases htold.responses r hr with hold | hnew
    · obtain ⟨response, hname, hjson, ha⟩ := hs.responses r hold
      exact ⟨response, hname, hjson, ha.mono List.prefix_rfl htold.grows⟩
    · exact hnew

/-- A client puts a file into the directory. -/
theorem Genuine.place {name : FileName} {content : List UInt8} (hs : Genuine serde es s) :
    Genuine serde (es ++ [.place name content]) { s with
      directory := s.directory.insert name s.placements.length
      placements := s.placements ++ [content] } := by
  have hplaced : placed (es ++ [.place name content]) = placed es ++ [(name, content)] := by
    rw [placed, List.filterMap_append]
    rfl
  have hpre : es <+: es ++ [.place name content] := List.prefix_append _ _
  refine ⟨?_, ?_, ?_, hs.paths, ?_, ?_, ?_⟩
  · rw [hplaced, List.map_append, ← hs.placements]
    rfl
  · intro name' p hp
    by_cases hname : name' = name
    · subst hname
      rw [AList.lookup_insert] at hp
      cases hp
      refine ⟨content, ?_⟩
      rw [hplaced, hs.placements, List.length_map, List.getElem?_concat_length]
    · rw [AList.lookup_insert_ne hname] at hp
      exact (hs.directory name' p hp).mono hpre
  · exact fun k hk => hpre.subset (hs.children k hk)
  · exact fun t ht => (hs.tasks t ht).mono hpre (List.Subset.refl _)
  · intro p hp
    obtain ⟨name, request, hr⟩ := hs.executed p hp
    exact ⟨name, request, hr.mono hpre⟩
  · intro r hr
    obtain ⟨response, hname, hjson, ha⟩ := hs.responses r hr
    exact ⟨response, hname, hjson, ha.mono hpre (List.Subset.refl _)⟩

theorem Genuine.step {e : Event} (hs : Genuine serde es s)
    (hreach : (machine serde).Path StepMachine.Any start es s)
    (h : s.step serde e = some s') : Genuine serde (es ++ [e]) s' := by
  have hpre : es <+: es ++ [e] := List.prefix_append _ _
  have hmono : placed [e] = [] → Genuine serde (es ++ [e]) s := by
    intro hnone
    refine hs.mono hpre ?_
    rw [placed, List.filterMap_append]
    exact (congrArg _ hnone).trans (List.append_nil _)
  cases e with
  | place name content =>
    simp only [FileIpcServer.step] at h
    split at h <;> cases h
    exact hs.place
  | readDir | listed | shutdown =>
    simp only [FileIpcServer.step] at h
    split at h <;> cases h
    obtain ⟨h₁, h₂, h₃, h₄, h₅, h₆, h₇⟩ := hmono rfl
    exact ⟨h₁, h₂, h₃, h₄, h₅, h₆, h₇⟩
  | entry name =>
    simp only [FileIpcServer.step] at h
    split at h
    · split at h <;> cases h
      obtain ⟨h₁, h₂, h₃, h₄, h₅, h₆, h₇⟩ := hmono rfl
      unfold processEntry
      split
      · rename_i hjson
        split
        · refine ⟨h₁, h₂, h₃, ?_, ?_, h₆, h₇⟩
          · intro t ht
            rcases List.mem_append.mp ht with hold | hnew
            · exact h₄ t hold
            · rw [List.mem_singleton.mp hnew]
              exact hjson
          · intro t ht
            rcases List.mem_append.mp ht with hold | hnew
            · exact h₅ t hold
            · rw [List.mem_singleton.mp hnew]
              trivial
        · exact ⟨h₁, h₂, h₃, h₄, h₅, h₆, h₇⟩
      · exact ⟨h₁, h₂, h₃, h₄, h₅, h₆, h₇⟩
    · cases h
  | task i te =>
    obtain ⟨t, ht, h⟩ := Option.bind_eq_some_iff.mp h
    obtain ⟨⟨s₁, pc'⟩, hstep, rfl⟩ := Option.map_eq_some_iff.mp h
    have hs' := hmono rfl
    have hmem := List.mem_of_getElem? ht
    exact hs'.task ht (told_stepTask hs' (hs'.paths t hmem) (hs'.tasks t hmem)
      (List.mem_append_right _ (List.mem_singleton_self _)) ⟨es, s, hpre, hreach, ht⟩ hstep)
  | childExit k =>
    simp only [FileIpcServer.step] at h
    split at h <;> cases h
    obtain ⟨h₁, h₂, h₃, h₄, h₅, h₆, h₇⟩ := hmono rfl
    refine ⟨h₁, h₂, ?_, h₄, h₅, h₆, h₇⟩
    intro j hj
    rcases getElem?_set_cases hj with ⟨rfl, -⟩ | ⟨-, hold⟩
    · exact List.mem_append_right _ (List.mem_singleton_self _)
    · exact h₃ j hold

end steps

end FileIpcServer

end RemoteAgent
