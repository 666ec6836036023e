import RemoteAgent.CodeLib.WindowsPath
import RemoteAgent.FileIpc.Server

/-!
# Where a response goes

`write_response` joins the id of the response and `.json` to the response directory.
The id is that of the request, a string that the client chooses, or the file stem
when the file is no request.

* `responsePath` is the path that `write_response` builds and gives to
  `File::create`.
* `taskMachine` is one call of `process_single_request` on an open file with a given
  content, among anything that the server does besides.  `Answered` says what the
  call comes to: the response carries the id of the request in the file, or the file
  stem if there is none.
* A file stem has no separator and no colon, so it names an entry of the directory
  (`StaysIn.of_plain`).  The id of a request does so exactly if it spells its way back
  into the directory (`StaysIn`).
* `response_in_directory_iff` is the result, and `response_above_directory` a
  request that has its response written two levels up.
-/

namespace RemoteAgent

open CodeLib CodeLib.WindowsPath FileIpc

namespace FileIpc

/-- `RESPONSE_DIR`. -/
def responseDir : DriveDir where
  letter := 'C'
  tail := "\\Windows\\Temp\\VirimaAgent\\responses".toList
  isAlpha := by decide
  rooted := by decide
  closed := by decide

/-- The file name of a response. -/
def responseFile (id : String) : Path := id.toList ++ ".json".toList

/-- The path in `write_response`. -/
def responsePath (response : Response) : Path :=
  join responseDir.path (responseFile response.id)

/-- A name as a directory holds it: no separator and no colon. -/
def EntryName : Type :=
  { name : FileName // ∀ u ∈ name, u ≠ .char '\\' ∧ u ≠ .char '/' ∧ u ≠ .char ':' }

/-- The request in a file. -/
def Asks (serde : Serde) (bytes : List UInt8) (request : Request) : Prop :=
  ∃ content, String.fromUTF8? ⟨bytes.toArray⟩ = some content ∧
    serde.requestFromStr content = .ok request

/-- The id of a request leads to an entry of the response directory.  With a prefix
the id has to name such an entry by itself.  With a root it has to go down to the
directory from the root of its drive.  Otherwise it has to come down through the
names of the directory that it has gone up. -/
def StaysIn {ν : Type} (env : Env ν) (id : String) : Prop :=
  if (parsePrefix (responseFile id)).isSome then
    (env.locate (responseFile id)).IsChildOf (env.locate responseDir.path)
  else if hasRoot id.toList then
    (resolve [] (folders id.toList)).map env.key = responseDir.names.map env.key
  else
    (reduce (folders id.toList)).2.map env.key =
      (responseDir.names.rtake (reduce (folders id.toList)).1).map env.key

/-! ## One call -/

/-- `process_single_request` on the open file `p`.  A step of it meets the server in
some state in which the content of the file is what it is. -/
def taskMachine (serde : Serde) (name : FileName) (p : Nat) (bytes : List UInt8) :
    StepMachine TaskPc (FileIpcServer × TaskEvent) where
  Init pc := pc = .reading p
  step pc := fun (s, e) =>
    if s.placements[p]? = some bytes then (s.stepTask serde name pc e).map Prod.snd
    else none

/-- What a call has come to, at each place in it. -/
def Answered (serde : Serde) (name : FileName) (p : Nat) (bytes : List UInt8) :
    TaskPc → Prop
  | .opening => False
  | .reading q => q = p
  | .removing _ content | .parsing _ content =>
    String.fromUTF8? ⟨bytes.toArray⟩ = some content
  | .spawning _ request | .waiting _ request _ => Asks serde bytes request
  | .responding response =>
    (∃ request, Asks serde bytes request ∧ response.id = request.id) ∨
      response.id = name.requestId
  | .returned _ | .dropped => True

theorem Answered.step {serde : Serde} {name : FileName} {p : Nat} {bytes : List UInt8}
    {pc pc' : TaskPc} {l : FileIpcServer × TaskEvent}
    (hi : Answered serde name p bytes pc)
    (h : (taskMachine serde name p bytes).step pc l = some pc') :
    Answered serde name p bytes pc' := by
  obtain ⟨s, e⟩ := l
  simp only [taskMachine] at h
  split at h
  · rename_i hfile
    obtain ⟨r, hr, rfl⟩ := Option.map_eq_some_iff.mp h
    unfold FileIpcServer.stepTask at hr
    split at hr
    · exact hi.elim
    · cases hr
      trivial
    · rename_i q
      -- what is read is the content of the open file
      obtain rfl : q = p := hi
      simp only [FileIpcServer.readToString, hfile, Option.bind_some] at hr
      split at hr
      · rename_i content hcontent
        cases hr
        exact hcontent
      · cases hr
        trivial
    · cases hr
      trivial
    · split at hr
      · cases hr
        exact hi
      · cases hr
    · cases hr
      exact hi
    · rename_i content
      split at hr
      · cases hr
        exact Or.inr rfl
      · rename_i request hrequest
        cases hr
        exact ⟨content, hi, hrequest⟩
    · cases hr
      exact hi
    · cases hr
      exact Or.inl ⟨_, hi, rfl⟩
    · split at hr
      · cases hr
        exact Or.inl ⟨_, hi, rfl⟩
      · cases hr
    · cases hr
      exact Or.inl ⟨_, hi, rfl⟩
    · cases hr
      exact Or.inl ⟨_, hi, rfl⟩
    · simp only [FileIpcServer.writeResponse] at hr
      split at hr <;> (cases hr; trivial)
    · cases hr
      trivial
    · cases hr
      trivial
    · cases hr
  · cases h

theorem answered_of_reach {serde : Serde} {name : FileName} {p : Nat}
    {bytes : List UInt8} {pc : TaskPc}
    (h : (taskMachine serde name p bytes).Reachable pc) :
    Answered serde name p bytes pc :=
  h.invariant (fun _ hinit => by rw [hinit]; exact rfl) fun _ _ _ hi _ hstep => hi.step hstep

/-- Every request gets a response under its id, whatever happens to its command. -/
theorem reach_response {serde : Serde} (name : FileName) (p : Nat) {bytes : List UInt8}
    {request : Request} (h : Asks serde bytes request) :
    ∃ response, (taskMachine serde name p bytes).Reachable (.responding response) ∧
      response.id = request.id := by
  obtain ⟨content, hcontent, hrequest⟩ := h
  let s : FileIpcServer :=
    { FileIpcServer.start with placements := List.replicate p [] ++ [bytes] }
  have hfile : s.placements[p]? = some bytes := by simp [s]
  refine ⟨failure request.id ("Failed to spawn process: " ++ ""), ⟨_,
    [(s, .read), (s, .removeFailed), (s, .parse), (s, .spawnFailed "")], rfl,
    StepMachine.path_of_run ?_⟩, rfl⟩
  simp [StepMachine.run, taskMachine, hfile, FileIpcServer.stepTask,
    FileIpcServer.readToString, hcontent, hrequest]

/-- A step that adds a response adds it at the path of the response that the call has
come to. -/
theorem responses_of_stepTask {serde : Serde} {s s' : FileIpcServer} {name : FileName}
    {pc pc' : TaskPc} {e : TaskEvent} (h : s.stepTask serde name pc e = some (s', pc')) :
    s'.responses = s.responses ∨ ∃ response file json, pc = .responding response ∧
      s'.responses = s.responses ++ [(file, json)] ∧
      join responseDir.path file.toList = responsePath response := by
  unfold FileIpcServer.stepTask at h
  split at h
  case h_13 =>
    rename_i response
    simp only [FileIpcServer.writeResponse] at h
    split at h <;> cases h
    · exact Or.inl rfl
    · refine Or.inr ⟨response, _, _, rfl, rfl, ?_⟩
      rw [String.toList_append]
      rfl
  all_goals
    try split at h
  all_goals
    first
    | (cases h; exact Or.inl rfl)
    | cases h
    | (obtain ⟨_, _, hpair⟩ := Option.map_eq_some_iff.mp h
       cases hpair
       exact Or.inl rfl)

/-! ## Names and ids -/

/-- The stem is a part of the name. -/
theorem fileStem_subset {name stem : FileName} (h : name.fileStem = some stem) :
    stem ⊆ name := by
  simp only [FileName.fileStem, FileName.splitAtDot] at h
  split at h
  · rename_i before after hsplit
    cases h
    split at hsplit
    · cases hsplit
    · rename_i dot rest hrest
      split at hsplit
      · cases hsplit
        exact List.Subset.refl _
      · cases hsplit
        intro u hu
        have hmem : u ∈ name.reverse.dropWhile (· ≠ OsUnit.char '.') := by
          rw [hrest]
          exact List.mem_cons_of_mem _ (List.mem_reverse.mp hu)
        exact List.mem_reverse.mp ((List.dropWhile_sublist _).subset hmem)
  · rename_i after hsplit
    subst h
    split at hsplit
    · cases hsplit
      exact List.Subset.refl _
    · split at hsplit <;> cases hsplit

theorem toStr_mem {name : FileName} {text : String} (h : name.toStr = some text) {c : Char}
    (hc : c ∈ text.toList) : OsUnit.char c ∈ name := by
  obtain ⟨cs, hcs, rfl⟩ := Option.map_eq_some_iff.mp h
  rw [String.toList_ofList] at hc
  clear h
  induction name generalizing cs with
  | nil => simp_all
  | cons u name ih =>
    simp only [List.mapM_cons, Option.bind_eq_bind, Option.bind_eq_some_iff] at hcs
    obtain ⟨c₀, hc₀, cs₀, hcs₀, heq⟩ := hcs
    cases heq
    rcases List.mem_cons.mp hc with rfl | hmem
    · cases u with
      | char c =>
        cases hc₀
        exact List.mem_cons_self
      | surrogate u => cases hc₀
    · exact List.mem_cons_of_mem _ (ih cs₀ hcs₀ hmem)

theorem plain_of_all {text : List Char} (h : text.all (fun c => !isSep c && c ≠ ':') = true) :
    ∀ c ∈ text, isSep c = false ∧ c ≠ ':' := by
  intro c hc
  simpa using List.all_eq_true.mp h c hc

theorem unknown_plain : ∀ c ∈ "unknown".toList, isSep c = false ∧ c ≠ ':' :=
  plain_of_all (by decide)

theorem json_plain : ∀ c ∈ ".json".toList, isSep c = false ∧ c ≠ ':' :=
  plain_of_all (by decide)

/-- The id that an error response goes to has no separator and no colon. -/
theorem requestId_plain (name : EntryName) :
    ∀ c ∈ (FileName.requestId name.1).toList, isSep c = false ∧ c ≠ ':' := by
  intro c hc
  cases hid : (FileName.fileStem name.1).bind FileName.toStr with
  | none =>
    rw [FileName.requestId, hid] at hc
    exact unknown_plain c hc
  | some text =>
    rw [FileName.requestId, hid] at hc
    obtain ⟨stem, hstem, htext⟩ := Option.bind_eq_some_iff.mp hid
    have hunit := name.2 (.char c) (fileStem_subset hstem (toStr_mem htext hc))
    simpa [isSep, and_assoc] using hunit

/-- An id without separators and colons names an entry of the directory. -/
theorem StaysIn.of_plain {ν : Type} (env : Env ν) {id : String}
    (h : ∀ c ∈ id.toList, isSep c = false ∧ c ≠ ':') : StaysIn env id := by
  have hfile : ∀ c ∈ responseFile id, isSep c = false ∧ c ≠ ':' := by
    intro c hc
    rcases List.mem_append.mp hc with hid | hext
    · exact h c hid
    · exact json_plain c hext
  have hroot : hasRoot id.toList = false := by
    cases hid : id.toList with
    | nil => rfl
    | cons a t => exact (h a (by simp [hid])).1
  have hfolders : folders id.toList = [] := by
    rw [folders, split, List.splitOnP_eq_singleton fun c hc => (h c hc).1]
    rfl
  simp [StaysIn, parsePrefix_eq_none hfile, hroot, hfolders, reduce]

theorem responsePath_isChildOf_iff {ν : Type} (env : Env ν) (response : Response) :
    (env.locate (responsePath response)).IsChildOf (env.locate responseDir.path) ↔
      StaysIn env response.id := by
  have hext : ∀ c ∈ ".json".toList, isSep c = false := fun c hc => (json_plain c hc).1
  obtain ⟨file, hsplit⟩ := split_append response.id.toList _ hext
  have hlong : 2 < (file ++ ".json".toList).length := by simp
  simp only [responsePath, StaysIn]
  cases hpre : parsePrefix (responseFile response.id) with
  | some pre => rw [responseDir.join_prefixed (by rw [hpre]; rfl), if_pos (by rfl)]
  | none =>
    have happ := hasRoot_append response.id.toList _ hext
    rw [if_neg (by simp)]
    cases hroot : hasRoot response.id.toList with
    | true =>
      rw [responseDir.locate_join_rooted env hpre (happ.trans hroot), responseFile, hsplit,
        resolve_concat _ _ hlong, responseDir.locate_path, env.below_isChildOf_iff,
        if_pos rfl]
    | false =>
      rw [responseDir.locate_join_relative env hpre (happ.trans hroot), responseFile, hsplit,
        resolve_concat _ _ hlong, responseDir.locate_path, env.below_isChildOf_iff,
        resolve_map_eq_iff, if_neg (by simp)]

/-! ## The response directory -/

/-- The path that a call of `process_single_request` creates is an entry of the
response directory, for whatever happens in the call, if and only if the id of the
request in the file, should there be one, leads there. -/
theorem response_in_directory_iff {ν : Type} (env : Env ν) (serde : Serde)
    (name : EntryName) (p : Nat) (bytes : List UInt8) :
    (∀ response, (taskMachine serde name.1 p bytes).Reachable (.responding response) →
      (env.locate (responsePath response)).IsChildOf (env.locate responseDir.path)) ↔
    ∀ request, Asks serde bytes request → StaysIn env request.id := by
  constructor
  · intro h request hasks
    obtain ⟨response, hreach, hid⟩ := reach_response name.1 p hasks
    rw [← hid]
    exact (responsePath_isChildOf_iff env response).mp (h response hreach)
  · intro h response hreach
    rw [responsePath_isChildOf_iff]
    rcases answered_of_reach hreach with ⟨request, hasks, hid⟩ | hid
    · rw [hid]
      exact h request hasks
    · rw [hid]
      exact .of_plain env (requestId_plain name)

/-- A system with one drive, which looks names up without regard to case. -/
def sampleEnv : Env Name where
  key := fun name => name.map Char.toUpper
  drive := fun letter => ⟨[letter, ':'], []⟩
  share := fun server share => ⟨server ++ '\\' :: share, []⟩
  device := fun names => ⟨"\\\\.\\".toList, names⟩
  object := fun names => ⟨"\\\\?\\".toList, names⟩
  currentDrive := 'C'
  currentDir := fun _ => []

def climbingJson : String :=
  "\x7b\"id\":\"..\\\\..\\\\evil\",\"command\":\"whoami\"\x7d"

def climbingContent : List UInt8 := climbingJson.toUTF8.data.toList

/-- A request whose id goes up two levels. -/
def climbingRequest : Request := { FileIpcServer.sampleRequest with id := "..\\..\\evil" }

/-- `serde_json` on this request, and on responses. -/
def climbingSerde : Serde where
  requestFromStr := fun text =>
    if text = climbingJson then .ok climbingRequest
    else .error "expected value at line 1 column 1"
  responseToString := FileIpcServer.sampleSerde.responseToString

/-- The command runs and exits, and its response goes to `C:\Windows\Temp\evil.json`. -/
theorem response_above_directory :
    ∃ response, (taskMachine climbingSerde FileIpcServer.sampleName 0
        climbingContent).Reachable (.responding response) ∧
      sampleEnv.locate (responsePath response) =
        sampleEnv.locate "C:\\Windows\\Temp\\evil.json".toList ∧
      ¬ (sampleEnv.locate (responsePath response)).IsChildOf
        (sampleEnv.locate responseDir.path) := by
  let placed : FileIpcServer := { FileIpcServer.start with placements := [climbingContent] }
  refine ⟨completed climbingRequest (some 0) "nt authority\\system" "", ⟨_,
    [(placed, .read), (placed, .removeFailed), (placed, .parse), (placed, .spawned),
      ({ placed with children := [false] }, .exited (some 0) "nt authority\\system" "")],
    rfl, StepMachine.path_of_run ?_⟩, ?_, ?_⟩
  · decide +kernel
  · decide +kernel
  · decide +kernel

end FileIpc

end RemoteAgent
