import Mathlib.Data.List.TakeWhile
import RemoteAgent.CodeLib.Utf16
import RemoteAgent.ProcessLauncher.Environment

/-!
# What Windows reads

`do_launch` hands the texts of a RUN payload to `CreateProcessW` as pointers to UTF-16, and
`CreateProcessW` finds their ends by itself: a text ends at the first NUL, and a variable has
its name up to the first `=` behind the first character of its entry.  The strings come from
the client, and nobody looks into them.

* `readText_text`: of a text Windows sees what stands in front of its first NUL.
* `readVariable_eq_some_iff`: which entry a variable comes back from, and which variables do.
* `createProcessArgs_asks_iff`: what `CreateProcessW` reads is what was asked for exactly if
  no string contains a NUL, there is a variable in the environment if there is one, and every
  name has a character and no `=` behind it.
-/

namespace RemoteAgent.ProcessLauncher

open CodeLib

/-! ## Texts -/

theorem encodeWide_eq (s : String) : encodeWide s = Utf16.encode s.toList := rfl

/-- The units in front of the first NUL. -/
def untilNul (units : List UInt16) : Option (List UInt16) :=
  if 0 ∈ units then some (units.takeWhile (· ≠ 0)) else none

/-- A text as Windows reads it. -/
def readText (units : List UInt16) : Option String :=
  ((untilNul units).bind Utf16.decode).map String.ofList

theorem zero_mem_encode_iff {cs : List Char} : 0 ∈ Utf16.encode cs ↔ '\x00' ∈ cs := by
  have h := zero_mem_encodeWide_iff (String.ofList cs)
  rw [encodeWide_eq, String.toList_ofList] at h
  exact h

theorem encode_takeWhile (cs : List Char) :
    (Utf16.encode cs ++ [0]).takeWhile (· ≠ 0) = Utf16.encode (cs.takeWhile (· ≠ '\x00')) := by
  induction cs with
  | nil => rfl
  | cons c cs ih =>
    by_cases hc : c = '\x00'
    · subst hc
      rfl
    · have hfree : ∀ u ∈ Utf16.encodeChar c, decide (u ≠ 0) = true := by
        intro u hu
        rw [decide_eq_true_iff]
        rintro rfl
        have hmem : 0 ∈ Utf16.encode [c] := List.mem_append_left _ hu
        exact hc (List.mem_singleton.mp (zero_mem_encode_iff.mp hmem)).symm
      rw [Utf16.encode_cons, List.append_assoc, List.takeWhile_append_of_pos hfree, ih,
        List.takeWhile_cons_of_pos (by simp [hc]), Utf16.encode_cons]

/-- Of a text Windows sees what stands in front of its first NUL. -/
theorem readText_text (s : String) :
    readText (encodeWide s ++ [0]) = some (String.ofList (s.toList.takeWhile (· ≠ '\x00'))) := by
  have hends : (0 : UInt16) ∈ encodeWide s ++ [0] :=
    List.mem_append_right _ (List.mem_singleton_self 0)
  rw [readText, untilNul, if_pos hends, encodeWide_eq, encode_takeWhile, Option.bind_some,
    Utf16.decode_encode, Option.map_some]

example : readText (encodeWide "dir\x00 /s" ++ [0]) = some "dir" := by decide

theorem readText_text_eq_iff (s : String) :
    readText (encodeWide s ++ [0]) = some s ↔ '\x00' ∉ s.toList := by
  rw [readText_text, Option.some_inj]
  constructor
  · intro h hnul
    rw [← h, String.toList_ofList] at hnul
    simpa using List.mem_takeWhile_imp hnul
  · intro h
    have hall : s.toList.takeWhile (· ≠ '\x00') = s.toList := by
      rw [List.takeWhile_eq_self_iff]
      intro c hc
      rw [decide_eq_true_iff]
      rintro rfl
      exact h hc
    rw [hall, String.ofList_toList]

/-! ## Variables -/

/-- The name and the value of an entry of the environment block. -/
def readVariable (entry : List UInt16) : Option (String × String) :=
  match Utf16.decode entry with
  | some (c :: cs) =>
    match cs.dropWhile (· ≠ '=') with
    | _ :: value => some (String.ofList (c :: cs.takeWhile (· ≠ '=')), String.ofList value)
    | [] => none
  | _ => none

/-- The string is the name of a variable: a character, and no `=` behind it. -/
def IsName (name : String) : Prop := name.toList ≠ [] ∧ '=' ∉ name.toList.tail

instance (name : String) : Decidable (IsName name) := inferInstanceAs (Decidable (_ ∧ _))

theorem envEntry_eq (kv : String × String) :
    envEntry kv = Utf16.encode (kv.1.toList ++ '=' :: kv.2.toList) := by
  rw [envEntry, encodeWide_eq, String.toList_append, String.toList_append, List.append_assoc]
  rfl

theorem readVariable_envEntry {kv : String × String} (h : IsName kv.1) :
    readVariable (envEntry kv) = some kv := by
  obtain ⟨hne, htail⟩ := h
  obtain ⟨c, name, hname⟩ := List.exists_cons_of_ne_nil hne
  rw [hname, List.tail_cons] at htail
  have hfree : ∀ x ∈ name, decide (x ≠ '=') = true := by
    intro x hx
    rw [decide_eq_true_iff]
    rintro rfl
    exact htail hx
  have hdecode : Utf16.decode (envEntry kv) = some (c :: (name ++ '=' :: kv.2.toList)) := by
    rw [envEntry_eq, Utf16.decode_encode, hname, List.cons_append]
  rw [readVariable, hdecode]
  have hdrop : (name ++ '=' :: kv.2.toList).dropWhile (· ≠ '=') = '=' :: kv.2.toList := by
    rw [List.dropWhile_append_of_pos hfree, List.dropWhile_cons_of_neg (by simp)]
  have htake : (name ++ '=' :: kv.2.toList).takeWhile (· ≠ '=') = name := by
    rw [List.takeWhile_append_of_pos hfree, List.takeWhile_cons_of_neg (by simp), List.append_nil]
  simp only [hdrop, htake]
  rw [← hname, String.ofList_toList, String.ofList_toList]

theorem readVariable_eq_some_iff {entry : List UInt16} {kv : String × String} :
    readVariable entry = some kv ↔ entry = envEntry kv ∧ IsName kv.1 := by
  constructor
  · intro h
    unfold readVariable at h
    split at h
    · rename_i c cs hdecode
      split at h
      · rename_i x value hdrop
        cases h
        have hx : x = '=' := by
          have hnot := List.head?_dropWhile_not (fun y => decide (y ≠ '=')) cs
          rw [hdrop] at hnot
          simpa using hnot
        subst hx
        have hsplit : cs.takeWhile (· ≠ '=') ++ '=' :: value = cs := by
          rw [← hdrop, List.takeWhile_append_dropWhile]
        refine ⟨?_, ?_, ?_⟩
        · rw [envEntry_eq, String.toList_ofList, String.toList_ofList, List.cons_append, hsplit]
          exact (Utf16.decode_eq_some_iff.mp hdecode).symm
        · simp
        · rw [String.toList_ofList, List.tail_cons]
          intro hmem
          simpa using List.mem_takeWhile_imp hmem
      · cases h
    · cases h
  · rintro ⟨rfl, hname⟩
    exact readVariable_envEntry hname

/-! ## What was asked for -/

/-- An environment block as Windows reads it: it ends with two NULs, and its entries are the
variables, in some order. -/
structure Provides (block : List UInt16) (env : List (String × String)) : Prop where
  terminated : [0, 0] <:+ block
  entries : ((MultiString.unpack 0 block).map readVariable).Perm (env.map some)

theorem buildEnvBlock_provides_iff {env : List (String × String)} :
    Provides (buildEnvBlock env) env ↔
      env ≠ [] ∧ ∀ kv ∈ env, IsName kv.1 ∧ '\x00' ∉ kv.1.toList ∧ '\x00' ∉ kv.2.toList := by
  constructor
  · rintro ⟨hends, hperm⟩
    have hread : ∀ kv ∈ env, IsName kv.1 ∧ '\x00' ∉ kv.1.toList ∧ '\x00' ∉ kv.2.toList := by
      intro kv hkv
      have hmem := hperm.mem_iff.mpr (List.mem_map_of_mem hkv)
      obtain ⟨entry, hentry, heq⟩ := List.mem_map.mp hmem
      obtain ⟨rfl, hname⟩ := readVariable_eq_some_iff.mp heq
      have hfree := MultiString.free_of_mem_unpack hentry
      rw [zero_mem_envEntry_iff, not_or] at hfree
      exact ⟨hname, hfree⟩
    rw [buildEnvBlock_eq_pack, MultiString.pack_ends_iff, ne_eq, List.map_eq_nil_iff] at hends
    exact ⟨hends, hread⟩
  · rintro ⟨hne, hall⟩
    have hunpack : MultiString.unpack 0 (buildEnvBlock env) = env.map envEntry := by
      rw [buildEnvBlock_eq_pack]
      refine MultiString.unpack_pack ?_
      rw [List.forall_mem_map]
      intro kv hkv
      refine ⟨envEntry_ne_nil kv, ?_⟩
      rw [zero_mem_envEntry_iff, not_or]
      exact (hall kv hkv).2
    refine ⟨?_, ?_⟩
    · rw [buildEnvBlock_eq_pack, MultiString.pack_ends_iff, ne_eq, List.map_eq_nil_iff]
      exact hne
    · have hread : (env.map envEntry).map readVariable = env.map some := by
        rw [List.map_map]
        exact List.map_congr_left fun kv hkv => readVariable_envEntry (hall kv hkv).1
      rw [hunpack, hread]

/-- What `CreateProcessW` reads is what was asked for. -/
structure Asks (args : CreateProcessArgs) (commandLine : String)
    (workingDirectory : Option String) (environment : Option (List (String × String))) :
    Prop where
  commandLine : readText args.commandLine = some commandLine
  workingDirectory : Option.Rel (fun units wd => readText units = some wd)
    args.workingDirectory workingDirectory
  environment : Option.Rel Provides args.environment environment

theorem rel_map_iff {α β : Type} {r : β → α → Prop} {f : α → β} {o : Option α} :
    Option.Rel r (o.map f) o ↔ ∀ a ∈ o, r (f a) a := by
  cases o with
  | none => exact iff_of_true .none (by simp)
  | some a =>
    constructor
    · rintro (h | _) a' ⟨⟩
      assumption
    · exact fun h => .some (h a rfl)

/-- Windows runs what was asked for.  For every command, working directory and environment,
in whatever order the map yields its variables: what `CreateProcessW` reads of what `do_launch`
gives it is the command, the directory and the variables exactly if none of the strings
contains a NUL, the environment has a variable if it is given, and every key is a name. -/
theorem createProcessArgs_asks_iff (commandLine : String) (workingDirectory : Option String)
    (environment : Option (List (String × String))) (pipes : ChildPipeHandles) :
    Asks (createProcessArgs commandLine workingDirectory environment pipes) commandLine
        workingDirectory environment ↔
      '\x00' ∉ commandLine.toList ∧ (∀ wd ∈ workingDirectory, '\x00' ∉ wd.toList) ∧
        ∀ env ∈ environment, env ≠ [] ∧
          ∀ kv ∈ env, IsName kv.1 ∧ '\x00' ∉ kv.1.toList ∧ '\x00' ∉ kv.2.toList := by
  have hwd : Option.Rel (fun units wd => readText units = some wd)
      (workingDirectory.map fun wd => encodeWide wd ++ [0]) workingDirectory ↔
      ∀ wd ∈ workingDirectory, '\x00' ∉ wd.toList :=
    rel_map_iff.trans (forall₂_congr fun wd _ => readText_text_eq_iff wd)
  have henv : Option.Rel Provides (environment.map buildEnvBlock) environment ↔
      ∀ env ∈ environment, env ≠ [] ∧
        ∀ kv ∈ env, IsName kv.1 ∧ '\x00' ∉ kv.1.toList ∧ '\x00' ∉ kv.2.toList :=
    rel_map_iff.trans (forall₂_congr fun env _ => buildEnvBlock_provides_iff)
  rw [← readText_text_eq_iff commandLine, ← hwd, ← henv]
  exact ⟨fun ⟨h₁, h₂, h₃⟩ => ⟨h₁, h₂, h₃⟩, fun ⟨h₁, h₂, h₃⟩ => ⟨h₁, h₂, h₃⟩⟩

end RemoteAgent.ProcessLauncher
