import Mathlib.Data.List.Chain
import Mathlib.Logic.Relation
import RemoteAgent.JobManager.Handle

/-!
# The ledger of jobs

What the job manager is for, without maps, locks and threads.  The ledger has
one entry for each job that was ever created: the job is active in some state,
or it has ended in some state at some time.  A step of the ledger opens an entry
in `Created`, or lets one job enter a state that the table allows, at some time.

* `Entry` cannot be wrong about completion times: a time belongs to an entry
  exactly when its state is terminal.
* `Entry.read` is what the fields of a handle say.  `transition_state` writes the
  completion time before it writes the state, so the time of a handle whose state
  is not terminal is not part of the entry yet.
* `Ledger.ended_of_steps` and `Ledger.states_isChain` are the two laws: an entry
  that has ended is final, and the states of a job follow the table.

The calls of the manager, taken lock by lock, move the ledger by such steps, and
so do the tasks of one job, whose transitions are one step each.
-/

namespace RemoteAgent.JobManager

/-- What is known of a job. -/
inductive Entry where
  | active (state : JobState) (h : state.isTerminal = false)
  | ended (state : JobState) (h : state.isTerminal = true) (completedAt : SystemTime)

namespace Entry

def state : Entry → JobState
  | .active st _ => st
  | .ended st _ _ => st

/-- The entry of a job that enters `new` at the time `now`. -/
def enter (new : JobState) (now : SystemTime) : Entry :=
  if h : new.isTerminal = true then .ended new h now
  else .active new (by simpa using h)

/-- The entry of a new job. -/
def created : Entry := .active .created rfl

/-- What a state and a completion time say.  A terminal state without a time says
nothing. -/
def read (st : JobState) (t : Option SystemTime) : Option Entry :=
  if h : st.isTerminal = true then t.map (.ended st h)
  else some (.active st (by simpa using h))

@[simp] theorem state_enter (new : JobState) (now : SystemTime) :
    (enter new now).state = new := by
  unfold enter
  split <;> rfl

theorem read_of_active {st : JobState} (h : st.isTerminal = false)
    (t : Option SystemTime) : read st t = some (.active st h) :=
  dif_neg (by simp [h])

theorem read_of_ended {st : JobState} (h : st.isTerminal = true) (t : SystemTime) :
    read st (some t) = some (.ended st h t) :=
  dif_pos h

theorem read_enter {new : JobState} {t : Option SystemTime} (now : SystemTime)
    (h : new.isTerminal = true → t = some now) : read new t = some (enter new now) := by
  unfold read enter
  split
  · rename_i hterm
    rw [h hterm]
    rfl
  · rfl

/-- What has ended is read off its state and its time. -/
theorem read_eq_ended {st st' : JobState} {t : Option SystemTime}
    {hst : st'.isTerminal = true} {now : SystemTime}
    (h : read st t = some (.ended st' hst now)) : (st, t) = (st', some now) := by
  unfold read at h
  split at h
  · obtain ⟨now', rfl, hended⟩ := Option.map_eq_some_iff.mp h
    cases hended
    rfl
  · cases h

/-- How the entry of one job may change: not at all, or it is opened, or the job
enters a state as the table allows. -/
inductive Move : Option Entry → Option Entry → Prop where
  | stay (x : Option Entry) : Move x x
  | create : Move none (some created)
  | commit {st new : JobState} (hst : st.isTerminal = false)
      (hcan : st.canTransitionTo new = true) (now : SystemTime) :
      Move (some (.active st hst)) (some (enter new now))

/-- An entry that has ended is final. -/
theorem Move.ended {st : JobState} {hst : st.isTerminal = true} {t : SystemTime}
    {y : Option Entry} (h : Move (some (.ended st hst t)) y) :
    y = some (.ended st hst t) := by
  cases h
  rfl

/-- An entry that is open stays open, and its state stays or follows the table. -/
theorem Move.state {e : Entry} {y : Option Entry} (h : Move (some e) y) :
    ∃ e', y = some e' ∧
      (e'.state = e.state ∨ e.state.canTransitionTo e'.state = true) := by
  cases h with
  | stay => exact ⟨e, rfl, .inl rfl⟩
  | commit hst hcan now => exact ⟨_, rfl, .inr (by rw [state_enter]; exact hcan)⟩

/-- An entry is opened in `Created`. -/
theorem Move.opened {e : Entry} (h : Move none (some e)) : e = created := by
  cases h
  rfl

/-- A job that may enter `new` does so when the fields of its handle are written. -/
theorem Move.of_read {st new : JobState} {t t' : Option SystemTime}
    (hcan : st.canTransitionTo new = true) (ht : t'.isSome = new.isTerminal) :
    Move (read st t) (read new t') := by
  have hst := JobState.isTerminal_eq_false_of_canTransitionTo hcan
  rw [read_of_active hst]
  cases t' with
  | none =>
    rw [read_enter 0 (fun h => by simp [h] at ht)]
    exact .commit hst hcan 0
  | some now =>
    rw [read_enter now (fun _ => rfl)]
    exact .commit hst hcan now

end Entry

/-! ## Handles -/

namespace JobHandle

/-- What a handle says about its job. -/
def entry (a : JobHandle) : Option Entry := Entry.read a.state a.completedAt

/-- The critical section of `transition_state` moves the entry of its job once,
or not at all. -/
theorem commit_entry (a : JobHandle) (new : JobState) (now : SystemTime) :
    Entry.Move a.entry (a.commit new now).entry := by
  cases hcan : a.state.canTransitionTo new with
  | false =>
    rw [commit_of_not_can hcan]
    exact .stay _
  | true =>
    have hst := JobState.isTerminal_eq_false_of_canTransitionTo hcan
    rw [commit_of_can hcan, entry, entry, Entry.read_of_active hst,
      Entry.read_enter now (fun hterm => if_pos hterm)]
    exact .commit hst hcan now

theorem Update.entry {a a' : JobHandle} (h : Update a a') :
    Entry.Move a.entry a'.entry := by
  cases h with
  | same | cancel | touch now => exact .stay _
  | commit new now => exact a.commit_entry new now

end JobHandle

/-! ## Ledgers -/

/-- The entries of all jobs, each under a name that is never used again. -/
def Ledger (ρ : Type) := ρ → Option Entry

namespace Ledger

variable {ρ : Type} {L L' : Ledger ρ}

/-- A step moves the entry of one job. -/
def Step (L L' : Ledger ρ) : Prop :=
  ∃ h, Entry.Move (L h) (L' h) ∧ ∀ k, k ≠ h → L' k = L k

theorem Step.move (h : Step L L') (k : ρ) : Entry.Move (L k) (L' k) := by
  obtain ⟨r, hmove, hother⟩ := h
  by_cases hk : k = r
  · rw [hk]
    exact hmove
  · rw [hother k hk]
    exact .stay _

/-- The state of a job in the ledger. -/
def stateOf (k : ρ) (L : Ledger ρ) : Option JobState := (L k).map Entry.state

/-- An entry that has ended is final. -/
theorem ended_of_steps (h : Relation.ReflTransGen Step L L') {k : ρ} {st : JobState}
    {hst : st.isTerminal = true} {t : SystemTime} (hk : L k = some (.ended st hst t)) :
    L' k = some (.ended st hst t) := by
  induction h with
  | refl => exact hk
  | tail _ hstep ih =>
    have hmove := hstep.move k
    rw [ih] at hmove
    exact hmove.ended

/-- The states of a job in a sequence of ledgers stay or follow the table. -/
theorem states_isChain {Ls : List (Ledger ρ)} (hchain : List.IsChain Step (L :: Ls))
    {k : ρ} {e : Entry} (hk : L k = some e) :
    ∃ rest, (L :: Ls).filterMap (stateOf k) = e.state :: rest ∧
      List.IsChain (fun old new => new = old ∨ JobState.canTransitionTo old new = true)
        (e.state :: rest) := by
  induction Ls generalizing L e with
  | nil =>
    refine ⟨[], ?_, List.isChain_singleton _⟩
    simp [stateOf, hk]
  | cons L₁ Ls ih =>
    obtain ⟨hstep, htail⟩ := List.isChain_cons_cons.mp hchain
    have hmove := hstep.move k
    rw [hk] at hmove
    obtain ⟨e', hk', hstate⟩ := hmove.state
    obtain ⟨rest, hrest, hchain'⟩ := ih htail hk'
    refine ⟨e'.state :: rest, ?_, List.isChain_cons_cons.mpr ⟨hstate, hchain'⟩⟩
    rw [List.filterMap_cons_some (b := e.state) (by simp [stateOf, hk]), hrest]

/-- A job that is not in the ledger at first comes into it in `Created`. -/
theorem states_isChain_of_none {Ls : List (Ledger ρ)}
    (hchain : List.IsChain Step (L :: Ls)) {k : ρ} (hk : L k = none) :
    (L :: Ls).filterMap (stateOf k) = [] ∨
      ∃ rest, (L :: Ls).filterMap (stateOf k) = .created :: rest ∧
        List.IsChain (fun old new => new = old ∨ JobState.canTransitionTo old new = true)
          (.created :: rest) := by
  induction Ls generalizing L with
  | nil => exact .inl (by simp [stateOf, hk])
  | cons L₁ Ls ih =>
    obtain ⟨hstep, htail⟩ := List.isChain_cons_cons.mp hchain
    rw [List.filterMap_cons_none (by simp [stateOf, hk])]
    cases hk' : L₁ k with
    | none => exact ih htail hk'
    | some e =>
      have hmove := hstep.move k
      rw [hk, hk'] at hmove
      obtain rfl := hmove.opened
      exact .inr (states_isChain htail hk')

end Ledger

end RemoteAgent.JobManager
