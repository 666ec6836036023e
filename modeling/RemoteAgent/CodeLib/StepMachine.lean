import Mathlib.Data.List.Chain
import Mathlib.Logic.Relation

/-!
# Step machines

A machine is a set of initial states and one function: what a labelled step
does to a state.  The label names who moves and carries everything that the
environment decides in that step (a clock value, the result of a system call,
the outcome of a race), so a list of labels fixes a run.

* `Path` is a run whose every step meets a condition on the state before the
  step and on its label.  With the trivial condition it is any run.
* `Reach` is the set of states such runs come to.
* `run` is the executable form of a path, and `runIf` that of a path with a
  condition.  A concrete list of labels can be evaluated by them, and
  `path_of_run`, `path_of_runIf` and `reach_of_runIf` turn the result into a
  path or a state reached.
* `Path.invariant` and `Reach.invariant` are the induction over a run, made
  once.  `Reach.invariant_of` is the same rule on top of an invariant that is
  already proved.
* `Path.meets_or_breaks` finds the step at which a run breaks a condition, and
  `Path.meets_of_states` reads off its states that there is none.
* `Path.forall_states_iff` and `Path.forall_states_iff_path` turn a condition that
  decides in every step whether a property stays into one that decides it for runs.
  `Path.iff_not_of_stays` does so for a property that stays once it has come about, and
  looks at the end of the run only.
* `Path.refines` is the rule for a view of the states that every step moves by
  an abstract step, and `Path.isChain_states` the same over all the states that
  the run leads through.

Nothing here knows what the machines are about.
-/

namespace CodeLib

/-- Initial states, and the effect of one labelled step.  A step that is not
enabled is `none`. -/
structure StepMachine (σ ι : Type) where
  Init : σ → Prop
  step : σ → ι → Option σ

namespace StepMachine

variable {σ ι : Type} (M : StepMachine σ ι)

/-- Take the steps of a list of labels one after another. -/
def run : σ → List ι → Option σ
  | s, [] => some s
  | s, l :: ls => (M.step s l).bind fun u => run u ls

/-- The same, stopping at a step that does not meet `C`. -/
def runIf (C : σ → ι → Prop) [∀ s l, Decidable (C s l)] : σ → List ι → Option σ
  | s, [] => some s
  | s, l :: ls => if C s l then (M.step s l).bind fun u => runIf C u ls else none

/-- The states that a list of labels leads through, the first one included. -/
def states : σ → List ι → List σ
  | s, [] => [s]
  | s, l :: ls =>
    s :: match M.step s l with
      | some u => states u ls
      | none => []

theorem mem_states_self (s : σ) (ls : List ι) : s ∈ M.states s ls := by
  cases ls with
  | nil => exact List.mem_singleton_self s
  | cons l ls => exact List.mem_cons_self

/-- A run from one state to another in which every step meets `C`. -/
inductive Path (C : σ → ι → Prop) : σ → List ι → σ → Prop where
  | nil (s : σ) : Path C s [] s
  | cons {s u t : σ} {l : ι} {ls : List ι}
      (hc : C s l) (hstep : M.step s l = some u) (tail : Path C u ls t) :
      Path C s (l :: ls) t

/-- The condition that every step meets. -/
def Any : σ → ι → Prop := fun _ _ => True

/-- States that a run with every step meeting `C` comes to. -/
def Reach (C : σ → ι → Prop) (s : σ) : Prop :=
  ∃ s₀ ls, M.Init s₀ ∧ M.Path C s₀ ls s

/-- States that any run comes to. -/
def Reachable (s : σ) : Prop := M.Reach Any s

variable {M} {C D : σ → ι → Prop} {s t u : σ} {l : ι} {ls ls' : List ι}

/-! ## Joining and splitting runs -/

theorem Path.append (h : M.Path C s ls u) (h' : M.Path C u ls' t) :
    M.Path C s (ls ++ ls') t := by
  induction h with
  | nil => exact h'
  | cons hc hstep _ ih => exact .cons hc hstep (ih h')

theorem Path.mono (hCD : ∀ s l, C s l → D s l) (h : M.Path C s ls t) : M.Path D s ls t := by
  induction h with
  | nil s => exact .nil s
  | cons hc hstep _ ih => exact .cons (hCD _ _ hc) hstep ih

theorem path_cons_iff (hstep : M.step s l = some u) :
    M.Path C s (l :: ls) t ↔ C s l ∧ M.Path C u ls t := by
  constructor
  · rintro (_ | ⟨hc, hstep', htail⟩)
    obtain rfl : u = _ := Option.some.inj (hstep.symm.trans hstep')
    exact ⟨hc, htail⟩
  · rintro ⟨hc, htail⟩
    exact .cons hc hstep htail

/-- A run over a list that is cut in two passes through a state at the cut. -/
theorem Path.split (h : M.Path C s (ls ++ ls') t) :
    ∃ u, M.Path C s ls u ∧ M.Path C u ls' t := by
  induction ls generalizing s with
  | nil => exact ⟨s, .nil s, h⟩
  | cons l ls ih =>
    cases h with
    | cons hc hstep tail =>
      obtain ⟨u, hu, hu'⟩ := ih tail
      exact ⟨u, .cons hc hstep hu, hu'⟩

/-- A run meets one more condition, or there is a step of it that does not. -/
theorem Path.meets_or_breaks (h : M.Path C s ls t) (D : σ → ι → Prop) :
    M.Path (fun s l => C s l ∧ D s l) s ls t ∨
      ∃ u l v ls₁ ls₂, M.Path C s ls₁ u ∧ C u l ∧ ¬ D u l ∧ M.step u l = some v ∧
        M.Path C v ls₂ t := by
  induction h with
  | nil s => exact Or.inl (.nil s)
  | @cons s u t l ls hc hstep tail ih =>
    by_cases hd : D s l
    · rcases ih with hall | ⟨w, l', v, ls₁, ls₂, hpre, hmeets, hnot, hbreak, hpost⟩
      · exact Or.inl (.cons ⟨hc, hd⟩ hstep hall)
      · exact Or.inr ⟨w, l', v, l :: ls₁, ls₂, .cons hc hstep hpre, hmeets, hnot, hbreak,
          hpost⟩
    · exact Or.inr ⟨s, l, u, [], ls, .nil s, hc, hd, hstep, tail⟩

theorem Reach.path (h : M.Reach C s) (hp : M.Path C s ls t) : M.Reach C t := by
  obtain ⟨s₀, ls₀, h0, hp₀⟩ := h
  exact ⟨s₀, ls₀ ++ ls, h0, hp₀.append hp⟩

theorem Reach.mono (hCD : ∀ s l, C s l → D s l) (h : M.Reach C s) : M.Reach D s := by
  obtain ⟨s₀, ls, h0, hp⟩ := h
  exact ⟨s₀, ls, h0, hp.mono hCD⟩

theorem Reach.step (h : M.Reach C s) (hc : C s l)
    (hstep : M.step s l = some t) : M.Reach C t :=
  h.path (.cons hc hstep (.nil t))

/-! ## The executable form -/

theorem path_of_run (h : M.run s ls = some t) : M.Path Any s ls t := by
  induction ls generalizing s with
  | nil =>
    obtain rfl : s = t := by simpa [run] using h
    exact .nil s
  | cons l ls ih =>
    simp only [run, Option.bind_eq_some_iff] at h
    obtain ⟨u, hu, hrun⟩ := h
    exact .cons trivial hu (ih hrun)

theorem path_of_runIf [∀ s l, Decidable (C s l)] (h : M.runIf C s ls = some t) :
    M.Path C s ls t := by
  induction ls generalizing s with
  | nil =>
    obtain rfl : s = t := by simpa [runIf] using h
    exact .nil s
  | cons l ls ih =>
    simp only [runIf] at h
    split at h
    · rename_i hc
      rw [Option.bind_eq_some_iff] at h
      obtain ⟨u, hu, hrun⟩ := h
      exact .cons hc hu (ih hrun)
    · exact absurd h (by simp)

theorem Path.run_eq (h : M.Path C s ls t) : M.run s ls = some t := by
  induction h with
  | nil => rfl
  | cons _ hstep _ ih => simp only [run, hstep, Option.bind_some, ih]

/-- The labels fix the run. -/
theorem Path.unique (h : M.Path C s ls t) (h' : M.Path D s ls u) : t = u :=
  Option.some.inj (h.run_eq.symm.trans h'.run_eq)

instance (s : σ) (l : ι) : Decidable (Any s l) := isTrue trivial

/-- A concrete list of labels that runs to a state with a decidable property
gives a state with that property that the machine reaches. -/
theorem reach_of_runIf (M : StepMachine σ ι) (C : σ → ι → Prop)
    [∀ s l, Decidable (C s l)] {s : σ} (h0 : M.Init s) (ls : List ι) (p : σ → Bool)
    (h : (M.runIf C s ls).any p = true) : ∃ t, M.Reach C t ∧ p t = true := by
  cases hrun : M.runIf C s ls with
  | none => simp [hrun] at h
  | some t =>
    have hp : p t = true := by simpa [hrun] using h
    exact ⟨t, ⟨s, ls, h0, path_of_runIf hrun⟩, hp⟩

/-! ## Induction over runs -/

/-- What every step keeps, a run keeps. -/
theorem Path.invariant {I : σ → Prop}
    (hkeep : ∀ s l u, I s → C s l → M.step s l = some u → I u)
    (h : M.Path C s ls t) (hs : I s) : I t := by
  induction h with
  | nil => exact hs
  | cons hc hstep _ ih => exact ih (hkeep _ _ _ hs hc hstep)

/-- What holds at the start and what every step keeps holds of every state
reached. -/
theorem Reach.invariant {I : σ → Prop} (hinit : ∀ s, M.Init s → I s)
    (hkeep : ∀ s l u, I s → C s l → M.step s l = some u → I u)
    (h : M.Reach C s) : I s := by
  obtain ⟨s₀, ls, h0, hp⟩ := h
  exact hp.invariant hkeep (hinit s₀ h0)

/-- What every step keeps holds of every state that a run leads through. -/
theorem Path.forall_states {I : σ → Prop}
    (hkeep : ∀ s l u, I s → C s l → M.step s l = some u → I u)
    (h : M.Path C s ls t) (hs : I s) : ∀ u ∈ M.states s ls, I u := by
  induction h with
  | nil s => simpa [states] using hs
  | cons hc hstep _ ih =>
    simp only [states, hstep, List.mem_cons, forall_eq_or_imp]
    exact ⟨hs, ih (hkeep _ _ _ hs hc hstep)⟩

/-- When a step that breaks a condition leads to a state without `P`, a run whose
states all have `P` meets the condition.  `I` is what the steps before it keep. -/
theorem Path.meets_of_states {I P : σ → Prop}
    (hkeep : ∀ s l u, I s → C s l → D s l → M.step s l = some u → I u)
    (hbreak : ∀ s l u, I s → C s l → M.step s l = some u → ¬ D s l → ¬ P u)
    (h : M.Path C s ls t) (hs : I s) (hP : ∀ u ∈ M.states s ls, P u) :
    M.Path (fun s l => C s l ∧ D s l) s ls t := by
  induction h with
  | nil s => exact .nil s
  | @cons s u t l ls hc hstep _ ih =>
    simp only [states, hstep, List.mem_cons, forall_eq_or_imp] at hP
    have hu : P u := hP.2 u (mem_states_self M u ls)
    have hd : D s l := by
      by_contra hnot
      exact hbreak s l u hs hc hstep hnot hu
    exact .cons ⟨hc, hd⟩ hstep (ih (hkeep s l u hs hc hd hstep) hP.2)

/-- When the condition on steps decides whether `P` stays, the runs that meet it are
those whose states all have `P`.  `I` is what the steps that meet it keep. -/
theorem Path.forall_states_iff {I P : σ → Prop} (hP : ∀ s, I s → P s)
    (hkeep : ∀ s l u, I s → C s l → D s l → M.step s l = some u → I u)
    (hbreak : ∀ s l u, I s → C s l → M.step s l = some u → ¬ D s l → ¬ P u)
    (h : M.Path C s ls t) (hs : I s) :
    (∀ u ∈ M.states s ls, P u) ↔ M.Path (fun s l => C s l ∧ D s l) s ls t := by
  constructor
  · intro hall
    exact h.meets_of_states hkeep hbreak hs hall
  · intro hall u hu
    apply hP
    exact hall.forall_states (fun s l u hs hc hstep => hkeep s l u hs hc.1 hc.2 hstep) hs u hu

/-- The same for runs with no other condition on their steps. -/
theorem Path.forall_states_iff_path {I P : σ → Prop} (hP : ∀ s, I s → P s)
    (hkeep : ∀ s l u, I s → D s l → M.step s l = some u → I u)
    (hbreak : ∀ s l u, I s → M.step s l = some u → ¬ D s l → ¬ P u)
    (h : M.Path Any s ls t) (hs : I s) :
    (∀ u ∈ M.states s ls, P u) ↔ M.Path D s ls t := by
  rw [h.forall_states_iff hP (fun s l u hs _ hd => hkeep s l u hs hd)
    (fun s l u hs _ => hbreak s l u hs) hs]
  constructor
  · exact Path.mono fun _ _ hd => hd.2
  · exact Path.mono fun _ _ hd => ⟨trivial, hd⟩

/-- When a step brings about `P` exactly if it does not meet the condition, and `P` stays,
the runs that meet the condition are those that end without `P`. -/
theorem Path.iff_not_of_stays {I P : σ → Prop}
    (hkeep : ∀ s l u, I s → M.step s l = some u → I u)
    (hdecide : ∀ s l u, I s → ¬ P s → M.step s l = some u → (P u ↔ ¬ D s l))
    (hstays : ∀ s l u, I s → P s → M.step s l = some u → P u)
    (h : M.Path Any s ls t) (hs : I s) (hP : ¬ P s) : M.Path D s ls t ↔ ¬ P t := by
  induction h with
  | nil s => exact iff_of_true (.nil s) hP
  | @cons s u t l ls _ hstep tail ih =>
    have hu : I u := hkeep s l u hs hstep
    by_cases hd : D s l
    · have hnot : ¬ P u := fun hu => (hdecide s l u hs hP hstep).mp hu hd
      rw [path_cons_iff hstep, ih hu hnot]
      exact and_iff_right hd
    · have hbroken : I t ∧ P t := by
        refine tail.invariant (I := fun v => I v ∧ P v) ?_
          ⟨hu, (hdecide s l u hs hP hstep).mpr hd⟩
        rintro v l' w ⟨hv, hPv⟩ _ hstep'
        exact ⟨hkeep v l' w hv hstep', hstays v l' w hv hPv hstep'⟩
      rw [path_cons_iff hstep]
      exact iff_of_false (fun hall => hd hall.1) (not_not_intro hbroken.2)

/-- The states that a run leads through are related one to the next as the step
between them relates them. -/
theorem Path.isChain_states {I : σ → Prop} {R : σ → σ → Prop}
    (hkeep : ∀ s l u, I s → C s l → M.step s l = some u → I u)
    (hR : ∀ s l u, I s → C s l → M.step s l = some u → R s u)
    (h : M.Path C s ls t) (hs : I s) : List.IsChain R (M.states s ls) := by
  induction h with
  | nil s => exact List.isChain_singleton s
  | @cons s u t l ls hc hstep _ ih =>
    have htail := ih (hkeep _ _ _ hs hc hstep)
    simp only [states, hstep]
    cases ls with
    | nil => exact List.isChain_pair.mpr (hR _ _ _ hs hc hstep)
    | cons l' ls => exact List.isChain_cons_cons.mpr ⟨hR _ _ _ hs hc hstep, htail⟩

/-- A view that every step moves by `A` is moved by steps of `A` over a run. -/
theorem Path.refines {τ : Type} {I : σ → Prop} {A : τ → τ → Prop} {view : σ → τ}
    (hkeep : ∀ s l u, I s → C s l → M.step s l = some u → I u)
    (hA : ∀ s l u, I s → C s l → M.step s l = some u → A (view s) (view u))
    (h : M.Path C s ls t) (hs : I s) : Relation.ReflTransGen A (view s) (view t) := by
  induction h with
  | nil s => exact .refl
  | cons hc hstep _ ih =>
    exact .head (hA _ _ _ hs hc hstep) (ih (hkeep _ _ _ hs hc hstep))

/-- The invariant rule over an invariant `J` that is already known to hold of
every state reached. -/
theorem Reach.invariant_of {I J : σ → Prop} (hJ : ∀ s, M.Reach C s → J s)
    (hinit : ∀ s, M.Init s → I s)
    (hkeep : ∀ s l u, J s → I s → C s l → M.step s l = some u → I u)
    (h : M.Reach C s) : I s := by
  obtain ⟨s₀, ls, h0, hp⟩ := h
  have key : M.Reach C s₀ ∧ I s₀ := ⟨⟨s₀, [], h0, .nil s₀⟩, hinit s₀ h0⟩
  refine (hp.invariant (I := fun s => M.Reach C s ∧ I s) ?_ key).2
  rintro s l u ⟨hr, hi⟩ hc hstep
  exact ⟨hr.step hc hstep, hkeep s l u (hJ s hr) hi hc hstep⟩

end StepMachine

end CodeLib
