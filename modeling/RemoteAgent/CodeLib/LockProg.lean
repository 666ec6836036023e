import Mathlib.Data.Fintype.Lattice
import Mathlib.Data.Set.Finite.Basic
import RemoteAgent.CodeLib.StepMachine

/-!
# Programs that take locks in an order

Threads share data behind locks.  A thread takes a guard of a lock, works on the
data, and drops the guard; a guard is for reading, beside other readers, or exclusive.

* `LockProg` is the code of a thread: a program that takes and drops guards, reads and
  writes the shared data, and may ask its environment for a value.  It is a monad, so
  that code reads as it is written.
  `eval` is what it computes alone.
* `LockSystem.machine` runs any number of threads.  One step is one action of one
  thread, so the threads interleave in every way.  A thread whose code has returned may
  be given another program.
* `wp` is what a program needs so that it takes every lock above the locks that it has
  got, in the order of `rank`, and ends in a given condition on the guards that it
  still has.  A `Steady` program ends with the guards that it began with.
* `Deadlocked`: some threads wait for each other's locks or for their own.  If all
  programs are steady without a guard this never happens (`not_deadlocked`), and some
  thread can go on while not all have returned (`exists_step`).
* `run_alone`: while the others have no guards, a thread comes to its end, and what it
  has done then is what `eval` says.

A thread waits here as soon as the lock is held by anyone, also by a reader that it
could join.  So it does not matter how a lock treats the readers that come behind a
waiting writer.
-/

namespace CodeLib

inductive LockMode where
  | shared
  | exclusive
  deriving DecidableEq, Repr

/-- A guard of a lock. -/
structure Guard (L : Type) where
  lock : L
  mode : LockMode
  deriving DecidableEq

/-- Two guards that cannot be there at once. -/
def Guard.Conflicts {L : Type} (g g' : Guard L) : Prop :=
  g.lock = g'.lock ∧ (g.mode = .exclusive ∨ g'.mode = .exclusive)

/-- Code that runs beside other code on data of type `S`, behind locks `L`.  `act`
reads and writes the data in one step, `ask` gets a value from outside. -/
inductive LockProg (ι S L α : Type) where
  | ret (a : α)
  | ask (k : ι → LockProg ι S L α)
  | act (f : S → S) (k : S → LockProg ι S L α)
  | acquire (g : Guard L) (k : LockProg ι S L α)
  | drop (g : Guard L) (k : LockProg ι S L α)

variable {ι S L α β : Type}

namespace LockProg

/-! ## Programs -/

protected def bind : LockProg ι S L α → (α → LockProg ι S L β) → LockProg ι S L β
  | .ret a, c => c a
  | .ask k, c => .ask fun x => (k x).bind c
  | .act f k, c => .act f fun s => (k s).bind c
  | .acquire g k, c => .acquire g (k.bind c)
  | .drop g k, c => .drop g (k.bind c)

instance : Monad (LockProg ι S L) where
  pure := .ret
  bind := LockProg.bind

/-- A value from outside. -/
def input : LockProg ι S L ι := .ask .ret

/-- Read the data. -/
def reads (f : S → α) : LockProg ι S L α := .act id fun s => .ret (f s)

/-- Write the data. -/
def modify (f : S → S) : LockProg ι S L Unit := .act f fun _ => .ret ()

/-- Read the data and write them in one step. -/
def update (f : S → S) (r : S → α) : LockProg ι S L α := .act f fun s => .ret (r s)

/-- Run a program under a guard. -/
def locked (g : Guard L) (p : LockProg ι S L α) : LockProg ι S L α :=
  .acquire g do
    let a ← p
    .drop g (.ret a)

/-- The guard that the program takes next. -/
def wants : LockProg ι S L α → Option (Guard L)
  | .acquire g _ => some g
  | _ => none

/-- The program has returned. -/
def returned : LockProg ι S L α → Bool
  | .ret _ => true
  | _ => false

/-- What a program computes when it runs alone, with the same value from outside
whenever it asks. -/
def eval (x : ι) : LockProg ι S L α → S → S × α
  | .ret a, s => (s, a)
  | .ask k, s => (k x).eval x s
  | .act f k, s => (k s).eval x (f s)
  | .acquire _ k, s => k.eval x s
  | .drop _ k, s => k.eval x s

@[simp] theorem eval_pure (x : ι) (a : α) (s : S) :
    (pure a : LockProg ι S L α).eval x s = (s, a) := rfl

@[simp] theorem eval_bind (x : ι) (p : LockProg ι S L α) (c : α → LockProg ι S L β) (s : S) :
    (p >>= c).eval x s = (c (p.eval x s).2).eval x (p.eval x s).1 := by
  show (p.bind c).eval x s = _
  induction p generalizing s with
  | ret a => rfl
  | ask k ih => exact ih x s
  | act f k ih => exact ih s (f s)
  | acquire g k ih => exact ih s
  | drop g k ih => exact ih s

@[simp] theorem eval_input (x : ι) (s : S) :
    (input : LockProg ι S L ι).eval x s = (s, x) := rfl

@[simp] theorem eval_reads (x : ι) (f : S → α) (s : S) :
    (reads f : LockProg ι S L α).eval x s = (s, f s) := rfl

@[simp] theorem eval_modify (x : ι) (f : S → S) (s : S) :
    (modify f : LockProg ι S L Unit).eval x s = (f s, ()) := rfl

@[simp] theorem eval_update (x : ι) (f : S → S) (r : S → α) (s : S) :
    (update f r : LockProg ι S L α).eval x s = (f s, r s) := rfl

/-- A guard changes nothing for a program that runs alone. -/
@[simp] theorem eval_locked (x : ι) (g : Guard L) (p : LockProg ι S L α) (s : S) :
    (locked g p).eval x s = p.eval x s := by
  show ((p >>= fun a => .drop g (.ret a)) : LockProg ι S L α).eval x s = _
  rw [eval_bind]
  rfl

/-! ## The order of locks -/

section Order

variable {ρ : Type} [LinearOrder ρ] [DecidableEq L] (rank : L → ρ)

/-- The locks that a program takes stand above all that it has, it drops what it has,
and it ends in `Q`. -/
def wp : LockProg ι S L α → (α → List (Guard L) → Prop) → List (Guard L) → Prop
  | .ret a, Q, held => Q a held
  | .ask k, Q, held => ∀ x, (k x).wp Q held
  | .act _ k, Q, held => ∀ s, (k s).wp Q held
  | .acquire g k, Q, held =>
    (∀ g' ∈ held, rank g'.lock < rank g.lock) ∧ k.wp Q (g :: held)
  | .drop g k, Q, held => g ∈ held ∧ k.wp Q (held.erase g)

variable {rank} {held : List (Guard L)}

theorem wp_mono {p : LockProg ι S L α} {Q R : α → List (Guard L) → Prop}
    (hQR : ∀ a held, Q a held → R a held) (h : p.wp rank Q held) : p.wp rank R held := by
  induction p generalizing held with
  | ret a => exact hQR a held h
  | ask k ih => exact fun x => ih x (h x)
  | act f k ih => exact fun s => ih s (h s)
  | acquire g k ih => exact ⟨h.1, ih h.2⟩
  | drop g k ih => exact ⟨h.1, ih h.2⟩

theorem wp_bind {p : LockProg ι S L α} {c : α → LockProg ι S L β}
    {Q : β → List (Guard L) → Prop} :
    (p >>= c).wp rank Q held ↔ p.wp rank (fun a => (c a).wp rank Q) held := by
  show (p.bind c).wp rank Q held ↔ _
  induction p generalizing held with
  | ret a => exact Iff.rfl
  | ask k ih => exact forall_congr' fun x => ih x
  | act f k ih => exact forall_congr' fun s => ih s
  | acquire g k ih => exact and_congr_right fun _ => ih
  | drop g k ih => exact and_congr_right fun _ => ih

/-- A program that takes its locks in order above the guards that it begins with, and
ends with the same guards. -/
def Steady (rank : L → ρ) (held : List (Guard L)) (p : LockProg ι S L α) : Prop :=
  p.wp rank (fun _ now => now = held) held

/-- What follows a steady program finds the guards as they were. -/
theorem Steady.wp_bind {p : LockProg ι S L α} {c : α → LockProg ι S L β}
    {Q : β → List (Guard L) → Prop} (hp : Steady rank held p)
    (hc : ∀ a, (c a).wp rank Q held) : (p >>= c).wp rank Q held := by
  refine LockProg.wp_bind.mpr (wp_mono ?_ hp)
  rintro a now rfl
  exact hc a

theorem Steady.bind {p : LockProg ι S L α} {c : α → LockProg ι S L β}
    (hp : Steady rank held p) (hc : ∀ a, Steady rank held (c a)) :
    Steady rank held (p >>= c) :=
  hp.wp_bind hc

theorem Steady.pure (a : α) : Steady rank held (Pure.pure a : LockProg ι S L α) := rfl

theorem Steady.input : Steady rank held (LockProg.input : LockProg ι S L ι) := fun _ => rfl

theorem Steady.reads (f : S → α) : Steady rank held (LockProg.reads f : LockProg ι S L α) :=
  fun _ => rfl

theorem Steady.modify (f : S → S) :
    Steady rank held (LockProg.modify f : LockProg ι S L Unit) := fun _ => rfl

theorem Steady.update (f : S → S) (r : S → α) :
    Steady rank held (LockProg.update f r : LockProg ι S L α) := fun _ => rfl

theorem Steady.ite {c : Prop} [Decidable c] {p q : LockProg ι S L α}
    (hp : Steady rank held p) (hq : Steady rank held q) :
    Steady rank held (if c then p else q) := by
  split
  · exact hp
  · exact hq

/-- One more guard, of a lock that stands above the others. -/
theorem Steady.locked {g : Guard L} {p : LockProg ι S L α}
    (hg : ∀ g' ∈ held, rank g'.lock < rank g.lock) (hp : Steady rank (g :: held) p) :
    Steady rank held (LockProg.locked g p) := by
  refine ⟨hg, hp.wp_bind fun a => ⟨List.mem_cons_self, ?_⟩⟩
  exact List.erase_cons_head g held

/-- One guard and no other. -/
theorem Steady.lockedAlone {g : Guard L} {p : LockProg ι S L α}
    (hp : Steady rank [g] p) : Steady rank [] (LockProg.locked g p) :=
  .locked (fun _ h => by cases h) hp

end Order

end LockProg

/-! ## Threads -/

structure LockThread (ι S L : Type) where
  held : List (Guard L)
  prog : LockProg ι S L Unit

structure LockSystem (ι S L : Type) where
  data : S
  threads : List (LockThread ι S L)

namespace LockSystem

/-- A new thread, a thread that has returned runs the next program, or thread `i` does
its next action, with a value from outside in case it asks for one. -/
inductive Event (ι Op : Type) where
  | spawn
  | call (i : Nat) (op : Op)
  | step (i : Nat) (x : ι)

/-- No guard is there that the new one conflicts with. -/
def Free (s : LockSystem ι S L) (g : Guard L) : Prop :=
  ∀ t ∈ s.threads, ∀ g' ∈ t.held, ¬ g.Conflicts g'

variable [DecidableEq L]

instance (g g' : Guard L) : Decidable (g.Conflicts g') :=
  inferInstanceAs (Decidable (_ ∧ _))

instance (s : LockSystem ι S L) (g : Guard L) : Decidable (s.Free g) :=
  inferInstanceAs (Decidable (∀ t ∈ s.threads, ∀ g' ∈ t.held, ¬ g.Conflicts g'))

/-- The next action of a thread. -/
def stepThread (s : LockSystem ι S L) (x : ι) (t : LockThread ι S L) :
    Option (S × LockThread ι S L) :=
  match t.prog with
  | .ret _ => none
  | .ask k => some (s.data, { t with prog := k x })
  | .act f k => some (f s.data, { t with prog := k s.data })
  | .acquire g k => if s.Free g then some (s.data, ⟨g :: t.held, k⟩) else none
  | .drop g k => some (s.data, ⟨t.held.erase g, k⟩)

def step {Op : Type} (code : Op → LockProg ι S L Unit) (s : LockSystem ι S L) :
    Event ι Op → Option (LockSystem ι S L)
  | .spawn => some { s with threads := s.threads ++ [⟨[], .ret ()⟩] }
  | .call i op =>
    (s.threads[i]?).bind fun t =>
      if t.prog.returned then
        some { s with threads := s.threads.set i { t with prog := code op } }
      else none
  | .step i x =>
    (s.threads[i]?).bind fun t =>
      (s.stepThread x t).map fun r => ⟨r.1, s.threads.set i r.2⟩

/-- Threads that run the programs of `code`. -/
def machine {Op : Type} (Init : S → Prop) (code : Op → LockProg ι S L Unit) :
    StepMachine (LockSystem ι S L) (Event ι Op) where
  Init s := Init s.data ∧ s.threads = []
  step := step code

/-- Thread `i` is about to take the guard. -/
def Waits (s : LockSystem ι S L) (i : Nat) (g : Guard L) : Prop :=
  ∃ t, s.threads[i]? = some t ∧ t.prog.wants = some g

/-- Thread `i` has a guard of the lock. -/
def Holds (s : LockSystem ι S L) (i : Nat) (l : L) : Prop :=
  ∃ t, s.threads[i]? = some t ∧ ∃ g ∈ t.held, g.lock = l

/-- There are threads each of which waits for a lock that one of them holds. -/
def Deadlocked (s : LockSystem ι S L) : Prop :=
  ∃ T : Set Nat, T.Nonempty ∧
    ∀ i ∈ T, ∃ g, s.Waits i g ∧ ∃ j ∈ T, s.Holds j g.lock

/-! ## No deadlock -/

section Order

variable {ρ : Type} [LinearOrder ρ] {rank : L → ρ} {Op : Type}
  {code : Op → LockProg ι S L Unit} {s s' : LockSystem ι S L}

/-- What is left of a thread's program. -/
def Keeps (rank : L → ρ) (t : LockThread ι S L) : Prop :=
  t.prog.wp rank (fun _ held => held = []) t.held

/-- Every thread takes what it is still to take in order. -/
def Disciplined (rank : L → ρ) (s : LockSystem ι S L) : Prop :=
  ∀ t ∈ s.threads, Keeps rank t

theorem Keeps.stepThread {t t' : LockThread ι S L} {x : ι} {d : S} (ht : Keeps rank t)
    (h : s.stepThread x t = some (d, t')) : Keeps rank t' := by
  obtain ⟨held, prog⟩ := t
  cases prog with
  | ret a => cases h
  | ask k =>
    cases h
    exact ht x
  | act f k =>
    cases h
    exact ht s.data
  | acquire g k =>
    simp only [LockSystem.stepThread] at h
    split at h
    · cases h
      exact ht.2
    · cases h
  | drop g k =>
    cases h
    exact ht.2

theorem Keeps.held_eq_nil {t : LockThread ι S L} (ht : Keeps rank t)
    (hret : t.prog.returned = true) : t.held = [] := by
  obtain ⟨held, prog⟩ := t
  cases prog with
  | ret a => exact ht
  | _ => cases hret

theorem Disciplined.step (hcode : ∀ op, LockProg.Steady rank [] (code op))
    (hi : Disciplined rank s) {e : Event ι Op} (h : s.step code e = some s') :
    Disciplined rank s' := by
  intro t ht
  cases e with
  | spawn =>
    cases h
    rcases List.mem_append.mp ht with hold | hnew
    · exact hi t hold
    · rw [List.mem_singleton.mp hnew]
      exact rfl
  | call i op =>
    obtain ⟨u, hu, h⟩ := Option.bind_eq_some_iff.mp h
    split at h
    · rename_i hret
      cases h
      rcases List.mem_or_eq_of_mem_set ht with hold | rfl
      · exact hi t hold
      · -- a thread that has returned has no guard left to begin the next program with
        have hnil := (hi u (List.mem_of_getElem? hu)).held_eq_nil hret
        show (code op).wp rank _ u.held
        rw [hnil]
        exact hcode op
    · cases h
  | step i x =>
    obtain ⟨u, hu, h⟩ := Option.bind_eq_some_iff.mp h
    obtain ⟨⟨d, u'⟩, hstep, rfl⟩ := Option.map_eq_some_iff.mp h
    rcases List.mem_or_eq_of_mem_set ht with hold | rfl
    · exact hi t hold
    · exact (hi u (List.mem_of_getElem? hu)).stepThread hstep

/-- A thread that waits for a lock has none that stands as high. -/
theorem Disciplined.rank_lt (hi : Disciplined rank s) {i : Nat} {g : Guard L} {l : L}
    (hw : s.Waits i g) (hh : s.Holds i l) : rank l < rank g.lock := by
  obtain ⟨⟨held, prog⟩, ht, hwants⟩ := hw
  obtain ⟨t', ht', g', hg', rfl⟩ := hh
  obtain rfl := Option.some.inj (ht.symm.trans ht')
  have hkeeps := hi _ (List.mem_of_getElem? ht)
  cases prog with
  | acquire g₀ k =>
    cases hwants
    exact hkeeps.1 g' hg'
  | _ => cases hwants

theorem Disciplined.not_deadlocked (hi : Disciplined rank s) : ¬ s.Deadlocked := by
  rintro ⟨T, ⟨i₀, hi₀⟩, hT⟩
  choose g hw j hj hh using hT
  have hfin : Finite T := by
    apply Set.Finite.subset (Set.finite_lt_nat s.threads.length)
    intro i hiT
    obtain ⟨t, ht, -⟩ := hw i hiT
    exact (List.getElem?_eq_some_iff.mp ht).1
  have hne : Nonempty T := ⟨⟨i₀, hi₀⟩⟩
  -- the thread that waits for the highest lock: its holder waits for a higher one
  obtain ⟨⟨i, hiT⟩, hmax⟩ := Finite.exists_max fun i : T => rank (g i.1 i.2).lock
  have hlt := hi.rank_lt (hw (j i hiT) (hj i hiT)) (hh i hiT)
  exact absurd (hmax ⟨j i hiT, hj i hiT⟩) (not_le_of_gt hlt)

theorem disciplined_of_reachable {Init : S → Prop}
    (hcode : ∀ op, LockProg.Steady rank [] (code op))
    (h : (machine Init code).Reachable s) : Disciplined rank s := by
  apply h.invariant
  · intro s₀ hinit t ht
    rw [hinit.2] at ht
    cases ht
  · intro u e v hu _ hstep
    exact hu.step hcode hstep

/-- Threads that run such programs never wait for each other in a circle. -/
theorem not_deadlocked {Init : S → Prop} (hcode : ∀ op, LockProg.Steady rank [] (code op))
    (h : (machine Init code).Reachable s) : ¬ s.Deadlocked :=
  (disciplined_of_reachable hcode h).not_deadlocked

/-- While a thread has not returned, some thread can go on. -/
theorem Disciplined.exists_step (hi : Disciplined rank s) (x : ι) {t : LockThread ι S L}
    (ht : t ∈ s.threads) (hrun : t.prog.returned = false) :
    ∃ i s', s.step code (.step i x) = some s' := by
  by_contra hstuck
  push Not at hstuck
  apply hi.not_deadlocked
  have hblocked : ∀ (i : Nat) u, s.threads[i]? = some u → s.stepThread x u = none := by
    intro i u hu
    cases hstep : s.stepThread x u with
    | none => rfl
    | some r =>
      refine absurd ?_ (hstuck i ⟨r.1, s.threads.set i r.2⟩)
      simp [LockSystem.step, hu, hstep]
  refine ⟨{ i | ∃ u, s.threads[i]? = some u ∧ u.prog.returned = false }, ?_, ?_⟩
  · obtain ⟨i, hu⟩ := List.mem_iff_getElem?.mp ht
    exact ⟨i, t, hu, hrun⟩
  · rintro i ⟨u, hu, hurun⟩
    have hnone := hblocked i u hu
    cases hprog : u.prog with
    | ret a => simp [hprog, LockProg.returned] at hurun
    | ask k => simp [stepThread, hprog] at hnone
    | act f k => simp [stepThread, hprog] at hnone
    | drop g k => simp [stepThread, hprog] at hnone
    | acquire g k =>
      have hfree : ¬ s.Free g := by
        intro hfree
        simp [stepThread, hprog, hfree] at hnone
      simp only [Free, not_forall, not_not] at hfree
      obtain ⟨v, hv, g', hg', hconflict⟩ := hfree
      obtain ⟨j, hj⟩ := List.mem_iff_getElem?.mp hv
      have hwants : u.prog.wants = some g := by rw [hprog]; rfl
      refine ⟨g, ⟨u, hu, hwants⟩, j, ⟨v, hj, ?_⟩, v, hj, g', hg', hconflict.1.symm⟩
      by_contra hret
      rw [(hi v hv).held_eq_nil (by simpa using hret)] at hg'
      cases hg'

/-! ## A thread that runs alone -/

/-- Nobody but thread `i` has a guard. -/
def Alone (s : LockSystem ι S L) (i : Nat) : Prop :=
  ∀ j t, j ≠ i → s.threads[j]? = some t → t.held = []

omit [DecidableEq L] in
theorem Alone.set {i : Nat} (h : s.Alone i) (d : S) (t : LockThread ι S L) :
    Alone ⟨d, s.threads.set i t⟩ i := by
  intro j u hj hu
  rw [List.getElem?_set_ne (Ne.symm hj)] at hu
  exact h j u hj hu

omit [DecidableEq L] in
/-- A guard above all that the thread has is free. -/
theorem Alone.free {i : Nat} {g : Guard L} {t : LockThread ι S L} (h : s.Alone i)
    (hi : s.threads[i]? = some t) (habove : ∀ g' ∈ t.held, rank g'.lock < rank g.lock) :
    s.Free g := by
  intro u hu g' hg' hconflict
  obtain ⟨j, hj⟩ := List.mem_iff_getElem?.mp hu
  by_cases hji : j = i
  · subst hji
    rw [hi] at hj
    cases hj
    have hlt := habove g' hg'
    rw [hconflict.1] at hlt
    exact lt_irrefl _ hlt
  · rw [h j u hji hj] at hg'
    cases hg'

theorem run_succ_alone (Init : S → Prop) {i n : Nat} {x : ι} {t t' : LockThread ι S L} {d : S}
    (hi : s.threads[i]? = some t) (hstep : s.stepThread x t = some (d, t'))
    (hrun : (machine Init code).run ⟨d, s.threads.set i t'⟩ (List.replicate n (.step i x)) =
      some s') :
    (machine Init code).run s (List.replicate (n + 1) (.step i x)) = some s' := by
  have hone : (machine Init code).step s (.step i x) = some ⟨d, s.threads.set i t'⟩ := by
    show LockSystem.step code s (.step i x) = _
    simp [LockSystem.step, hi, hstep]
  rw [List.replicate_succ, StepMachine.run, hone, Option.bind_some, hrun]

/-- While the others have no guards, a thread comes to its end and leaves the data as
`eval` says. -/
theorem run_alone (Init : S → Prop) (x : ι) {i : Nat} {held : List (Guard L)}
    {p : LockProg ι S L Unit} (hi : s.threads[i]? = some ⟨held, p⟩)
    (hp : Keeps rank ⟨held, p⟩) (halone : s.Alone i) :
    ∃ n, (machine Init code).run s (List.replicate n (.step i x)) =
      some ⟨(p.eval x s.data).1, s.threads.set i ⟨[], .ret ()⟩⟩ := by
  have hself : ∀ (s : LockSystem ι S L) {t : LockThread ι S L} t',
      s.threads[i]? = some t → (s.threads.set i t')[i]? = some t' := by
    intro s t t' ht
    rw [List.getElem?_set_self (List.getElem?_eq_some_iff.mp ht).1]
  induction p generalizing s held with
  | ret a =>
    obtain ⟨_, hget⟩ := List.getElem?_eq_some_iff.mp hi
    have hset : s.threads.set i ⟨[], .ret ()⟩ = s.threads := by
      have hheld : held = [] := hp
      rw [hheld] at hget
      rw [← hget, List.set_getElem_self]
    rw [hset]
    exact ⟨0, rfl⟩
  | ask k ih =>
    obtain ⟨n, hn⟩ := ih x (hself s _ hi) (hp x) (halone.set s.data _)
    rw [List.set_set] at hn
    exact ⟨n + 1, run_succ_alone Init hi rfl hn⟩
  | act f k ih =>
    obtain ⟨n, hn⟩ := ih s.data (hself s _ hi) (hp s.data) (halone.set (f s.data) _)
    rw [List.set_set] at hn
    exact ⟨n + 1, run_succ_alone Init hi rfl hn⟩
  | acquire g k ih =>
    obtain ⟨n, hn⟩ := ih (hself s _ hi) hp.2 (halone.set s.data _)
    rw [List.set_set] at hn
    have hfree : s.Free g := halone.free hi hp.1
    exact ⟨n + 1, run_succ_alone Init hi (if_pos hfree) hn⟩
  | drop g k ih =>
    obtain ⟨n, hn⟩ := ih (hself s _ hi) hp.2 (halone.set s.data _)
    rw [List.set_set] at hn
    exact ⟨n + 1, run_succ_alone Init hi rfl hn⟩

end Order

end LockSystem

end CodeLib
