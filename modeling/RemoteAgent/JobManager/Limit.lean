import RemoteAgent.JobManager.Ids
import RemoteAgent.JobManager.Lifecycle

/-!
# The limit on concurrent jobs

`create_job` compares the number of registered jobs with the limit in its first
step and inserts its job in a later one.  A call that has passed the comparison
is admitted, whatever happens to the registry until it inserts.

* `limit_respected`: the registry stays within the limit in every run in which
  a call is admitted only when there is room for it beside the registered jobs
  and the calls that are admitted already.
* `limit_exceeded` is a run of two calls, both admitted to the one free place.
-/

namespace RemoteAgent.JobManager

open CodeLib

/-- The call has passed the length check and has not inserted yet. -/
def Call.admitted : Call → Bool
  | .createJob _ .fetchAdd | .createJob _ .fetchAddAgain
  | .createJob _ (.containsKey _) | .createJob _ (.insert _) => true
  | _ => false

/-- The call is about to make the length check. -/
def Call.checksLength : Call → Bool
  | .createJob _ .lenCheck => true
  | _ => false

namespace Manager

/-- The number of calls that are admitted. -/
def admitted (m : Manager) : Nat := m.calls.countP Call.admitted

/-- The length check of a call passes only when there is room for the call beside
the registered jobs and the calls that are admitted already. -/
def RoomForAdmitted (m : Manager) : Label → Prop
  | .call _ => True
  | .step i _ => (m.calls[i]?).any Call.checksLength = true →
      m.shared.jobs.entries.length < m.shared.maxConcurrentJobs →
      m.shared.jobs.entries.length + m.admitted < m.shared.maxConcurrentJobs

instance (m : Manager) : (l : Label) → Decidable (RoomForAdmitted m l)
  | .call _ => isTrue trivial
  | .step _ _ => inferInstanceAs (Decidable (_ → _ → _))

/-- The registered jobs and the admitted calls are within the limit. -/
def Within (m : Manager) : Prop :=
  m.shared.jobs.entries.length + m.admitted ≤ m.shared.maxConcurrentJobs

/-- Call `i` goes on, and the count of admitted calls follows. -/
theorem admitted_set {m : Manager} {i : Nat} {c : Call} (hi : m.calls[i]? = some c)
    (s' : Shared) (c' : Call) :
    ({ m with shared := s', calls := m.calls.set i c' } : Manager).admitted +
        (if c.admitted then 1 else 0) =
      m.admitted + if c'.admitted then 1 else 0 :=
  countP_set_add hi c'

/-- An insertion makes the registry longer by at most one. -/
theorem length_insert_le (s : Shared) (id : UInt32) (h : JobRef) :
    (s.jobs.insert id h).entries.length ≤ s.jobs.entries.length + 1 := by
  rw [AList.entries_insert]
  have hle := (List.kerase_sublist id s.jobs.entries).length_le
  simp only [List.length_cons]
  omega

theorem within_create {m : Manager} {i : Nat} {timeout : Option Duration}
    {pc pc' : CreatePc} {now : SystemTime} {s' : Shared} (hm : m.Within)
    (hi : m.calls[i]? = some (.createJob timeout pc))
    (hroom : m.RoomForAdmitted (.step i now))
    (hs : pc.step m.held now timeout m.shared = some (s', pc')) :
    ({ m with shared := s', calls := m.calls.set i (.createJob timeout pc') } :
      Manager).Within := by
  have hcount := admitted_set hi s' (.createJob timeout pc')
  unfold Within at hm ⊢
  cases pc with
  | lenCheck =>
    simp only [CreatePc.step] at hs
    split at hs
    · cases hs
      simp only [Call.admitted, Bool.false_eq_true, reduceIte] at hcount ⊢
      omega
    · rename_i hfree
      cases hs
      have hlt := hroom (by simp [hi, Call.checksLength]) (by omega)
      simp only [Call.admitted, Bool.false_eq_true, reduceIte] at hcount ⊢
      omega
  | fetchAdd =>
    simp only [CreatePc.step, Option.some.injEq, Prod.mk.injEq] at hs
    obtain ⟨rfl, rfl⟩ := hs
    have hpc : (Call.createJob timeout (if m.shared.nextJobId = 0 then
        .fetchAddAgain else .containsKey m.shared.nextJobId)).admitted = true := by
      split <;> rfl
    rw [hpc] at hcount
    simp only [Call.admitted, reduceIte] at hcount ⊢
    omega
  | fetchAddAgain =>
    cases hs
    simp only [Call.admitted, reduceIte] at hcount ⊢
    omega
  | containsKey id =>
    simp only [CreatePc.step] at hs
    split at hs <;> cases hs <;>
      simp only [Call.admitted, Bool.false_eq_true, reduceIte] at hcount ⊢ <;> omega
  | insert id =>
    simp only [CreatePc.step] at hs
    split at hs
    · cases hs
    · cases hs
      have hlen := length_insert_le m.shared id m.shared.handles.length
      simp only [Call.admitted, Bool.false_eq_true, reduceIte] at hcount ⊢
      omega
  | setLastCreated t h =>
    cases hs
    simp only [Call.admitted, Bool.false_eq_true, reduceIte] at hcount ⊢
    omega
  | ret r => cases hs

theorem within_step {m m' : Manager} {l : Label} (hm : m.Within)
    (hroom : m.RoomForAdmitted l) (h : m.step l = some m') : m'.Within := by
  cases l with
  | call op =>
    obtain rfl := Option.some.inj h
    have hidle : op.begin.admitted = false := by cases op <;> rfl
    simpa [Within, admitted, List.countP_append, hidle] using hm
  | step i now =>
    obtain ⟨c, s', c', hi, hs, rfl⟩ := step_call_inv h
    rcases Call.step_ids hs with ⟨timeout, pc, pc', rfl, rfl, hpc⟩ | ⟨hsame, hc, hc'⟩
    · exact within_create hm hi hroom hpc
    · have hcount := admitted_set hi s' c'
      have hnot : ∀ d : Call, (∀ timeout pc, d ≠ .createJob timeout pc) →
          d.admitted = false := by
        intro d hd
        cases d with
        | createJob timeout pc => exact absurd rfl (hd timeout pc)
        | _ => rfl
      have hlen := hsame.entries.length_le
      have hlimit := hsame.limit
      unfold Within at hm ⊢
      simp only [hnot c hc, hnot c' hc', Bool.false_eq_true, reduceIte] at hcount ⊢
      omega

/-- In every run in which calls are admitted only when there is room for all of
them, the registry stays within the limit. -/
theorem limit_respected {m : Manager} (h : machine.Reach RoomForAdmitted m) :
    m.shared.jobs.entries.length ≤ m.shared.maxConcurrentJobs := by
  have hwithin : m.Within := by
    refine h.invariant ?_ fun _ _ _ hm hroom hstep => within_step hm hroom hstep
    rintro m ⟨-, hjobs, hcalls⟩
    simp [Within, admitted, hjobs, hcalls]
  unfold Within at hwithin
  omega

/-- With one place, a call takes it and the next call is turned away. -/
theorem limit_respected_full :
    ∃ m, machine.Reach RoomForAdmitted m ∧
      m.shared.jobs.entries.length ≤ m.shared.maxConcurrentJobs ∧
      m.shared.jobs.entries.length = 1 ∧ m.shared.maxConcurrentJobs = 1 := by
  obtain ⟨m, hreach, hm⟩ := StepMachine.reach_of_runIf machine RoomForAdmitted
    (fresh_initial 1)
    [.call (.createJob none), .call (.createJob none), .step 0 1, .step 0 1, .step 0 1,
      .step 0 1, .step 1 1]
    (fun m => m.shared.jobs.entries.length == 1 && m.shared.maxConcurrentJobs == 1)
    (by decide +kernel)
  simp only [Bool.and_eq_true, beq_iff_eq] at hm
  exact ⟨m, hreach, limit_respected hreach, hm.1, hm.2⟩

/-- Two calls pass the length check for the one place before either inserts, and
the registry holds two jobs. -/
theorem limit_exceeded :
    ∃ m, machine.Reachable m ∧ m.shared.maxConcurrentJobs = 1 ∧
      m.shared.jobs.entries.length = 2 := by
  obtain ⟨m, hreach, hm⟩ := StepMachine.reach_of_runIf machine StepMachine.Any
    (fresh_initial 1)
    [.call (.createJob none), .call (.createJob none), .step 0 1, .step 1 1,
      .step 0 1, .step 0 1, .step 0 1, .step 1 1, .step 1 1, .step 1 1]
    (fun m => m.shared.maxConcurrentJobs == 1 && m.shared.jobs.entries.length == 2)
    (by decide +kernel)
  simp only [Bool.and_eq_true, beq_iff_eq] at hm
  exact ⟨m, hreach, hm.1, hm.2⟩

end Manager

end RemoteAgent.JobManager
