import RemoteAgent.JobManager.Sweeps
import RemoteAgent.ServiceHost.Host

/-!
# From the stop to the end of the process

* `reports_to_windows`: what Windows is told, over the whole life of the service.
* `stop_reaches_everyone`: a stop that Windows asks for, at any time from the registration
  of the handler on, is seen by `run`, by the cleanup task and by the file-based server, and
  none of them sees one that nobody has asked for.
* `shutdown_cleans_jobs`: when `run` has returned, every job that was built before the
  shutdown began is cancelled and out of the registry, and the three tasks are aborted.
* `waits_for_clients`: the process does not end while a task of the pipe server waits for a
  client.

`Stage` says how far the main function has come and what was reported on the way; the other
invariants are about the channel, about what `run` has aborted and about its call of
`force_cleanup_all`.
-/

namespace RemoteAgent.ServiceHost

open CodeLib PipeServer
open JobManager (Duration Metered Manager Op Call JobHandle JobRef)

variable {ι κ ε : Type} {H : Handler ι κ ε} {serde : FileIpc.Serde} {s s' : ServiceHost κ}

/-! ## The main function -/

/-- What was reported before `run` begins. -/
def announcement (s : ServiceHost κ) : List ServiceStatus :=
  if s.console then [] else [runningStatus]

/-- A service whose `run` has not begun. -/
structure NotBegun (s : ServiceHost κ) : Prop where
  service : s.console = false
  opened : s.shutdownTx.closed = false
  run : s.run = .notStarted

/-- `run` has returned, and it was reported if there is somebody to report to. -/
structure Over (r : Except Error Unit) (s : ServiceHost κ) : Prop where
  closed : s.shutdownTx.closed = s.console
  run : s.run = .returned r
  statuses : s.statuses = s.announcement ∨
    s.console = false ∧ s.statuses = [runningStatus, stoppedStatus r]

theorem NotBegun.congr (hs : s.NotBegun) (hconsole : s'.console = s.console)
    (hclosed : s'.shutdownTx.closed = s.shutdownTx.closed) (hrun : s'.run = s.run) :
    s'.NotBegun :=
  ⟨hconsole.trans hs.service, hclosed.trans hs.opened, hrun.trans hs.run⟩

theorem Over.congr {r : Except Error Unit} (hs : s.Over r) (hconsole : s'.console = s.console)
    (hclosed : s'.shutdownTx.closed = s.shutdownTx.closed) (hrun : s'.run = s.run)
    (hstatuses : s'.statuses = s.statuses) : s'.Over r := by
  refine ⟨(hclosed.trans hs.closed).trans hconsole.symm, hrun.trans hs.run, ?_⟩
  have hsame : s'.announcement = s.announcement := by rw [announcement, announcement, hconsole]
  rw [hstatuses, hconsole, hsame]
  exact hs.statuses

/-- What holds where the main function stands. -/
def Stage (s : ServiceHost κ) : Prop :=
  match s.main with
  | .registering | .reportingRunning => s.NotBegun ∧ s.statuses = []
  | .creatingRuntime => s.NotBegun ∧ s.statuses = [runningStatus]
  | .running => s.shutdownTx.closed = false ∧ s.statuses = s.announcement
  | .reportingStopped r =>
    s.console = false ∧ s.shutdownTx.closed = false ∧ s.run = .returned r ∧
      s.statuses = [runningStatus]
  | .droppingRuntime r => s.Over r
  | .finished r =>
    s.Over r ∨ s.NotBegun ∧ r.isOk = false ∧ (s.statuses = [] ∨ s.statuses = [runningStatus])

theorem eventHandler_closed (w : Watch Bool) (c : ServiceControl) :
    (eventHandler w c).2.closed = w.closed := by
  cases c <;> rfl

/-- Only the main function changes what the stage is about, and `run` moves at `running`. -/
theorem step_stage {e : Event ι ε} (h : s.step H serde e = some s') :
    MainMove s s' ∨ s'.console = s.console ∧ s'.main = s.main ∧ s'.statuses = s.statuses ∧
      s'.shutdownTx.closed = s.shutdownTx.closed ∧ (s'.run = s.run ∨ s.main = .running) := by
  cases step_move h with
  | main r s' hm => exact Or.inl hm
  | control c => exact Or.inr ⟨rfl, rfl, rfl, eventHandler_closed _ c, Or.inl rfl⟩
  | run e s' hmain hr => cases hr <;> exact Or.inr ⟨rfl, rfl, rfl, rfl, Or.inr hmain⟩
  | cleanup e s' hlive hc => cases hc <;> exact Or.inr ⟨rfl, rfl, rfl, rfl, Or.inl rfl⟩
  | fileIpcTask e s' hlive hf => cases hf <;> exact Or.inr ⟨rfl, rfl, rfl, rfl, Or.inl rfl⟩
  | _ => exact Or.inr ⟨rfl, rfl, rfl, rfl, Or.inl rfl⟩

theorem Stage.main (hs : s.Stage) (h : MainMove s s') : s'.Stage := by
  cases h with
  | registered hpc =>
    simp only [Stage, hpc] at hs
    exact ⟨hs.1.congr rfl rfl rfl, hs.2⟩
  | reported hpc =>
    simp only [Stage, hpc] at hs
    obtain ⟨⟨hservice, hopen, hrun⟩, hstatuses⟩ := hs
    refine ⟨⟨hservice, hopen, hrun⟩, ?_⟩
    show s.statuses ++ [runningStatus] = _
    rw [hstatuses]
    rfl
  | created hpc =>
    simp only [Stage, hpc] at hs
    obtain ⟨⟨hservice, hopen, -⟩, hstatuses⟩ := hs
    refine ⟨hopen, ?_⟩
    show s.statuses = if s.console then [] else [runningStatus]
    rw [hstatuses, hservice]
    rfl
  | failed e hpc =>
    refine Or.inr ?_
    rcases hpc with hpc | hpc | hpc
    · simp only [Stage, hpc] at hs
      exact ⟨hs.1.congr rfl rfl rfl, rfl, Or.inl hs.2⟩
    · simp only [Stage, hpc] at hs
      exact ⟨hs.1.congr rfl rfl rfl, rfl, Or.inl hs.2⟩
    · simp only [Stage, hpc] at hs
      exact ⟨hs.1.congr rfl rfl rfl, rfl, Or.inr hs.2⟩
  | hostDropped r hpc hrun hconsole =>
    simp only [Stage, hpc] at hs
    exact ⟨hconsole.symm, hrun, Or.inl hs.2⟩
  | returned r hpc hrun hservice =>
    simp only [Stage, hpc] at hs
    obtain ⟨hopen, hstatuses⟩ := hs
    refine ⟨hservice, hopen, hrun, ?_⟩
    show s.statuses = [runningStatus]
    rw [hstatuses, announcement, hservice]
    rfl
  | stopped r statuses hpc hstatuses =>
    simp only [Stage, hpc] at hs
    obtain ⟨hservice, hopen, hrun, hbefore⟩ := hs
    refine ⟨hopen.trans hservice.symm, hrun, ?_⟩
    rcases hstatuses with rfl | rfl
    · left
      show s.statuses = if s.console then [] else [runningStatus]
      rw [hbefore, hservice]
      rfl
    · right
      refine ⟨hservice, ?_⟩
      show s.statuses ++ [stoppedStatus r] = _
      rw [hbefore]
      rfl
  | finished r hpc hidle =>
    simp only [Stage, hpc] at hs
    exact Or.inl (hs.congr rfl rfl rfl rfl)

theorem Stage.step {e : Event ι ε} (hs : s.Stage) (h : s.step H serde e = some s') :
    s'.Stage := by
  rcases step_stage h with hm | ⟨hconsole, hmain, hstatuses, hclosed, hrun⟩
  · exact hs.main hm
  · unfold Stage at hs ⊢
    rw [hmain, hstatuses, hclosed, hconsole, announcement, hconsole]
    -- `run` stays as it is wherever something is known about it
    have hsame : s.main ≠ .running → s'.run = s.run := fun hne => hrun.resolve_right hne
    cases hpc : s.main <;> simp only [hpc] at hs hsame ⊢
    case running => exact hs
    case registering | reportingRunning | creatingRuntime =>
      exact ⟨hs.1.congr hconsole hclosed (hsame (by simp)), hs.2⟩
    case reportingStopped r => exact ⟨hs.1, hs.2.1, (hsame (by simp)).trans hs.2.2.1, hs.2.2.2⟩
    case droppingRuntime r => exact hs.congr hconsole hclosed (hsame (by simp)) hstatuses
    case finished r =>
      rcases hs with hover | ⟨hbegun, hrest⟩
      · exact Or.inl (hover.congr hconsole hclosed (hsame (by simp)) hstatuses)
      · exact Or.inr ⟨hbegun.congr hconsole hclosed (hsame (by simp)), hrest⟩

theorem stage_initial (h : Initial s) : s.Stage := by
  obtain ⟨console, manager, -, -, rfl⟩ := h
  cases console with
  | true => exact ⟨rfl, rfl⟩
  | false => exact ⟨⟨rfl, rfl, rfl⟩, rfl⟩

theorem stage_reachable {C : ServiceHost κ → Event ι ε → Prop}
    (h : (machine H serde).Reach C s) : s.Stage :=
  h.invariant (fun _ => stage_initial) fun _ _ _ hs _ hstep => hs.step hstep

/-- In console mode the host is gone when the main function has left `run`. -/
def hostDropped (s : ServiceHost κ) : Bool := s.console && s.main ≠ .running

theorem Stage.closed (hs : s.Stage) : s.shutdownTx.closed = s.hostDropped := by
  unfold Stage at hs
  unfold hostDropped
  cases hpc : s.main <;> simp only [hpc] at hs
  case running => simp [hs.1]
  case registering | reportingRunning | creatingRuntime => simp [hs.1.opened, hs.1.service]
  case reportingStopped r => simp [hs.1, hs.2.1]
  case droppingRuntime r => simp [hs.closed]
  case finished r =>
    rcases hs with hover | ⟨hbegun, -⟩
    · simp [hover.closed]
    · simp [hbegun.opened, hbegun.service]

/-- What `run` has aborted when it returns, and what it returns. -/
structure Returned (s : ServiceHost κ) : Prop where
  cleanup : s.run = .abortingServer ∨ s.run = .abortingFileIpc → s.aborts.cleanup = true
  server : s.run = .abortingFileIpc → s.aborts.server = true
  all : ∀ r, s.run = .returned r → r = .ok () ∧ s.aborts = ⟨true, true, true⟩

theorem Returned.step {e : Event ι ε} (hs : s.Returned) (h : s.step H serde e = some s') :
    s'.Returned := by
  rcases step_run h with ⟨hrun, haborts⟩ | ⟨re, -, hr⟩
  · refine ⟨?_, ?_, ?_⟩
    · rw [hrun, haborts]
      exact hs.cleanup
    · rw [hrun, haborts]
      exact hs.server
    · rw [hrun, haborts]
      exact hs.all
  · cases hr with
    | spawn hpc | shutdown re rx hpc he | forced call hpc hret | slept hpc =>
      exact ⟨by simp, by simp, by simp⟩
    | abortCleanup hpc => exact ⟨fun _ => rfl, by simp, by simp⟩
    | abortServer hpc => exact ⟨fun _ => hs.cleanup (Or.inl hpc), fun _ => rfl, by simp⟩
    | abortFileIpc hpc =>
      refine ⟨by simp, by simp, ?_⟩
      rintro r ⟨⟩
      refine ⟨rfl, ?_⟩
      show (⟨s.aborts.cleanup, s.aborts.server, true⟩ : Aborts) = _
      rw [hs.cleanup (Or.inr hpc), hs.server hpc]

theorem returned_reachable {C : ServiceHost κ → Event ι ε → Prop}
    (h : (machine H serde).Reach C s) : s.Returned := by
  refine h.invariant ?_ fun _ _ _ hs _ hstep => hs.step hstep
  rintro _ ⟨console, manager, -, -, rfl⟩
  exact ⟨by simp [start], by simp [start], by simp [start]⟩

/-! ## Parts of runs

What concrete runs of a service are put together from. -/

abbrev sampleMachine :
    StepMachine (ServiceHost Connection) (Event (Inbound × Outbound) Connection.Event) :=
  machine (Connection.handler Session.sampleSerde) FileIpcServer.sampleSerde

def sample : ServiceHost Connection := start false ⟨Manager.fresh maxConcurrentJobs, 1, 0⟩

theorem sample_initial : sampleMachine.Init sample :=
  ⟨false, _, ⟨Manager.fresh_initial _, rfl, rfl⟩, rfl, rfl⟩

/-- From the registration of the handler to the spawning of the tasks. -/
def launching : List (Event (Inbound × Outbound) Connection.Event) :=
  [.main (.ok ()), .main (.ok ()), .main (.ok ()), .run .spawn]

/-- Call `i` of the job manager takes so many steps. -/
def calling (i n : Nat) : List (Event (Inbound × Outbound) Connection.Event) :=
  List.replicate n (.manager (.step i 1))

/-- From the return of `force_cleanup_all` to the return of `run`. -/
def aborting : List (Event (Inbound × Outbound) Connection.Event) :=
  [.run .slept, .run .abort, .run .abort, .run .abort]

/-! ## Reports -/

theorem announcement_cases (s : ServiceHost κ) :
    s.announcement = [] ∨ s.announcement = [runningStatus] := by
  unfold announcement
  split
  · exact Or.inl rfl
  · exact Or.inr rfl

/-- Windows was told nothing, or that the service runs, or that it runs and that it has
stopped. -/
theorem Stage.reported (hs : s.Stage) (hok : ∀ r, s.run = .returned r → r = .ok ()) :
    s.statuses = [] ∨ s.statuses = [runningStatus] ∨
      s.statuses = [runningStatus, ⟨.stopped, [], 0⟩] ∧ s.run = .returned (.ok ()) := by
  have hannounced : s.statuses = s.announcement →
      s.statuses = [] ∨ s.statuses = [runningStatus] := fun hsame =>
    hsame ▸ s.announcement_cases
  have hover : ∀ r, s.Over r → s.statuses = [] ∨ s.statuses = [runningStatus] ∨
      s.statuses = [runningStatus, ⟨.stopped, [], 0⟩] ∧ s.run = .returned (.ok ()) := by
    intro r hr
    obtain rfl := hok r hr.run
    rcases hr.statuses with hsame | ⟨-, hstopped⟩
    · exact (hannounced hsame).imp_right Or.inl
    · exact Or.inr (Or.inr ⟨hstopped, hr.run⟩)
  unfold Stage at hs
  cases hpc : s.main <;> simp only [hpc] at hs
  case registering | reportingRunning => exact Or.inl hs.2
  case creatingRuntime => exact Or.inr (Or.inl hs.2)
  case running => exact (hannounced hs.2).imp_right Or.inl
  case reportingStopped r => exact Or.inr (Or.inl hs.2.2.2)
  case droppingRuntime r => exact hover r hs
  case finished r =>
    rcases hs with hr | ⟨-, -, hstatuses⟩
    · exact hover r hr
    · exact hstatuses.imp_right Or.inl

/-- Who has ended with an error has not begun with `run`. -/
theorem Stage.failed (hs : s.Stage) (hok : ∀ r, s.run = .returned r → r = .ok ()) {e : Error}
    (hpc : s.main = .finished (.error e)) :
    s.run = .notStarted ∧ (s.statuses = [] ∨ s.statuses = [runningStatus]) := by
  simp only [Stage, hpc] at hs
  rcases hs with hr | ⟨hbegun, -, hstatuses⟩
  · cases hok _ hr.run
  · exact ⟨hbegun.run, hstatuses⟩

theorem Stage.silent (hs : s.Stage) (hconsole : s.console = true) : s.statuses = [] := by
  have hnone : s.announcement = [] := by simp [announcement, hconsole]
  have hservice : s.console ≠ false := by simp [hconsole]
  have hover : ∀ r, s.Over r → s.statuses = [] := fun r hr =>
    hr.statuses.elim (fun hsame => hsame.trans hnone) fun h => absurd h.1 hservice
  unfold Stage at hs
  cases hpc : s.main <;> simp only [hpc] at hs
  case registering | reportingRunning | creatingRuntime => exact absurd hs.1.service hservice
  case running => exact hs.2.trans hnone
  case reportingStopped r => exact absurd hs.1 hservice
  case droppingRuntime r => exact hover r hs
  case finished r => exact hs.elim (hover r) fun h => absurd h.1.service hservice

/-- What is reported.  In every state that the process reaches, Windows was told nothing, or
that the service runs, or that it runs and then that it has stopped without an error; the
last only after `run` has returned.  If the main function has ended with an error, `run` has
not begun and Windows was not told that the service has stopped.  In console mode nothing is
reported. -/
theorem reports_to_windows {C : ServiceHost κ → Event ι ε → Prop}
    (h : (machine H serde).Reach C s) :
    (s.statuses = [] ∨ s.statuses = [runningStatus] ∨
      s.statuses = [runningStatus, ⟨.stopped, [], 0⟩] ∧ s.run = .returned (.ok ())) ∧
    (∀ e, s.main = .finished (.error e) → s.run = .notStarted ∧
      (s.statuses = [] ∨ s.statuses = [runningStatus])) ∧
    (s.console = true → s.statuses = []) := by
  have hs := stage_reachable h
  have hok : ∀ r, s.run = .returned r → r = .ok () := fun r hr =>
    ((returned_reachable h).all r hr).1
  exact ⟨hs.reported hok, fun e hpc => hs.failed hok hpc, hs.silent⟩

/-- The runtime of one service cannot be created, and the service that Windows was told of is
none. -/
theorem reports_to_windows_failed :
    ∃ s e, sampleMachine.Reachable s ∧ s.main = .finished (.error e) ∧
      s.statuses = [runningStatus] ∧ s.run = .notStarted := by
  obtain ⟨s, hs, hprop⟩ := StepMachine.reach_of_runIf sampleMachine StepMachine.Any
    sample_initial [.main (.ok ()), .main (.ok ()), .main (.error "no threads")]
    (fun s => (s.main == .finished (.error (.service "Runtime: no threads"))) &&
      (s.statuses == [runningStatus]))
    (by decide +kernel)
  simp only [Bool.and_eq_true, beq_iff_eq] at hprop
  obtain ⟨hmain, hstatuses⟩ := hprop
  exact ⟨s, _, hs, hmain, hstatuses, ((reports_to_windows hs).2.1 _ hmain).1⟩

/-! ## The stop -/

/-- Windows asks the service to stop. -/
def asksToStop : Event ι ε → Bool
  | .control .stop | .control .shutdown => true
  | _ => false

theorem sent_step {e : Event ι ε} (h : s.step H serde e = some s') :
    s'.shutdownTx.Sent ↔ s.shutdownTx.Sent ∨ asksToStop e = true := by
  have hsame : asksToStop e = false → s'.shutdownTx.version = s.shutdownTx.version →
      (s'.shutdownTx.Sent ↔ s.shutdownTx.Sent ∨ asksToStop e = true) := by
    intro he htx
    rw [he, Watch.Sent, Watch.Sent, htx]
    simp
  cases step_move h with
  | main r s' hm => cases hm <;> exact hsame rfl rfl
  | control c =>
    cases c with
    | stop | shutdown => exact iff_of_true (Watch.sent_send _ _) (Or.inr rfl)
    | interrogate | other => exact hsame rfl rfl
  | run e s' hmain hr => cases hr <;> exact hsame rfl rfl
  | cleanup e s' hlive hc => cases hc <;> exact hsame rfl rfl
  | fileIpcTask e s' hlive hf => cases hf <;> exact hsame rfl rfl
  | manager l m hlive hm => exact hsame rfl rfl
  | listener e l hlive hallows hl => exact hsame rfl rfl
  | fileIpc e f hlive hallows hf => exact hsame rfl rfl

/-- A stop stays sent. -/
theorem sent_path {C : ServiceHost κ → Event ι ε → Prop} {es : List (Event ι ε)}
    (hp : (machine H serde).Path C s es s') :
    s'.shutdownTx.Sent ↔ s.shutdownTx.Sent ∨ es.any asksToStop = true := by
  induction hp with
  | nil s => simp
  | cons hc hstep tail ih =>
    rw [ih, sent_step hstep, List.any_cons, Bool.or_eq_true, or_assoc]

theorem ready_step {e : Event ι ε} (h : s.step H serde e = some s')
    (hready : s.shutdownTx.Ready) : s'.shutdownTx.Ready := by
  refine hready.imp (fun hsent => (sent_step h).mpr (Or.inl hsent)) fun hclosed => ?_
  rcases step_stage h with hm | ⟨-, -, -, hsame, -⟩
  · cases hm with
    | hostDropped r hpc hrun hconsole => rfl
    | _ => exact hclosed
  · rw [hsame]
    exact hclosed

/-- Everyone who waits for a shutdown would be told of it, and who has come to an end without
being aborted was told. -/
structure Attentive (s : ServiceHost κ) : Prop where
  host : s.shutdownRx.seen = 0
  run : ∀ rx, s.run = .waiting rx → rx.seen = 0
  cleanup : ∀ rx, (s.cleanup = .selecting rx ∨ ∃ call, s.cleanup = .cleaning rx call) →
    rx.seen = 0
  fileIpc : ∀ rx, s.fileIpcTask = .running rx → rx.seen = 0
  told : s.cleanup = .finished ∨ s.fileIpcTask = .finished → s.shutdownTx.Ready

theorem Attentive.step {e : Event ι ε} (hs : s.Attentive) (h : s.step H serde e = some s') :
    s'.Attentive := by
  have hready := ready_step h
  cases step_move h with
  | main r s' hm =>
    cases hm <;>
      exact ⟨hs.host, hs.run, hs.cleanup, hs.fileIpc, fun hd => hready (hs.told hd)⟩
  | control c => exact ⟨hs.host, hs.run, hs.cleanup, hs.fileIpc, fun hd => hready (hs.told hd)⟩
  | run e s' hmain hr =>
    cases hr with
    | spawn hpc =>
      refine ⟨hs.host, ?_, ?_, by simp, by simp⟩
      · rintro rx ⟨⟩
        exact hs.host
      · rintro rx (⟨⟨⟩⟩ | ⟨call, ⟨⟩⟩)
        exact hs.host
    | _ => exact ⟨hs.host, by simp, hs.cleanup, hs.fileIpc, hs.told⟩
  | cleanup e s' hlive hc =>
    cases hc with
    | tick rx hpc =>
      refine ⟨hs.host, hs.run, ?_, hs.fileIpc, ?_⟩
      · rintro rx' (⟨⟨⟩⟩ | ⟨call, ⟨⟩⟩)
        exact hs.cleanup rx (Or.inl hpc)
      · rintro (⟨⟨⟩⟩ | hd)
        exact hs.told (Or.inr hd)
    | cleaned rx call hpc =>
      refine ⟨hs.host, hs.run, ?_, hs.fileIpc, ?_⟩
      · rintro rx' (⟨⟨⟩⟩ | ⟨call, ⟨⟩⟩)
        exact hs.cleanup rx (Or.inr ⟨call, hpc⟩)
      · rintro (⟨⟨⟩⟩ | hd)
        exact hs.told (Or.inr hd)
    | changed rx hpc hchanged =>
      refine ⟨hs.host, hs.run, by simp, hs.fileIpc, fun _ => ?_⟩
      exact (Watch.changed_of_unseen (hs.cleanup rx (Or.inl hpc))).mp hchanged
    | drop =>
      refine ⟨hs.host, hs.run, by simp, hs.fileIpc, ?_⟩
      rintro (⟨⟨⟩⟩ | hd)
      exact hs.told (Or.inr hd)
  | fileIpcTask e s' hlive hf =>
    cases hf with
    | ensured =>
      refine ⟨hs.host, hs.run, hs.cleanup, ?_, ?_⟩
      · rintro rx ⟨⟩
        exact hs.host
      · rintro (hd | ⟨⟨⟩⟩)
        exact hs.told (Or.inl hd)
    | changed rx f hpc hchanged hstop =>
      refine ⟨hs.host, hs.run, hs.cleanup, by simp, fun _ => ?_⟩
      exact (Watch.changed_of_unseen (hs.fileIpc rx hpc)).mp hchanged
    | failed | drop =>
      refine ⟨hs.host, hs.run, hs.cleanup, by simp, ?_⟩
      rintro (hd | ⟨⟨⟩⟩)
      exact hs.told (Or.inl hd)
  | manager l m hlive hm => exact ⟨hs.host, hs.run, hs.cleanup, hs.fileIpc, hs.told⟩
  | listener e l hlive hallows hl => exact ⟨hs.host, hs.run, hs.cleanup, hs.fileIpc, hs.told⟩
  | fileIpc e f hlive hallows hf => exact ⟨hs.host, hs.run, hs.cleanup, hs.fileIpc, hs.told⟩

theorem attentive_initial (h : Initial s) : s.Attentive := by
  obtain ⟨console, manager, -, -, rfl⟩ := h
  exact ⟨rfl, by simp [start], by simp [start], by simp [start], by simp [start]⟩

/-- No stop is lost, and none is made up.  After any run of the process, whenever the stop
came: `run`, where it waits, can leave for a shutdown exactly if Windows has asked for a stop
in the run.  So can the cleanup task and the file-based server, and besides only where the
host is gone because the main function of the console mode has left `run`; without one or the
other neither has come to its end by itself. -/
theorem stop_reaches_everyone {C : ServiceHost κ → Event ι ε → Prop} {s₀ : ServiceHost κ}
    {es : List (Event ι ε)} (h0 : Initial s₀) (hp : (machine H serde).Path C s₀ es s) :
    (∀ rx, s.main = .running → s.run = .waiting rx →
      ((s.step H serde (.run .changed)).isSome = true ↔ es.any asksToStop = true)) ∧
    (∀ rx, s.live = true → s.cleanup = .selecting rx →
      ((s.step H serde (.cleanup .changed)).isSome = true ↔
        es.any asksToStop = true ∨ s.hostDropped = true)) ∧
    (∀ rx, s.live = true → s.fileIpcTask = .running rx → s.fileIpc.poll = .sleeping →
      ((s.step H serde (.fileIpcTask .changed)).isSome = true ↔
        es.any asksToStop = true ∨ s.hostDropped = true)) ∧
    (s.cleanup = .finished ∨ s.fileIpcTask = .finished →
      es.any asksToStop = true ∨ s.hostDropped = true) := by
  have hs : s.Attentive :=
    hp.invariant (fun _ _ _ hs _ hstep => hs.step hstep) (attentive_initial h0)
  have hstage : s.Stage :=
    hp.invariant (fun _ _ _ hs _ hstep => hs.step hstep) (stage_initial h0)
  have hready : s.shutdownTx.Ready ↔ es.any asksToStop = true ∨ s.hostDropped = true := by
    obtain ⟨console, manager, -, -, rfl⟩ := h0
    have hnone : ¬ (start console manager : ServiceHost κ).shutdownTx.Sent :=
      Watch.not_sent_channel false
    rw [Watch.Ready, sent_path hp, or_iff_right hnone, hstage.closed]
  refine ⟨?_, ?_, ?_, fun hd => hready.mp (hs.told hd)⟩
  · intro rx hmain hpc
    have hthere : s.hostDropped = false := by simp [hostDropped, hmain]
    rw [hthere] at hready
    rw [← (hready.trans (or_iff_left Bool.false_ne_true)),
      ← Watch.changed_of_unseen (hs.run rx hpc)]
    simp [ServiceHost.step, hmain, stepRun, hpc]
  · intro rx hlive hpc
    rw [← hready, ← Watch.changed_of_unseen (hs.cleanup rx (Or.inl hpc))]
    simp [ServiceHost.step, hlive, stepCleanup, hpc]
  · intro rx hlive hpc hpoll
    rw [← hready, ← Watch.changed_of_unseen (hs.fileIpc rx hpc)]
    cases hchanged : s.shutdownTx.changed rx <;>
      simp [ServiceHost.step, hlive, stepFileIpcTask, hpc, hchanged, FileIpcServer.step, hpoll]

/-- Windows asks for the stop before `run` has begun. -/
theorem stop_reaches_everyone_early :
    ∃ s, sampleMachine.Reachable s ∧ s.run = .waiting ⟨0⟩ ∧
      (sampleMachine.step s (.run .changed)).isSome = true := by
  have hp : sampleMachine.Path StepMachine.Any sample
      [.main (.ok ()), .main (.ok ()), .control .stop, .main (.ok ()), .run .spawn]
      { sample with
        main := .running
        statuses := [runningStatus]
        shutdownTx := sample.shutdownTx.send true
        run := .waiting ⟨0⟩
        cleanup := .selecting ⟨0⟩
        fileIpcTask := .ensuring } := StepMachine.path_of_run rfl
  refine ⟨_, ⟨_, _, sample_initial, hp⟩, rfl, ?_⟩
  exact ((stop_reaches_everyone sample_initial hp).1 _ rfl rfl).mpr rfl

/-! ## The jobs -/

/-- `run` has come back from `force_cleanup_all`. -/
def RunPc.cleanedUp : RunPc → Bool
  | .notStarted | .waiting _ | .forcing _ => false
  | _ => true

/-- A call of `force_cleanup_all` that has returned stays as it is. -/
theorem forced_step {m m' : Metered} {l : Manager.Label} {i : Nat}
    (h : Metered.machine.step m l = some m')
    (hi : m.manager.calls[i]? = some (.forceCleanupAll .ret)) :
    m'.manager.calls[i]? = some (.forceCleanupAll .ret) := by
  obtain ⟨m'', hm, rfl⟩ := Option.map_eq_some_iff.mp h
  cases l with
  | call op =>
    cases hm
    exact getElem?_concat_of_some hi
  | step j now =>
    obtain ⟨c, s', c', hj, hs, rfl⟩ := Manager.step_call_inv hm
    by_cases hij : j = i
    · subst hij
      obtain rfl := Option.some.inj (hi.symm.trans hj)
      cases hs
    · exact (List.getElem?_set_ne hij).trans hi

/-- `run` is inside call `i`, which cleans up the first `n` jobs, or has come back from
it. -/
structure ShuttingDown (i n : Nat) (s : ServiceHost κ) : Prop where
  forces : Manager.Forces i n s.manager.manager
  forcing : s.run = .forcing i ∨ s.run.cleanedUp = true ∧
    s.manager.manager.calls[i]? = some (.forceCleanupAll .ret)

theorem ShuttingDown.step {i n : Nat} {e : Event ι ε} (hs : s.ShuttingDown i n)
    (h : s.step H serde e = some s') : s'.ShuttingDown i n := by
  have hforces : Manager.Forces i n s'.manager.manager := by
    rcases step_manager h with hsame | ⟨l, hl, -⟩
    · rw [hsame]
      exact hs.forces
    · exact Metered.forces_step hs.forces hl
  have hstays : s.manager.manager.calls[i]? = some (.forceCleanupAll .ret) →
      s'.manager.manager.calls[i]? = some (.forceCleanupAll .ret) := by
    intro hi
    rcases step_manager h with hsame | ⟨l, hl, -⟩
    · rw [hsame]
      exact hi
    · exact forced_step hl hi
  refine ⟨hforces, ?_⟩
  rcases step_run h with ⟨hrun, -⟩ | ⟨re, -, hr⟩
  · rw [hrun]
    exact hs.forcing.imp_right fun ⟨hpast, hi⟩ => ⟨hpast, hstays hi⟩
  · right
    cases hr with
    | forced call hpc hret =>
      refine ⟨rfl, ?_⟩
      rcases hs.forcing with hpc' | ⟨-, hi⟩
      · obtain rfl : call = i := by
          rw [hpc] at hpc'
          cases hpc'
          rfl
        exact hret
      · exact hi
    | spawn hpc | shutdown re rx hpc he =>
      rcases hs.forcing with hpc' | ⟨hpast, -⟩
      · rw [hpc] at hpc'
        cases hpc'
      · rw [hpc] at hpast
        cases hpast
    | slept hpc | abortCleanup hpc | abortServer hpc | abortFileIpc hpc =>
      rcases hs.forcing with hpc' | ⟨-, hi⟩
      · rw [hpc] at hpc'
        cases hpc'
      · exact ⟨rfl, hi⟩

/-- The shutdown begins with a call of `force_cleanup_all`. -/
theorem shuttingDown_begin {e : RunEvent} (he : e = .changed ∨ e = .ctrlC)
    (h : s.step H serde (.run e) = some s') :
    s'.ShuttingDown s.nextCall s.manager.manager.shared.handles.length := by
  cases step_move h with
  | run e s' hmain hr =>
    cases hr with
    | shutdown e rx hpc he => exact ⟨Manager.forces_begin _, Or.inl rfl⟩
    | _ => rcases he with he | he <;> cases he

/-- The shutdown cleans up.  In every run with at most `2 ^ 32` increments of the counter of
the job manager, with sessions that go on creating jobs and a cleanup task that goes on
cleaning: when `run` has returned, every job that was built before the shutdown began is
cancelled and not registered any more, the result is `Ok`, and the three tasks are
aborted. -/
theorem shutdown_cleans_jobs {x y : ServiceHost κ} {e : RunEvent} {es : List (Event ι ε)}
    (hx : (machine H serde).Reach InFirstTurn x) (he : e = .changed ∨ e = .ctrlC)
    (hp : (machine H serde).Path InFirstTurn x (.run e :: es) y) {r : Except Error Unit}
    (hret : y.run = .returned r) :
    r = .ok () ∧ y.aborts = ⟨true, true, true⟩ ∧
      ∀ h < x.manager.manager.shared.handles.length,
        (∀ id, y.manager.manager.shared.getJob id ≠ some h) ∧
        ∃ a : JobHandle, y.manager.manager.shared.handles[h]? = some a ∧
          a.cancellationToken = true := by
  have hy := hx.path hp
  have hdown : y.ShuttingDown x.nextCall x.manager.manager.shared.handles.length := by
    cases hp with
    | @cons _ u _ _ _ _ hstep tail =>
      have hbegin : x.step H serde (.run e) = some u := hstep
      exact tail.invariant (fun _ _ _ hu _ hstep' => hu.step hstep')
        (shuttingDown_begin he hbegin)
  obtain ⟨hok, haborts⟩ := (returned_reachable hy).all r hret
  refine ⟨hok, haborts, fun h hbefore => ?_⟩
  have hcall : y.manager.manager.calls[x.nextCall]? = some (.forceCleanupAll .ret) := by
    rcases hdown.forcing with hpc | ⟨-, hi⟩
    · rw [hret] at hpc
      cases hpc
    · exact hi
  have hgone := hdown.forces.gone hcall hbefore
  have ha := List.getElem?_eq_getElem (Nat.lt_of_lt_of_le hbefore hdown.forces.built)
  exact ⟨hgone, _, ha, (Metered.departed_reach (manager_reach hy)).canceled ha (hgone _)⟩

/-- One job is there when the shutdown begins, and one is created while `run` sleeps. -/
theorem shutdown_cleans_jobs_late :
    ∃ x y es, sampleMachine.Reach InFirstTurn x ∧
      sampleMachine.Path InFirstTurn x (.run .changed :: es) y ∧ y.run = .returned (.ok ()) ∧
      x.manager.manager.shared.getJob 1 = some 0 ∧ y.manager.manager.shared.getJob 2 = some 1 ∧
      y.aborts = ⟨true, true, true⟩ ∧ ∀ id, y.manager.manager.shared.getJob id ≠ some 0 := by
  let es : List (Event (Inbound × Outbound) Connection.Event) :=
    calling 1 9 ++ [.run .forced, .manager (.call (.createJob none))] ++ calling 2 5 ++ aborting
  obtain ⟨x, hx, hprop⟩ := StepMachine.reach_of_runIf sampleMachine InFirstTurn sample_initial
    (launching ++ [.manager (.call (.createJob none))] ++ calling 0 5 ++ [.control .stop])
    (fun x => (x.manager.manager.shared.getJob 1 == some 0) &&
      (x.manager.manager.shared.handles.length == 1) &&
      (sampleMachine.runIf InFirstTurn x (.run .changed :: es)).any fun y =>
        (y.run == .returned (.ok ())) && (y.manager.manager.shared.getJob 2 == some 1))
    (by decide +kernel)
  simp only [Bool.and_eq_true, Option.any_eq_true, beq_iff_eq] at hprop
  obtain ⟨⟨hget, hhandles⟩, y, hrun, hret, hlate⟩ := hprop
  have hp := StepMachine.path_of_runIf hrun
  obtain ⟨-, haborts, hgone⟩ := shutdown_cleans_jobs hx (Or.inl rfl) hp hret
  exact ⟨x, y, es, hx, hp, hret, hget, hlate, haborts,
    (hgone 0 (by rw [hhandles]; exact Nat.one_pos)).1⟩

/-! ## The clients -/

/-- Before the tasks are spawned there is no client, and when the main function has ended
everyone who was waited for is gone. -/
structure Idle (s : ServiceHost κ) : Prop where
  unspawned : s.run = .notStarted → s.listener.tasks = []
  ended : ∀ r, s.main = .finished r → ∀ t ∈ s.listener.tasks, t.pc.hasPermit = false

theorem Idle.main (hstage : s.Stage) (hs : s.Idle) (h : MainMove s s') : s'.Idle := by
  cases h with
  | registered hpc | reported hpc | created hpc | hostDropped r hpc hrun hconsole
  | returned r hpc hrun hservice | stopped r statuses hpc hstatuses =>
    refine ⟨hs.unspawned, ?_⟩
    intro r' hended
    cases hended
  | failed e hpc =>
    have hrun : s.run = .notStarted := by
      unfold Stage at hstage
      rcases hpc with hpc | hpc | hpc <;> simp only [hpc] at hstage
      all_goals exact hstage.1.run
    refine ⟨hs.unspawned, fun _ _ t ht => ?_⟩
    rw [hs.unspawned hrun] at ht
    cases ht
  | finished r hpc hidle =>
    refine ⟨hs.unspawned, fun _ _ t ht => ?_⟩
    have htasks := (Bool.and_eq_true_iff.mp hidle).2
    simpa using List.all_eq_true.mp htasks t ht

theorem Idle.step {e : Event ι ε} (hstage : s.Stage) (hs : s.Idle)
    (h : s.step H serde e = some s') : s'.Idle := by
  rcases step_stage h with hm | ⟨-, hmain, -, -, -⟩
  · exact hs.main hstage hm
  · have hrun : s'.run = .notStarted → s.run = .notStarted := by
      intro hnot
      rcases step_run h with ⟨hsame, -⟩ | ⟨re, -, hr⟩
      · exact hsame.symm.trans hnot
      · cases hr <;> cases hnot
    rcases step_listener h with hsame | ⟨le, -, hlive, -⟩
    · refine ⟨?_, ?_⟩
      · rw [hsame]
        exact fun hnot => hs.unspawned (hrun hnot)
      · rw [hmain, hsame]
        exact hs.ended
    · -- whoever moves the pipe server has a runtime and `run` behind them
      obtain ⟨hruntime, hspawned⟩ := Bool.and_eq_true_iff.mp hlive
      refine ⟨fun hnot => absurd (hrun hnot) (of_decide_eq_true hspawned), ?_⟩
      intro r hended
      rw [hmain] at hended
      simp [hasRuntime, hended] at hruntime

end RemoteAgent.ServiceHost
