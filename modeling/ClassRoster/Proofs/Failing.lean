import ClassRoster.Proofs.OnRecord
import ClassRoster.Proofs.Reporting
import ClassRoster.Proofs.Routing

/-!
What a failure leaves behind. A build that fails may have accepted any number of classes before it,
and a look-up has looked; all that remains of either is one event, which depends on the kind of step
alone. No roster is touched, and what comes later comes as if the step had not been made.
-/

namespace ClassRoster

/-- How a step may fail. -/
def Step.failure? : Step → Option Failure
  | .build .. | .act _ (.rebuild _) => some (.build .iterable)
  | .buildKeyed .. => some (.build .mapping)
  | .act _ (.get _) | .act _ (.getToken _) => some .lookUp
  | _ => none

namespace Deed

variable {d : Deed} {cause : RosterError} {rosters : Index Roster}

theorem leave_of_failed (h : d.answer = .failed cause) (rosters : Index Roster) :
    d.leave rosters = rosters := by
  cases d with
  | built source target result =>
      cases result with
      | ok r => cases h
      | error e => rfl
  | lookedUp _ _ _ | silent _ => rfl
  | filtered _ _ _ _ | redescribed _ _ => cases h

theorem event?_built_of_failed {source : Source} {target : String}
    {result : Except RosterError Roster} (h : (built source target result).answer = .failed cause) :
    (built source target result).event? = some (.rejected source) := by
  cases result with
  | ok r => cases h
  | error e => rfl

theorem event?_lookedUp_of_failed {receiver : Roster} {name : String}
    {result : Except RosterError Descriptor}
    (h : (lookedUp receiver name result).answer = .failed cause) :
    (lookedUp receiver name result).event? = some (.lookup false) := by
  cases result with
  | ok d => cases h
  | error e => rfl

/-- Only builds and look-ups fail, and each in one way. -/
theorem event?_of_failed {step : Step} (h : (ofStep rosters step).answer = .failed cause) :
    ∃ f, step.failure? = some f ∧ (ofStep rosters step).event? = some f.event := by
  cases step with
  | build target names => exact ⟨.build .iterable, rfl, event?_built_of_failed h⟩
  | buildKeyed target entries description =>
      exact ⟨.build .mapping, rfl, event?_built_of_failed h⟩
  | act source action =>
      simp only [ofStep] at h ⊢
      cases hr : rosters.find? source with
      | none => rw [hr] at h; cases h
      | some r =>
          rw [hr] at h
          cases action with
          | rebuild target => exact ⟨.build .iterable, rfl, event?_built_of_failed h⟩
          | getToken t => exact ⟨.lookUp, rfl, event?_lookedUp_of_failed h⟩
          | get name => exact ⟨.lookUp, rfl, event?_lookedUp_of_failed h⟩
          | compare other =>
              simp only [ofAction, answer, Outcome.act, Outcome.reply, Observed.silent,
                Outcome.compare] at h
              split at h <;> cases h
          | _ => cases h
  | _ => cases h

end Deed

namespace Session

theorem run_of_failed {s : Session} {step : Step} {cause : RosterError}
    (h : (s.run step).1 = .failed cause) :
    ∃ f, step.failure? = some f ∧ (s.run step).2.rosters = s.rosters ∧
      (s.run step).2.metrics = s.metrics.emit f.event := by
  have hoperation : step.isOperation = true := by
    cases step with
    | build _ _ | buildKeyed _ _ _ | act _ _ | malformed => rfl
    | counters | reset | withJournal _ => cases h
    | withSink number body panics =>
        rw [s.run_withSink] at h
        cases h
  rw [s.run_operation hoperation] at h ⊢
  obtain ⟨f, hstep, hevent⟩ := Deed.event?_of_failed h
  refine ⟨f, hstep, Deed.leave_of_failed h s.rosters, ?_⟩
  simp only [perform, metrics, List.filterMap_cons, hevent, List.filterMap_nil,
    List.foldl_cons, List.foldl_nil]

/-- All that is left of a failure. -/
structure Spared (s : Session) (f : Failure) (s' : Session) : Prop where
  rosters : s'.rosters = s.rosters
  counted : s.metrics.installed = none →
    s'.metrics = { s.metrics with counters := f.count s.metrics.counters }
  gathered : ∀ number, s.metrics.installed = some number →
    s'.metrics = s.metrics.give number [f.event] ∧
      s'.metrics.gathered number = s.metrics.gathered number ++ [f.event]
  later : ∀ t t', Alongside s s' t t' → ∀ step,
    (t.run step).1.Like f s.metrics.installed (t'.run step).1 ∧
      (t.run step).2.WithFailure f s.metrics.installed 0 (t'.run step).2

end Session

/-- A step that fails, at whatever moment, changes no roster and leaves one event, wherever events
go at that moment. From then on all comes as it would have come without it, apart from the counters
and from what the sink that has the event was given. -/
theorem failure_spares {s : Session} {step : Step} {cause : RosterError}
    (h : (s.run step).1 = .failed cause) :
    ∃ f, step.failure? = some f ∧ s.Spared f (s.run step).2 := by
  obtain ⟨f, hstep, hrosters, hmetrics⟩ := Session.run_of_failed h
  refine ⟨f, hstep, ?_⟩
  constructor
  case rosters => exact hrosters
  case counted =>
    intro hnone
    rw [hmetrics, Metrics.emit_of_installed_none hnone, f.record_event]
  case gathered =>
    intro number hnumber
    rw [hmetrics, Metrics.emit_of_installed_some hnumber]
    exact ⟨rfl, s.metrics.gathered_give_self number [f.event]⟩
  case later =>
    intro t t' halong step
    apply Session.WithFailure.run
    apply halong.withFailure
    refine ⟨hrosters, ?_, rfl⟩
    rw [hmetrics]
    exact .emit_event s.metrics f

theorem failure_spares_nested :
    let program : List Step := [.build "a" ["p.A", "p.B"], .withSink 3 [.act "a" .names] true]
    let s : Session := (Session.start.run (.build "a" ["p.A", "p.B"])).2
    let t : Session := s.withMetrics (s.metrics.install 3)
    let mismatched : Step :=
      .buildKeyed "a" [("q.A", "q.A"), ("q.B", "q.B"), ("q.C", "q.D")] "all"
    let missing : Step := .act "a" (.get "q.A")
    let later : Step := .withSink 4 [.counters, missing, .withSink 3 [missing] true] false
    ∃ c d, Passes .start .start program s c ∧ Passes .start .start program t d ∧
      (s.run mismatched).1 = .failed (.keyMismatch "q.C" "q.D") ∧
      (s.run mismatched).2.rosters = s.rosters ∧
      (s.run mismatched).2.metrics.counters =
        { Counters.zero with builtFromIterable := 1, classesIndexed := 2, buildRejections := 1 } ∧
      (t.run missing).1 = .failed (.notFound "q.A") ∧
      (t.run missing).2.metrics.counters = t.metrics.counters ∧
      (t.run missing).2.metrics.gathered 3 = [.lookup false] ∧
      (t.run later).1.Like .lookUp (some 3) ((t.run missing).2.run later).1 := by
  intro program s t mismatched missing later
  have hs : Passes .start .start program s _ := .after .now
  have ht : Passes .start .start program t _ := .after (.withinSink .now)
  have hmismatched : (s.run mismatched).1 = .failed (.keyMismatch "q.C" "q.D") := rfl
  have hmissing : (t.run missing).1 = .failed (.notFound "q.A") := rfl
  obtain ⟨f, hf, spared⟩ := failure_spares hmismatched
  obtain ⟨f', hf', spared'⟩ := failure_spares hmissing
  cases hf
  cases hf'
  have hgathered := spared'.gathered 3 rfl
  refine ⟨_, _, hs, ht, hmismatched, spared.rosters, ?_, hmissing, ?_, hgathered.2, ?_⟩
  · rw [spared.counted rfl]
    rfl
  · rw [hgathered.1]
    rfl
  · exact (spared'.later _ _ .now _).1

end ClassRoster
