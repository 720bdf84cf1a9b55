import ClassRoster.Session.Run

/-!
Listening changes nothing. A step that neither asks for the counters nor changes where events go
takes a course in which the metrics have no part: they are handed its events and give nothing
back. Bare and inside a block such steps take the same course; what becomes of the events is the
only difference, and what one run counts is what the other one gathers.
-/

namespace ClassRoster

mutual

/-- Whether a step neither asks for the counters nor changes where events go. -/
def Step.oblivious : Step → Bool
  | .build .. | .buildKeyed .. | .act .. | .malformed => true
  | .counters | .reset | .withSink .. => false
  | .withJournal body => Step.obliviousAll body

def Step.obliviousAll : List Step → Bool
  | [] => true
  | step :: steps => step.oblivious && Step.obliviousAll steps

end

namespace Metrics

theorem foldl_emit_of_installed_none {m : Metrics} (h : m.installed = none)
    (events : List Event) :
    events.foldl emit m = { m with counters := m.counters.recordAll events } := by
  induction events generalizing m with
  | nil => rfl
  | cons e events ih =>
      rw [List.foldl_cons, ih ((m.installed_emit e).trans h), emit_of_installed_none h]
      rfl

theorem foldl_emit_of_installed_some {m : Metrics} {number : Nat} (h : m.installed = some number)
    (events : List Event) : events.foldl emit m = m.give number events := by
  induction events generalizing m with
  | nil => exact (m.give_nil number).symm
  | cons e events ih =>
      rw [List.foldl_cons, ih ((m.installed_emit e).trans h), emit_of_installed_some h, give_give,
        List.singleton_append]

/-- A sink that was just installed is given all the events, and nothing else is. -/
theorem foldl_emit_install (m : Metrics) (number : Nat) (events : List Event) :
    events.foldl emit (m.install number) = (m.install number).give number events :=
  foldl_emit_of_installed_some rfl events

end Metrics

namespace Monitor

theorem journals_write (m : Monitor) (entry : Entry) :
    (m.write entry).journals = m.journals.modifyHead (· ++ [entry]) := by
  simp only [write]
  split
  next h => rw [h]; rfl
  next h => rw [h]; rfl

/-- Only the innermost journal hears of an operation, and it hears of the entries only. -/
theorem journals_attend {α : Type} (m : Monitor) (o : Observed α) :
    (m.attend o).journals = m.journals.modifyHead (· ++ o.entries) := by
  have hevents : (o.events.foldl emit m).journals = m.journals := by
    apply List.foldlRecOn (motive := fun m' : Monitor => m'.journals = m.journals)
    · rfl
    · intro m' ih _ _
      exact ih
  have hentries (entries : List Entry) (m : Monitor) :
      (entries.foldl write m).journals = m.journals.modifyHead (· ++ entries) := by
    induction entries generalizing m with
    | nil => cases h : m.journals <;> simp [h]
    | cons entry entries ih =>
        rw [List.foldl_cons, ih, journals_write, List.modifyHead_modifyHead]
        simp only [Function.comp_def, List.append_assoc, List.singleton_append]
  rw [attend, hentries, hevents]

theorem attend_eq (m : Monitor) (metrics : Metrics) {α : Type} (o : Observed α) :
    ({ m with metrics } : Monitor).attend o =
      ⟨o.events.foldl Metrics.emit metrics, (m.attend o).journals⟩ := by
  have hmetrics := metrics_attend { m with metrics } o
  have hjournals : (({ m with metrics } : Monitor).attend o).journals = (m.attend o).journals := by
    rw [journals_attend, journals_attend]
  rw [← hmetrics, ← hjournals]

end Monitor

/-- What a run comes to, whatever becomes of its events. -/
structure Course (α : Type) where
  result : α
  rosters : Index Roster
  journals : List (List Entry)
  events : List Event

/-- Where a course ends that began at the metrics `m`. -/
def Course.ending {α : Type} (c : Course α) (m : Metrics) : α × Session :=
  (c.result, ⟨c.rosters, ⟨c.events.foldl Metrics.emit m, c.journals⟩⟩)

namespace Session

theorem exists_course_conclude (s : Session) (o : Outcome) :
    ∃ c : Course Answer, ∀ m, (s.withMetrics m).conclude o = c.ending m := by
  refine ⟨⟨o.value.1, o.value.2, (s.monitor.attend o).journals, o.events⟩, ?_⟩
  intro m
  exact congrArg (fun monitor => (o.value.1, Session.mk o.value.2 monitor))
    (s.monitor.attend_eq m o)

mutual

/-- The step lemma: the answer, the rosters, the journals and the events are those of the step,
and only where the events go is up to the metrics. -/
theorem exists_course_run (s : Session) : (step : Step) → step.oblivious = true →
    ∃ c : Course Answer, ∀ m, (s.withMetrics m).run step = c.ending m
  | .build target names, _ => exists_course_conclude s (.build s.rosters target names)
  | .buildKeyed target entries description, _ =>
      exists_course_conclude s (.buildKeyed s.rosters target entries description)
  | .act source action, _ => exists_course_conclude s (.actOn s.rosters source action)
  | .malformed, _ => ⟨⟨.malformed, s.rosters, s.monitor.journals, []⟩, fun _ => rfl⟩
  | .withJournal body, h => by
      obtain ⟨c, hc⟩ := exists_course_runAll { s with monitor := s.monitor.openJournal } body h
      refine ⟨⟨.journal c.result (c.journals.headD []), c.rosters, c.journals.tail, c.events⟩, ?_⟩
      intro m
      have hbody : runAll
          { s.withMetrics m with monitor := (s.withMetrics m).monitor.openJournal } body =
            c.ending m := hc m
      simp only [run, hbody]
      rfl

theorem exists_course_runAll (s : Session) : (steps : List Step) →
    Step.obliviousAll steps = true →
    ∃ c : Course (List Answer), ∀ m, (s.withMetrics m).runAll steps = c.ending m
  | [], _ => ⟨⟨[], s.rosters, s.monitor.journals, []⟩, fun _ => rfl⟩
  | step :: steps, h => by
      obtain ⟨hstep, hsteps⟩ := Bool.and_eq_true_iff.mp h
      obtain ⟨first, hfirst⟩ := exists_course_run s step hstep
      -- Where the first step ends, its metrics are again whatever they are.
      obtain ⟨others, hothers⟩ := exists_course_runAll (first.ending .start).2 steps hsteps
      refine ⟨⟨first.result :: others.result, others.rosters, others.journals,
        first.events ++ others.events⟩, ?_⟩
      intro m
      have hrest : (first.ending m).2.runAll steps =
          others.ending (first.events.foldl Metrics.emit m) := hothers _
      simp only [runAll, hfirst, hrest]
      simp only [Course.ending, List.foldl_append]

end

/-- Inside a block a run takes the course that it takes bare. The sink of the block is given the
events that bare are counted, whatever it had before; the counters, the rosters and the journals
have nothing to tell the two apart. -/
theorem run_withSink_oblivious (s : Session) (hs : s.metrics.installed = none) (number : Nat)
    (body : List Step) (hbody : Step.obliviousAll body = true) (panics : Bool) :
    ∃ events,
      (s.run (.withSink number body panics)).1 =
        .sink number (s.runAll body).1 (s.metrics.gathered number ++ events) panics ∧
      (s.run (.withSink number body panics)).2.rosters = (s.runAll body).2.rosters ∧
      (s.run (.withSink number body panics)).2.monitor.journals =
        (s.runAll body).2.monitor.journals ∧
      (s.run (.withSink number body panics)).2.metrics = s.metrics.give number events ∧
      (s.runAll body).2.metrics =
        { s.metrics with counters := s.metrics.counters.recordAll events } := by
  obtain ⟨c, hc⟩ := exists_course_runAll s body hbody
  have hbare : s.runAll body = (c.result, ⟨c.rosters,
      ⟨{ s.metrics with counters := s.metrics.counters.recordAll c.events }, c.journals⟩⟩) := by
    rw [← Metrics.foldl_emit_of_installed_none hs]
    exact hc s.metrics
  have hinside : (s.withMetrics (s.metrics.install number)).runAll body = (c.result, ⟨c.rosters,
      ⟨(s.metrics.install number).give number c.events, c.journals⟩⟩) := by
    rw [← Metrics.foldl_emit_install]
    exact hc (s.metrics.install number)
  have hgathered : ((s.metrics.install number).give number c.events).gathered number =
      s.metrics.gathered number ++ c.events := Metrics.gathered_give_self _ number c.events
  have hblock : s.run (.withSink number body panics) =
      (.sink number c.result (s.metrics.gathered number ++ c.events) panics,
        ⟨c.rosters, ⟨s.metrics.give number c.events, c.journals⟩⟩) := by
    rw [s.run_withSink, hinside, ← hgathered]
    rfl
  rw [hbare, hblock]
  exact ⟨c.events, rfl, rfl, rfl, rfl, rfl⟩

theorem run_withSink_oblivious_saturated :
    let s : Session := ⟨.empty,
      ⟨⟨{ Counters.zero with lookups := 18446744073709551615 }, none, fun _ => [.redescribed]⟩,
        [[]]⟩⟩
    let body : List Step := [.build "a" ["p.A", "q.B"], .build "a" ["x", "x"],
      .withJournal [.act "a" (.filter "b" .never), .act "b" (.redescribe "b" "none")],
      .act "b" (.get "p.A")]
    let events : List Event := [.built .iterable 2, .rejected .iterable, .filtered true 2 0,
      .redescribed, .lookup false]
    s.metrics.installed = none ∧ Step.obliviousAll body = true ∧
      (s.run (.withSink 7 body true)).1 =
        .sink 7 (s.runAll body).1 (.redescribed :: events) true ∧
      (s.run (.withSink 7 body true)).2.metrics.counters = s.metrics.counters ∧
      (s.runAll body).2.metrics.counters = s.metrics.counters.recordAll events ∧
      (s.metrics.counters.recordAll events).lookups = 18446744073709551615 := by
  intro s body events
  obtain ⟨gathered, hanswer, -, -, hinside, hbare⟩ := run_withSink_oblivious s rfl 7 body rfl true
  have hgathered : gathered = events := by
    have hsink := (Answer.sink.inj hanswer).2.2.1
    exact (List.cons.inj hsink).2.symm
  rw [hgathered] at hanswer hbare
  refine ⟨rfl, rfl, hanswer, ?_, ?_, rfl⟩
  · rw [hinside]
    rfl
  · rw [hbare]

end Session
end ClassRoster
