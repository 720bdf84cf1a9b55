import ClassRoster.Proofs.History
import ClassRoster.Proofs.Totals

/-!
Every event goes to one place, which the nesting of the blocks decides. A session keeps one cell
for the installed sink and every block puts back what it found there, whether its body returns or
panics; `Follows` says that the cell then holds the sink of the innermost open block of the history
at every moment, and that sinks and counters hold what the history gives them. Each signal keeps it,
so that each step and each run does.
-/

namespace ClassRoster
open History

namespace Answer

/-- An answer that no signal but events comes with. -/
def IsPlain : Answer → Prop
  | .counters _ | .sink .. | .journal .. => False
  | _ => True

mutual

/-- What the readings of the counters gave, in the order in which they were made. -/
def readings : Answer → List Counters
  | .counters c => [c.counters]
  | .sink _ answers _ _ => readingsAll answers
  | .journal answers _ => readingsAll answers
  | _ => []

def readingsAll : List Answer → List Counters
  | [] => []
  | answer :: answers => answer.readings ++ readingsAll answers

end

mutual

/-- What the sinks of the blocks had and how the blocks ended, in the order in which they ended. -/
def closings : Answer → List (List Event × Bool)
  | .sink _ answers events panicked => closingsAll answers ++ [(events, panicked)]
  | .journal answers _ => closingsAll answers
  | _ => []

def closingsAll : List Answer → List (List Event × Bool)
  | [] => []
  | answer :: answers => answer.closings ++ closingsAll answers

end

theorem readings_of_isPlain {answer : Answer} (h : answer.IsPlain) : answer.readings = [] := by
  cases answer with
  | counters c => exact h.elim
  | sink number answers events panicked => exact h.elim
  | journal answers entries => exact h.elim
  | _ => rfl

theorem closings_of_isPlain {answer : Answer} (h : answer.IsPlain) : answer.closings = [] := by
  cases answer with
  | counters c => exact h.elim
  | sink number answers events panicked => exact h.elim
  | journal answers entries => exact h.elim
  | _ => rfl

end Answer

namespace Outcome

theorem isPlain_putBuilt (rosters : Index Roster) (target : String)
    (o : Observed (Except RosterError Roster)) : (putBuilt rosters target o).value.1.IsPlain := by
  cases h : o.value <;> simp [putBuilt, Observed.map, h, Answer.IsPlain]

theorem isPlain_lookUp (rosters : Index Roster)
    (o : Observed (Except RosterError Descriptor)) : (lookUp rosters o).value.1.IsPlain := by
  cases h : o.value <;> simp [lookUp, Observed.map, h, Answer.IsPlain]

theorem isPlain_act (rosters : Index Roster) (r : Roster) (action : Action) :
    (act rosters r action).value.1.IsPlain := by
  cases action with
  | rebuild target => exact isPlain_putBuilt rosters target _
  | getToken t => exact isPlain_lookUp rosters _
  | get name => exact isPlain_lookUp rosters _
  | compare other =>
      simp only [act, reply, Observed.silent, compare]
      split <;> trivial
  | _ => trivial

theorem isPlain_actOn (rosters : Index Roster) (source : String) (action : Action) :
    (actOn rosters source action).value.1.IsPlain := by
  simp only [actOn]
  split
  · exact isPlain_act rosters _ action
  · trivial

end Outcome

namespace Chronicle

theorem past_conclude {α : Type} (f : List Signal → α)
    (hf : ∀ e past, f (.event e :: past) = f past) (c : Chronicle) (o : Outcome) :
    f (c.conclude o).past = f c.past := by
  apply List.foldlRecOn (motive := fun c' : Chronicle => f c'.past = f c.past)
  · rfl
  · intro c' ih e _
    exact (hf e c'.past).trans ih

mutual

/-- A step leaves the blocks that are open as it found them. -/
theorem enclosing_step (c : Chronicle) : (step : Step) →
    enclosing (c.step step).past = enclosing c.past
  | .build .. | .buildKeyed .. | .act .. => past_conclude enclosing (fun _ _ => rfl) c _
  | .counters | .reset | .malformed => rfl
  | .withSink number body panics => by
      have hbody := enclosing_stepAll (c.mark (.opened number)) body
      simp only [Chronicle.step, mark, enclosing] at hbody ⊢
      rw [hbody, List.tail_cons]
  | .withJournal body => enclosing_stepAll c body

theorem enclosing_stepAll (c : Chronicle) : (steps : List Step) →
    enclosing (c.stepAll steps).past = enclosing c.past
  | [] => rfl
  | step :: steps => (enclosing_stepAll (c.step step) steps).trans (enclosing_step c step)

end

theorem past_suffix_conclude (c : Chronicle) (o : Outcome) : c.past <:+ (c.conclude o).past := by
  apply List.foldlRecOn (motive := fun c' : Chronicle => c.past <:+ c'.past)
  · exact List.suffix_rfl
  · intro c' ih e _
    exact ih.trans (List.suffix_cons _ _)

mutual

/-- What has happened stays in the history. -/
theorem past_suffix_step (c : Chronicle) : (step : Step) → c.past <:+ (c.step step).past
  | .build .. | .buildKeyed .. | .act .. => past_suffix_conclude c _
  | .counters | .reset => List.suffix_cons _ _
  | .malformed => List.suffix_rfl
  | .withSink number body _ =>
      (List.suffix_cons _ _).trans
        ((past_suffix_stepAll (c.mark (.opened number)) body).trans (List.suffix_cons _ _))
  | .withJournal body => past_suffix_stepAll c body

theorem past_suffix_stepAll (c : Chronicle) : (steps : List Step) →
    c.past <:+ (c.stepAll steps).past
  | [] => List.suffix_rfl
  | step :: steps => (past_suffix_step c step).trans (past_suffix_stepAll (c.step step) steps)

end

end Chronicle

/-- A session is where its history has brought it. -/
structure Follows (s : Session) (c : Chronicle) : Prop where
  rosters : s.rosters = c.rosters
  installed : s.metrics.installed = (enclosing c.past).head?
  counters : s.metrics.counters = Counters.zero.recordAll (counted c.past)
  gathered : ∀ number, s.metrics.gathered number = given (some number) c.past

namespace Follows

variable {s : Session} {c : Chronicle}

theorem start : Follows .start .start := ⟨rfl, rfl, rfl, fun _ => rfl⟩

/-- Following is about rosters and metrics; nothing else of a session matters. -/
theorem congr (h : Follows s c) {s' : Session} (hrosters : s'.rosters = s.rosters)
    (hmetrics : s'.metrics = s.metrics) : Follows s' c := by
  refine ⟨hrosters.trans h.rosters, ?_, ?_, ?_⟩
  · rw [hmetrics]; exact h.installed
  · rw [hmetrics]; exact h.counters
  · rw [hmetrics]; exact h.gathered

theorem event (h : Follows s c) (e : Event) :
    Follows (s.withMetrics (s.metrics.emit e)) (c.mark (.event e)) := by
  refine ⟨h.rosters, ?_, ?_, fun number => ?_⟩
  · exact (Metrics.installed_emit _ e).trans h.installed
  · change (s.metrics.emit e).counters = _
    rw [Metrics.counters_emit, h.installed, h.counters]
    by_cases hopen : enclosing c.past = []
    · simp [Chronicle.mark, counted, hopen, Counters.recordAll]
    · simp [Chronicle.mark, counted, hopen]
  · change (s.metrics.emit e).gathered number = _
    rw [Metrics.gathered_emit, h.installed, h.gathered]
    rfl

theorem reset (h : Follows s c) : Follows (s.withMetrics s.metrics.reset) (c.mark .reset) :=
  ⟨h.rosters, h.installed, rfl, h.gathered⟩

theorem read (h : Follows s c) : Follows s (c.mark .read) :=
  ⟨h.rosters, h.installed, h.counters, h.gathered⟩

theorem opened (h : Follows s c) (number : Nat) :
    Follows (s.withMetrics (s.metrics.install number)) (c.mark (.opened number)) :=
  ⟨h.rosters, rfl, h.counters, h.gathered⟩

/-- What was installed when a block began is what its end leaves for the blocks around it. -/
theorem closed (h : Follows s c) {previous : Option Nat}
    (hprevious : previous = (enclosing c.past).tail.head?) (panicked : Bool) :
    Follows (s.withMetrics (s.metrics.restore previous)) (c.mark (.closed panicked)) :=
  ⟨h.rosters, hprevious, h.counters, h.gathered⟩

theorem conclude (h : Follows s c) (o : Outcome) :
    Follows (s.conclude o).2 (c.conclude o) := by
  have hstart : Follows { s with rosters := o.value.2 } { c with rosters := o.value.2 } :=
    ⟨rfl, h.installed, h.counters, h.gathered⟩
  have hevents : Follows
      (Session.withMetrics { s with rosters := o.value.2 } (o.events.foldl Metrics.emit s.metrics))
      (c.conclude o) := by
    apply List.foldl_rel
      (r := fun m c' => Follows (Session.withMetrics { s with rosters := o.value.2 } m) c')
    · exact hstart
    · intro e _ m c' ih
      exact ih.event e
  exact hevents.congr rfl (Monitor.metrics_attend s.monitor o)

end Follows

/-- From the moment of `c` to that of `c'` the session gave the answers that the history asks for
and came where the history came. -/
structure Tells (c c' : Chronicle) (answers : List Answer) (s' : Session) : Prop where
  follows : Follows s' c'
  readings : History.readings c'.past = History.readings c.past ++ Answer.readingsAll answers
  closings : History.closings c'.past = History.closings c.past ++ Answer.closingsAll answers

namespace Tells

theorem refl {s : Session} {c : Chronicle} (h : Follows s c) : Tells c c [] s :=
  ⟨h, (List.append_nil _).symm, (List.append_nil _).symm⟩

theorem cons {c c' c'' : Chronicle} {answer : Answer} {answers : List Answer} {s' s'' : Session}
    (first : Tells c c' [answer] s') (others : Tells c' c'' answers s'') :
    Tells c c'' (answer :: answers) s'' := by
  refine ⟨others.follows, ?_, ?_⟩
  · rw [others.readings, first.readings]
    simp only [Answer.readingsAll, List.append_nil, List.append_assoc]
  · rw [others.closings, first.closings]
    simp only [Answer.closingsAll, List.append_nil, List.append_assoc]

theorem conclude {s : Session} {c : Chronicle} (h : Follows s c) {o : Outcome}
    (hplain : o.value.1.IsPlain) : Tells c (c.conclude o) [(s.conclude o).1] (s.conclude o).2 := by
  refine ⟨h.conclude o, ?_, ?_⟩
  · rw [Chronicle.past_conclude History.readings (fun _ _ => rfl) c o]
    simp only [Session.conclude, Answer.readingsAll, Answer.readings_of_isPlain hplain,
      List.append_nil]
  · rw [Chronicle.past_conclude History.closings (fun _ _ => rfl) c o]
    simp only [Session.conclude, Answer.closingsAll, Answer.closings_of_isPlain hplain,
      List.append_nil]

mutual

theorem run {s : Session} {c : Chronicle} (h : Follows s c) : (step : Step) →
    Tells c (c.step step) [(s.run step).1] (s.run step).2
  | .build target names => by
      have hplain := Outcome.isPlain_putBuilt s.rosters target (.ofList (names.map Descriptor.mk))
      simp only [Session.run, Chronicle.step, ← h.rosters]
      exact conclude h hplain
  | .buildKeyed target entries description => by
      have hplain := Outcome.isPlain_putBuilt s.rosters target
        (.ofEntries (entries.map fun e => (e.1, ⟨e.2⟩)) description)
      simp only [Session.run, Chronicle.step, ← h.rosters]
      exact conclude h hplain
  | .act source action => by
      simp only [Session.run, Chronicle.step, ← h.rosters]
      exact conclude h (Outcome.isPlain_actOn s.rosters source action)
  | .counters => by
      refine ⟨h.read, ?_, (List.append_nil _).symm⟩
      simp only [Session.run, Answer.readingsAll, Answer.readings, List.append_nil, h.counters]
      rfl
  | .reset => ⟨h.reset, (List.append_nil _).symm, (List.append_nil _).symm⟩
  | .malformed => ⟨h, (List.append_nil _).symm, (List.append_nil _).symm⟩
  | .withJournal body => by
      have hopen : Follows { s with monitor := s.monitor.openJournal } c := h.congr rfl rfl
      have inside := runAll hopen body
      refine ⟨inside.follows.congr rfl rfl, ?_, ?_⟩
      · simp only [Session.run, Chronicle.step, Answer.readingsAll, Answer.readings,
          List.append_nil]
        exact inside.readings
      · simp only [Session.run, Chronicle.step, Answer.closingsAll, Answer.closings,
          List.append_nil]
        exact inside.closings
  | .withSink number body panics => by
      have inside := runAll (h.opened number) body
      -- The body leaves its own block innermost, with the blocks around `c` below it.
      have hopen : enclosing ((c.mark (.opened number)).stepAll body).past =
          number :: enclosing c.past := Chronicle.enclosing_stepAll _ body
      have hprevious : s.metrics.installed =
          (enclosing ((c.mark (.opened number)).stepAll body).past).tail.head? := by
        rw [hopen]
        exact h.installed
      rw [s.run_withSink]
      refine ⟨inside.follows.closed hprevious panics, ?_, ?_⟩
      · simp only [Chronicle.step, Answer.readingsAll, Answer.readings, List.append_nil]
        exact inside.readings
      · simp only [Chronicle.step, Answer.closingsAll, Answer.closings, List.append_nil]
        change History.closings ((c.mark (.opened number)).stepAll body).past ++ _ = _
        rw [inside.closings, hopen, List.head?_cons, inside.follows.gathered, List.append_assoc]
        rfl

theorem runAll {s : Session} {c : Chronicle} (h : Follows s c) : (steps : List Step) →
    Tells c (c.stepAll steps) (s.runAll steps).1 (s.runAll steps).2
  | [] => refl h
  | step :: steps =>
      have first := run h step
      first.cons (runAll first.follows steps)

end

end Tells

namespace Session

theorem installed_conclude (s : Session) (o : Outcome) :
    (s.conclude o).2.metrics.installed = s.metrics.installed := by
  change (s.monitor.attend o).metrics.installed = _
  rw [Monitor.metrics_attend]
  apply List.foldlRecOn (motive := fun m : Metrics => m.installed = s.metrics.installed)
  · rfl
  · intro m ih e _
    exact (m.installed_emit e).trans ih

mutual

/-- Whatever a step does inside, and however its blocks end, it puts back what was installed. -/
theorem installed_run (s : Session) : (step : Step) →
    (s.run step).2.metrics.installed = s.metrics.installed
  | .build .. | .buildKeyed .. | .act .. => installed_conclude s _
  | .counters | .reset | .malformed => rfl
  | .withSink number body panics => by
      rw [s.run_withSink]
      rfl
  | .withJournal body => installed_runAll { s with monitor := s.monitor.openJournal } body

theorem installed_runAll (s : Session) : (steps : List Step) →
    (s.runAll steps).2.metrics.installed = s.metrics.installed
  | [] => rfl
  | step :: steps => (installed_runAll (s.run step).2 steps).trans (installed_run s step)

end

end Session

/-- The moments that the run of `steps` from `s` and `c` passes, each with its history: before
and after every step, also of those inside blocks. -/
inductive Passes : Session → Chronicle → List Step → Session → Chronicle → Prop
  | now {s : Session} {c : Chronicle} {steps : List Step} : Passes s c steps s c
  | after {s s' : Session} {c c' : Chronicle} {step : Step} {steps : List Step}
      (h : Passes (s.run step).2 (c.step step) steps s' c') : Passes s c (step :: steps) s' c'
  | withinSink {s s' : Session} {c c' : Chronicle} {number : Nat} {body steps : List Step}
      {panics : Bool}
      (h : Passes (s.withMetrics (s.metrics.install number)) (c.mark (.opened number)) body s' c') :
      Passes s c (.withSink number body panics :: steps) s' c'
  | withinJournal {s s' : Session} {c c' : Chronicle} {body steps : List Step}
      (h : Passes { s with monitor := s.monitor.openJournal } c body s' c') :
      Passes s c (.withJournal body :: steps) s' c'

namespace Passes

variable {s s' : Session} {c c' : Chronicle} {steps : List Step}

theorem follows (h : Passes s c steps s' c') (hs : Follows s c) : Follows s' c' := by
  induction h with
  | now => exact hs
  | @after _ _ _ _ step _ _ ih => exact ih (Tells.run hs step).follows
  | @withinSink _ _ _ _ number _ _ _ _ ih => exact ih (hs.opened number)
  | withinJournal _ ih => exact ih (hs.congr rfl rfl)

theorem past_suffix (h : Passes s c steps s' c') : c'.past <:+ (c.stepAll steps).past := by
  induction h with
  | @now _ c steps => exact c.past_suffix_stepAll steps
  | after _ ih => exact ih
  | @withinSink _ _ c _ number body steps panics _ ih =>
      have hclosed := ih.trans (List.suffix_cons (.closed panics) _)
      exact hclosed.trans
        (Chronicle.past_suffix_stepAll (c.step (.withSink number body panics)) steps)
  | @withinJournal _ _ c _ body steps _ ih =>
      exact ih.trans (Chronicle.past_suffix_stepAll (c.step (.withJournal body)) steps)

end Passes

/-- Where all that the history `past` tells of has gone, as seen in the metrics at its end and in
the answers on the way. -/
structure Routed (past : List Signal) (answers : List Answer) (m : Metrics) : Prop where
  once : (events past).Perm
    (given none past ++ (sinks past).flatMap fun number => given (some number) past)
  distinct : (sinks past).Nodup
  gathered : ∀ number, m.gathered number = given (some number) past
  counters : m.counters = Counters.zero.recordAll (counted past)
  tallies : ∀ k, (m.counters.value k).toNat = min (k.total (counted past)) counterLimit
  closings : Answer.closingsAll answers = History.closings past
  readings : Answer.readingsAll answers = History.readings past
  installed : m.installed = none

theorem Follows.tallies {s : Session} {c : Chronicle} (h : Follows s c) (k : Counter) :
    (s.metrics.counters.value k).toNat = min (k.total (counted c.past)) counterLimit := by
  rw [h.counters, Counters.toNat_value_recordAll_zero]

theorem events_routed (steps : List Step) :
    Routed (Chronicle.start.stepAll steps).past (Session.start.runAll steps).1
        (Session.start.runAll steps).2.metrics ∧
      (Session.start.runAll steps).2.rosters = (Chronicle.start.stepAll steps).rosters ∧
      (∀ s c, Passes .start .start steps s c →
        c.past <:+ (Chronicle.start.stepAll steps).past ∧
        s.metrics.installed = (enclosing c.past).head? ∧
        (∀ number, s.metrics.gathered number = given (some number) c.past) ∧
        s.metrics.counters = Counters.zero.recordAll (counted c.past) ∧
        ∀ k, (s.metrics.counters.value k).toNat = min (k.total (counted c.past)) counterLimit) ∧
      ∀ (s : Session) (step : Step), (s.run step).2.metrics.installed = s.metrics.installed := by
  have tells := Tells.runAll Follows.start steps
  have hclosed : enclosing (Chronicle.start.stepAll steps).past = [] :=
    Chronicle.enclosing_stepAll .start steps
  refine ⟨?_, tells.follows.rosters, fun s c h => ?_, Session.installed_run⟩
  · constructor
    case once => exact events_perm_given _
    case distinct => exact List.nodup_dedup _
    case gathered => exact tells.follows.gathered
    case counters => exact tells.follows.counters
    case tallies => exact tells.follows.tallies
    case closings => exact tells.closings.symm
    case readings => exact tells.readings.symm
    case installed =>
      rw [tells.follows.installed, hclosed]
      rfl
  · have follows := h.follows Follows.start
    exact ⟨h.past_suffix, follows.installed, follows.gathered, follows.counters, follows.tallies⟩

theorem events_routed_nested :
    let inner : Step := .withSink 1 [.build "a" ["p.A"], .build "b" ["p.B", "p.B"]] true
    let steps : List Step :=
      [.build "c" [], .withSink 0 [inner, .reset, .build "d" ["p.D", "p.E"]] false,
        .withSink 1 [.build "f" ["p.F"]] true, .build "e" []]
    let within : Chronicle := ((Chronicle.start.step (.build "c" [])).mark (.opened 0)).step inner
    let left : Metrics := (Session.start.runAll steps).2.metrics
    left.gathered 0 = [.built .iterable 2] ∧
      left.gathered 1 = [.built .iterable 1, .rejected .iterable, .built .iterable 1] ∧
      (left.counters.value .builtFromIterable).toNat = 1 ∧
      within.past <:+ (Chronicle.start.stepAll steps).past ∧
      ∃ s, Passes .start .start steps s within ∧ s.metrics.installed = some 0 ∧
        (s.metrics.counters.value .builtFromIterable).toNat = 1 := by
  intro inner steps within left
  have routed := events_routed steps
  have hwithin : Passes .start .start steps _ within := .after (.withinSink (.after .now))
  obtain ⟨hpast, hinstalled, -, -, htallies⟩ := routed.2.2.1 _ _ hwithin
  exact ⟨routed.1.gathered 0, routed.1.gathered 1, routed.1.tallies .builtFromIterable, hpast, _,
    hwithin, hinstalled, htallies .builtFromIterable⟩

end ClassRoster
