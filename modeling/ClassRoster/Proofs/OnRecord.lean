import ClassRoster.Proofs.Listening
import ClassRoster.Proofs.Totals
import Mathlib.Data.List.Forall2

/-!
A failure on record. It is one event, counted or given to the sink that was installed when it came.
Two sessions, one with the failure and one without, then take the same way whatever happens to both:
what was counted or gathered before is no part of what a step goes by, so that at most the readings
of the counters, or those of that one sink, tell the two apart.
-/

namespace ClassRoster

/-- The ways in which work on rosters fails. -/
inductive Failure where
  | build (source : Source)
  | lookUp
deriving DecidableEq

namespace Failure

def event : Failure → Event
  | build source => .rejected source
  | lookUp => .lookup false

/-- What a failure adds to the counters. -/
def count : Failure → Counters → Counters
  | build _, c => { c with buildRejections := saturatingAdd c.buildRejections 1 }
  | lookUp, c =>
      { c with
        lookups := saturatingAdd c.lookups 1
        lookupMisses := saturatingAdd c.lookupMisses 1 }

theorem record_event (f : Failure) (c : Counters) : c.record f.event = f.count c := by
  cases f with
  | build source => rfl
  | lookUp => rfl

/-- It makes no difference to the counters when a failure came. -/
theorem count_record (f : Failure) (c : Counters) (e : Event) :
    f.count (c.record e) = (f.count c).record e := by
  rw [← record_event, ← record_event]
  exact c.recordAll_perm (.swap f.event e [])

/-- What the sink `number` was given, without the failure and with it. Only the sink `place` has it,
before whatever came later. -/
inductive Recorded (f : Failure) (place : Option Nat) (number : Nat) :
    List Event → List Event → Prop
  | elsewhere (hplace : place ≠ some number) (events : List Event) :
      Recorded f place number events events
  | here (hplace : place = some number) (before after : List Event) :
      Recorded f place number (before ++ after) (before ++ f.event :: after)

theorem Recorded.append {f : Failure} {place : Option Nat} {number : Nat}
    {events events' : List Event} (h : f.Recorded place number events events')
    (later : List Event) : f.Recorded place number (events ++ later) (events' ++ later) := by
  cases h with
  | elsewhere hplace events => exact .elsewhere hplace (events ++ later)
  | here hplace before after =>
      rw [List.append_assoc, List.append_assoc, List.cons_append]
      exact .here hplace before (after ++ later)

end Failure

namespace Metrics

/-- The metrics `m'` are `m` with one failure more. It was counted, unless the counters were reset
since, or given to the sink `place`. -/
structure WithFailure (f : Failure) (place : Option Nat) (m m' : Metrics) : Prop where
  installed : m'.installed = m.installed
  counters : m'.counters = m.counters ∨ place = none ∧ m'.counters = f.count m.counters
  gathered : ∀ number, f.Recorded place number (m.gathered number) (m'.gathered number)

namespace WithFailure

variable {f : Failure} {place : Option Nat} {m m' : Metrics}

theorem emit (h : m.WithFailure f place m') (e : Event) :
    (m.emit e).WithFailure f place (m'.emit e) := by
  constructor
  case installed => rw [installed_emit, installed_emit, h.installed]
  case counters =>
    rw [counters_emit, counters_emit, h.installed]
    split
    · cases h.counters with
      | inl heq => exact .inl (congrArg (Counters.record · e) heq)
      | inr hcount => exact .inr ⟨hcount.1, by rw [hcount.2, f.count_record]⟩
    · exact h.counters
  case gathered =>
    intro number
    rw [gathered_emit, gathered_emit, h.installed]
    split
    · exact (h.gathered number).append [e]
    · exact h.gathered number

/-- A failure is on record where events go when it comes. -/
theorem emit_event (m : Metrics) (f : Failure) :
    m.WithFailure f m.installed (m.emit f.event) := by
  constructor
  case installed => exact m.installed_emit f.event
  case counters =>
    rw [counters_emit, f.record_event]
    split
    · next hnone => exact .inr ⟨hnone, rfl⟩
    · exact .inl rfl
  case gathered =>
    intro number
    rw [gathered_emit]
    split
    · next hnumber => simpa using Failure.Recorded.here (f := f) hnumber (m.gathered number) []
    · next hnumber => exact .elsewhere hnumber _

theorem install (h : m.WithFailure f place m') (number : Nat) :
    (m.install number).WithFailure f place (m'.install number) :=
  ⟨rfl, h.counters, h.gathered⟩

theorem reset (h : m.WithFailure f place m') : m.reset.WithFailure f place m'.reset :=
  ⟨h.installed, .inl rfl, h.gathered⟩

theorem restore (h : m.WithFailure f place m') (previous : Option Nat) :
    (m.restore previous).WithFailure f place (m'.restore previous) :=
  ⟨rfl, h.counters, h.gathered⟩

end WithFailure
end Metrics

namespace Answer

/-- Answers that differ at most in readings of the counters or of the sink `place`. -/
inductive Like (f : Failure) (place : Option Nat) : Answer → Answer → Prop
  | same (answer : Answer) : Like f place answer answer
  | counters {c c' : Counters} (h : c' = c ∨ place = none ∧ c' = f.count c) :
      Like f place (.counters ⟨c⟩) (.counters ⟨c'⟩)
  | sink {number : Nat} {answers answers' : List Answer} {events events' : List Event}
      (panicked : Bool) (hevents : f.Recorded place number events events')
      (h : List.Forall₂ (Like f place) answers answers') :
      Like f place (.sink number answers events panicked) (.sink number answers' events' panicked)
  | journal {answers answers' : List Answer} (entries : List Entry)
      (h : List.Forall₂ (Like f place) answers answers') :
      Like f place (.journal answers entries) (.journal answers' entries)

end Answer

namespace Session

/-- The session `s'` is `s` with one failure more. The innermost `depth` journals were opened since,
so that they do not have it. -/
structure WithFailure (f : Failure) (place : Option Nat) (depth : Nat) (s s' : Session) : Prop where
  rosters : s'.rosters = s.rosters
  metrics : s.metrics.WithFailure f place s'.metrics
  journals : s'.monitor.journals.take depth = s.monitor.journals.take depth

namespace WithFailure

variable {f : Failure} {place : Option Nat} {depth : Nat} {s s' : Session}

theorem headD_eq_of_take_succ_eq {α : Type} {as bs : List (List α)} {n : Nat}
    (h : bs.take (n + 1) = as.take (n + 1)) :
    bs.headD [] = as.headD [] ∧ bs.tail.take n = as.tail.take n := by
  cases as with
  | nil =>
      cases bs with
      | nil => exact ⟨rfl, rfl⟩
      | cons b bs => cases h
  | cons a as =>
      cases bs with
      | nil => cases h
      | cons b bs => exact List.cons.inj h

theorem withMetrics (h : s.WithFailure f place depth s') {m m' : Metrics}
    (hm : m.WithFailure f place m') :
    (s.withMetrics m).WithFailure f place depth (s'.withMetrics m') :=
  ⟨h.rosters, hm, h.journals⟩

theorem conclude (h : s.WithFailure f place depth s') (o : Outcome) :
    (s.conclude o).1.Like f place (s'.conclude o).1 ∧
      (s.conclude o).2.WithFailure f place depth (s'.conclude o).2 := by
  refine ⟨.same _, rfl, ?_, ?_⟩
  · change (s.monitor.attend o).metrics.WithFailure f place (s'.monitor.attend o).metrics
    rw [Monitor.metrics_attend, Monitor.metrics_attend]
    apply List.foldl_rel (r := fun m m' : Metrics => m.WithFailure f place m')
    · exact h.metrics
    · intro e _ m m' ih
      exact ih.emit e
  · change (s'.monitor.attend o).journals.take depth = (s.monitor.attend o).journals.take depth
    rw [Monitor.journals_attend, Monitor.journals_attend, List.take_modifyHead,
      List.take_modifyHead, h.journals]

mutual

/-- The step lemma. What was counted or gathered before is no part of what a step goes by. -/
theorem run {s s' : Session} {depth : Nat} (h : s.WithFailure f place depth s') :
    (step : Step) →
    (s.run step).1.Like f place (s'.run step).1 ∧
      (s.run step).2.WithFailure f place depth (s'.run step).2
  | .build target names => by
      simp only [Session.run, h.rosters]
      exact h.conclude _
  | .buildKeyed target entries description => by
      simp only [Session.run, h.rosters]
      exact h.conclude _
  | .act source action => by
      simp only [Session.run, h.rosters]
      exact h.conclude _
  | .counters => ⟨.counters h.metrics.counters, h⟩
  | .reset => ⟨.same _, h.withMetrics h.metrics.reset⟩
  | .malformed => ⟨.same _, h⟩
  | .withJournal body => by
      have hopen : WithFailure f place (depth + 1)
          { s with monitor := s.monitor.openJournal }
          { s' with monitor := s'.monitor.openJournal } :=
        ⟨h.rosters, h.metrics, congrArg (List.cons []) h.journals⟩
      have inside := runAll hopen body
      obtain ⟨hentries, hjournals⟩ := headD_eq_of_take_succ_eq inside.2.journals
      simp only [Session.run, Monitor.closeJournal, hentries]
      exact ⟨.journal _ inside.1, inside.2.rosters, inside.2.metrics, hjournals⟩
  | .withSink number body panics => by
      have inside := runAll (h.withMetrics (h.metrics.install number)) body
      rw [s.run_withSink, s'.run_withSink, h.metrics.installed]
      exact ⟨.sink panics (inside.2.metrics.gathered number) inside.1,
        inside.2.withMetrics (inside.2.metrics.restore s.metrics.installed)⟩

theorem runAll {s s' : Session} {depth : Nat} (h : s.WithFailure f place depth s') :
    (steps : List Step) →
    List.Forall₂ (Answer.Like f place) (s.runAll steps).1 (s'.runAll steps).1 ∧
      (s.runAll steps).2.WithFailure f place depth (s'.runAll steps).2
  | [] => ⟨.nil, h⟩
  | step :: steps =>
      have first := run h step
      have others := runAll first.2 steps
      ⟨.cons first.1 others.1, others.2⟩

end

end WithFailure

/-- The same happens to two sessions: steps run in both, and blocks and journals that were open end
in both. -/
inductive Alongside (s s' : Session) : Session → Session → Prop
  | now : Alongside s s' s s'
  | run {t t' : Session} (h : Alongside s s' t t') (step : Step) :
      Alongside s s' (t.run step).2 (t'.run step).2
  | leaveSink {t t' : Session} (h : Alongside s s' t t') (previous : Option Nat) :
      Alongside s s' (t.withMetrics (t.metrics.restore previous))
        (t'.withMetrics (t'.metrics.restore previous))
  | leaveJournal {t t' : Session} (h : Alongside s s' t t') :
      Alongside s s' { t with monitor := t.monitor.closeJournal.2 }
        { t' with monitor := t'.monitor.closeJournal.2 }

theorem Alongside.withFailure {f : Failure} {place : Option Nat} {s s' t t' : Session}
    (h : Alongside s s' t t') (hs : s.WithFailure f place 0 s') : t.WithFailure f place 0 t' := by
  induction h with
  | now => exact hs
  | run _ step ih => exact (ih.run step).2
  | leaveSink _ previous ih => exact ih.withMetrics (ih.metrics.restore previous)
  | leaveJournal _ ih => exact ⟨ih.rosters, ih.metrics, rfl⟩

end Session
end ClassRoster
