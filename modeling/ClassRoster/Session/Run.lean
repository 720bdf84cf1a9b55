import ClassRoster.Observe.Monitor
import ClassRoster.Session.Outcome

/-!
Running a session. A session has its rosters by name and its monitor. A step that cannot be
carried out changes nothing, apart from what a failed build or look-up reports. A block hands over
to its body with a sink installed, and the body returns or panics. On both ways out the block's
guard is dropped, which puts back what was installed when the block was entered; a panic goes no
further than to whoever runs the block.
-/

namespace ClassRoster

structure Session where
  rosters : Index Roster
  monitor : Monitor

namespace Session

def start : Session := ⟨.empty, .start⟩

/-- Takes over an outcome and hands on what it reports. -/
def conclude (s : Session) (o : Outcome) : Answer × Session :=
  (o.value.1, ⟨o.value.2, s.monitor.attend o⟩)

def withMetrics (s : Session) (metrics : Metrics) : Session :=
  { s with monitor := { s.monitor with metrics } }

def metrics (s : Session) : Metrics := s.monitor.metrics

end Session

/-- How the body of a block comes out. Either way it leaves a session, and what its steps answered
is known outside. -/
inductive Completion where
  | returned (answers : List Answer) (left : Session)
  | panicked (answers : List Answer) (left : Session)

namespace Completion

/-- A body after the last of its steps. -/
def ofSteps (panics : Bool) (inside : List Answer × Session) : Completion :=
  if panics then panicked inside.1 inside.2 else returned inside.1 inside.2

/-- The guard holds what was installed before the block. It is dropped when the body returns, and
when a panic unwinds out of it. -/
def dropGuard (previous : Option Nat) : Completion → Completion
  | returned answers left => returned answers (left.withMetrics (left.metrics.restore previous))
  | panicked answers left => panicked answers (left.withMetrics (left.metrics.restore previous))

/-- What is found outside the block whose sink is `number`, where a panic is caught. -/
def caught (number : Nat) : Completion → Answer × Session
  | returned answers left => (.sink number answers (left.metrics.gathered number) false, left)
  | panicked answers left => (.sink number answers (left.metrics.gathered number) true, left)

end Completion

namespace Session

mutual

def run (s : Session) : Step → Answer × Session
  | .build target names => s.conclude (.build s.rosters target names)
  | .buildKeyed target entries description =>
      s.conclude (.buildKeyed s.rosters target entries description)
  | .counters => (.counters ⟨s.metrics.counters⟩, s)
  | .reset => (.done, s.withMetrics s.metrics.reset)
  | .withSink number body panics =>
      let previous := s.metrics.installed
      let inside := runAll (s.withMetrics (s.metrics.install number)) body
      ((Completion.ofSteps panics inside).dropGuard previous).caught number
  | .withJournal body =>
      let inside := runAll { s with monitor := s.monitor.openJournal } body
      let closed := inside.2.monitor.closeJournal
      (.journal inside.1 closed.1, { inside.2 with monitor := closed.2 })
  | .act source action => s.conclude (.actOn s.rosters source action)
  | .malformed => (.malformed, s)

def runAll (s : Session) : List Step → List Answer × Session
  | [] => ([], s)
  | step :: steps =>
      let first := run s step
      let others := runAll first.2 steps
      (first.1 :: others.1, others.2)

end

/-- Whether the body returns or panics, what was installed before is put back. -/
theorem run_withSink (s : Session) (number : Nat) (body : List Step) (panics : Bool) :
    s.run (.withSink number body panics) =
      let inside := (s.withMetrics (s.metrics.install number)).runAll body
      (.sink number inside.1 (inside.2.metrics.gathered number) panics,
        inside.2.withMetrics (inside.2.metrics.restore s.metrics.installed)) := by
  cases panics with
  | false => rfl
  | true => rfl

end Session
end ClassRoster
