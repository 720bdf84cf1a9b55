import ClassRoster.Observe.Counters

/-!
Where events go. One cell says which sink is installed, and where it is empty the events are
counted. A sink is known by its number and belongs to those who install it: it may be installed
again, also inside itself, and keeps what it was given when it is no longer installed. Nothing here
knows how blocks are nested: whoever installs a sink keeps what the cell held and puts it back.
-/

namespace ClassRoster

/-- `gathered` has for every sink what it was given so far. -/
structure Metrics where
  counters : Counters
  installed : Option Nat
  gathered : Nat → List Event

namespace Metrics

def start : Metrics := ⟨.zero, none, fun _ => []⟩

/-- Hands events to a sink. -/
def give (m : Metrics) (number : Nat) (events : List Event) : Metrics :=
  { m with gathered := fun k => if k = number then m.gathered k ++ events else m.gathered k }

def emit (m : Metrics) (event : Event) : Metrics :=
  match m.installed with
  | none => { m with counters := m.counters.record event }
  | some number => m.give number [event]

/-- Sets every counter back. Sinks keep what they were given. -/
def reset (m : Metrics) : Metrics := { m with counters := .zero }

/-- Installs a sink in place of whatever is installed. -/
def install (m : Metrics) (number : Nat) : Metrics := { m with installed := some number }

/-- Puts back what was installed before. -/
def restore (m : Metrics) (previous : Option Nat) : Metrics := { m with installed := previous }

theorem gathered_give_self (m : Metrics) (number : Nat) (events : List Event) :
    (m.give number events).gathered number = m.gathered number ++ events := if_pos rfl

theorem give_nil (m : Metrics) (number : Nat) : m.give number [] = m := by
  simp [give]

theorem give_give (m : Metrics) (number : Nat) (before after : List Event) :
    (m.give number before).give number after = m.give number (before ++ after) := by
  simp only [give, mk.injEq, true_and]
  funext k
  split
  · exact List.append_assoc _ _ _
  · rfl

theorem emit_of_installed_none {m : Metrics} (h : m.installed = none) (event : Event) :
    m.emit event = { m with counters := m.counters.record event } := by
  simp [emit, h]

theorem emit_of_installed_some {m : Metrics} {number : Nat} (h : m.installed = some number)
    (event : Event) : m.emit event = m.give number [event] := by
  simp [emit, h]

@[simp] theorem installed_emit (m : Metrics) (event : Event) :
    (m.emit event).installed = m.installed := by
  simp only [emit]
  split <;> rfl

theorem counters_emit (m : Metrics) (event : Event) :
    (m.emit event).counters =
      if m.installed = none then m.counters.record event else m.counters := by
  simp only [emit]
  cases m.installed with
  | none => rfl
  | some number => rfl

theorem gathered_emit (m : Metrics) (event : Event) (number : Nat) :
    (m.emit event).gathered number =
      if m.installed = some number then m.gathered number ++ [event] else m.gathered number := by
  simp only [emit]
  cases m.installed with
  | none => rfl
  | some installed => simp only [give, Option.some_inj, eq_comm]

end Metrics
end ClassRoster
