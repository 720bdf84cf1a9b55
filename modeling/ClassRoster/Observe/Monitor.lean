import ClassRoster.Observe.Metrics
import ClassRoster.Observe.Observed

/-!
Who listens. Events go where the metrics send them; entries go to the innermost open journal,
or nowhere. Sinks and journals do not know of each other.
-/

namespace ClassRoster

/-- What was gathered so far is in `journals`, the innermost one first. -/
structure Monitor where
  metrics : Metrics
  journals : List (List Entry)

namespace Monitor

def start : Monitor := ⟨.start, []⟩

def emit (m : Monitor) (event : Event) : Monitor := { m with metrics := m.metrics.emit event }

def write (m : Monitor) (entry : Entry) : Monitor :=
  match m.journals with
  | [] => m
  | innermost :: outer => { m with journals := (innermost ++ [entry]) :: outer }

/-- Hands on all that an operation reports. -/
def attend {α : Type} (m : Monitor) (o : Observed α) : Monitor :=
  o.entries.foldl write (o.events.foldl emit m)

def openJournal (m : Monitor) : Monitor := { m with journals := [] :: m.journals }

/-- Closes the innermost journal and gives what it gathered. -/
def closeJournal (m : Monitor) : List Entry × Monitor :=
  (m.journals.headD [], { m with journals := m.journals.tail })

@[simp] theorem metrics_write (m : Monitor) (entry : Entry) :
    (m.write entry).metrics = m.metrics := by
  simp only [write]
  split <;> rfl

/-- Entries do not reach the metrics. -/
theorem metrics_attend {α : Type} (m : Monitor) (o : Observed α) :
    (m.attend o).metrics = o.events.foldl Metrics.emit m.metrics := by
  have hevents : (o.events.foldl emit m).metrics = o.events.foldl Metrics.emit m.metrics := by
    apply List.foldl_rel (r := fun (m' : Monitor) (metrics : Metrics) => m'.metrics = metrics)
    · rfl
    · intro event _ m' metrics ih
      exact congrArg (·.emit event) ih
  rw [← hevents]
  apply List.foldlRecOn
    (motive := fun m' : Monitor => m'.metrics = (o.events.foldl emit m).metrics)
  · rfl
  · intro m' ih entry _
    exact (m'.metrics_write entry).trans ih

theorem closeJournal_openJournal (m : Monitor) : m.openJournal.closeJournal = ([], m) := rfl

end Monitor
end ClassRoster
