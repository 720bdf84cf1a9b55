import ClassRoster.Observe.Counters
import ClassRoster.Observe.Journal
import ClassRoster.Roster.Cursor
import ClassRoster.Roster.Report

/-!
What a step of a session answers. Each way to ask has its own shape of answer, so that an
answer can be written down without knowing the question.
-/

namespace ClassRoster

/-- A block answers with the answers of its steps, with all that its sink has gathered when the
block is left, and with how it was left. -/
inductive Answer where
  | summary (r : Report)
  | failed (e : RosterError)
  | noSuchRoster
  | malformed
  | done
  | counters (c : CounterReport)
  | text (s : String)
  | truth (b : Bool)
  | descriptor (d : Descriptor)
  | descriptors (ds : List Descriptor)
  | names (ns : List String)
  | namesCounted (ns : List String)
  | walk (answers : List Cursor.Answer)
  | report (r : Report)
  | comparison (equal reportsEqual : Bool)
  | sink (number : Nat) (answers : List Answer) (events : List Event) (panicked : Bool)
  | journal (answers : List Answer) (entries : List Entry)

end ClassRoster
