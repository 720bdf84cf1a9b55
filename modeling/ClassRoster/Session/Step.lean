import ClassRoster.Criterion.Basic
import ClassRoster.Descriptor
import ClassRoster.Roster.Cursor

/-!
What can be asked for in a session. Rosters are kept under names; an action works on one of
them, and a step is an action, a build, or something about the counters and those who listen.
Steps may enclose steps: a sink and a journal are open for as long as the steps inside run. The
sink of a block is named, so that several blocks may share one.
-/

namespace ClassRoster

/-- Work on one roster. `target` names the place of the result, which may be where the roster came
from. A malformed action has a roster and nothing it could do with it. -/
inductive Action where
  | filter (target : String) (c : Criterion Descriptor)
  | redescribe (target : String) (description : String)
  | rebuild (target : String)
  | summary
  | description
  | root
  | containsToken (t : Token)
  | contains (name : String)
  | getToken (t : Token)
  | get (name : String)
  | names
  | descriptorNames
  | descriptors
  | reversed
  | walk (calls : List Cursor.Call)
  | report
  | compare (other : String)
  | dump
  | malformed

/-- A block runs its steps and then returns, or `panics`. A panic is caught just outside. -/
inductive Step where
  | build (target : String) (names : List String)
  | buildKeyed (target : String) (entries : List (String × String)) (description : String)
  | counters
  | reset
  | withSink (number : Nat) (body : List Step) (panics : Bool)
  | withJournal (body : List Step)
  | act (source : String) (action : Action)
  | malformed

instance : Inhabited Step := ⟨.malformed⟩

end ClassRoster
