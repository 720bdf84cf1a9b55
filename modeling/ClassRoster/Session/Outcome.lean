import ClassRoster.Observe.Observed
import ClassRoster.Session.Answer
import ClassRoster.Session.Step

/-!
What an action comes to: its answer, the rosters as it leaves them, and what it reports on the
way. All of it depends on the rosters alone. A failed build or look-up leaves the rosters as
they are and still reports.
-/

namespace ClassRoster

abbrev Outcome := Observed (Answer × Index Roster)

namespace Outcome

/-- An answer read off the rosters. -/
def reply (rosters : Index Roster) (answer : Answer) : Outcome := .silent (answer, rosters)

/-- Puts a new roster in its place. -/
def put (rosters : Index Roster) (target : String) (o : Observed Roster) : Outcome :=
  o.map fun r => (.summary r.report, rosters.insert target r)

/-- Puts a roster in its place if it could be built. -/
def putBuilt (rosters : Index Roster) (target : String)
    (o : Observed (Except RosterError Roster)) : Outcome :=
  o.map fun
    | .ok r => (.summary r.report, rosters.insert target r)
    | .error e => (.failed e, rosters)

/-- Answers a look-up. -/
def lookUp (rosters : Index Roster) (o : Observed (Except RosterError Descriptor)) : Outcome :=
  o.map fun
    | .ok d => (.descriptor d, rosters)
    | .error e => (.failed e, rosters)

def build (rosters : Index Roster) (target : String) (names : List String) : Outcome :=
  putBuilt rosters target (.ofList (names.map Descriptor.mk))

def buildKeyed (rosters : Index Roster) (target : String) (entries : List (String × String))
    (description : String) : Outcome :=
  putBuilt rosters target (.ofEntries (entries.map fun e => (e.1, ⟨e.2⟩)) description)

def compare (rosters : Index Roster) (r : Roster) (other : String) : Answer :=
  match rosters.find? other with
  | some q => .comparison (r == q) (r.report == q.report)
  | none => .noSuchRoster

/-- Work on the roster `r`, which is one of `rosters`. -/
def act (rosters : Index Roster) (r : Roster) : Action → Outcome
  | .filter target c => put rosters target (.filter r c)
  | .redescribe target description => put rosters target (.redescribe r description)
  | .rebuild target => putBuilt rosters target (.ofList r.descriptors)
  | .summary => reply rosters (.summary r.report)
  | .description => reply rosters (.text r.description)
  | .root => reply rosters (.text r.root)
  | .containsToken t => reply rosters (.truth (r.containsToken t))
  | .contains name => reply rosters (.truth (r.contains name))
  | .getToken t => lookUp rosters (.getToken r t)
  | .get name => lookUp rosters (.get r name)
  | .names => reply rosters (.namesCounted r.names)
  | .descriptorNames => reply rosters (.namesCounted (r.descriptors.map Descriptor.name))
  | .descriptors => reply rosters (.descriptors r.descriptors)
  | .reversed => reply rosters (.names (r.descriptors.reverse.map Descriptor.name))
  | .walk calls => reply rosters (.walk (r.cursor.run calls))
  | .report => reply rosters (.report r.report)
  | .compare other => reply rosters (compare rosters r other)
  | .dump => reply rosters (.text r.dump)
  | .malformed => reply rosters .malformed

/-- Work on the roster of a name, if there is one. -/
def actOn (rosters : Index Roster) (source : String) (action : Action) : Outcome :=
  match rosters.find? source with
  | some r => act rosters r action
  | none => reply rosters .noSuchRoster

end Outcome
end ClassRoster
