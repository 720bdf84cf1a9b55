import ClassRoster.Criterion.Basic
import ClassRoster.Descriptor
import ClassRoster.Index
import ClassRoster.Roster.Error

/-!
Rosters: sets of classes that say how they came about. A roster holds its classes by name and
two phrases. The root is what was said when it was built or last renamed; the description is
the root, with the phrase of the last described criterion appended. Criteria applied one after
the other therefore never pile up in the description.
-/

namespace ClassRoster

structure Roster where
  classes : Index Descriptor
  description : String
  root : String
deriving Repr

namespace Roster

/-- The description of a roster that was built without one. -/
def defaultDescription : String := "classes"

/-- What stands between a root and a criterion's phrase. -/
def connector : String := " that "

/-- The roster of some classes under a first description, which is also its root. -/
def ofIndex (classes : Index Descriptor) (description : String) : Roster :=
  ⟨classes, description, description⟩

/-- Adds a class under its own name. -/
def addClass (classes : Index Descriptor) (d : Descriptor) :
    Except RosterError (Index Descriptor) :=
  match classes.insertNew? d.name d with
  | some classes => .ok classes
  | none => .error (.duplicateKey d.name)

/-- Adds a class under a key that has to be its name. A wrong key is found before a double one. -/
def addEntry (classes : Index Descriptor) (entry : String × Descriptor) :
    Except RosterError (Index Descriptor) :=
  if entry.1 = entry.2.name then addClass classes entry.2
  else .error (.keyMismatch entry.1 entry.2.name)

/-- Builds a roster from classes in any order. -/
def ofList (ds : List Descriptor) : Except RosterError Roster :=
  match ds.foldlM addClass .empty with
  | .ok classes => .ok (ofIndex classes defaultDescription)
  | .error e => .error e

/-- Builds a roster from keyed classes. The description is looked at last. -/
def ofEntries (entries : List (String × Descriptor)) (description : String) :
    Except RosterError Roster :=
  match entries.foldlM addEntry .empty with
  | .ok classes =>
      if description.isEmpty then .error .emptyDescription
      else .ok (ofIndex classes description)
  | .error e => .error e

/-- Keeps the classes that a criterion accepts. A described criterion gives the roster a new
description, which hangs from the root; any other leaves the description as it is. -/
def filter (r : Roster) (c : Criterion Descriptor) : Roster where
  classes := r.classes.filter c.accepts
  description := if c.described then r.root ++ connector ++ c.description else r.description
  root := r.root

/-- The same classes under a new description, which is also the new root. -/
def redescribe (r : Roster) (description : String) : Roster := ofIndex r.classes description

def size (r : Roster) : Nat := r.classes.size

def isEmpty (r : Roster) : Bool := r.classes.isEmpty

/-- The names under which the classes are held, in order. -/
def names (r : Roster) : List String := r.classes.keys

/-- The classes, in the order of the names they are held under. -/
def descriptors (r : Roster) : List Descriptor := r.classes.values

def contains (r : Roster) (name : String) : Bool := r.classes.contains name

def get (r : Roster) (name : String) : Except RosterError Descriptor :=
  match r.classes.find? name with
  | some d => .ok d
  | none => .error (.notFound name)

def containsToken (r : Roster) (t : Token) : Bool := r.contains t.name

def getToken (r : Roster) (t : Token) : Except RosterError Descriptor := r.get t.name

/-- Rosters are compared by description and classes. The root does not count. -/
instance : BEq Roster := ⟨fun a b => a.description == b.description && a.classes == b.classes⟩

def dump (r : Roster) : String :=
  let classes := r.classes.entries.map fun e => Text.Dump.entry (Text.quoted e.1) e.2.dump
  Text.Dump.record "ClassCollection"
    [("classes", Text.Dump.braced classes), ("description", Text.quoted r.description),
      ("prefix", Text.quoted r.root)]

theorem beq_iff {a b : Roster} :
    (a == b) = true ↔ a.description = b.description ∧ a.classes = b.classes := by
  show (a.description == b.description && a.classes == b.classes) = true ↔ _
  simp

@[simp] theorem root_filter (r : Roster) (c : Criterion Descriptor) :
    (r.filter c).root = r.root := rfl

@[simp] theorem descriptors_filter (r : Roster) (c : Criterion Descriptor) :
    (r.filter c).descriptors = r.descriptors.filter c.accepts := by
  simp [descriptors, filter, Index.values, Index.filter, List.filter_map, Function.comp_def]

@[simp] theorem classes_redescribe (r : Roster) (description : String) :
    (r.redescribe description).classes = r.classes := rfl

end Roster
end ClassRoster
