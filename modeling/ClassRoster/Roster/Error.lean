import ClassRoster.Text.Dump

/-!
Why a roster cannot be built or a class cannot be found, and the sentence for each cause.
-/

namespace ClassRoster

inductive RosterError where
  | duplicateKey (name : String)
  | emptyDescription
  | keyMismatch (key name : String)
  | notFound (name : String)
deriving DecidableEq, Repr

namespace RosterError

def message : RosterError → String
  | duplicateKey name => "class '" ++ name ++ "' supplied more than once"
  | emptyDescription => "class collection description must not be empty"
  | keyMismatch key name => "class keyed as '" ++ key ++ "' is named '" ++ name ++ "'"
  | notFound name => "class '" ++ name ++ "' not found in collection"

/-- The name of the cause, without what it carries. -/
def title : RosterError → String
  | duplicateKey _ => "DuplicateKey"
  | emptyDescription => "EmptyDescription"
  | keyMismatch _ _ => "KeyMismatch"
  | notFound _ => "NotFound"

def dump (e : RosterError) : String :=
  match e with
  | duplicateKey name | notFound name => Text.Dump.record e.title [("name", Text.quoted name)]
  | emptyDescription => e.title
  | keyMismatch key name =>
      Text.Dump.record e.title [("key", Text.quoted key), ("name", Text.quoted name)]

end RosterError
end ClassRoster
