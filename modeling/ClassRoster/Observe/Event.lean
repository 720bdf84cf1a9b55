/-!
What an operation on rosters reports about itself. Only numbers and flags are reported, never
a name or a phrase.
-/

namespace ClassRoster

/-- What a roster was built from. -/
inductive Source where
  | mapping
  | iterable
deriving DecidableEq, Repr

def Source.title : Source → String
  | mapping => "Mapping"
  | iterable => "Iterable"

inductive Event where
  | built (source : Source) (classes : Nat)
  | rejected (source : Source)
  | filtered (described : Bool) (scanned retained : Nat)
  | redescribed
  | lookup (hit : Bool)
deriving DecidableEq, Repr

end ClassRoster
