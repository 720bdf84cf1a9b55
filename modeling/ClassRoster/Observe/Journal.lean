import ClassRoster.Observe.Event

/-!
Entries of the journal. Builds, rejected builds and filters are written down with their
phrases; renaming a roster and looking a class up leave no entry.
-/

namespace ClassRoster

inductive Entry where
  | built (classes : Nat) (description : String) (source : Source)
  | rejected (reason : String) (source : Source)
  | filtered (scanned retained : Nat) (description : String)
deriving DecidableEq, Repr

namespace Entry

def level : Entry → String
  | built .. | rejected .. => "DEBUG"
  | filtered .. => "TRACE"

def headline : Entry → String
  | built .. => "class collection built"
  | rejected .. => "class collection rejected"
  | filtered .. => "class collection filtered"

end Entry
end ClassRoster
