/-!
JSON values. Whole numbers are kept as integers; any other number is kept as it was written,
since nothing here computes with one. The fields of an object stand in the order in which they
are to be written.
-/

namespace ClassRoster

inductive Json where
  | null
  | bool (b : Bool)
  | int (n : Int)
  | real (literal : String)
  | str (s : String)
  | arr (items : List Json)
  | obj (fields : List (String × Json))

namespace Json

instance : Inhabited Json := ⟨null⟩

def ofNat (n : Nat) : Json := int n

def ofStrings (texts : List String) : Json := arr (texts.map str)

def str? : Json → Option String
  | str s => some s
  | _ => none

def int? : Json → Option Int
  | int n => some n
  | _ => none

def arr? : Json → Option (List Json)
  | arr items => some items
  | _ => none

/-- The value of a field, for an object that has the field once. -/
def field? (j : Json) (name : String) : Option Json :=
  match j with
  | obj fields =>
      match fields.filter fun f => f.1 == name with
      | [(_, value)] => some value
      | _ => none
  | _ => none

/-- An array of strings and nothing else. -/
def strings? (j : Json) : Option (List String) := j.arr? >>= List.mapM str?

end Json
end ClassRoster
