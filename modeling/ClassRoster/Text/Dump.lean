import ClassRoster.Text.Quoted

/-!
The layout of a dump: a value is its type's name followed by its parts. The parts are given as
texts that are already dumped; this module only sets names, braces and commas around them.
-/

namespace ClassRoster
namespace Text
namespace Dump

def braced (parts : List String) : String :=
  match parts with
  | [] => "\x7b\x7d"
  | parts => "\x7b" ++ String.intercalate ", " parts ++ "\x7d"

def entry (key value : String) : String := key ++ ": " ++ value

/-- Named fields: `Name { field: value }`. -/
def record (name : String) (fields : List (String × String)) : String :=
  name ++ " \x7b " ++ String.intercalate ", " (fields.map fun f => entry f.1 f.2) ++ " \x7d"

/-- Named fields of which some are left out: `Name { field: value, .. }`. -/
def openRecord (name : String) (fields : List (String × String)) : String :=
  name ++ " \x7b " ++ String.join (fields.map fun f => entry f.1 f.2 ++ ", ") ++ ".. \x7d"

/-- A value wrapped in its type: `Name(value)`. -/
def wrapped (name value : String) : String := name ++ "(" ++ value ++ ")"

def truth (b : Bool) : String := if b then "true" else "false"

end Dump
end Text
end ClassRoster
