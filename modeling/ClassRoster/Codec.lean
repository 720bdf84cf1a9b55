import ClassRoster.Fault
import ClassRoster.Json.Record
import ClassRoster.Observe.Counters
import ClassRoster.Roster.Report

/-!
The JSON forms of what leaves the library and comes back: descriptors, tokens, reports,
counters and public errors. Each type has one form in which it is written; reading also takes
the other forms of records and labels.
-/

namespace ClassRoster

def Token.toJson (t : Token) : Json := .str t.name

def Token.ofJson? (j : Json) : Option Token := j.str?.map Token.mk

namespace Descriptor

def toJson (d : Descriptor) : Json := .obj [("name", .str d.name)]

def ofJson? (j : Json) : Option Descriptor := do
  match ← j.record? ["name"] with
  | [name] => some ⟨← name.str?⟩
  | _ => none

end Descriptor

namespace Report

def toJson (r : Report) : Json :=
  .obj [("description", .str r.description), ("prefix", .str r.root),
    ("classes", .ofStrings r.classes)]

def ofJson? (j : Json) : Option Report := do
  match ← j.record? ["description", "prefix", "classes"] with
  | [description, root, classes] =>
      some ⟨← description.str?, ← root.str?, ← classes.strings?⟩
  | _ => none

end Report

namespace Counters

def fieldNames : List String :=
  ["built_from_mapping", "built_from_iterable", "build_rejections", "classes_indexed",
    "filters_applied", "filters_described", "classes_scanned", "classes_retained",
    "redescriptions", "lookups", "lookup_misses"]

def words (c : Counters) : List UInt64 :=
  [c.builtFromMapping, c.builtFromIterable, c.buildRejections, c.classesIndexed,
    c.filtersApplied, c.filtersDescribed, c.classesScanned, c.classesRetained,
    c.redescriptions, c.lookups, c.lookupMisses]

def ofWords? : List UInt64 → Option Counters
  | [a, b, c, d, e, f, g, h, i, j, k] => some ⟨a, b, c, d, e, f, g, h, i, j, k⟩
  | _ => none

theorem ofWords?_words (c : Counters) : ofWords? c.words = some c := rfl

def toJson (c : Counters) : Json := .obj (fieldNames.zip (c.words.map .ofWord))

def ofJson? (j : Json) : Option Counters := do
  ofWords? (← (← j.record? fieldNames).mapM Json.word?)

end Counters

namespace CounterReport

def toJson (r : CounterReport) : Json := .obj [("counters", r.counters.toJson)]

def ofJson? (j : Json) : Option CounterReport := do
  match ← j.record? ["counters"] with
  | [counters] => some ⟨← Counters.ofJson? counters⟩
  | _ => none

end CounterReport

def Origin.toJson (o : Origin) : Json := .str o.title

def Origin.ofJson? (j : Json) : Option Origin := j.label? >>= ofTitle?

def ErrorKind.toJson (k : ErrorKind) : Json := .str k.title

def ErrorKind.ofJson? (j : Json) : Option ErrorKind := j.label? >>= ofTitle?

namespace PublicError

def toJson (e : PublicError) : Json :=
  .obj [("kind", e.kind.toJson), ("origin", e.origin.toJson), ("message", .str e.message)]

def ofJson? (j : Json) : Option PublicError := do
  match ← j.record? ["kind", "origin", "message"] with
  | [kind, origin, message] =>
      some ⟨← ErrorKind.ofJson? kind, ← Origin.ofJson? origin, ← message.str?⟩
  | _ => none

end PublicError
end ClassRoster
