import ClassRoster.Observe.Event
import ClassRoster.Observe.Journal
import ClassRoster.Roster.Basic

/-!
The operations on rosters together with what they report: each answers with its result, the
events it emits and the entries it writes. What becomes of events and entries is decided
elsewhere, so that a result cannot depend on who is listening.
-/

namespace ClassRoster

structure Observed (α : Type) where
  value : α
  events : List Event
  entries : List Entry

namespace Observed

/-- A value that was got without reporting anything. -/
def silent {α : Type} (value : α) : Observed α := ⟨value, [], []⟩

def map {α β : Type} (o : Observed α) (f : α → β) : Observed β := ⟨f o.value, o.events, o.entries⟩

/-- A build is reported once, when it is known how it ends. -/
def build (source : Source) (result : Except RosterError Roster) :
    Observed (Except RosterError Roster) where
  value := result
  events :=
    match result with
    | .ok r => [.built source r.size]
    | .error _ => [.rejected source]
  entries :=
    match result with
    | .ok r => [.built r.size r.description source]
    | .error e => [.rejected e.message source]

def ofList (ds : List Descriptor) : Observed (Except RosterError Roster) :=
  build .iterable (Roster.ofList ds)

def ofEntries (entries : List (String × Descriptor)) (description : String) :
    Observed (Except RosterError Roster) :=
  build .mapping (Roster.ofEntries entries description)

def filter (r : Roster) (c : Criterion Descriptor) : Observed Roster where
  value := r.filter c
  events := [.filtered c.described r.size (r.filter c).size]
  entries := [.filtered r.size (r.filter c).size (r.filter c).description]

def redescribe (r : Roster) (description : String) : Observed Roster where
  value := r.redescribe description
  events := [.redescribed]
  entries := []

def get (r : Roster) (name : String) : Observed (Except RosterError Descriptor) where
  value := r.get name
  events := [.lookup (r.contains name)]
  entries := []

/-- A look-up by token is reported like one by name. -/
def getToken (r : Roster) (t : Token) : Observed (Except RosterError Descriptor) where
  value := r.getToken t
  events := [.lookup (r.containsToken t)]
  entries := []

end Observed
end ClassRoster
