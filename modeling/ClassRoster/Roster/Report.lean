import ClassRoster.Roster.Basic

/-!
The report of a roster: its two phrases and the names of its classes, for those who read about
a roster without holding it.
-/

namespace ClassRoster

structure Report where
  description : String
  root : String
  classes : List String
deriving DecidableEq, Repr

namespace Report

def blank : Report := ⟨"", "", []⟩

def size (r : Report) : Nat := r.classes.length

def isEmpty (r : Report) : Bool := r.classes.isEmpty

end Report

def Roster.report (r : Roster) : Report := ⟨r.description, r.root, r.names⟩

end ClassRoster
