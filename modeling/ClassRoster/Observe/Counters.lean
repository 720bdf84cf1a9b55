import ClassRoster.Observe.Event

/-!
Counters of events. A counter is a word of 64 bits that stays at its greatest value once it has
reached it; `toNat_saturatingAdd` is the one fact about that on which the rest stands.
-/

namespace ClassRoster

/-- The greatest value of a counter. -/
def counterLimit : Nat := UInt64.size - 1

def saturatingAdd (a : UInt64) (n : Nat) : UInt64 :=
  UInt64.ofNatLT (min (a.toNat + n) counterLimit) (by simp only [counterLimit, UInt64.size]; omega)

theorem toNat_saturatingAdd (a : UInt64) (n : Nat) :
    (saturatingAdd a n).toNat = min (a.toNat + n) counterLimit := by
  simp [saturatingAdd]

structure Counters where
  builtFromMapping : UInt64
  builtFromIterable : UInt64
  buildRejections : UInt64
  classesIndexed : UInt64
  filtersApplied : UInt64
  filtersDescribed : UInt64
  classesScanned : UInt64
  classesRetained : UInt64
  redescriptions : UInt64
  lookups : UInt64
  lookupMisses : UInt64
deriving DecidableEq, Repr

namespace Counters

def zero : Counters := ⟨0, 0, 0, 0, 0, 0, 0, 0, 0, 0, 0⟩

def record (c : Counters) : Event → Counters
  | .built .mapping classes =>
      { c with
        builtFromMapping := saturatingAdd c.builtFromMapping 1
        classesIndexed := saturatingAdd c.classesIndexed classes }
  | .built .iterable classes =>
      { c with
        builtFromIterable := saturatingAdd c.builtFromIterable 1
        classesIndexed := saturatingAdd c.classesIndexed classes }
  | .rejected _ => { c with buildRejections := saturatingAdd c.buildRejections 1 }
  | .filtered described scanned retained =>
      { c with
        filtersApplied := saturatingAdd c.filtersApplied 1
        filtersDescribed := saturatingAdd c.filtersDescribed described.toNat
        classesScanned := saturatingAdd c.classesScanned scanned
        classesRetained := saturatingAdd c.classesRetained retained }
  | .redescribed => { c with redescriptions := saturatingAdd c.redescriptions 1 }
  | .lookup hit =>
      { c with
        lookups := saturatingAdd c.lookups 1
        lookupMisses := saturatingAdd c.lookupMisses (!hit).toNat }

/-- Records events one after the other. -/
def recordAll (c : Counters) (events : List Event) : Counters := events.foldl record c

/-- The rosters built in either way, again up to the limit. -/
def collectionsBuilt (c : Counters) : UInt64 :=
  saturatingAdd c.builtFromMapping c.builtFromIterable.toNat

end Counters

/-- The counters at one moment, as they are handed out. -/
structure CounterReport where
  counters : Counters
deriving DecidableEq, Repr

end ClassRoster
