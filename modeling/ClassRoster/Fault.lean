import ClassRoster.Roster.Error

/-!
Two classifications of the same failures. A fault carries the internal category and origin, a public
error the stable kind and origin; the sentence is common to both. A cause is made into a fault by
its category alone, and into a public error by way of the fault. Faults are also raised from
outside, with any category, origin and sentence, so that a fault is more than a cause.
-/

namespace ClassRoster

inductive Category where
  | conflict
  | invariantViolation
  | notFound
deriving DecidableEq, Repr

def Category.label : Category → String
  | conflict => "conflict"
  | invariantViolation => "invariant_violation"
  | notFound => "not_found"

/-- The family of operations that raised a fault. -/
inductive FaultOrigin where
  | build
  | lookup
deriving DecidableEq, Repr

def FaultOrigin.label : FaultOrigin → String
  | build => "build"
  | lookup => "lookup"

structure Fault where
  category : Category
  origin : FaultOrigin
  message : String
deriving DecidableEq, Repr

namespace Fault

/-- A rule was broken while building. -/
def buildInvariant (message : String) : Fault := ⟨.invariantViolation, .build, message⟩

/-- Two classes met under one key while building. -/
def buildConflict (message : String) : Fault := ⟨.conflict, .build, message⟩

/-- A class was looked up in vain. -/
def lookupNotFound (message : String) : Fault := ⟨.notFound, .lookup, message⟩

end Fault

namespace RosterError

def category : RosterError → Category
  | duplicateKey _ => .conflict
  | emptyDescription | keyMismatch _ _ => .invariantViolation
  | notFound _ => .notFound

/-- The category chooses among the ways to make a fault, and each of them has its origin. -/
def fault (e : RosterError) : Fault :=
  match e.category with
  | .notFound => .lookupNotFound e.message
  | .conflict => .buildConflict e.message
  | .invariantViolation => .buildInvariant e.message

end RosterError

inductive ErrorKind where
  | duplicateKey
  | invariantBroken
  | notFound
deriving DecidableEq, Repr

def ErrorKind.title : ErrorKind → String
  | duplicateKey => "DuplicateKey"
  | invariantBroken => "InvariantBroken"
  | notFound => "NotFound"

def ErrorKind.ofTitle? (title : String) : Option ErrorKind :=
  [duplicateKey, invariantBroken, notFound].find? (·.title == title)

/-- The family of operations that failed, as public errors tell it. -/
inductive Origin where
  | build
  | lookup
deriving DecidableEq, Repr

def Origin.title : Origin → String
  | build => "Build"
  | lookup => "Lookup"

def Origin.ofTitle? (title : String) : Option Origin := [build, lookup].find? (·.title == title)

structure PublicError where
  kind : ErrorKind
  origin : Origin
  message : String
deriving DecidableEq, Repr

def Category.kind : Category → ErrorKind
  | conflict => .duplicateKey
  | invariantViolation => .invariantBroken
  | notFound => .notFound

def FaultOrigin.published : FaultOrigin → Origin
  | build => .build
  | lookup => .lookup

def Fault.publicError (f : Fault) : PublicError :=
  ⟨f.category.kind, f.origin.published, f.message⟩

def RosterError.publicError (e : RosterError) : PublicError := e.fault.publicError

theorem Category.kind_inj {c c' : Category} : c.kind = c'.kind ↔ c = c' := by
  cases c <;> cases c' <;> simp [kind]

theorem FaultOrigin.published_inj {o o' : FaultOrigin} : o.published = o'.published ↔ o = o' := by
  cases o <;> cases o' <;> simp [published]

namespace RosterError

@[simp] theorem category_fault (e : RosterError) : e.fault.category = e.category := by
  cases e <;> rfl

@[simp] theorem message_fault (e : RosterError) : e.fault.message = e.message := by
  cases e <;> rfl

/-- Only a look-up does not build. -/
theorem origin_fault_eq_lookup_iff {e : RosterError} :
    e.fault.origin = .lookup ↔ e.category = .notFound := by
  simp only [fault]
  cases e.category <;> simp [Fault.lookupNotFound, Fault.buildConflict, Fault.buildInvariant]

end RosterError
end ClassRoster
