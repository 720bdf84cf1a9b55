import ClassRoster.Text.Dump

/-!
A criterion is a test together with the phrase that says what it accepts. The phrase is text
only: combining two criteria combines their tests and, separately, their phrases, and nothing
reads a phrase back. A criterion without a phrase of its own carries a placeholder and is
marked, so that a collection knows not to quote it.
-/

namespace ClassRoster

/-- A test of values of `α`. `described` is false as long as no part of the phrase was given
by the caller. -/
structure Criterion (α : Type) where
  description : String
  described : Bool
  accepts : α → Bool

namespace Criterion

variable {α β γ : Type}

/-- The phrase of a criterion that has none. -/
def placeholder : String := "<undescribed>"

def ofTest (description : String) (test : α → Bool) : Criterion α := ⟨description, true, test⟩

def undescribed (test : α → Bool) : Criterion α := ⟨placeholder, false, test⟩

def always : Criterion α := ofTest "always true" fun _ => true

def never : Criterion α := ofTest "always false" fun _ => false

/-- The same test under a new phrase, which counts as given by the caller. -/
def redescribe (c : Criterion α) (description : String) : Criterion α :=
  { c with description, described := true }

def and (a b : Criterion α) : Criterion α where
  description := "(" ++ a.description ++ ") and (" ++ b.description ++ ")"
  described := a.described || b.described
  accepts x := a.accepts x && b.accepts x

def or (a b : Criterion α) : Criterion α where
  description := "(" ++ a.description ++ ") or (" ++ b.description ++ ")"
  described := a.described || b.described
  accepts x := a.accepts x || b.accepts x

def negate (c : Criterion α) : Criterion α where
  description := "not (" ++ c.description ++ ")"
  described := c.described
  accepts x := !c.accepts x

instance : AndOp (Criterion α) := ⟨and⟩

instance : OrOp (Criterion α) := ⟨or⟩

instance : Complement (Criterion α) := ⟨negate⟩

def negateTimes (c : Criterion α) : Nat → Criterion α
  | 0 => c
  | n + 1 => (c.negateTimes n).negate

/-- Tests a projection of the value. The phrase is kept as it is. -/
def comap (c : Criterion α) (project : β → α) : Criterion β where
  description := c.description
  described := c.described
  accepts x := c.accepts (project x)

/-- A copy, made field by field. It shares the test. -/
def clone (c : Criterion α) : Criterion α where
  description := c.description
  described := c.described
  accepts := c.accepts

def dump (c : Criterion α) : String :=
  Text.Dump.openRecord "DescribedPredicate"
    [("description", Text.quoted c.description), ("has_description", Text.Dump.truth c.described)]

theorem comap_comap (c : Criterion α) (f : β → α) (g : γ → β) :
    (c.comap f).comap g = c.comap (f ∘ g) := rfl

theorem comap_and (a b : Criterion α) (f : β → α) :
    (a.and b).comap f = (a.comap f).and (b.comap f) := rfl

theorem comap_or (a b : Criterion α) (f : β → α) :
    (a.or b).comap f = (a.comap f).or (b.comap f) := rfl

theorem comap_negate (c : Criterion α) (f : β → α) :
    c.negate.comap f = (c.comap f).negate := rfl

theorem clone_eq (c : Criterion α) : c.clone = c := rfl

theorem comap_clone (c : Criterion α) (f : β → α) :
    c.clone.comap f = (c.comap f).clone := rfl

end Criterion
end ClassRoster
