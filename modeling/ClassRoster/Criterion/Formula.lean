import ClassRoster.Criterion.Basic

/-!
Criteria as written down. A formula keeps the tree that a criterion forgets: its leaves are
criteria, its inner nodes the ways to combine, to rename and to copy them. What is said about all
the ways to build a criterion is said by induction on formulas.
-/

namespace ClassRoster

inductive Formula (α : Type) where
  | leaf (c : Criterion α)
  | and (left right : Formula α)
  | or (left right : Formula α)
  | negate (inner : Formula α)
  | redescribe (inner : Formula α) (description : String)
  | clone (inner : Formula α)

namespace Formula

variable {α β : Type}

def criterion : Formula α → Criterion α
  | leaf c => c
  | and left right => left.criterion.and right.criterion
  | or left right => left.criterion.or right.criterion
  | negate inner => inner.criterion.negate
  | redescribe inner description => inner.criterion.redescribe description
  | clone inner => inner.criterion.clone

/-- The conjunction of `first` with all of `rest`, nested to the left. -/
def all (first : Formula α) (rest : List (Formula α)) : Formula α := rest.foldl and first

/-- The disjunction of `first` with all of `rest`, nested to the left. -/
def any (first : Formula α) (rest : List (Formula α)) : Formula α := rest.foldl or first

def negateTimes (f : Formula α) : Nat → Formula α
  | 0 => f
  | n + 1 => (f.negateTimes n).negate

/-- Every leaf tests a projection of the value. -/
def comap (f : Formula α) (project : β → α) : Formula β :=
  match f with
  | leaf c => leaf (c.comap project)
  | and left right => and (left.comap project) (right.comap project)
  | or left right => or (left.comap project) (right.comap project)
  | negate inner => negate (inner.comap project)
  | redescribe inner description => redescribe (inner.comap project) description
  | clone inner => clone (inner.comap project)

theorem criterion_negateTimes (f : Formula α) (n : Nat) :
    (f.negateTimes n).criterion = f.criterion.negateTimes n := by
  induction n with
  | zero => rfl
  | succ n ih => simp [negateTimes, Criterion.negateTimes, criterion, ih]

end Formula
end ClassRoster
