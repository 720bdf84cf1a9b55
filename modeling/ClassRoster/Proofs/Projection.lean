import ClassRoster.Criterion.Formula

/-!
Formulas and projections. A criterion has a phrase, a flag and a test, and each way to combine
criteria makes all three anew; so does passing to another subject. That they come out in step for
every formula is one induction for each of them: a projection may be applied to the whole or to the
leaves, a value passes just if the formula holds of it, and the flag tells whether any part of the
formula was given a phrase. A copy is tested like its original and gives no phrase of its own.
-/

namespace ClassRoster
namespace Formula

variable {α β : Type}

/-- What a formula says of a value, by the tests at its leaves. -/
def Holds : Formula α → α → Prop
  | leaf c, x => c.accepts x = true
  | and left right, x => left.Holds x ∧ right.Holds x
  | or left right, x => left.Holds x ∨ right.Holds x
  | negate inner, x => ¬ inner.Holds x
  | redescribe inner _, x | clone inner, x => inner.Holds x

/-- The formulas that a formula is put together from, itself included. -/
def parts : Formula α → List (Formula α)
  | leaf c => [leaf c]
  | and left right => and left right :: (left.parts ++ right.parts)
  | or left right => or left right :: (left.parts ++ right.parts)
  | negate inner => negate inner :: inner.parts
  | redescribe inner description => redescribe inner description :: inner.parts
  | clone inner => clone inner :: inner.parts

/-- A phrase comes in at a leaf that has one and wherever something is renamed. -/
def GivesPhrase : Formula α → Prop
  | leaf c => c.described = true
  | redescribe _ _ => True
  | _ => False

theorem criterion_comap (f : Formula α) (project : β → α) :
    (f.comap project).criterion = f.criterion.comap project := by
  induction f with
  | leaf c => rfl
  | and left right ihl ihr | or left right ihl ihr =>
      simp only [comap, criterion, ihl, ihr, Criterion.comap_and, Criterion.comap_or]
  | negate inner ih => simp only [comap, criterion, ih, Criterion.comap_negate]
  | redescribe inner description ih =>
      simp only [comap, criterion, ih]
      rfl
  | clone inner ih => simp only [comap, criterion, ih, Criterion.comap_clone]

theorem accepts_criterion_iff (f : Formula α) (x : α) :
    f.criterion.accepts x = true ↔ f.Holds x := by
  induction f with
  | leaf c => rfl
  | and left right ihl ihr =>
      simp only [criterion, Criterion.and, Holds, Bool.and_eq_true, ihl, ihr]
  | or left right ihl ihr =>
      simp only [criterion, Criterion.or, Holds, Bool.or_eq_true, ihl, ihr]
  | negate inner ih =>
      simp only [criterion, Criterion.negate, Holds, Bool.not_eq_true', ← ih, Bool.not_eq_true]
  | redescribe inner description ih | clone inner ih => exact ih

/-- No part takes away what another one gives. -/
theorem described_criterion_iff (f : Formula α) :
    f.criterion.described = true ↔ ∃ part ∈ f.parts, part.GivesPhrase := by
  induction f with
  | leaf c => simp only [criterion, parts, List.mem_singleton, exists_eq_left, GivesPhrase]
  | and left right ihl ihr | or left right ihl ihr =>
      simp only [criterion, Criterion.and, Criterion.or, parts, GivesPhrase, Bool.or_eq_true,
        ihl, ihr, List.mem_cons, List.mem_append, or_and_right, exists_or, exists_eq_left, false_or]
  | negate inner ih | clone inner ih =>
      simp only [criterion, Criterion.negate, Criterion.clone, parts, GivesPhrase, ih,
        List.mem_cons, or_and_right, exists_or, exists_eq_left, false_or]
  | redescribe inner description ih =>
      exact iff_of_true rfl ⟨inner.redescribe description, List.mem_cons_self, trivial⟩

/-- A projection may be applied to a formula or to its leaves, and one after the other or at once;
what is tested and what is known of phrases can be read off the formula. -/
theorem projection_laws (f : Formula α) (project : β → α) :
    (f.comap project).criterion = f.criterion.comap project ∧
      (∀ {γ : Type} (before : γ → β),
        (f.criterion.comap project).comap before = f.criterion.comap (project ∘ before)) ∧
      (∀ x, (f.criterion.comap project).accepts x = true ↔ f.Holds (project x)) ∧
      (f.criterion.described = true ↔ ∃ part ∈ f.parts, part.GivesPhrase) := by
  refine ⟨f.criterion_comap project, ?_, ?_, f.described_criterion_iff⟩
  · intro γ before
    exact f.criterion.comap_comap project before
  · intro x
    exact f.accepts_criterion_iff (project x)

end Formula
end ClassRoster
