import ClassRoster.Proofs.Sentence

/-!
Criteria as their callers write them. A formula has criteria at its leaves; an expression has
what the caller supplied, and it may pass from one subject to another on the way. A renaming
hides what it is applied to, and neither a projection nor a copy leaves a word behind, so that what
can be seen is a tree of fragments. Without parentheses in the fragments that tree can be read back.
-/

namespace ClassRoster

inductive Expression : Type → Type 1 where
  | ofTest {α : Type} (description : String) (test : α → Bool) : Expression α
  | undescribed {α : Type} (test : α → Bool) : Expression α
  | always {α : Type} : Expression α
  | never {α : Type} : Expression α
  | ofMarker (m : Marker) : Expression Descriptor
  | clause (c : Clause) : Expression Descriptor
  | redescribe {α : Type} (inner : Expression α) (description : String) : Expression α
  | and {α : Type} (left right : Expression α) : Expression α
  | or {α : Type} (left right : Expression α) : Expression α
  | negate {α : Type} (inner : Expression α) : Expression α
  | comap {α β : Type} (inner : Expression α) (project : β → α) : Expression β
  | clone {α : Type} (inner : Expression α) : Expression α

namespace Expression

def criterion {α : Type} : Expression α → Criterion α
  | ofTest description test => .ofTest description test
  | undescribed test => .undescribed test
  | always => .always
  | never => .never
  | ofMarker m => .ofMarker m
  | clause c => c.criterion
  | redescribe inner description => inner.criterion.redescribe description
  | and left right => left.criterion.and right.criterion
  | or left right => left.criterion.or right.criterion
  | negate inner => inner.criterion.negate
  | comap inner project => inner.criterion.comap project
  | clone inner => inner.criterion.clone

/-- The tree of fragments that can be seen. -/
def phrase {α : Type} : Expression α → Phrase
  | and left right => .and left.phrase right.phrase
  | or left right => .or left.phrase right.phrase
  | negate inner => .negate inner.phrase
  | comap inner _ | clone inner => inner.phrase
  | redescribe _ description => .fragment description
  | e => .fragment e.criterion.description

variable {α β : Type}

theorem text_phrase (e : Expression α) : e.phrase.text = e.criterion.description := by
  induction e with
  | ofTest _ _ | undescribed _ | always | never | ofMarker _ | clause _ | redescribe _ _ => rfl
  | and left right ihl ihr | or left right ihl ihr =>
      simp only [phrase, Phrase.text, criterion, Criterion.and, Criterion.or, ihl, ihr]
  | negate inner ih => simp only [phrase, Phrase.text, criterion, Criterion.negate, ih]
  | comap inner project ih | clone inner ih => exact ih

/-- Expressions, also of different subjects, that have no parentheses in their fragments read the
same just if they were put together in the same way from the same fragments. -/
theorem description_eq_iff_phrase_eq {e : Expression α} {f : Expression β}
    (he : e.phrase.Plain) (hf : f.phrase.Plain) :
    e.criterion.description = f.criterion.description ↔ e.phrase = f.phrase := by
  rw [← text_phrase, ← text_phrase]
  constructor
  · intro h
    exact Phrase.text_injective he hf h
  · intro h
    rw [h]

theorem description_eq_iff_phrase_eq_projected :
    let e : Expression Descriptor :=
      .comap (.and (.ofTest "be short or not" fun n : Nat => n < 9)
        (.negate (.undescribed fun n => n == 0))) fun d => d.name.length
    let f : Expression String :=
      .and (.redescribe (.or .always .never) "be short or not")
        (.negate (.comap (.undescribed Descriptor.isNested) Descriptor.mk))
    e.phrase.Plain ∧ f.phrase.Plain ∧
      e.criterion.description = "(be short or not) and (not (<undescribed>))" ∧
      e.criterion.description = f.criterion.description ∧ e.phrase = f.phrase := by
  intro e f
  have hshort : Text.Unparenthesized "be short or not" := by
    simp [Text.Unparenthesized, Text.IsParenthesis]
  have hplaceholder : Text.Unparenthesized Criterion.placeholder := by
    simp [Text.Unparenthesized, Text.IsParenthesis, Criterion.placeholder]
  have he : e.phrase.Plain := ⟨hshort, hplaceholder⟩
  have hf : f.phrase.Plain := ⟨hshort, hplaceholder⟩
  exact ⟨he, hf, rfl, rfl, (description_eq_iff_phrase_eq he hf).mp rfl⟩

end Expression
end ClassRoster
