import ClassRoster.Criterion.Formula

/-!
Reading phrases back. A phrase that was put together from fragments without parentheses can be
taken apart in one way only: its parentheses show the tree, and between two of them stands the
word that tells `and` from `or`. The fragments themselves may contain those words. The induction
is about a phrase in front of a closing parenthesis, which is how it stands inside a greater one.
-/

namespace ClassRoster
namespace Text

/-- Text before the first stop is told by the whole text. -/
theorem cut_unique {stop : Char → Prop} {a b s t : List Char} {x y : Char}
    (ha : ∀ c ∈ a, ¬ stop c) (hb : ∀ c ∈ b, ¬ stop c) (hx : stop x) (hy : stop y)
    (h : a ++ x :: s = b ++ y :: t) : a = b ∧ x = y ∧ s = t := by
  induction a generalizing b with
  | nil =>
      cases b with
      | nil => exact ⟨rfl, List.cons.inj h⟩
      | cons c b =>
          obtain ⟨rfl, -⟩ := List.cons.inj h
          exact absurd hx (hb x List.mem_cons_self)
  | cons c a ih =>
      cases b with
      | nil =>
          obtain ⟨rfl, -⟩ := List.cons.inj h
          exact absurd hy (ha c List.mem_cons_self)
      | cons d b =>
          obtain ⟨rfl, hrest⟩ := List.cons.inj h
          obtain ⟨rfl, hxy⟩ := ih (fun e he => ha e (List.mem_cons_of_mem _ he))
            (fun e he => hb e (List.mem_cons_of_mem _ he)) hrest
          exact ⟨rfl, hxy⟩

def IsParenthesis (c : Char) : Prop := c = '(' ∨ c = ')'

def Unparenthesized (text : String) : Prop := ∀ c ∈ text.toList, ¬ IsParenthesis c

end Text

/-- What a phrase says about how its criterion was put together. -/
inductive Phrase where
  | fragment (text : String)
  | and (left right : Phrase)
  | or (left right : Phrase)
  | negate (inner : Phrase)

namespace Phrase

def text : Phrase → String
  | fragment text => text
  | and left right => "(" ++ left.text ++ ") and (" ++ right.text ++ ")"
  | or left right => "(" ++ left.text ++ ") or (" ++ right.text ++ ")"
  | negate inner => "not (" ++ inner.text ++ ")"

/-- No fragment has a parenthesis. -/
def Plain : Phrase → Prop
  | fragment text => Text.Unparenthesized text
  | and left right | or left right => left.Plain ∧ right.Plain
  | negate inner => inner.Plain

/-- The text up to the first parenthesis, when a closing one follows the phrase. -/
def lead : Phrase → List Char
  | fragment text => text.toList
  | and _ _ | or _ _ => []
  | negate _ => "not ".toList

def mark : Phrase → Char
  | fragment _ => ')'
  | and _ _ | or _ _ | negate _ => '('

/-- The text after the first parenthesis, when the phrase is followed by `)` and `s`. -/
def remainder (s : List Char) : Phrase → List Char
  | fragment _ => s
  | and left right =>
      left.text.toList ++ ')' :: (" and (".toList ++ (right.text.toList ++ ')' :: ')' :: s))
  | or left right =>
      left.text.toList ++ ')' :: (" or (".toList ++ (right.text.toList ++ ')' :: ')' :: s))
  | negate inner => inner.text.toList ++ ')' :: ')' :: s

theorem text_append_eq (p : Phrase) (s : List Char) :
    p.text.toList ++ ')' :: s = p.lead ++ p.mark :: p.remainder s := by
  cases p <;> simp [text, lead, mark, remainder]

theorem not_isParenthesis_of_mem_lead {p : Phrase} (hp : p.Plain) :
    ∀ c ∈ p.lead, ¬ Text.IsParenthesis c := by
  cases p with
  | fragment text => exact hp
  | and left right | or left right => exact fun c hc => absurd hc List.not_mem_nil
  | negate inner => simp [lead, Text.IsParenthesis]

theorem isParenthesis_mark (p : Phrase) : Text.IsParenthesis p.mark := by
  cases p with
  | fragment text => exact .inr rfl
  | and left right | or left right => exact .inl rfl
  | negate inner => exact .inl rfl

theorem cut_text_append {p q : Phrase} (hp : p.Plain) (hq : q.Plain) {s t : List Char}
    (h : p.text.toList ++ ')' :: s = q.text.toList ++ ')' :: t) :
    p.lead = q.lead ∧ p.mark = q.mark ∧ p.remainder s = q.remainder t := by
  rw [text_append_eq, text_append_eq] at h
  exact Text.cut_unique (not_isParenthesis_of_mem_lead hp) (not_isParenthesis_of_mem_lead hq)
    (isParenthesis_mark p) (isParenthesis_mark q) h

theorem text_append_inj {p q : Phrase} (hp : p.Plain) (hq : q.Plain) {s t : List Char}
    (h : p.text.toList ++ ')' :: s = q.text.toList ++ ')' :: t) : p = q ∧ s = t := by
  induction p generalizing q s t with
  | fragment a =>
      obtain ⟨hlead, hmark, hrest⟩ := cut_text_append hp hq h
      cases q with
      | fragment b => exact ⟨congrArg fragment (String.toList_inj.mp hlead), hrest⟩
      | _ => simp [mark] at hmark
  | negate inner ih =>
      obtain ⟨hlead, hmark, hrest⟩ := cut_text_append hp hq h
      cases q with
      | negate inner' =>
          have hinner : inner'.Plain := hq
          obtain ⟨rfl, htail⟩ := ih hp hinner hrest
          exact ⟨rfl, (List.cons.inj htail).2⟩
      | fragment b => simp [mark] at hmark
      | _ => simp [lead] at hlead
  | and left right ihl ihr =>
      obtain ⟨hlead, hmark, hrest⟩ := cut_text_append hp hq h
      cases q with
      | and left' right' =>
          obtain ⟨rfl, hword⟩ := ihl hp.1 hq.1 hrest
          obtain ⟨rfl, htail⟩ := ihr hp.2 hq.2 (List.append_cancel_left hword)
          exact ⟨rfl, (List.cons.inj htail).2⟩
      | or left' right' =>
          obtain ⟨-, hword⟩ := ihl hp.1 hq.1 hrest
          simp at hword
      | fragment b => simp [mark] at hmark
      | negate inner => simp [lead] at hlead
  | or left right ihl ihr =>
      obtain ⟨hlead, hmark, hrest⟩ := cut_text_append hp hq h
      cases q with
      | or left' right' =>
          obtain ⟨rfl, hword⟩ := ihl hp.1 hq.1 hrest
          obtain ⟨rfl, htail⟩ := ihr hp.2 hq.2 (List.append_cancel_left hword)
          exact ⟨rfl, (List.cons.inj htail).2⟩
      | and left' right' =>
          obtain ⟨-, hword⟩ := ihl hp.1 hq.1 hrest
          simp at hword
      | fragment b => simp [mark] at hmark
      | negate inner => simp [lead] at hlead

/-- Two plain phrases that read the same are the same. -/
theorem text_injective {p q : Phrase} (hp : p.Plain) (hq : q.Plain) (h : p.text = q.text) :
    p = q :=
  (text_append_inj hp hq (congrArg (fun text => text.toList ++ [')']) h)).1

end Phrase

namespace Formula

variable {α : Type}

/-- The phrase of a formula as it was put together. Nothing is left of what was renamed. -/
def phrase : Formula α → Phrase
  | leaf c => .fragment c.description
  | and left right => .and left.phrase right.phrase
  | or left right => .or left.phrase right.phrase
  | negate inner => .negate inner.phrase
  | redescribe _ description => .fragment description
  | clone inner => inner.phrase

theorem text_phrase (f : Formula α) : f.phrase.text = f.criterion.description := by
  induction f with
  | leaf c => rfl
  | and left right ihl ihr | or left right ihl ihr =>
      simp only [phrase, Phrase.text, criterion, Criterion.and, Criterion.or, ihl, ihr]
  | negate inner ih => simp only [phrase, Phrase.text, criterion, Criterion.negate, ih]
  | redescribe inner description => rfl
  | clone inner ih => exact ih

end Formula
end ClassRoster
