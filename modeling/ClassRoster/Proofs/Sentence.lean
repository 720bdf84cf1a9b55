import ClassRoster.Criterion.Descriptor
import ClassRoster.Proofs.Readability
import ClassRoster.Roster.Basic

/-!
A rule means what its sentence says. Each ready-made criterion quotes its arguments, so that its
phrase gives them back, and no two of them begin alike. Together with the readability of combined
phrases this makes two rules with the same sentence the same rule. The criterion for a marker is
left out: it names a class by its simple name only.
-/

namespace ClassRoster

/-- The ready-made criteria that say everything they test. -/
inductive Clause where
  | haveName (name : String)
  | haveSimpleName (name : String)
  | resideIn (pattern : String)
  | resideInAny (patterns : List String)
  | always
  | never

namespace Clause

def criterion : Clause → Criterion Descriptor
  | haveName name => .haveName name
  | haveSimpleName name => .haveSimpleName name
  | resideIn pattern => .resideIn pattern
  | resideInAny patterns => .resideInAny patterns
  | always => .always
  | never => .never

/-- Text that can be told from the quotation marks and parentheses around it. -/
def Quotable (text : String) : Prop := ∀ c ∈ text.toList, c ≠ '(' ∧ c ≠ ')' ∧ c ≠ '\''

def Plain : Clause → Prop
  | haveName text | haveSimpleName text | resideIn text => Quotable text
  | resideInAny patterns => ∀ pattern ∈ patterns, Quotable pattern
  | always | never => True

def listed (patterns : List String) : List Char :=
  (String.intercalate ", " (patterns.map fun p => "'" ++ p ++ "'")).toList

/-- What follows the first of several patterns. -/
def continued : List String → List Char
  | [] => []
  | pattern :: patterns => ", ".toList ++ listed (pattern :: patterns)

theorem listed_cons (pattern : String) (patterns : List String) :
    listed (pattern :: patterns) =
      '\'' :: (pattern.toList ++ '\'' :: continued patterns) := by
  cases patterns with
  | nil => simp [listed, continued]
  | cons next patterns => simp [listed, continued]

theorem quote_inj {a b : String} (ha : Quotable a) (hb : Quotable b) {s t : List Char}
    (h : a.toList ++ '\'' :: s = b.toList ++ '\'' :: t) : a = b ∧ s = t := by
  obtain ⟨hab, -, hst⟩ := Text.cut_unique (fun c hc => (ha c hc).2.2)
    (fun c hc => (hb c hc).2.2) rfl rfl h
  exact ⟨String.toList_inj.mp hab, hst⟩

theorem listed_injective {ps qs : List String} (hp : ∀ p ∈ ps, Quotable p)
    (hq : ∀ q ∈ qs, Quotable q) (h : listed ps = listed qs) : ps = qs := by
  induction ps generalizing qs with
  | nil =>
      cases qs with
      | nil => rfl
      | cons q qs => rw [listed_cons] at h; simp [listed] at h
  | cons p ps ih =>
      cases qs with
      | nil => rw [listed_cons] at h; simp [listed] at h
      | cons q qs =>
          rw [listed_cons, listed_cons] at h
          obtain ⟨rfl, hrest⟩ := quote_inj (hp p List.mem_cons_self) (hq q List.mem_cons_self)
            (List.cons.inj h).2
          have hps := fun p hmem => hp p (List.mem_cons_of_mem _ hmem)
          have hqs := fun q hmem => hq q (List.mem_cons_of_mem _ hmem)
          cases ps with
          | nil =>
              cases qs with
              | nil => rfl
              | cons q' qs => simp [continued] at hrest
          | cons p' ps =>
              cases qs with
              | nil => simp [continued] at hrest
              | cons q' qs => rw [ih hps hqs (List.append_cancel_left hrest)]

def lead : Clause → String
  | haveName _ => "have fully qualified name '"
  | haveSimpleName _ => "have simple name '"
  | resideIn _ => "reside in a package '"
  | resideInAny _ => "reside in any package ["
  | always => "always true"
  | never => "always false"

def rest : Clause → List Char
  | haveName text | haveSimpleName text | resideIn text => text.toList ++ ['\'']
  | resideInAny patterns => listed patterns ++ [']']
  | always | never => []

theorem toList_description (c : Clause) :
    c.criterion.description.toList = c.lead.toList ++ c.rest := by
  cases c with
  | haveName name | haveSimpleName name | resideIn name | resideInAny name =>
      simp only [criterion, Criterion.haveName, Criterion.haveSimpleName, Criterion.resideIn,
        Criterion.resideInAny, Criterion.ofTest, lead, rest, listed, String.toList_append,
        List.append_assoc]
      rfl
  | always | never => exact (List.append_nil _).symm

theorem description_injective {c d : Clause} (hc : c.Plain) (hd : d.Plain)
    (h : c.criterion.description = d.criterion.description) : c = d := by
  have htext : c.lead.toList ++ c.rest = d.lead.toList ++ d.rest := by
    rw [← toList_description, ← toList_description, h]
  cases c with
  | haveName a =>
      cases d with
      | haveName b => exact congrArg haveName (quote_inj hc hd (List.append_cancel_left htext)).1
      | _ => simp [lead] at htext
  | haveSimpleName a =>
      cases d with
      | haveSimpleName b =>
          exact congrArg haveSimpleName (quote_inj hc hd (List.append_cancel_left htext)).1
      | _ => simp [lead] at htext
  | resideIn a =>
      cases d with
      | resideIn b => exact congrArg resideIn (quote_inj hc hd (List.append_cancel_left htext)).1
      | _ => simp [lead] at htext
  | resideInAny ps =>
      cases d with
      | resideInAny qs =>
          have hlisted := List.append_cancel_right (List.append_cancel_left htext)
          exact congrArg resideInAny (listed_injective hc hd hlisted)
      | _ => simp [lead] at htext
  | always =>
      cases d with
      | always => rfl
      | _ => simp [lead] at htext
  | never =>
      cases d with
      | never => rfl
      | _ => simp [lead] at htext

theorem mem_listed {patterns : List String} {c : Char} (h : c ∈ listed patterns) :
    c ∈ ['\'', ',', ' '] ∨ ∃ pattern ∈ patterns, c ∈ pattern.toList := by
  induction patterns with
  | nil => simp [listed] at h
  | cons pattern patterns ih =>
      rw [listed_cons, List.mem_cons, List.mem_append, List.mem_cons] at h
      obtain rfl | hpattern | rfl | hrest := h
      · exact .inl List.mem_cons_self
      · exact .inr ⟨pattern, List.mem_cons_self, hpattern⟩
      · exact .inl List.mem_cons_self
      · cases patterns with
        | nil => exact absurd hrest List.not_mem_nil
        | cons next patterns =>
            obtain hcomma | hlisted := List.mem_append.mp hrest
            · exact .inl (List.mem_cons_of_mem _ (by simpa using hcomma))
            · obtain hmark | ⟨other, hother, hmem⟩ := ih hlisted
              · exact .inl hmark
              · exact .inr ⟨other, List.mem_cons_of_mem _ hother, hmem⟩

theorem unparenthesized_lead (c : Clause) : Text.Unparenthesized c.lead := by
  cases c <;> simp [lead, Text.Unparenthesized, Text.IsParenthesis]

theorem not_isParenthesis_of_mem_rest {c : Clause} (hc : c.Plain) :
    ∀ char ∈ c.rest, ¬ Text.IsParenthesis char := by
  have hquoted : ∀ text, Quotable text → ∀ char ∈ text.toList, ¬ Text.IsParenthesis char :=
    fun text htext char hchar hparen =>
      hparen.elim (htext char hchar).1 (htext char hchar).2.1
  intro char hchar
  cases c with
  | haveName text | haveSimpleName text | resideIn text =>
      obtain htext | hmark := List.mem_append.mp hchar
      · exact hquoted text hc char htext
      · simp [List.mem_singleton.mp hmark, Text.IsParenthesis]
  | resideInAny patterns =>
      obtain hlisted | hmark := List.mem_append.mp hchar
      · obtain hmark | ⟨pattern, hpattern, hmem⟩ := mem_listed hlisted
        · simp only [List.mem_cons, List.not_mem_nil, or_false] at hmark
          obtain rfl | rfl | rfl := hmark <;> simp [Text.IsParenthesis]
        · exact hquoted pattern (hc pattern hpattern) char hmem
      · simp [List.mem_singleton.mp hmark, Text.IsParenthesis]
  | always | never => exact absurd hchar List.not_mem_nil

theorem unparenthesized_description {c : Clause} (hc : c.Plain) :
    Text.Unparenthesized c.criterion.description := by
  intro char hchar
  rw [toList_description] at hchar
  obtain hlead | hrest := List.mem_append.mp hchar
  · exact unparenthesized_lead c char hlead
  · exact not_isParenthesis_of_mem_rest hc char hrest

end Clause

namespace Formula

/-- Put together from clauses without renaming. Copies are left out: a copy is its original. -/
def FromClauses : Formula Descriptor → Prop
  | leaf c => ∃ clause : Clause, clause.Plain ∧ clause.criterion = c
  | and left right | or left right => left.FromClauses ∧ right.FromClauses
  | negate inner => inner.FromClauses
  | redescribe _ _ | clone _ => False

theorem plain_phrase {f : Formula Descriptor} (hf : f.FromClauses) : f.phrase.Plain := by
  induction f with
  | leaf c =>
      obtain ⟨clause, hplain, rfl⟩ := hf
      exact Clause.unparenthesized_description hplain
  | and left right ihl ihr | or left right ihl ihr => exact ⟨ihl hf.1, ihr hf.2⟩
  | negate inner ih => exact ih hf
  | redescribe inner description | clone inner => exact hf.elim

theorem eq_of_phrase_eq {f g : Formula Descriptor} (hf : f.FromClauses) (hg : g.FromClauses)
    (h : f.phrase = g.phrase) : f = g := by
  induction f generalizing g with
  | leaf c =>
      cases g with
      | leaf d =>
          obtain ⟨clause, hplain, rfl⟩ := hf
          obtain ⟨other, hother, rfl⟩ := hg
          rw [Clause.description_injective hplain hother (Phrase.fragment.inj h)]
      | redescribe inner description | clone inner => exact hg.elim
      | _ => cases h
  | and left right ihl ihr =>
      cases g with
      | and left' right' =>
          obtain ⟨hleft, hright⟩ := Phrase.and.inj h
          rw [ihl hf.1 hg.1 hleft, ihr hf.2 hg.2 hright]
      | clone inner => exact hg.elim
      | _ => cases h
  | or left right ihl ihr =>
      cases g with
      | or left' right' =>
          obtain ⟨hleft, hright⟩ := Phrase.or.inj h
          rw [ihl hf.1 hg.1 hleft, ihr hf.2 hg.2 hright]
      | clone inner => exact hg.elim
      | _ => cases h
  | negate inner ih =>
      cases g with
      | negate inner' =>
          have hinner : inner'.FromClauses := hg
          rw [ih hf hinner (Phrase.negate.inj h)]
      | clone inner' => exact hg.elim
      | _ => cases h
  | redescribe inner description | clone inner => exact hf.elim

end Formula

/-- The criteria of rules: clauses, combined by the methods or by the operators, and copies. -/
inductive Spoken : Criterion Descriptor → Prop
  | clause {c : Clause} (h : c.Plain) : Spoken c.criterion
  | and {p q : Criterion Descriptor} (hp : Spoken p) (hq : Spoken q) : Spoken (p.and q)
  | or {p q : Criterion Descriptor} (hp : Spoken p) (hq : Spoken q) : Spoken (p.or q)
  | negate {p : Criterion Descriptor} (hp : Spoken p) : Spoken p.negate
  | land {p q : Criterion Descriptor} (hp : Spoken p) (hq : Spoken q) : Spoken (p &&& q)
  | lor {p q : Criterion Descriptor} (hp : Spoken p) (hq : Spoken q) : Spoken (p ||| q)
  | complement {p : Criterion Descriptor} (hp : Spoken p) : Spoken (~~~p)
  | clone {p : Criterion Descriptor} (hp : Spoken p) : Spoken p.clone

namespace Spoken

variable {p q : Criterion Descriptor}

theorem exists_formula (h : Spoken p) :
    ∃ f : Formula Descriptor, f.FromClauses ∧ f.criterion = p := by
  induction h with
  | @clause c hc => exact ⟨.leaf c.criterion, ⟨c, hc, rfl⟩, rfl⟩
  | and _ _ ihp ihq | land _ _ ihp ihq =>
      obtain ⟨f, hf, rfl⟩ := ihp
      obtain ⟨g, hg, rfl⟩ := ihq
      exact ⟨.and f g, ⟨hf, hg⟩, rfl⟩
  | or _ _ ihp ihq | lor _ _ ihp ihq =>
      obtain ⟨f, hf, rfl⟩ := ihp
      obtain ⟨g, hg, rfl⟩ := ihq
      exact ⟨.or f g, ⟨hf, hg⟩, rfl⟩
  | negate _ ih | complement _ ih =>
      obtain ⟨f, hf, rfl⟩ := ih
      exact ⟨.negate f, hf, rfl⟩
  | @clone p _ ih => rwa [p.clone_eq]

theorem described (h : Spoken p) : p.described = true := by
  induction h with
  | @clause c _ => cases c <;> rfl
  | and _ _ ihp _ | or _ _ ihp _ | land _ _ ihp _ | lor _ _ ihp _ =>
      exact Bool.or_eq_true_iff.mpr (.inl ihp)
  | negate _ ih | complement _ ih | clone _ ih => exact ih

theorem eq_of_description_eq (hp : Spoken p) (hq : Spoken q)
    (h : p.description = q.description) : p = q := by
  obtain ⟨f, hf, rfl⟩ := hp.exists_formula
  obtain ⟨g, hg, rfl⟩ := hq.exists_formula
  rw [← Formula.text_phrase, ← Formula.text_phrase] at h
  have hphrase := Phrase.text_injective (Formula.plain_phrase hf) (Formula.plain_phrase hg) h
  rw [Formula.eq_of_phrase_eq hf hg hphrase]

end Spoken

theorem description_filter_of_described {r : Roster} {p : Criterion Descriptor}
    (h : p.described = true) : (r.filter p).description = r.root ++ " that " ++ p.description := by
  simp only [Roster.filter, h, if_true, Roster.connector]

/-- The sentence of a rule determines what the rule accepts, and the sentence of a roster that a
rule was applied to determines that roster. -/
theorem sentence_determines_meaning {p q : Criterion Descriptor} (hp : Spoken p)
    (hq : Spoken q) :
    (p.description = q.description → ∀ d, p.accepts d = q.accepts d) ∧
      ∀ r : Roster, (r.filter p).description = (r.filter q).description →
        (r.filter p == r.filter q) = true := by
  refine ⟨fun h d => ?_, fun r h => ?_⟩
  · rw [hp.eq_of_description_eq hq h]
  · rw [description_filter_of_described hp.described,
      description_filter_of_described hq.described] at h
    rw [hp.eq_of_description_eq hq ((String.append_right_inj _).mp h)]
    exact Roster.beq_iff.mpr ⟨rfl, rfl⟩

theorem sentence_determines_meaning_operators :
    ∃ p q : Criterion Descriptor, Spoken p ∧ Spoken q ∧
      p.description =
        "(have simple name 'X') and (not (reside in any package ['a', 'b..']))" ∧
      p.description = q.description ∧ (∀ d, p.accepts d = q.accepts d) ∧
      ∀ r : Roster, (r.filter p == r.filter q) = true := by
  have hname : Spoken (.haveSimpleName "X") :=
    .clause (c := .haveSimpleName "X") (by simp [Clause.Plain, Clause.Quotable])
  have hany : Spoken (.resideInAny ["a", "b.."]) :=
    .clause (c := .resideInAny ["a", "b.."]) (by simp [Clause.Plain, Clause.Quotable])
  have hp := hname.and hany.negate
  have hq := hname.land hany.complement
  have hmeaning := sentence_determines_meaning hp hq
  exact ⟨_, _, hp, hq, rfl, rfl, hmeaning.1 rfl, fun r => hmeaning.2 r rfl⟩

end ClassRoster
