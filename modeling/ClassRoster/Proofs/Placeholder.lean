import ClassRoster.Proofs.Derivation
import ClassRoster.Proofs.Expression

/-!
Where the placeholder can be read. A roster quotes a phrase as a whole and looks only at a flag to
tell whether to quote it; the flag is set as soon as any part of the phrase was given. A criterion
that was given in part takes the placeholder of its other parts along with it. There is no other
way: whatever is put around texts has a character that is foreign to the placeholder, so that texts
without it cannot make it up together.
-/

namespace ClassRoster
namespace Text

theorem eq_nil_of_prefix_cons {word after : List Char} {c : Char} (hc : c ∉ word)
    (h : word <+: c :: after) : word = [] := by
  cases word with
  | nil => rfl
  | cons d word =>
      obtain ⟨rfl, -⟩ := List.cons_prefix_cons.mp h
      exact absurd List.mem_cons_self hc

/-- A word does not reach across a character that it does not have. -/
theorem infix_append_cons_iff {word before after : List Char} {c : Char} (hc : c ∉ word) :
    word <:+: before ++ c :: after ↔ word <:+: before ∨ word <:+: after := by
  constructor
  · intro h
    obtain hbefore | hafter | ⟨start, rest, rfl, hstart, hrest⟩ := List.infix_append_iff.mp h
    · exact .inl hbefore
    · obtain hprefix | hafter := List.infix_cons_iff.mp hafter
      · rw [eq_nil_of_prefix_cons hc hprefix]
        exact .inl List.nil_infix
      · exact .inr hafter
    · -- What is left of the word after `before` would begin with `c`.
      have hrest := eq_nil_of_prefix_cons (fun h => hc (List.mem_append_right _ h)) hrest
      rw [hrest, List.append_nil]
      exact .inl hstart.isInfix
  · rintro (hbefore | hafter)
    · exact List.infix_append_of_infix_left hbefore
    · exact List.infix_append_of_infix_right (List.infix_cons hafter)

end Text

namespace Criterion

def ShowsPlaceholder (text : String) : Prop := placeholder.toList <:+: text.toList

variable {α : Type}

theorem not_infix_of_notMem {text : List Char} (h : '<' ∉ text) :
    ¬ placeholder.toList <:+: text := by
  intro hshown
  exact h (hshown.subset (by simp [placeholder]))

theorem not_infix_nil : ¬ placeholder.toList <:+: [] := not_infix_of_notMem List.not_mem_nil

/-- The placeholder does not begin in text that does not have its first character. -/
theorem infix_append_iff_of_notMem {lead rest : List Char} (hlead : '<' ∉ lead) :
    placeholder.toList <:+: lead ++ rest ↔ placeholder.toList <:+: rest := by
  constructor
  · intro h
    obtain hinlead | hrest | ⟨start, tail, hsplit, hstart, htail⟩ := List.infix_append_iff.mp h
    · exact absurd hinlead (not_infix_of_notMem hlead)
    · exact hrest
    · cases start with
      | nil =>
          rw [hsplit]
          exact htail.isInfix
      | cons c start =>
          have hc : c = '<' := by
            rw [placeholder, String.toList_ofList] at hsplit
            exact (List.cons.inj hsplit).1.symm
          exact absurd (hstart.subset (hc ▸ List.mem_cons_self)) hlead
  · exact List.infix_append_of_infix_right

/-- Before a character that is foreign to it and with nothing after that. -/
theorem infix_concat_iff {text : List Char} {c : Char} (hc : c ∉ placeholder.toList) :
    placeholder.toList <:+: text ++ [c] ↔ placeholder.toList <:+: text := by
  rw [Text.infix_append_cons_iff hc]
  exact or_iff_left not_infix_nil

theorem infix_joined_iff {left right word : List Char} (hword : '<' ∉ word) :
    placeholder.toList <:+: ['('] ++ (left ++ ')' :: (word ++ (right ++ [')']))) ↔
      placeholder.toList <:+: left ∨ placeholder.toList <:+: right := by
  rw [infix_append_iff_of_notMem (by decide), Text.infix_append_cons_iff (by decide),
    infix_append_iff_of_notMem hword, infix_concat_iff (by decide)]

theorem showsPlaceholder_and (a b : Criterion α) :
    ShowsPlaceholder (a.and b).description ↔
      ShowsPlaceholder a.description ∨ ShowsPlaceholder b.description := by
  have htext : (a.and b).description.toList = ['('] ++ (a.description.toList ++ ')' ::
      (" and (".toList ++ (b.description.toList ++ [')']))) := by simp [and]
  rw [ShowsPlaceholder, htext, infix_joined_iff (by decide)]
  rfl

theorem showsPlaceholder_or (a b : Criterion α) :
    ShowsPlaceholder (a.or b).description ↔
      ShowsPlaceholder a.description ∨ ShowsPlaceholder b.description := by
  have htext : (a.or b).description.toList = ['('] ++ (a.description.toList ++ ')' ::
      (" or (".toList ++ (b.description.toList ++ [')']))) := by simp [or]
  rw [ShowsPlaceholder, htext, infix_joined_iff (by decide)]
  rfl

theorem showsPlaceholder_negate (c : Criterion α) :
    ShowsPlaceholder c.negate.description ↔ ShowsPlaceholder c.description := by
  have htext : c.negate.description.toList =
      "not (".toList ++ (c.description.toList ++ [')']) := by simp [negate]
  rw [ShowsPlaceholder, htext, infix_append_iff_of_notMem (by decide),
    infix_concat_iff (by decide)]
  rfl

theorem not_showsPlaceholder_ofMarker {m : Marker} (h : ¬ ShowsPlaceholder m.path) :
    ¬ ShowsPlaceholder (ofMarker m).description := by
  have htext : (ofMarker m).description.toList =
      "have the name ".toList ++ m.descriptor.simpleName.toList := by
    simp [ofMarker, ofTest]
  rw [ShowsPlaceholder, htext, infix_append_iff_of_notMem (by decide)]
  intro hname
  exact h (hname.trans m.descriptor.simpleName_suffix.isInfix)

end Criterion

namespace Clause
open Criterion

/-- The texts that the caller of a clause supplies. -/
def texts : Clause → List String
  | haveName text | haveSimpleName text | resideIn text => [text]
  | resideInAny patterns => patterns
  | always | never => []

theorem exists_of_infix_listed {patterns : List String}
    (h : placeholder.toList <:+: listed patterns) :
    ∃ pattern ∈ patterns, ShowsPlaceholder pattern := by
  induction patterns with
  | nil => exact absurd h not_infix_nil
  | cons pattern patterns ih =>
      have hlisted : listed (pattern :: patterns) =
          ['\''] ++ (pattern.toList ++ '\'' :: continued patterns) := listed_cons pattern patterns
      rw [hlisted, infix_append_iff_of_notMem (by decide),
        Text.infix_append_cons_iff (by decide)] at h
      obtain hpattern | hrest := h
      · exact ⟨pattern, List.mem_cons_self, hpattern⟩
      · cases patterns with
        | nil => exact absurd hrest not_infix_nil
        | cons next patterns =>
            rw [continued, infix_append_iff_of_notMem (by decide)] at hrest
            obtain ⟨other, hmem, hshows⟩ := ih hrest
            exact ⟨other, List.mem_cons_of_mem _ hmem, hshows⟩

theorem exists_showsPlaceholder {c : Clause} (h : ShowsPlaceholder c.criterion.description) :
    ∃ text ∈ c.texts, ShowsPlaceholder text := by
  have hlead : '<' ∉ c.lead.toList := by cases c <;> simp [lead]
  rw [ShowsPlaceholder, toList_description, infix_append_iff_of_notMem hlead] at h
  cases c with
  | haveName text | haveSimpleName text | resideIn text =>
      exact ⟨text, List.mem_singleton_self _, (infix_concat_iff (by decide)).mp h⟩
  | resideInAny patterns => exact exists_of_infix_listed ((infix_concat_iff (by decide)).mp h)
  | always | never => exact absurd h not_infix_nil

end Clause

namespace Expression
open Criterion

variable {α : Type}

/-- All texts that the caller supplies, also those that a renaming hides. -/
def texts {α : Type} : Expression α → List String
  | ofTest description _ => [description]
  | undescribed _ | always | never => []
  | ofMarker m => [m.path]
  | clause c => c.texts
  | redescribe inner description => inner.texts ++ [description]
  | and left right | or left right => left.texts ++ right.texts
  | negate inner | comap inner _ | clone inner => inner.texts

/-- Whether some part has no phrase and stands under no new one. -/
def exposed {α : Type} : Expression α → Bool
  | undescribed _ => true
  | and left right | or left right => left.exposed || right.exposed
  | negate inner | comap inner _ | clone inner => inner.exposed
  | ofTest _ _ | always | never | ofMarker _ | clause _ | redescribe _ _ => false

theorem showsPlaceholder_iff_exposed {e : Expression α}
    (h : ∀ text ∈ e.texts, ¬ ShowsPlaceholder text) :
    ShowsPlaceholder e.criterion.description ↔ e.exposed = true := by
  induction e with
  | undescribed test => exact iff_of_true List.infix_rfl rfl
  | ofTest description test =>
      exact iff_of_false (h description (List.mem_singleton_self _)) Bool.false_ne_true
  | redescribe inner description _ =>
      have hdescription := h description (List.mem_append_right _ (List.mem_singleton_self _))
      exact iff_of_false hdescription Bool.false_ne_true
  | always | never =>
      refine iff_of_false (not_infix_of_notMem ?_) Bool.false_ne_true
      simp [criterion, Criterion.always, Criterion.never, Criterion.ofTest]
  | ofMarker m =>
      have hmarker := not_showsPlaceholder_ofMarker (h m.path (List.mem_singleton_self _))
      exact iff_of_false hmarker Bool.false_ne_true
  | clause c =>
      refine iff_of_false ?_ Bool.false_ne_true
      intro hshows
      obtain ⟨text, hmem, htext⟩ := Clause.exists_showsPlaceholder hshows
      exact h text hmem htext
  | and left right ihl ihr =>
      have hl := ihl fun text hmem => h text (List.mem_append_left _ hmem)
      have hr := ihr fun text hmem => h text (List.mem_append_right _ hmem)
      rw [criterion, showsPlaceholder_and, hl, hr, exposed, Bool.or_eq_true]
  | or left right ihl ihr =>
      have hl := ihl fun text hmem => h text (List.mem_append_left _ hmem)
      have hr := ihr fun text hmem => h text (List.mem_append_right _ hmem)
      rw [criterion, showsPlaceholder_or, hl, hr, exposed, Bool.or_eq_true]
  | negate inner ih =>
      rw [criterion, showsPlaceholder_negate]
      exact ih h
  | comap inner project ih | clone inner ih => exact ih h

end Expression

/-- A derivation as its caller writes it. -/
inductive Written where
  | filter (e : Expression Descriptor)
  | redescribe (description : String)

namespace Written

def derivation : Written → Derivation
  | filter e => .filter e.criterion
  | redescribe description => .redescribe description

def texts : Written → List String
  | filter e => e.texts
  | redescribe description => [description]

theorem mem_texts_of_redescribe_mem {steps : List Written} {description : String}
    (h : .redescribe description ∈ steps.map derivation) : description ∈ steps.flatMap texts := by
  obtain ⟨step, hmem, hstep⟩ := List.mem_map.mp h
  cases step with
  | filter e => cases hstep
  | redescribe other =>
      cases hstep
      exact List.mem_flatMap.mpr ⟨_, hmem, List.mem_singleton_self _⟩

theorem exists_of_filter_mem {steps : List Written} {c : Criterion Descriptor}
    (h : .filter c ∈ steps.map derivation) : ∃ e, filter e ∈ steps ∧ e.criterion = c := by
  obtain ⟨step, hmem, hstep⟩ := List.mem_map.mp h
  cases step with
  | filter e => exact ⟨e, hmem, Derivation.filter.inj hstep⟩
  | redescribe description => cases hstep

end Written

namespace Roster
open Criterion ClassRoster.Derivation

/-- A roster straight from one of the two builders, and the texts that were supplied for it. -/
inductive BuiltWith : List String → Roster → Prop
  | ofList {ds : List Descriptor} {r : Roster} (h : Roster.ofList ds = .ok r) : BuiltWith [] r
  | ofEntries {entries : List (String × Descriptor)} {description : String} {r : Roster}
      (h : Roster.ofEntries entries description = .ok r) : BuiltWith [description] r

variable {supplied : List String} {r : Roster}

theorem BuiltWith.built (h : BuiltWith supplied r) : Built r := by
  cases h with
  | ofList h => exact .ofList h
  | ofEntries h => exact .ofEntries h

theorem BuiltWith.not_showsPlaceholder (h : BuiltWith supplied r)
    (hsupplied : ∀ text ∈ supplied, ¬ ShowsPlaceholder text) :
    ¬ ShowsPlaceholder r.description := by
  cases h with
  | ofList h =>
      rw [description_of_ofList h]
      exact not_infix_of_notMem (by decide)
  | ofEntries h =>
      rw [(description_of_ofEntries h).2]
      exact hsupplied _ (List.mem_singleton_self _)

theorem showsPlaceholder_that {root phrase : String} (hroot : ¬ ShowsPlaceholder root) :
    ShowsPlaceholder (root ++ " that " ++ phrase) ↔ ShowsPlaceholder phrase := by
  have htext : (root ++ " that " ++ phrase).toList =
      root.toList ++ ' ' :: ("that ".toList ++ phrase.toList) := by simp
  rw [ShowsPlaceholder, htext, Text.infix_append_cons_iff (by decide),
    infix_append_iff_of_notMem (by decide)]
  exact or_iff_right hroot

theorem BuiltWith.not_showsPlaceholder_renamed (h : BuiltWith supplied r) {steps : List Written}
    (htexts : ∀ text ∈ supplied ++ steps.flatMap Written.texts, ¬ ShowsPlaceholder text) :
    ¬ ShowsPlaceholder ((lastRenaming? (steps.map Written.derivation)).getD r.description) := by
  cases hrenaming : lastRenaming? (steps.map Written.derivation) with
  | none => exact h.not_showsPlaceholder fun text hmem => htexts text (List.mem_append_left _ hmem)
  | some description =>
      have hmem := Written.mem_texts_of_redescribe_mem (mem_of_lastRenaming? hrenaming)
      exact htexts description (List.mem_append_right _ hmem)

/-- As long as no text that was supplied has the placeholder, no root has it, and a description
has it just if it quotes an expression of which some part has no phrase. -/
theorem showsPlaceholder_derive_iff (h : BuiltWith supplied r) {steps : List Written}
    (htexts : ∀ text ∈ supplied ++ steps.flatMap Written.texts, ¬ ShowsPlaceholder text) :
    ¬ ShowsPlaceholder (r.derive (steps.map Written.derivation)).root ∧
      (ShowsPlaceholder (r.derive (steps.map Written.derivation)).description ↔
        ∃ e, .filter e ∈ steps ∧ e.exposed = true ∧
          lastPhrase? (steps.map Written.derivation) = some e.criterion.description) := by
  have hlast := h.not_showsPlaceholder_renamed htexts
  have hroot : ¬ ShowsPlaceholder (r.derive (steps.map Written.derivation)).root := by
    rw [root_derive, h.built.root_eq_description]
    exact hlast
  have hexposed : ∀ e, .filter e ∈ steps →
      (ShowsPlaceholder e.criterion.description ↔ e.exposed = true) := by
    intro e he
    refine Expression.showsPlaceholder_iff_exposed fun text hmem => htexts text ?_
    exact List.mem_append_right _ (List.mem_flatMap.mpr ⟨_, he, hmem⟩)
  refine ⟨hroot, ?_⟩
  rw [description_derive]
  cases hphrase : lastPhrase? (steps.map Written.derivation) with
  | none => simpa using hlast
  | some phrase =>
      rw [showsPlaceholder_that hroot]
      constructor
      · intro hshows
        obtain ⟨c, hmem, -, rfl⟩ := exists_filter_of_lastPhrase? hphrase
        obtain ⟨e, he, rfl⟩ := Written.exists_of_filter_mem hmem
        exact ⟨e, he, (hexposed e he).mp hshows, rfl⟩
      · rintro ⟨e, he, hshown, heq⟩
        cases heq
        exact (hexposed e he).mpr hshown

theorem showsPlaceholder_derive_iff_mixed :
    ∃ r, Roster.ofEntries [("a.X", ⟨"a.X"⟩)] "all" = .ok r ∧ BuiltWith ["all"] r ∧
      let mixed : Expression Descriptor := .or (.clause (.resideIn "a.."))
        (.negate (.comap (.undescribed fun name : String => name.isEmpty) Descriptor.simpleName))
      let steps : List Written := [.filter (.redescribe mixed "be renamed"), .redescribe "kept",
        .filter mixed, .filter (.undescribed fun _ => true)]
      (∀ text ∈ ["all"] ++ steps.flatMap Written.texts, ¬ ShowsPlaceholder text) ∧
      ¬ ShowsPlaceholder (r.derive (steps.map Written.derivation)).root ∧
      ShowsPlaceholder (r.derive (steps.map Written.derivation)).description := by
  let r : Roster := .ofIndex ⟨[("a.X", ⟨"a.X"⟩)]⟩ "all"
  have hr : BuiltWith ["all"] r :=
    .ofEntries (rfl : Roster.ofEntries [("a.X", ⟨"a.X"⟩)] "all" = .ok r)
  refine ⟨r, rfl, hr, ?_⟩
  intro mixed steps
  have htexts : ∀ text ∈ ["all"] ++ steps.flatMap Written.texts, ¬ ShowsPlaceholder text := by
    intro text hmem
    simp only [List.flatMap_cons, List.flatMap_nil, Written.texts, Expression.texts, Clause.texts,
      List.cons_append, List.nil_append, List.append_nil, List.mem_cons, List.not_mem_nil, or_false,
      steps, mixed] at hmem
    apply not_infix_of_notMem
    obtain rfl | rfl | rfl | rfl | rfl := hmem <;> decide
  have hshown := showsPlaceholder_derive_iff hr htexts
  exact ⟨htexts, hshown.1, hshown.2.mpr ⟨mixed, by simp [steps], rfl, rfl⟩⟩

/-- A criterion of which one part has a phrase and the other has none. -/
theorem placeholder_shown_by_mixed_criterion :
    ∃ r, Roster.ofList [⟨"p.A"⟩] = .ok r ∧ BuiltWith [] r ∧
      let e : Expression Descriptor :=
        .and (.ofTest "be late" fun _ => true) (.undescribed fun _ => true)
      (∀ text ∈ e.texts, ¬ ShowsPlaceholder text) ∧
      (r.derive [.filter e.criterion]).description =
        "classes that (be late) and (<undescribed>)" ∧
      ShowsPlaceholder (r.derive [.filter e.criterion]).description := by
  let r : Roster := .ofIndex ⟨[("p.A", ⟨"p.A"⟩)]⟩ "classes"
  refine ⟨r, rfl, .ofList (rfl : Roster.ofList [⟨"p.A"⟩] = .ok r), ?_⟩
  intro e
  have htexts : ∀ text ∈ e.texts, ¬ ShowsPlaceholder text := by
    intro text hmem
    cases List.mem_singleton.mp hmem
    exact not_infix_of_notMem (by decide)
  have hroot : ¬ ShowsPlaceholder "classes" := not_infix_of_notMem (by decide)
  refine ⟨htexts, rfl, (showsPlaceholder_that hroot).mpr ?_⟩
  exact (Expression.showsPlaceholder_iff_exposed htexts).mpr rfl

end Roster
end ClassRoster
