import ClassRoster.Proofs.Reachable
import Mathlib.Data.List.DropRight

/-!
What a chain of filters and renamings comes to. The contents depend on the criteria alone and
not on their order. The two phrases are told by the last renaming and by the last described
criterion after it; everything before is forgotten, and undescribed criteria are never heard of.
Both phrases are read from the end of the chain, hence the inductions from the end.
-/

namespace ClassRoster

inductive Derivation where
  | filter (c : Criterion Descriptor)
  | redescribe (description : String)

namespace Derivation

def apply (r : Roster) : Derivation → Roster
  | filter c => r.filter c
  | redescribe description => r.redescribe description

def criterion? : Derivation → Option (Criterion Descriptor)
  | filter c => some c
  | redescribe _ => none

def renaming? : Derivation → Option String
  | filter _ => none
  | redescribe description => some description

def phrase? : Derivation → Option String
  | filter c => if c.described then some c.description else none
  | redescribe _ => none

/-- Whether a step can be noticed in the phrases of a roster. -/
def leavesTrace : Derivation → Bool
  | filter c => c.described
  | redescribe _ => true

def criteria (steps : List Derivation) : List (Criterion Descriptor) :=
  steps.filterMap criterion?

def lastRenaming? (steps : List Derivation) : Option String :=
  (steps.filterMap renaming?).getLast?

def sinceRenaming (steps : List Derivation) : List Derivation :=
  steps.rtakeWhile fun step => step.renaming?.isNone

/-- The phrase of the last described criterion after the last renaming. -/
def lastPhrase? (steps : List Derivation) : Option String :=
  ((sinceRenaming steps).filterMap phrase?).getLast?

variable (steps : List Derivation) (c : Criterion Descriptor) (description : String)

theorem criteria_concat_filter : criteria (steps ++ [filter c]) = criteria steps ++ [c] := by
  simp [criteria, criterion?]

theorem criteria_concat_redescribe :
    criteria (steps ++ [redescribe description]) = criteria steps := by
  simp [criteria, criterion?]

theorem lastRenaming?_concat_filter :
    lastRenaming? (steps ++ [filter c]) = lastRenaming? steps := by
  simp [lastRenaming?, renaming?]

theorem lastRenaming?_concat_redescribe :
    lastRenaming? (steps ++ [redescribe description]) = some description := by
  simp [lastRenaming?, renaming?]

theorem lastPhrase?_concat_filter :
    lastPhrase? (steps ++ [filter c]) =
      if c.described then some c.description else lastPhrase? steps := by
  rw [lastPhrase?, sinceRenaming, List.rtakeWhile_concat_pos _ _ _ rfl, List.filterMap_append]
  cases hc : c.described with
  | true => simp [phrase?, hc]
  | false => simp [phrase?, hc, lastPhrase?, sinceRenaming]

theorem lastPhrase?_concat_redescribe :
    lastPhrase? (steps ++ [redescribe description]) = none := by
  rw [lastPhrase?, sinceRenaming, List.rtakeWhile_concat_neg _ _ _ (by simp [renaming?])]
  rfl

/-- Both phrases can be told from the steps that leave a trace. -/
theorem phrases_filter_leavesTrace :
    lastRenaming? (steps.filter leavesTrace) = lastRenaming? steps ∧
      lastPhrase? (steps.filter leavesTrace) = lastPhrase? steps := by
  induction steps using List.reverseRecOn with
  | nil => exact ⟨rfl, rfl⟩
  | append_singleton steps step ih =>
      rw [List.filter_append]
      cases step with
      | redescribe description =>
          have hkeep : [redescribe description].filter leavesTrace = [redescribe description] := rfl
          simp only [hkeep, lastRenaming?_concat_redescribe, lastPhrase?_concat_redescribe,
            and_self]
      | filter c =>
          cases hc : c.described with
          | true =>
              have hkeep : [filter c].filter leavesTrace = [filter c] := by
                simp [leavesTrace, hc]
              simp only [hkeep, lastRenaming?_concat_filter, lastPhrase?_concat_filter, hc, ih,
                if_true, and_self]
          | false =>
              have hdrop : [filter c].filter leavesTrace = [] := by simp [leavesTrace, hc]
              simp only [hdrop, List.append_nil, lastRenaming?_concat_filter,
                lastPhrase?_concat_filter, hc, ih, Bool.false_eq_true, if_false, and_self]

variable {steps description}

theorem mem_of_lastRenaming? (h : lastRenaming? steps = some description) :
    redescribe description ∈ steps := by
  obtain ⟨step, hmem, hstep⟩ := List.mem_filterMap.mp (List.mem_of_getLast? h)
  cases step with
  | filter c => cases hstep
  | redescribe other => cases hstep; exact hmem

theorem exists_filter_of_lastPhrase? {phrase : String} (h : lastPhrase? steps = some phrase) :
    ∃ c, filter c ∈ steps ∧ c.described = true ∧ c.description = phrase := by
  obtain ⟨step, hsince, hstep⟩ := List.mem_filterMap.mp (List.mem_of_getLast? h)
  have hmem : step ∈ steps := (List.rtakeWhile_suffix _ steps).subset hsince
  cases step with
  | filter c =>
      cases hc : c.described with
      | true =>
          simp only [phrase?, hc, if_true, Option.some.injEq] at hstep
          exact ⟨c, hmem, hc, hstep⟩
      | false => simp [phrase?, hc] at hstep
  | redescribe other => cases hstep

end Derivation

namespace Roster
open ClassRoster.Derivation

def derive (r : Roster) (steps : List Derivation) : Roster := steps.foldl Derivation.apply r

variable {r : Roster}

theorem derive_concat (steps : List Derivation) (step : Derivation) :
    r.derive (steps ++ [step]) = step.apply (r.derive steps) := by
  rw [derive, List.foldl_concat]
  rfl

theorem reachable_derive (h : Reachable r) (steps : List Derivation) :
    Reachable (r.derive steps) := by
  induction steps using List.reverseRecOn with
  | nil => exact h
  | append_singleton steps step ih =>
      rw [derive_concat]
      cases step with
      | filter c => exact ih.filter c
      | redescribe description => exact ih.redescribe description

theorem classes_derive (steps : List Derivation) :
    (r.derive steps).classes = r.classes.filter fun d => (criteria steps).all (·.accepts d) := by
  induction steps using List.reverseRecOn with
  | nil => exact congrArg Index.mk (List.filter_eq_self.mpr fun _ _ => rfl).symm
  | append_singleton steps step ih =>
      rw [derive_concat]
      cases step with
      | filter c =>
          change (r.derive steps).classes.filter c.accepts = _
          rw [ih, Index.filter_filter, criteria_concat_filter]
          refine congrArg r.classes.filter ?_
          funext d
          simp only [List.all_append, List.all_cons, List.all_nil, Bool.and_true]
      | redescribe description =>
          rw [criteria_concat_redescribe]
          exact ih

theorem root_derive (steps : List Derivation) :
    (r.derive steps).root = (lastRenaming? steps).getD r.root := by
  induction steps using List.reverseRecOn with
  | nil => rfl
  | append_singleton steps step ih =>
      rw [derive_concat]
      cases step with
      | filter c => rw [lastRenaming?_concat_filter]; exact ih
      | redescribe description => rw [lastRenaming?_concat_redescribe]; rfl

theorem description_derive (steps : List Derivation) :
    (r.derive steps).description =
      match lastPhrase? steps with
      | some phrase => (r.derive steps).root ++ " that " ++ phrase
      | none => (lastRenaming? steps).getD r.description := by
  induction steps using List.reverseRecOn with
  | nil => rfl
  | append_singleton steps step ih =>
      rw [derive_concat]
      cases step with
      | filter c =>
          rw [lastPhrase?_concat_filter, lastRenaming?_concat_filter]
          cases hc : c.described with
          | true => simp [Derivation.apply, Roster.filter, hc, connector]
          | false => simpa [Derivation.apply, Roster.filter, hc] using ih
      | redescribe description =>
          rw [lastPhrase?_concat_redescribe, lastRenaming?_concat_redescribe]
          rfl

/-- The closed form of a chain. A chain with the same criteria in another order, and with other
renamings between them, has the same contents; without its undescribed criteria a chain has the
same phrases. -/
theorem derive_closed_form (h : Built r) (steps : List Derivation) :
    (r.derive steps).names =
        r.names.filter (fun name => (criteria steps).all (·.accepts ⟨name⟩)) ∧
      (r.derive steps).descriptors =
        r.descriptors.filter (fun d => (criteria steps).all (·.accepts d)) ∧
      (r.derive steps).root = (lastRenaming? steps).getD r.description ∧
      (r.derive steps).description =
        (match lastPhrase? steps with
          | some phrase => (r.derive steps).root ++ " that " ++ phrase
          | none => (r.derive steps).root) ∧
      (∀ others, (criteria others).Perm (criteria steps) →
        (r.derive others).classes = (r.derive steps).classes) ∧
      (r.derive (steps.filter leavesTrace)).root = (r.derive steps).root ∧
      (r.derive (steps.filter leavesTrace)).description = (r.derive steps).description := by
  have hfiled := (reachable_derive (.built h) steps).filed
  have hdescriptors : (r.derive steps).descriptors =
      r.descriptors.filter (fun d => (criteria steps).all (·.accepts d)) := by
    rw [descriptors, classes_derive]
    simp only [Index.values, Index.filter, List.filter_map, descriptors, Function.comp_def]
  obtain ⟨hrenaming, hphrase⟩ := phrases_filter_leavesTrace steps
  have hroot : (r.derive (steps.filter leavesTrace)).root = (r.derive steps).root := by
    rw [root_derive, root_derive, hrenaming]
  refine ⟨?_, hdescriptors, ?_, ?_, ?_, hroot, ?_⟩
  · rw [names, ← hfiled.map_name_values]
    change (r.derive steps).descriptors.map Descriptor.name = _
    rw [hdescriptors, names, ← h.filed.map_name_values, List.filter_map]
    rfl
  · rw [root_derive, h.root_eq_description]
  · rw [description_derive, root_derive, h.root_eq_description]
  · intro others hperm
    rw [classes_derive, classes_derive]
    refine congrArg r.classes.filter ?_
    funext d
    exact hperm.all_eq
  · rw [description_derive, description_derive, hroot, hrenaming, hphrase]

theorem derive_closed_form_renamed :
    ∃ r q, Roster.ofList [⟨"b.Y"⟩, ⟨"a.X"⟩, ⟨"c.Z"⟩] = .ok r ∧ Built r ∧
      r.derive [.filter (.ofTest "be late" fun d => d.name != "a.X"), .redescribe "kept",
        .filter (.ofTest "be Y" fun d => d.name == "b.Y"), .filter .always,
        .filter (.undescribed fun _ => true)] = q ∧
      q.names = ["b.Y"] ∧ q.description = "kept that always true" := by
  let r : Roster := .ofIndex ⟨[("a.X", ⟨"a.X"⟩), ("b.Y", ⟨"b.Y"⟩), ("c.Z", ⟨"c.Z"⟩)]⟩ "classes"
  have hr : Built r := .ofList (rfl : Roster.ofList [⟨"b.Y"⟩, ⟨"a.X"⟩, ⟨"c.Z"⟩] = .ok r)
  have closed := derive_closed_form hr
  exact ⟨r, _, rfl, hr, rfl, (closed _).1, (closed _).2.2.2.1⟩

theorem Built.description_ne_empty (h : Built r) : r.description ≠ "" := by
  cases h with
  | ofList h =>
      rw [description_of_ofList h]
      decide
  | ofEntries h =>
      obtain ⟨hne, hdescription⟩ := description_of_ofEntries h
      rw [hdescription]
      exact hne

theorem Built.getD_description_eq_empty_iff (h : Built r) {last? : Option String} :
    last?.getD r.description = "" ↔ last? = some "" := by
  cases last? with
  | none => simp [h.description_ne_empty]
  | some description => simp

/-- A renaming is not looked at, and it is the only way to an empty phrase. The root stays empty up
to the next renaming, the description up to the next described criterion. -/
theorem description_derive_eq_empty_iff (h : Built r) (steps : List Derivation) :
    ((r.derive steps).description = "" ↔
        lastRenaming? steps = some "" ∧ lastPhrase? steps = none) ∧
      ((r.derive steps).root = "" ↔ lastRenaming? steps = some "") ∧
      (.redescribe "" ∉ steps → (r.derive steps).description ≠ "") := by
  have hdescription : (r.derive steps).description = "" ↔
      lastRenaming? steps = some "" ∧ lastPhrase? steps = none := by
    rw [description_derive]
    cases hphrase : lastPhrase? steps with
    | some phrase => simp
    | none => simp [h.getD_description_eq_empty_iff]
  refine ⟨hdescription, ?_, ?_⟩
  · rw [root_derive, h.root_eq_description, h.getD_description_eq_empty_iff]
  · intro hsteps hempty
    exact hsteps (mem_of_lastRenaming? (hdescription.mp hempty).1)

theorem description_derive_eq_empty_iff_renamed :
    ∃ r, Roster.ofEntries [("a.X", ⟨"a.X"⟩)] "all" = .ok r ∧ Built r ∧
      (r.derive [.redescribe "", .filter (.undescribed fun _ => true)]).description = "" ∧
      (r.derive [.redescribe "", .filter .always]).root = "" ∧
      (r.derive [.redescribe "", .filter .always]).description ≠ "" ∧
      (r.derive [.redescribe "kept", .filter .never]).description ≠ "" := by
  let r : Roster := .ofIndex ⟨[("a.X", ⟨"a.X"⟩)]⟩ "all"
  have hr : Built r := .ofEntries (rfl : Roster.ofEntries [("a.X", ⟨"a.X"⟩)] "all" = .ok r)
  have empty := description_derive_eq_empty_iff hr
  refine ⟨r, rfl, hr, (empty _).1.mpr ⟨rfl, rfl⟩, (empty _).2.1.mpr rfl, ?_, ?_⟩
  · intro hempty
    cases ((empty _).1.mp hempty).2
  · exact (empty _).2.2 (by simp)

/-- A roster that was built under a description and is without one after a renaming. -/
theorem description_empty_after_redescribe :
    ∃ r, Roster.ofList [⟨"p.A"⟩] = .ok r ∧ Built r ∧ r.description = "classes" ∧
      (r.derive [.redescribe ""]).description = "" := by
  let r : Roster := .ofIndex ⟨[("p.A", ⟨"p.A"⟩)]⟩ "classes"
  exact ⟨r, rfl, .ofList (rfl : Roster.ofList [⟨"p.A"⟩] = .ok r), rfl, rfl⟩

end Roster
end ClassRoster
