/-!
Cutting text at a separator and taking a known beginning off it. Everything here works on
lists of characters, so that a cut is an equation between lists; both functions are pinned
down by an equivalence that says exactly when they answer.
-/

namespace ClassRoster
namespace Text

/-- What stands before and after the last `sep`, or nothing where there is no `sep`. -/
def splitLast? (sep : Char) : List Char → Option (List Char × List Char)
  | [] => none
  | c :: rest =>
      match splitLast? sep rest with
      | some (before, after) => some (c :: before, after)
      | none => if c = sep then some ([], rest) else none

theorem splitLast?_eq_none_iff {sep : Char} {text : List Char} :
    splitLast? sep text = none ↔ sep ∉ text := by
  induction text with
  | nil => simp [splitLast?]
  | cons c rest ih =>
      cases hr : splitLast? sep rest with
      | some cut =>
          have hmem : sep ∈ rest := by
            refine Classical.byContradiction fun hn => ?_
            simp [ih.mpr hn] at hr
          simp [splitLast?, hr, hmem]
      | none => simp [splitLast?, hr, ih.mp hr, eq_comm]

theorem splitLast?_append {sep : Char} (before : List Char) {after : List Char}
    (h : sep ∉ after) : splitLast? sep (before ++ sep :: after) = some (before, after) := by
  induction before with
  | nil => simp [splitLast?, splitLast?_eq_none_iff.mpr h]
  | cons b before ih => simp [splitLast?, ih]

theorem splitLast?_eq_some_iff {sep : Char} {text before after : List Char} :
    splitLast? sep text = some (before, after) ↔
      text = before ++ sep :: after ∧ sep ∉ after := by
  constructor
  · intro h
    induction text generalizing before with
    | nil => simp [splitLast?] at h
    | cons c rest ih =>
        cases hr : splitLast? sep rest with
        | some cut =>
            simp only [splitLast?, hr, Option.some.injEq, Prod.mk.injEq] at h
            obtain ⟨rfl, rfl⟩ := h
            obtain ⟨rfl, hlast⟩ := ih hr
            exact ⟨rfl, hlast⟩
        | none =>
            by_cases hc : c = sep
            · simp only [splitLast?, hr, hc, if_true, Option.some.injEq, Prod.mk.injEq] at h
              obtain ⟨rfl, rfl⟩ := h
              exact ⟨by simp [hc], splitLast?_eq_none_iff.mp hr⟩
            · simp [splitLast?, hr, hc] at h
  · rintro ⟨rfl, h⟩
    exact splitLast?_append before h

/-- The text after `lead`, or nothing where the text does not begin with `lead`. -/
def remainder? : List Char → List Char → Option (List Char)
  | [], text => some text
  | _ :: _, [] => none
  | l :: lead, c :: text => if l = c then remainder? lead text else none

theorem remainder?_eq_some_iff {lead text rest : List Char} :
    remainder? lead text = some rest ↔ text = lead ++ rest := by
  induction lead generalizing text with
  | nil => simp [remainder?]
  | cons l lead ih =>
      cases text with
      | nil => simp [remainder?]
      | cons c text => by_cases h : l = c <;> simp [remainder?, h, ih, eq_comm]

end Text
end ClassRoster
