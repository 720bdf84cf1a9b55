import ClassRoster.Fault
import ClassRoster.Proofs.Readability
import Mathlib.Tactic.TFAE

/-!
What is left of a cause in a converted error. A conversion looks at the category and at the sentence
only, and no two categories come to the same. Two of the causes have one category, and the sentences
take in names as they are, with apostrophes and everything else; still the category and the sentence
together tell the cause and its names. A name that is alone in its sentence needs no mark to be
told, since the text around it is fixed. Only the first of two names has to end at a mark that it
does not have itself.
-/

namespace ClassRoster
namespace RosterError

/-- Whether a wrong key can be told from what follows it in the sentence. -/
def Legible : RosterError → Prop
  | keyMismatch key _ => '\'' ∉ key.toList
  | duplicateKey _ | emptyDescription | notFound _ => True

instance : DecidablePred Legible
  | keyMismatch key _ => inferInstanceAs (Decidable ('\'' ∉ key.toList))
  | duplicateKey _ | emptyDescription | notFound _ => inferInstanceAs (Decidable True)

theorem spliced_inj {lead tail a b : String} (h : lead ++ a ++ tail = lead ++ b ++ tail) : a = b :=
  (String.append_right_inj lead).mp ((String.append_left_inj tail).mp h)

theorem toList_message_keyMismatch (key name : String) :
    (keyMismatch key name).message.toList = "class keyed as '".toList ++
      (key.toList ++ '\'' :: (" is named '".toList ++ (name.toList ++ ['\'']))) := by
  have htext : (keyMismatch key name).message =
      "class keyed as '" ++ key ++ "' is named '" ++ name ++ "'" := rfl
  have hmark : "' is named '".toList = '\'' :: " is named '".toList := rfl
  have hquote : "'".toList = ['\''] := rfl
  rw [htext, String.toList_append, String.toList_append, String.toList_append,
    String.toList_append, hmark, hquote]
  simp only [List.append_assoc, List.cons_append]

theorem message_keyMismatch_inj {key key' name name' : String} (hkey : '\'' ∉ key.toList)
    (hkey' : '\'' ∉ key'.toList)
    (h : (keyMismatch key name).message = (keyMismatch key' name').message) :
    key = key' ∧ name = name' := by
  have hstop {text : String} (htext : '\'' ∉ text.toList) : ∀ c ∈ text.toList, ¬ c = '\'' :=
    fun c hc hquote => htext (hquote ▸ hc)
  rw [← String.toList_inj, toList_message_keyMismatch, toList_message_keyMismatch] at h
  obtain ⟨hkeys, -, hrest⟩ := Text.cut_unique (hstop hkey) (hstop hkey') rfl rfl
    (List.append_cancel_left h)
  have hnames := List.append_cancel_right (List.append_cancel_left hrest)
  exact ⟨String.toList_inj.mp hkeys, String.toList_inj.mp hnames⟩

theorem message_keyMismatch_ne (key name : String) :
    (keyMismatch key name).message ≠ emptyDescription.message := by
  have hkeyed : "class keyed as '".toList = "class ".toList ++ "keyed as '".toList := rfl
  have hempty : emptyDescription.message.toList =
      "class ".toList ++ "collection description must not be empty".toList := rfl
  intro h
  rw [← String.toList_inj, toList_message_keyMismatch, hkeyed, hempty, List.append_assoc] at h
  exact absurd (List.cons.inj (List.append_cancel_left h)).1 (by decide)

/-- The category and the sentence tell the cause. Sentences have to tell only those causes apart
that have one category. -/
theorem eq_of_message_eq {e e' : RosterError} (h : e.Legible) (h' : e'.Legible)
    (hcategory : e.category = e'.category) (hmessage : e.message = e'.message) : e = e' := by
  cases e with
  | duplicateKey name =>
      cases e' with
      | duplicateKey name' => exact congrArg duplicateKey (spliced_inj hmessage)
      | _ => cases hcategory
  | notFound name =>
      cases e' with
      | notFound name' => exact congrArg notFound (spliced_inj hmessage)
      | _ => cases hcategory
  | emptyDescription =>
      cases e' with
      | emptyDescription => rfl
      | keyMismatch key' name' => exact absurd hmessage.symm (message_keyMismatch_ne key' name')
      | _ => cases hcategory
  | keyMismatch key name =>
      cases e' with
      | keyMismatch key' name' =>
          obtain ⟨rfl, rfl⟩ := message_keyMismatch_inj h h' hmessage
          rfl
      | emptyDescription => exact absurd hmessage (message_keyMismatch_ne key name)
      | _ => cases hcategory

theorem category_eq_notFound_iff {e : RosterError} :
    e.category = .notFound ↔ ∃ name, e = notFound name := by
  cases e <;> simp [category]

theorem origin_publicError_eq_lookup_iff {e : RosterError} :
    e.publicError.origin = .lookup ↔ e.category = .notFound := by
  rw [← origin_fault_eq_lookup_iff, ← FaultOrigin.published_inj]
  rfl

theorem kind_publicError (e : RosterError) : e.publicError.kind = e.category.kind :=
  congrArg Category.kind e.category_fault

theorem kind_publicError_eq_iff {e e' : RosterError} :
    e.publicError.kind = e'.publicError.kind ↔ e.category = e'.category := by
  rw [kind_publicError, kind_publicError, Category.kind_inj]

/-- What the conversions keep of a cause. -/
structure Converted (e : RosterError) : Prop where
  publicError_fault : e.fault.publicError = e.publicError
  message_fault : e.fault.message = e.message
  message_publicError : e.publicError.message = e.message
  kind_duplicateKey : e.publicError.kind = .duplicateKey ↔ ∃ name, e = duplicateKey name
  kind_notFound : e.publicError.kind = .notFound ↔ ∃ name, e = notFound name
  origin_publicError : e.publicError.origin = .lookup ↔ ∃ name, e = notFound name
  origin_fault : e.fault.origin = .lookup ↔ ∃ name, e = notFound name
  identified : e.Legible → ∀ other : RosterError, other.Legible →
    List.TFAE
      [e = other,
        e.publicError = other.publicError,
        e.fault = other.fault,
        e.publicError.kind = other.publicError.kind ∧
          e.publicError.message = other.publicError.message]

/-- Both ways to convert a cause lead to one error, and what is left of it there tells the cause. -/
theorem conversion_identifies (e : RosterError) : e.Converted := by
  constructor
  case publicError_fault => rfl
  case message_fault => exact e.message_fault
  case message_publicError => exact e.message_fault
  case kind_duplicateKey | kind_notFound =>
    rw [kind_publicError]
    cases e <;> simp [category, Category.kind]
  case origin_publicError =>
    exact origin_publicError_eq_lookup_iff.trans category_eq_notFound_iff
  case origin_fault => exact origin_fault_eq_lookup_iff.trans category_eq_notFound_iff
  case identified =>
    intro h other h'
    tfae_have 1 → 3 := congrArg fault
    tfae_have 3 → 2 := congrArg Fault.publicError
    tfae_have 2 → 4 := by
      intro hpublic
      obtain ⟨hkind, -, hmessage⟩ := PublicError.mk.inj hpublic
      exact ⟨hkind, hmessage⟩
    tfae_have 4 → 1 := by
      rintro ⟨hkind, hmessage⟩
      have htext : e.fault.message = other.fault.message := hmessage
      rw [message_fault, message_fault] at htext
      exact eq_of_message_eq h h' (kind_publicError_eq_iff.mp hkind) htext
    tfae_finish

theorem conversion_identifies_quoted :
    let e := keyMismatch "a" "b' is named 'c"
    let missing := notFound "a' not found in collection"
    e.Legible ∧ missing.Legible ∧
      e.fault.publicError = e.publicError ∧
      (e.publicError = (keyMismatch "a" "b").publicError ↔ e = keyMismatch "a" "b") ∧
      (e.fault = emptyDescription.fault ↔ e = emptyDescription) ∧
      missing.publicError ≠ (notFound "a").publicError ∧
      missing.fault.origin = .lookup := by
  intro e missing
  have he : e.Legible := by decide
  have hmissing : missing.Legible := trivial
  have hmismatch := (conversion_identifies e).identified he (keyMismatch "a" "b") (by decide)
  have hempty := (conversion_identifies e).identified he emptyDescription trivial
  have hother := (conversion_identifies missing).identified hmissing (notFound "a") trivial
  refine ⟨he, hmissing, (conversion_identifies e).publicError_fault, ?_, ?_, ?_, ?_⟩
  · exact hmismatch.out 1 0
  · exact hempty.out 2 0
  · exact fun h => absurd ((hother.out 1 0).mp h) (by decide)
  · exact (conversion_identifies missing).origin_fault.mpr ⟨_, rfl⟩

/-- A key with an apostrophe can be read as a shorter one before a longer name. -/
example : (keyMismatch "a' is named 'b" "c").publicError =
    (keyMismatch "a" "b' is named 'c").publicError := by
  decide

end RosterError
end ClassRoster
