import ClassRoster.Proofs.Packages

/-!
What the parts of a class name are. The package goes up to the last dot, and the simple name is cut
twice, at the last dot and then at the last dollar sign of what is left; a dollar sign counts only
where no dot comes after it. A suffix without a separator lies behind the last one, and that is all
there is to both cuts: the simple name is the longest suffix with neither separator.
-/

namespace ClassRoster
namespace Text

/-- What stands behind the last `sep`; all of the text where there is no `sep`. -/
def afterLast (sep : Char) (text : List Char) : List Char :=
  match splitLast? sep text with
  | some (_, after) => after
  | none => text

theorem afterLast_cases (sep : Char) (text : List Char) :
    sep ∉ afterLast sep text ∧
      (text = afterLast sep text ∨ sep :: afterLast sep text <:+ text) := by
  simp only [afterLast]
  cases hcut : splitLast? sep text with
  | none => exact ⟨splitLast?_eq_none_iff.mp hcut, .inl rfl⟩
  | some cut =>
      obtain ⟨htext, hafter⟩ := splitLast?_eq_some_iff.mp hcut
      refine ⟨hafter, .inr ?_⟩
      rw [htext]
      exact List.suffix_append _ _

theorem afterLast_suffix (sep : Char) (text : List Char) : afterLast sep text <:+ text := by
  cases (afterLast_cases sep text).2 with
  | inl htext => exact ⟨[], htext.symm⟩
  | inr hcut => exact (List.suffix_cons sep _).trans hcut

/-- Behind the last separator is everything at the end that does not have one. -/
theorem suffix_afterLast_iff {sep : Char} {text part : List Char} :
    part <:+ afterLast sep text ↔ part <:+ text ∧ sep ∉ part := by
  constructor
  · intro h
    refine ⟨h.trans (afterLast_suffix sep text), ?_⟩
    intro hsep
    exact (afterLast_cases sep text).1 (h.mem hsep)
  · intro ⟨hpart, hsep⟩
    cases (afterLast_cases sep text).2 with
    | inl htext => exact htext ▸ hpart
    | inr hcut =>
        -- A longer suffix would reach the separator.
        cases List.suffix_or_suffix_of_suffix hpart hcut with
        | inl hshort =>
            cases List.suffix_cons_iff.mp hshort with
            | inl heq => exact absurd (heq ▸ List.mem_cons_self) hsep
            | inr h => exact h
        | inr hlong => exact absurd (hlong.mem List.mem_cons_self) hsep

theorem afterLast_eq_iff {sep : Char} {text part : List Char} :
    afterLast sep text = part ↔ sep ∉ part ∧ (text = part ∨ sep :: part <:+ text) := by
  constructor
  · intro h
    exact h ▸ afterLast_cases sep text
  · intro ⟨hsep, h⟩
    cases h with
    | inl htext =>
        subst htext
        exact (afterLast_suffix sep text).eq_of_length_le
          (suffix_afterLast_iff.mpr ⟨List.suffix_rfl, hsep⟩).length_le
    | inr hcut =>
        have hpart : part <:+ afterLast sep text :=
          suffix_afterLast_iff.mpr ⟨(List.suffix_cons sep part).trans hcut, hsep⟩
        cases List.suffix_or_suffix_of_suffix hcut (afterLast_suffix sep text) with
        | inl hlong => exact absurd (hlong.mem List.mem_cons_self) (afterLast_cases sep text).1
        | inr hshort =>
            cases List.suffix_cons_iff.mp hshort with
            | inl heq =>
                exact absurd (heq ▸ List.mem_cons_self) (afterLast_cases sep text).1
            | inr h => exact h.eq_of_length_le hpart.length_le

theorem mem_iff_exists_cons_suffix {sep : Char} {text : List Char} :
    sep ∈ text ↔ ∃ after, sep :: after <:+ text := by
  constructor
  · intro h
    obtain ⟨before, after, htext⟩ := List.mem_iff_append.mp h
    exact ⟨after, before, htext.symm⟩
  · intro ⟨after, h⟩
    exact h.mem List.mem_cons_self

theorem toList_dot_append (text : String) : ("." ++ text).toList = '.' :: text.toList :=
  String.toList_append

theorem toList_dollar_append (text : String) : ("$" ++ text).toList = '$' :: text.toList :=
  String.toList_append

/-- Text in which neither separator of a name occurs. -/
def Unseparated (text : String) : Prop := '.' ∉ text.toList ∧ '$' ∉ text.toList

/-- Whether `last` is what stands behind the last dot, the whole name where there is none. -/
def IsLastSegment (last name : String) : Prop :=
  '.' ∉ last.toList ∧ (name = last ∨ ("." ++ last).toList <:+ name.toList)

end Text

namespace Descriptor
open Text

variable {d : Descriptor}

theorem localName_eq_afterLast (d : Descriptor) : d.localName = afterLast '.' d.name.toList := rfl

theorem toList_simpleName (d : Descriptor) :
    d.simpleName.toList = afterLast '$' (afterLast '.' d.name.toList) := by
  rw [simpleName, localName_eq_afterLast, afterLast.eq_def '$']
  cases splitLast? '$' (afterLast '.' d.name.toList) with
  | none => exact String.toList_ofList
  | some cut => exact String.toList_ofList

theorem suffix_simpleName_iff {part : String} :
    part.toList <:+ d.simpleName.toList ↔ part.toList <:+ d.name.toList ∧ Unseparated part := by
  rw [toList_simpleName, suffix_afterLast_iff, suffix_afterLast_iff, and_assoc]
  rfl

theorem isLastSegment_iff {last : String} :
    IsLastSegment last d.name ↔ d.localName = last.toList := by
  rw [IsLastSegment, localName_eq_afterLast, afterLast_eq_iff, toList_dot_append,
    String.toList_inj]

theorem simpleName_eq_iff {part : String} :
    d.simpleName = part ↔
      Unseparated part ∧
        (d.name = part ∨ ("." ++ part).toList <:+ d.name.toList ∨
          ("$" ++ part).toList <:+ d.name.toList) := by
  have hmem : '.' ∉ '$' :: part.toList ↔ '.' ∉ part.toList := by simp
  rw [← String.toList_inj, toList_simpleName, afterLast_eq_iff, afterLast_eq_iff,
    suffix_afterLast_iff, hmem, toList_dot_append, toList_dollar_append, String.toList_inj,
    Unseparated]
  tauto

theorem isNested_iff_mem : d.isNested = true ↔ '$' ∈ d.localName := List.contains_iff_mem

/-- A dollar sign is one of the class's own just if no dot comes after it. -/
theorem isNested_iff_exists :
    d.isNested = true ↔
      ∃ inner : String, '.' ∉ inner.toList ∧ ("$" ++ inner).toList <:+ d.name.toList := by
  rw [isNested_iff_mem, mem_iff_exists_cons_suffix, localName_eq_afterLast]
  simp only [suffix_afterLast_iff, toList_dollar_append]
  constructor
  · intro ⟨after, hsuffix, hdot⟩
    refine ⟨String.ofList after, ?_, ?_⟩
    · simpa using hdot
    · simpa using hsuffix
  · intro ⟨inner, hdot, hsuffix⟩
    exact ⟨inner.toList, hsuffix, by simpa using hdot⟩

/-- A class is nested just if something is cut off its last segment, and then a dollar sign is. -/
theorem isNested_cases {last : String} (h : IsLastSegment last d.name) :
    d.isNested = true ∧ last ≠ d.simpleName ∧ ("$" ++ d.simpleName).toList <:+ last.toList ∨
      d.isNested = false ∧ last = d.simpleName := by
  have hlast := isLastSegment_iff.mp h
  have hsimple : d.simpleName.toList = afterLast '$' last.toList := by
    rw [toList_simpleName, ← localName_eq_afterLast, hlast]
  have hcut := afterLast_cases '$' last.toList
  rw [← hsimple] at hcut
  cases hnested : d.isNested with
  | true =>
      have hmem : '$' ∈ last.toList := hlast ▸ isNested_iff_mem.mp hnested
      have hne : last ≠ d.simpleName := by
        intro heq
        exact hcut.1 (heq ▸ hmem)
      refine .inl ⟨rfl, hne, ?_⟩
      cases hcut.2 with
      | inl heq => exact absurd (String.toList_inj.mp heq) hne
      | inr hsuffix => exact (toList_dollar_append d.simpleName).symm ▸ hsuffix
  | false =>
      have hmem : '$' ∉ last.toList := by
        rw [← hlast, ← isNested_iff_mem, hnested]
        exact Bool.false_ne_true
      refine .inr ⟨rfl, ?_⟩
      rw [← String.toList_inj, hsimple, afterLast_eq_iff.mpr ⟨hmem, .inl rfl⟩]

/-- What the parts of a name are, said of the name alone. -/
structure Decomposed (d : Descriptor) : Prop where
  unpackaged : '.' ∉ d.name.toList → d.packageName = ""
  packaged : '.' ∈ d.name.toList →
    ∃ last, '.' ∉ last.toList ∧ d.name = d.packageName ++ "." ++ last
  packageName_eq : ∀ package last, '.' ∉ last.toList → d.name = package ++ "." ++ last →
    d.packageName = package
  simpleName_unseparated : Unseparated d.simpleName
  simpleName_suffix : d.simpleName.toList <:+ d.name.toList
  simpleName_longest : ∀ part, Unseparated part → part.toList <:+ d.name.toList →
    part.toList <:+ d.simpleName.toList
  lastSegment : ∃! last, IsLastSegment last d.name
  isNested_tfae : ∀ last, IsLastSegment last d.name →
    List.TFAE
      [d.isNested = true,
        ∃ inner, '.' ∉ inner.toList ∧ ("$" ++ inner).toList <:+ d.name.toList,
        last ≠ d.simpleName]
  ends_of_isNested : ∀ last, IsLastSegment last d.name → d.isNested = true →
    ("$" ++ d.simpleName).toList <:+ last.toList
  accepts_iff : ∀ part, (Criterion.haveSimpleName part).accepts d = true ↔
    Unseparated part ∧
      (d.name = part ∨ ("." ++ part).toList <:+ d.name.toList ∨
        ("$" ++ part).toList <:+ d.name.toList)
  refuses : ∀ part, ¬ Unseparated part → (Criterion.haveSimpleName part).accepts d = false

/-- No character of a name is lost and no part is cut shorter than it has to be. -/
theorem name_decomposed (d : Descriptor) : d.Decomposed := by
  have haccepts (part : String) : (Criterion.haveSimpleName part).accepts d = true ↔
      Unseparated part ∧
        (d.name = part ∨ ("." ++ part).toList <:+ d.name.toList ∨
          ("$" ++ part).toList <:+ d.name.toList) :=
    beq_iff_eq.trans simpleName_eq_iff
  have hsimple := suffix_simpleName_iff.mp (List.suffix_refl d.simpleName.toList)
  constructor
  case unpackaged =>
    intro hdot
    exact packageName_eq_iff.mpr (.inr ⟨rfl, hdot⟩)
  case packaged =>
    intro hdot
    cases d.packageName_cases with
    | inl h => exact h
    | inr h => exact absurd hdot h.2
  case packageName_eq =>
    intro package last hlast hname
    exact packageName_eq_iff.mpr (.inl ⟨last, hlast, hname⟩)
  case simpleName_unseparated => exact hsimple.2
  case simpleName_suffix => exact hsimple.1
  case simpleName_longest =>
    intro part hpart hsuffix
    exact suffix_simpleName_iff.mpr ⟨hsuffix, hpart⟩
  case lastSegment =>
    refine ⟨String.ofList d.localName, isLastSegment_iff.mpr String.toList_ofList.symm, ?_⟩
    intro last hlast
    rw [← String.toList_inj, String.toList_ofList, isLastSegment_iff.mp hlast]
  case isNested_tfae =>
    intro last hlast
    tfae_have 1 ↔ 2 := isNested_iff_exists
    tfae_have 1 ↔ 3 := by
      cases isNested_cases hlast with
      | inl h => exact iff_of_true h.1 h.2.1
      | inr h => exact iff_of_false (Bool.eq_false_iff.mp h.1) fun hne => hne h.2
    tfae_finish
  case ends_of_isNested =>
    intro last hlast hnested
    cases isNested_cases hlast with
    | inl h => exact h.2.2
    | inr h => exact absurd hnested (Bool.eq_false_iff.mp h.1)
  case accepts_iff => exact haccepts
  case refuses =>
    intro part hpart
    rw [Bool.eq_false_iff]
    intro h
    exact hpart ((haccepts part).mp h).1

example : (mk "..a$b.$C$").packageName = "..a$b" ∧ (mk "..a$b.$C$").simpleName = "" ∧
    (mk "a$b.C").isNested = false := by decide

end Descriptor
end ClassRoster
