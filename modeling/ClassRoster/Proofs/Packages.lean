import ClassRoster.Criterion.Descriptor
import Mathlib.Data.List.Basic
import Mathlib.Tactic.TFAE

/-!
Which classes a package pattern selects. A pattern is read by its last two characters, a class name
is cut at its last dot, and a root is compared character by character; yet what is selected can be
said in whole segments, the parts between dots. A subtree pattern selects what lies at or below its
root, no matter how many dots follow the root; any other pattern selects one package.
-/

namespace ClassRoster
namespace Text

/-- The parts of a text between its dots. -/
def segments (text : String) : List (List Char) := text.toList.splitOn '.'

/-- A text of `k` dots. -/
def dots (k : Nat) : String := String.ofList (List.replicate k '.')

theorem segments_append_dot (lead rest : String) :
    segments (lead ++ "." ++ rest) = segments lead ++ segments rest := by
  have hlist : (lead ++ "." ++ rest).toList = lead.toList ++ '.' :: rest.toList := by simp
  rw [segments, hlist, List.splitOn_append_cons_self]
  rfl

theorem intercalate_append {sep : List Char} {xs ys : List (List Char)} (hx : xs ≠ [])
    (hy : ys ≠ []) :
    sep.intercalate (xs ++ ys) = sep.intercalate xs ++ (sep ++ sep.intercalate ys) := by
  induction xs with
  | nil => exact absurd rfl hx
  | cons x xs ih =>
      cases xs with
      | nil =>
          rw [List.singleton_append, List.intercalate_cons_of_ne_nil hy,
            List.intercalate_singleton, List.append_assoc]
      | cons x' xs =>
          rw [List.cons_append, List.intercalate_cons_of_ne_nil (by simp), ih (by simp),
            List.intercalate_cons_cons]
          simp only [List.append_assoc]

/-- Segments cannot begin alike without the texts doing so up to a dot or to the end. -/
theorem segments_prefix_iff {root text : String} :
    segments root <+: segments text ↔ text = root ∨ ∃ below, text = root ++ "." ++ below := by
  constructor
  · rintro ⟨parts, hparts⟩
    have htext := congrArg (List.intercalate ['.']) hparts
    rw [segments, segments, List.intercalate_splitOn] at htext
    by_cases hnil : parts = []
    · rw [hnil, List.append_nil, List.intercalate_splitOn] at htext
      exact .inl (String.toList_inj.mp htext.symm)
    · rw [intercalate_append (List.splitOn_ne_nil '.' _) hnil, List.intercalate_splitOn] at htext
      refine .inr ⟨String.ofList (List.intercalate ['.'] parts), ?_⟩
      rw [← String.toList_inj, ← htext]
      simp
  · rintro (rfl | ⟨below, rfl⟩)
    · exact List.prefix_rfl
    · rw [segments_append_dot]
      exact List.prefix_append _ _

end Text

namespace PackagePattern
open Text

/-- All dots at the end are taken off the root. -/
theorem ofText_append_dots {root : String} {k : Nat} (hroot : root.toList.getLast? ≠ some '.')
    (hk : 2 ≤ k) : ofText (root ++ dots k) = .subtree root := by
  obtain ⟨k, rfl⟩ := Nat.exists_eq_add_of_le' hk
  have hreverse : (root ++ dots (k + 2)).toList.reverse =
      '.' :: '.' :: (List.replicate k '.' ++ root.toList.reverse) := by
    rw [dots, String.toList_append, String.toList_ofList, List.reverse_append,
      List.reverse_replicate]
    rfl
  have hroot' : root.toList.reverse.dropWhile (· == '.') = root.toList.reverse := by
    rw [← List.head?_reverse] at hroot
    cases hchars : root.toList.reverse with
    | nil => rfl
    | cons c rest =>
        rw [hchars, List.head?_cons, ne_eq, Option.some.injEq] at hroot
        rw [List.dropWhile_cons_of_neg (by simpa using hroot)]
  have hdrop : (List.replicate k '.' ++ root.toList.reverse).dropWhile (· == '.') =
      root.toList.reverse := by
    rw [List.dropWhile_append_of_pos (by simp), hroot']
  simp only [ofText, hreverse, hdrop, List.reverse_reverse, String.ofList_toList]

theorem ofText_of_not_suffix {pattern : String} (h : ¬ ['.', '.'] <:+ pattern.toList) :
    ofText pattern = .exact pattern := by
  simp only [ofText]
  split
  · next rest hreverse =>
      apply absurd _ h
      rw [← List.reverse_prefix, hreverse]
      exact List.prefix_append ['.', '.'] rest
  · rfl

end PackagePattern

namespace Descriptor

/-- A name ends in its package, a dot and a last part without dots, or has no dot at all. -/
theorem packageName_cases (d : Descriptor) :
    (∃ last, '.' ∉ last.toList ∧ d.name = d.packageName ++ "." ++ last) ∨
      d.packageName = "" ∧ '.' ∉ d.name.toList := by
  simp only [packageName]
  split
  · next before after hcut =>
      obtain ⟨hname, hafter⟩ := Text.splitLast?_eq_some_iff.mp hcut
      refine .inl ⟨String.ofList after, by rwa [String.toList_ofList], ?_⟩
      rw [← String.toList_inj, hname]
      simp
  · next hcut => exact .inr ⟨rfl, Text.splitLast?_eq_none_iff.mp hcut⟩

theorem packageName_eq_iff {d : Descriptor} {package : String} :
    d.packageName = package ↔
      (∃ last, '.' ∉ last.toList ∧ d.name = package ++ "." ++ last) ∨
        package = "" ∧ '.' ∉ d.name.toList := by
  constructor
  · rintro rfl
    exact d.packageName_cases
  · rintro (⟨last, hlast, hname⟩ | ⟨rfl, hname⟩)
    · obtain ⟨name⟩ := d
      cases hname
      have h := packageName_mk_append package hlast
      rwa [String.ofList_toList] at h
    · simp only [packageName, Text.splitLast?_eq_none_iff.mpr hname]

/-- A name goes on below `root` just if its package is `root` or goes on below it. -/
theorem name_below_iff {d : Descriptor} {root : String} (hroot : root ≠ "") :
    (∃ below, d.name = root ++ "." ++ below) ↔
      d.packageName = root ∨ ∃ below, d.packageName = root ++ "." ++ below := by
  constructor
  · rintro ⟨below, hname⟩
    obtain ⟨last, hlast, hbelow⟩ | ⟨-, hbelow⟩ := (mk below).packageName_cases
    · generalize (mk below).packageName = package at hbelow
      have hbelow : below = package ++ "." ++ last := hbelow
      subst hbelow
      refine .inr ⟨package, packageName_eq_iff.mpr (.inl ⟨last, hlast, ?_⟩)⟩
      rw [hname]
      simp only [String.append_assoc]
    · exact .inl (packageName_eq_iff.mpr (.inl ⟨below, hbelow, hname⟩))
  · rintro (hpackage | ⟨below, hpackage⟩)
    · obtain ⟨last, -, hname⟩ | ⟨hempty, -⟩ := packageName_eq_iff.mp hpackage
      · exact ⟨last, hname⟩
      · exact absurd hempty hroot
    · obtain ⟨last, -, hname⟩ | ⟨hempty, -⟩ := packageName_eq_iff.mp hpackage
      · refine ⟨below ++ "." ++ last, ?_⟩
        rw [hname]
        simp only [String.append_assoc]
      · simp at hempty

end Descriptor

namespace Criterion
open Text

/-- What the package criteria accept of one class. -/
structure PackagesSelect (d : Descriptor) : Prop where
  everything : ∀ k, 2 ≤ k → (resideIn (dots k)).accepts d = true
  subtree : ∀ root k, root ≠ "" → root.toList.getLast? ≠ some '.' → 2 ≤ k →
    List.TFAE
      [(resideIn (root ++ dots k)).accepts d = true,
        segments root <+: segments d.packageName,
        d.packageName = root ∨ ∃ below, d.packageName = root ++ "." ++ below,
        ∃ below, d.name = root ++ "." ++ below]
  exact : ∀ pattern, ¬ ['.', '.'] <:+ pattern.toList →
    List.TFAE
      [(resideIn pattern).accepts d = true,
        d.packageName = pattern,
        (∃ last, '.' ∉ last.toList ∧ d.name = pattern ++ "." ++ last) ∨
          pattern = "" ∧ '.' ∉ d.name.toList]
  any : ∀ patterns, (resideInAny patterns).accepts d = true ↔
    ∃ pattern ∈ patterns, (resideIn pattern).accepts d = true
  any_congr : ∀ patterns others, (∀ pattern, pattern ∈ patterns ↔ pattern ∈ others) →
    (resideInAny patterns).accepts d = (resideInAny others).accepts d
  any_nil : (resideInAny []).accepts d = false

variable {d : Descriptor}

theorem accepts_resideIn (pattern : String) :
    (resideIn pattern).accepts d = (PackagePattern.ofText pattern).accepts d.packageName := rfl

theorem accepts_resideInAny_iff {patterns : List String} :
    (resideInAny patterns).accepts d = true ↔
      ∃ pattern ∈ patterns, (resideIn pattern).accepts d = true := by
  rw [← List.any_eq_true]
  rfl

/-- A subtree pattern selects the classes at or below its root, in whole segments; any other pattern
selects the classes of one package, and a list of patterns what one of them selects. -/
theorem packages_select (d : Descriptor) : PackagesSelect d := by
  constructor
  case everything =>
    intro k hk
    have hpattern : PackagePattern.ofText ("" ++ dots k) = .subtree "" :=
      PackagePattern.ofText_append_dots (by simp) hk
    rw [String.empty_append] at hpattern
    rw [accepts_resideIn, hpattern]
    exact PackagePattern.accepts_subtree_iff.mpr (.inl rfl)
  case subtree =>
    intro root k hne hroot hk
    tfae_have 1 ↔ 3 := by
      rw [accepts_resideIn, PackagePattern.ofText_append_dots hroot hk,
        PackagePattern.accepts_subtree_iff, or_iff_right hne]
    tfae_have 2 ↔ 3 := segments_prefix_iff
    tfae_have 4 ↔ 3 := Descriptor.name_below_iff hne
    tfae_finish
  case exact =>
    intro pattern hpattern
    tfae_have 1 ↔ 2 := by
      rw [accepts_resideIn, PackagePattern.ofText_of_not_suffix hpattern,
        PackagePattern.accepts_exact_iff]
    tfae_have 2 ↔ 3 := Descriptor.packageName_eq_iff
    tfae_finish
  case any => exact fun patterns => accepts_resideInAny_iff
  case any_congr =>
    intro patterns others h
    rw [Bool.eq_iff_iff, accepts_resideInAny_iff, accepts_resideInAny_iff]
    simp only [h]
  case any_nil => rfl

theorem packages_select_boundaries :
    (resideIn (dots 3)).accepts ⟨"Loose"⟩ = true ∧
      (resideIn ("com.example" ++ dots 2)).accepts ⟨"com.example.core.io.Reader"⟩ = true ∧
      (resideIn ("com.example" ++ dots 5)).accepts ⟨"com.example."⟩ = true ∧
      (resideIn ("com.example" ++ dots 2)).accepts ⟨"com.examples.Reader"⟩ = false ∧
      (resideIn "com.example.").accepts ⟨"com.example..Reader"⟩ = true ∧
      (resideIn "").accepts ⟨"Outer$Inner"⟩ = true ∧
      (resideInAny ["org", "com.example.."]).accepts ⟨"com.example.Reader"⟩ = true := by
  have reader := packages_select ⟨"com.example.core.io.Reader"⟩
  have unnamed := packages_select ⟨"com.example."⟩
  have other := packages_select ⟨"com.examples.Reader"⟩
  have dotted := packages_select ⟨"com.example..Reader"⟩
  have loose := packages_select ⟨"Outer$Inner"⟩
  refine ⟨?_, ?_, ?_, ?_, ?_, ?_, ?_⟩
  · exact (packages_select ⟨"Loose"⟩).everything 3 (by decide)
  · have h := reader.subtree "com.example" 2 (by decide) (by decide) (by decide)
    exact (h.out 0 1).mpr (by decide)
  · have h := unnamed.subtree "com.example" 5 (by decide) (by decide) (by decide)
    refine (h.out 0 3).mpr ?_
    exact ⟨"", rfl⟩
  · have h := other.subtree "com.example" 2 (by decide) (by decide) (by decide)
    exact Bool.eq_false_iff.mpr fun haccepts => absurd ((h.out 0 1).mp haccepts) (by decide)
  · have h := dotted.exact "com.example." (by decide)
    refine (h.out 0 2).mpr ?_
    exact .inl ⟨"Reader", by decide, rfl⟩
  · have h := loose.exact "" (by decide)
    refine (h.out 0 2).mpr ?_
    exact .inr ⟨rfl, by decide⟩
  · exact ((packages_select _).any _).mpr ⟨"com.example..", by decide, by decide⟩

end Criterion
end ClassRoster
