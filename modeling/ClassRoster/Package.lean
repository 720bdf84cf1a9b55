import ClassRoster.Text.Split

/-!
Package patterns. A pattern that ends in two dots selects a package with everything below it,
any other pattern one package. A root is matched up to the end of the package or up to a dot,
so that no pattern ends in the middle of a segment.
-/

namespace ClassRoster

inductive PackagePattern where
  | exact (package : String)
  | subtree (root : String)
deriving DecidableEq, Repr

namespace PackagePattern

/-- Reads a pattern. All the dots at the end of a subtree pattern go, not only two of them. -/
def ofText (pattern : String) : PackagePattern :=
  match pattern.toList.reverse with
  | '.' :: '.' :: rest => .subtree (String.ofList (rest.dropWhile (· == '.')).reverse)
  | _ => .exact pattern

/-- The empty root is above every package, the default package included. -/
def accepts (pattern : PackagePattern) (package : String) : Bool :=
  match pattern with
  | .exact expected => package == expected
  | .subtree root =>
      root.isEmpty ||
        match Text.remainder? root.toList package.toList with
        | some [] => true
        | some (c :: _) => c == '.'
        | none => false

theorem accepts_exact_iff {expected package : String} :
    (exact expected).accepts package = true ↔ package = expected := by
  simp [accepts]

theorem accepts_subtree_iff {root package : String} :
    (subtree root).accepts package = true ↔
      root = "" ∨ package = root ∨ ∃ below, package = root ++ "." ++ below := by
  have hchars : ∀ rest, package = root ++ String.ofList rest ↔
      Text.remainder? root.toList package.toList = some rest := by
    intro rest
    rw [Text.remainder?_eq_some_iff, ← String.toList_inj]
    simp
  simp only [accepts, Bool.or_eq_true, String.isEmpty_iff]
  refine or_congr_right ?_
  cases hr : Text.remainder? root.toList package.toList with
  | none =>
      have hno : ∀ rest, package ≠ root ++ String.ofList rest := fun rest h => by
        simp [(hchars rest).mp h] at hr
      refine ⟨fun h => by simp at h, ?_⟩
      rintro (h | ⟨below, h⟩)
      · exact absurd (by simpa using h) (hno [])
      · exact absurd (by simpa [String.ofList_append, String.append_assoc] using h)
          (hno ('.' :: below.toList))
  | some rest =>
      have hpackage := (hchars rest).mpr hr
      cases rest with
      | nil => simp [hpackage]
      | cons c rest =>
          simp only [beq_iff_eq]
          constructor
          · rintro rfl
            refine .inr ⟨String.ofList rest, ?_⟩
            rw [hpackage, ← String.toList_inj]; simp
          · rintro (h | ⟨below, h⟩)
            · rw [hpackage, ← String.toList_inj] at h; simp at h
            · rw [hpackage, ← String.toList_inj] at h; simp at h; exact h.1

end PackagePattern
end ClassRoster
