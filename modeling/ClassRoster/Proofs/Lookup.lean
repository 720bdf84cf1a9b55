import ClassRoster.Criterion.Descriptor
import ClassRoster.Proofs.Views
import Mathlib.Data.List.TFAE

/-!
Looking up and filtering find the same class. A look-up goes by the name a class is held under, a
filter asks every class for its name; that each class is held under its own name, and no two under
one, makes a filter by name keep the class that the look-up gives and nothing else.
-/

namespace ClassRoster
namespace Roster

variable {r : Roster} {c : Criterion Descriptor} {d : Descriptor} {name : String}

theorem size_eq_length_descriptors (r : Roster) : r.size = r.descriptors.length :=
  (List.length_map _).symm

theorem isEmpty_iff_descriptors : r.isEmpty = true ↔ r.descriptors = [] := by
  simp [isEmpty, Index.isEmpty, descriptors, Index.values]

theorem get_eq_ok_iff (h : r.classes.Filed) :
    r.get name = .ok d ↔ d ∈ r.descriptors ∧ d.name = name := by
  rw [mem_descriptors_iff h]
  by_cases hmem : name ∈ r.names
  · rw [get_eq_ok_of_filed h hmem]
    constructor
    · rintro ⟨⟩
      exact ⟨hmem, rfl⟩
    · rintro ⟨-, rfl⟩
      rfl
  · rw [get_eq_error hmem]
    constructor
    · nofun
    · rintro ⟨hd, rfl⟩
      exact absurd hd hmem

/-- A look-up has two ways to end. -/
theorem get_eq_error_of_forall_ne (h : ∀ d, r.get name ≠ .ok d) :
    r.get name = .error (.notFound name) := by
  simp only [get] at h ⊢
  split
  · next d hd =>
      rw [hd] at h
      exact absurd rfl (h d)
  · rfl

theorem exists_get_eq_ok_iff (h : r.classes.Filed) :
    (∃ d, r.get name = .ok d) ↔ name ∈ r.names := by
  constructor
  · rintro ⟨d, hd⟩
    obtain ⟨hmem, rfl⟩ := (get_eq_ok_iff h).mp hd
    exact (mem_descriptors_iff h).mp hmem
  · intro hmem
    exact ⟨⟨name⟩, get_eq_ok_of_filed h hmem⟩

/-- A criterion that asks for a name keeps at most one class. -/
theorem descriptors_filter_of_accepts_iff (h : r.classes.Filed)
    (hc : ∀ d, c.accepts d = true ↔ d.name = name) :
    (r.filter c).descriptors = if name ∈ r.names then [⟨name⟩] else [] := by
  have haccepts : c.accepts = (· == Descriptor.mk name) := by
    funext d
    rw [Bool.eq_iff_iff, hc, beq_iff_eq]
    exact ⟨fun hname => Descriptor.name_injective hname, congrArg Descriptor.name⟩
  rw [descriptors_filter, haccepts, List.filter_beq, (nodup_descriptors h).count]
  simp only [mem_descriptors_iff h]
  split <;> rfl

theorem size_filter_eq_one_iff (h : r.classes.Filed)
    (hc : ∀ d, c.accepts d = true ↔ d.name = name) :
    (r.filter c).size = 1 ↔ name ∈ r.names := by
  rw [size_eq_length_descriptors, descriptors_filter_of_accepts_iff h hc]
  split
  next hmem => exact iff_of_true rfl hmem
  next hmem => exact iff_of_false Nat.zero_ne_one hmem

theorem descriptors_filter_of_get_eq_ok (h : r.classes.Filed)
    (hc : ∀ d, c.accepts d = true ↔ d.name = name) (hget : r.get name = .ok d) :
    (r.filter c).descriptors = [d] := by
  obtain ⟨hmem, rfl⟩ := (get_eq_ok_iff h).mp hget
  rw [descriptors_filter_of_accepts_iff h hc, if_pos ((mem_descriptors_iff h).mp hmem)]

theorem get_filter_eq_ok_iff (h : r.classes.Filed) :
    (r.filter c).get name = .ok d ↔ r.get name = .ok d ∧ c.accepts d = true := by
  rw [get_eq_ok_iff (Index.filed_filter h c.accepts), get_eq_ok_iff h, descriptors_filter,
    List.mem_filter, and_right_comm]

/-- Whether a name is held, found, or kept by a filter that asks for it is the same question, and
the class is the same. A look-up in what a criterion keeps is a look-up that the criterion has the
last word on. -/
theorem get_agrees_with_filter (h : Reachable r) (name : String) :
    (∀ m : Marker, m.path = name →
      List.TFAE [r.contains name = true, ∃ d, r.get name = .ok d,
        (r.filter (.haveName name)).size = 1, (r.filter (.ofMarker m)).size = 1] ∧
      (∀ d, r.get name = .ok d →
        (r.filter (.haveName name)).descriptors = [d] ∧
          (r.filter (.ofMarker m)).descriptors = [d]) ∧
      (r.contains name = false →
        (r.filter (.haveName name)).isEmpty = true ∧ (r.filter (.ofMarker m)).isEmpty = true ∧
          r.get name = .error (.notFound name))) ∧
    ∀ c : Criterion Descriptor,
      (∀ d, (r.filter c).get name = .ok d ↔ r.get name = .ok d ∧ c.accepts d = true) ∧
      ((¬ ∃ d, r.get name = .ok d ∧ c.accepts d = true) →
        (r.filter c).get name = .error (.notFound name)) := by
  have hfiled := h.filed
  constructor
  · rintro m rfl
    have hname (d : Descriptor) : (Criterion.haveName m.path).accepts d = true ↔ d.name = m.path :=
      beq_iff_eq
    have hmarker (d : Descriptor) : (Criterion.ofMarker m).accepts d = true ↔ d.name = m.path :=
      beq_iff_eq.trans Descriptor.token_eq_token_iff
    refine ⟨?_, ?_, ?_⟩
    · have hsame : ∀ p ∈ [r.contains m.path = true, ∃ d, r.get m.path = .ok d,
          (r.filter (.haveName m.path)).size = 1, (r.filter (.ofMarker m)).size = 1],
          (p ↔ m.path ∈ r.names) := by
        simp only [List.forall_mem_cons, List.not_mem_nil, false_implies, implies_true, and_true]
        exact ⟨Index.contains_iff_mem_keys, exists_get_eq_ok_iff hfiled,
          size_filter_eq_one_iff hfiled hname, size_filter_eq_one_iff hfiled hmarker⟩
      intro p hp q hq
      exact (hsame p hp).trans (hsame q hq).symm
    · intro d hd
      exact ⟨descriptors_filter_of_get_eq_ok hfiled hname hd,
        descriptors_filter_of_get_eq_ok hfiled hmarker hd⟩
    · intro hcontains
      have hmem : m.path ∉ r.names := by
        rw [names, ← Index.contains_iff_mem_keys]
        exact Bool.eq_false_iff.mp hcontains
      refine ⟨?_, ?_, get_eq_error hmem⟩
      · rw [isEmpty_iff_descriptors, descriptors_filter_of_accepts_iff hfiled hname, if_neg hmem]
      · rw [isEmpty_iff_descriptors, descriptors_filter_of_accepts_iff hfiled hmarker, if_neg hmem]
  · intro c
    refine ⟨fun d => get_filter_eq_ok_iff hfiled, fun hnone => ?_⟩
    apply get_eq_error_of_forall_ne
    intro d hd
    exact hnone ⟨d, (get_filter_eq_ok_iff hfiled).mp hd⟩

theorem get_agrees_with_filter_nested :
    ∃ r, Roster.ofList [⟨"p.A$B"⟩, ⟨"p.A"⟩, ⟨"q.B"⟩] = .ok r ∧ Reachable r ∧
      (r.filter (.haveName "p.A$B")).size = 1 ∧ (r.filter (.ofMarker ⟨"p.A$B"⟩)).size = 1 ∧
      (r.filter (.ofMarker ⟨"p.A$B"⟩)).descriptors = [⟨"p.A$B"⟩] ∧
      (r.filter (.ofMarker ⟨"B"⟩)).isEmpty = true ∧ r.get "B" = .error (.notFound "B") ∧
      (r.filter (.haveSimpleName "B")).get "p.A$B" = .ok ⟨"p.A$B"⟩ ∧
      (r.filter (.haveSimpleName "B")).get "p.A" = .error (.notFound "p.A") := by
  let r : Roster := .ofIndex ⟨[("p.A", ⟨"p.A"⟩), ("p.A$B", ⟨"p.A$B"⟩), ("q.B", ⟨"q.B"⟩)]⟩ "classes"
  have hr : Reachable r :=
    .built (.ofList (rfl : Roster.ofList [⟨"p.A$B"⟩, ⟨"p.A"⟩, ⟨"q.B"⟩] = .ok r))
  have hget : r.get "p.A$B" = .ok ⟨"p.A$B"⟩ := rfl
  obtain ⟨hsame, hkept, -⟩ := (get_agrees_with_filter hr "p.A$B").1 ⟨"p.A$B"⟩ rfl
  obtain ⟨-, -, hmissing⟩ := (get_agrees_with_filter hr "B").1 ⟨"B"⟩ rfl
  obtain ⟨-, hempty, herror⟩ := hmissing rfl
  have hfound : r.contains "p.A$B" = true := rfl
  refine ⟨r, rfl, hr, (hsame.out 0 2).mp hfound, (hsame.out 0 3).mp hfound,
    (hkept _ hget).2, hempty, herror, ?_, ?_⟩
  · exact (((get_agrees_with_filter hr "p.A$B").2 _).1 _).mpr ⟨hget, by decide⟩
  · refine ((get_agrees_with_filter hr "p.A").2 _).2 ?_
    rintro ⟨d, hd, haccepts⟩
    cases hd
    exact absurd haccepts (by decide)

end Roster
end ClassRoster
