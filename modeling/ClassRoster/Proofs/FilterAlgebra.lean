import ClassRoster.Proofs.Lookup

/-!
Filtering carries the algebra of criteria over to rosters. What a filter keeps depends on the test
of the criterion alone, so that every law of tests is a law of contents; sizes add up because they
count classes one by one. Complements need more than a law of tests: that a name which was not kept
was refused rests on there being one class to a name.
-/

namespace ClassRoster

theorem Criterion.accepts_negateTimes {α : Type} (c : Criterion α) (n : Nat) :
    (c.negateTimes n).accepts = if n % 2 = 0 then c.accepts else c.negate.accepts := by
  induction n with
  | zero => rfl
  | succ n ih =>
      funext x
      simp only [negateTimes, negate, ih]
      cases Nat.mod_two_eq_zero_or_one n with
      | inl heven => rw [if_pos heven, if_neg (by omega)]
      | inr hodd => rw [if_neg (by omega), if_pos (by omega), Bool.not_not]

/-- Each element is counted as often on the left as on the right. -/
theorem countP_and_add_countP_or {α : Type} (p q : α → Bool) (as : List α) :
    as.countP (fun a => p a && q a) + as.countP (fun a => p a || q a) =
      as.countP p + as.countP q := by
  induction as with
  | nil => rfl
  | cons a as ih =>
      simp only [List.countP_cons]
      cases p a with
      | true => cases q a <;> simp <;> omega
      | false => cases q a <;> simp <;> omega

namespace Roster

variable {r : Roster} {p q : Criterion Descriptor}

/-- Only the test of a criterion matters for what is kept. -/
theorem classes_filter_congr (r : Roster) (h : p.accepts = q.accepts) :
    (r.filter p).classes = (r.filter q).classes :=
  congrArg r.classes.filter h

theorem classes_filter_and (r : Roster) (p q : Criterion Descriptor) :
    (r.filter (p.and q)).classes = ((r.filter p).filter q).classes :=
  (Index.filter_filter r.classes p.accepts q.accepts).symm

theorem mem_names_filter_iff (h : r.classes.Filed) {name : String} :
    name ∈ (r.filter p).names ↔ name ∈ r.names ∧ p.accepts ⟨name⟩ = true := by
  have hkept := mem_descriptors_iff (r := r.filter p) (d := ⟨name⟩) (Index.filed_filter h p.accepts)
  have hheld := mem_descriptors_iff (d := ⟨name⟩) h
  rw [← hkept, ← hheld, descriptors_filter, List.mem_filter]

theorem names_filter (h : r.classes.Filed) (p : Criterion Descriptor) :
    (r.filter p).names = r.names.filter fun name => p.accepts ⟨name⟩ := by
  rw [← map_name_descriptors (Index.filed_filter h p.accepts), descriptors_filter,
    ← map_name_descriptors h, List.filter_map]
  rfl

theorem size_filter (r : Roster) (p : Criterion Descriptor) :
    (r.filter p).size = r.descriptors.countP p.accepts := by
  rw [size_eq_length_descriptors, descriptors_filter, List.countP_eq_length_filter]

/-- What a roster keeps under a combination of criteria. Contents are compared as a whole, with the
order of their names. -/
structure FilterLaws (r : Roster) (p q : Criterion Descriptor) : Prop where
  and_left : (r.filter (p.and q)).classes = ((r.filter p).filter q).classes
  and_right : (r.filter (p.and q)).classes = ((r.filter q).filter p).classes
  mem_or : ∀ name, name ∈ (r.filter (p.or q)).names ↔
    name ∈ (r.filter p).names ∨ name ∈ (r.filter q).names
  mem_negate : ∀ name, name ∈ (r.filter p.negate).names ↔
    name ∈ r.names ∧ name ∉ (r.filter p).names
  size_negate : (r.filter p).size + (r.filter p.negate).size = r.size
  size_and_or : (r.filter (p.and q)).size + (r.filter (p.or q)).size =
    (r.filter p).size + (r.filter q).size
  negate_and : (r.filter (p.and q).negate).classes = (r.filter (p.negate.or q.negate)).classes
  negate_or : (r.filter (p.or q).negate).classes = (r.filter (p.negate.and q.negate)).classes
  and_operator : p &&& q = p.and q ∧ r.filter (p &&& q) = r.filter (p.and q)
  or_operator : p ||| q = p.or q ∧ r.filter (p ||| q) = r.filter (p.or q)
  negate_operator : ~~~p = p.negate ∧ r.filter (~~~p) = r.filter p.negate
  negateTimes_even : ∀ n, n % 2 = 0 → (r.filter (p.negateTimes n)).classes = (r.filter p).classes
  negateTimes_odd : ∀ n, n % 2 = 1 →
    (r.filter (p.negateTimes n)).classes = (r.filter p.negate).classes

/-- Filtering is a homomorphism: what a combined criterion keeps, and how much, is known from what
its parts keep. -/
theorem filter_laws (h : Reachable r) (p q : Criterion Descriptor) : FilterLaws r p q := by
  have hfiled := h.filed
  constructor
  case and_left => exact r.classes_filter_and p q
  case and_right =>
    rw [← r.classes_filter_and q p]
    apply classes_filter_congr
    funext d
    exact Bool.and_comm _ _
  case mem_or =>
    intro name
    simp only [mem_names_filter_iff hfiled, ← and_or_left, Criterion.or, Bool.or_eq_true]
  case mem_negate =>
    intro name
    simp only [mem_names_filter_iff hfiled, not_and, Criterion.negate, Bool.not_eq_true']
    refine and_congr_right fun hname => ?_
    rw [← Bool.not_eq_true]
    exact ⟨fun hrefused _ => hrefused, fun hrefused => hrefused hname⟩
  case size_negate =>
    simp only [size_eq_length_descriptors, descriptors_filter]
    exact (List.length_eq_length_filter_add p.accepts).symm
  case size_and_or =>
    simp only [size_filter]
    exact countP_and_add_countP_or p.accepts q.accepts r.descriptors
  case negate_and =>
    apply classes_filter_congr
    funext d
    exact Bool.not_and _ _
  case negate_or =>
    apply classes_filter_congr
    funext d
    exact Bool.not_or _ _
  case and_operator => exact ⟨rfl, rfl⟩
  case or_operator => exact ⟨rfl, rfl⟩
  case negate_operator => exact ⟨rfl, rfl⟩
  case negateTimes_even =>
    intro n heven
    apply classes_filter_congr
    rw [p.accepts_negateTimes, if_pos heven]
  case negateTimes_odd =>
    intro n hodd
    apply classes_filter_congr
    rw [p.accepts_negateTimes, if_neg (by omega)]

theorem filter_laws_overlapping :
    let p : Criterion Descriptor := .haveSimpleName "B"
    let q : Criterion Descriptor := .undescribed Descriptor.isNested
    ∃ r, Roster.ofList [⟨"q.B"⟩, ⟨"p.A$B"⟩, ⟨"p.A"⟩, ⟨"p.A$C"⟩] = .ok r ∧ Reachable r ∧
      (r.filter (p.and q)).classes = ((r.filter q).filter p).classes ∧
      (r.filter p.negate).names = ["p.A", "p.A$C"] ∧
      ("p.A" ∈ (r.filter p.negate).names ↔ "p.A" ∈ r.names ∧ "p.A" ∉ (r.filter p).names) ∧
      (r.filter (p.and q)).size = 1 ∧
      1 + (r.filter (p.or q)).size = (r.filter p).size + (r.filter q).size ∧
      (r.filter (p.negateTimes 7)).classes = (r.filter p.negate).classes := by
  intro p q
  let r : Roster := .ofIndex ⟨[("p.A", ⟨"p.A"⟩), ("p.A$B", ⟨"p.A$B"⟩), ("p.A$C", ⟨"p.A$C"⟩),
    ("q.B", ⟨"q.B"⟩)]⟩ "classes"
  have hr : Reachable r := .built (.ofList
    (rfl : Roster.ofList [⟨"q.B"⟩, ⟨"p.A$B"⟩, ⟨"p.A"⟩, ⟨"p.A$C"⟩] = .ok r))
  have laws := filter_laws hr p q
  exact ⟨r, rfl, hr, laws.and_right, rfl, laws.mem_negate "p.A", rfl, laws.size_and_or,
    laws.negateTimes_odd 7 rfl⟩

end Roster
end ClassRoster
