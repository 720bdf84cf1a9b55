import ClassRoster.Proofs.Building

/-!
Rosters put together again from their classes. A roster gives back what it was built from: its
classes, keyed or not, make the same classes again. The classes that two criteria keep make what
the disjunction of the two keeps, as long as no class is kept by both; otherwise the second half is
read up to the first such class. Both halves come in the order of the names, so that this is the
class with the least name.
-/

namespace ClassRoster
namespace Roster

variable {r : Roster} {p q : Criterion Descriptor} {d : Descriptor} {ds es : List Descriptor}

theorem nodup_names_append_iff :
    ((ds ++ es).map Descriptor.name).Nodup ↔
      (ds.map Descriptor.name).Nodup ∧ (es.map Descriptor.name).Nodup ∧ ∀ d ∈ ds, d ∉ es := by
  rw [List.map_append, List.nodup_append]
  refine and_congr_right fun _ => and_congr_right fun _ => ?_
  constructor
  · intro h d hd he
    exact h d.name (List.mem_map_of_mem hd) d.name (List.mem_map_of_mem he) rfl
  · intro h name hname other hother heq
    obtain ⟨d, hd, rfl⟩ := List.mem_map.mp hname
    obtain ⟨e, he, rfl⟩ := List.mem_map.mp hother
    exact h d hd (Descriptor.name_injective heq ▸ he)

/-- Classes with distinct names make any roster that holds just these names, apart from what it
says about itself. -/
theorem ofList_eq_ok_of_mem_names_iff (h : r.classes.Filed) (hds : (ds.map Descriptor.name).Nodup)
    (hmem : ∀ name, name ∈ r.names ↔ name ∈ ds.map Descriptor.name) :
    ofList ds = .ok ⟨r.classes, "classes", "classes"⟩ := by
  obtain ⟨classes, hfold, hkeys⟩ := exists_foldlM_addClass hds
  have hbuilt : ofList ds = .ok (ofIndex classes defaultDescription) := by rw [ofList, hfold]
  have hclasses : classes = r.classes := by
    apply (Built.ofList hbuilt).filed.eq_of_mem_keys_iff h
    intro name
    exact hkeys.mem_iff.trans (hmem name).symm
  rw [hbuilt, hclasses]
  rfl

theorem ofList_descriptors (h : r.classes.Filed) :
    ofList r.descriptors = .ok ⟨r.classes, "classes", "classes"⟩ :=
  ofList_eq_ok_of_mem_names_iff h (nodup_map_name_descriptors h) fun _ => by
    rw [map_name_descriptors h]

theorem zip_names_descriptors (r : Roster) : r.names.zip r.descriptors = r.classes.entries := by
  rw [names, descriptors, Index.keys, Index.values, List.zip_map']
  exact List.map_id _

/-- Keys that are right do not matter. -/
theorem ofEntries_of_keyed {entries : List (String × Descriptor)} {description : String}
    (hkeyed : ∀ entry ∈ entries, entry.1 = entry.2.name) (hne : description ≠ "")
    (h : ofList (entries.map Prod.snd) = .ok r) :
    ofEntries entries description = .ok (r.redescribe description) := by
  have hnone : entries[firstMiskeyed entries]? = none := by
    have hfirst : firstMiskeyed entries = entries.length := by
      refine List.findIdx_eq_length.mpr fun entry hentry => ?_
      exact bne_eq_false_iff_eq.mpr (hkeyed entry hentry)
    rw [hfirst]
    exact List.getElem?_eq_none (Nat.le_refl _)
  have hloop := foldlM_addEntry entries .empty
  rw [hnone, keyedClasses_eq_of_none hnone] at hloop
  simp only [ofList] at h
  split at h
  · next classes hfold =>
      cases h
      rw [hfold] at hloop
      rw [ofEntries, hloop]
      exact if_neg fun hempty => hne (String.isEmpty_iff.mp hempty)
  · cases h

/-- The classes that `p` keeps, followed by those that `q` keeps. -/
def joined (r : Roster) (p q : Criterion Descriptor) : List Descriptor :=
  (r.filter p).descriptors ++ (r.filter q).descriptors

/-- No class is kept by both. -/
def Apart (r : Roster) (p q : Criterion Descriptor) : Prop :=
  ∀ d ∈ r.descriptors, ¬ (p.accepts d = true ∧ q.accepts d = true)

/-- Of the classes that both keep, the one with the least name. -/
structure FirstOverlap (r : Roster) (p q : Criterion Descriptor) (d : Descriptor) : Prop where
  mem : d ∈ r.descriptors
  left : p.accepts d = true
  right : q.accepts d = true
  least : ∀ other ∈ r.descriptors, p.accepts other = true → q.accepts other = true →
    other = d ∨ Text.utf8 d.name < Text.utf8 other.name

theorem nodup_joined_iff (h : r.classes.Filed) :
    ((r.joined p q).map Descriptor.name).Nodup ↔ r.Apart p q := by
  have hnodup (c : Criterion Descriptor) :
      ((r.filter c).descriptors.map Descriptor.name).Nodup :=
    nodup_map_name_descriptors (Index.filed_filter h c.accepts)
  rw [joined, nodup_names_append_iff, and_iff_right (hnodup p), and_iff_right (hnodup q)]
  simp only [descriptors_filter, List.mem_filter]
  constructor
  · intro hapart d hd hboth
    exact hapart d ⟨hd, hboth.1⟩ ⟨hd, hboth.2⟩
  · intro hapart d hp hq
    exact hapart d hp.1 ⟨hp.2, hq.2⟩

theorem ofList_joined (h : r.classes.Filed) (hapart : r.Apart p q) :
    ofList (r.joined p q) = .ok ⟨(r.filter (p.or q)).classes, "classes", "classes"⟩ := by
  have hfiled : (r.filter (p.or q)).classes.Filed := Index.filed_filter h _
  refine ofList_eq_ok_of_mem_names_iff hfiled ((nodup_joined_iff h).mpr hapart) fun name => ?_
  rw [← map_name_descriptors hfiled, joined, descriptors_filter, descriptors_filter,
    descriptors_filter, List.map_append, List.mem_append]
  simp only [List.mem_map, List.mem_filter, Criterion.or, Bool.or_eq_true, and_or_left,
    or_and_right, exists_or]

theorem exists_firstOverlap (h : r.classes.Filed) (hmeet : ¬ r.Apart p q) :
    ∃ d, FirstOverlap r p q d := by
  have hsorted := (Index.filed_filter h (p.and q).accepts).values_pairwise
  change (r.filter (p.and q)).descriptors.Pairwise _ at hsorted
  rw [descriptors_filter] at hsorted
  have hmem (d : Descriptor) : d ∈ r.descriptors.filter (p.and q).accepts ↔
      d ∈ r.descriptors ∧ p.accepts d = true ∧ q.accepts d = true := by
    rw [List.mem_filter, Criterion.and, Bool.and_eq_true]
  cases hboth : r.descriptors.filter (p.and q).accepts with
  | nil =>
      refine absurd (fun d hd haccepts => ?_) hmeet
      exact List.not_mem_nil (hboth ▸ (hmem d).mpr ⟨hd, haccepts⟩)
  | cons d rest =>
      rw [hboth] at hsorted hmem
      obtain ⟨hd, hp, hq⟩ := (hmem d).mp List.mem_cons_self
      refine ⟨d, hd, hp, hq, fun other hother hpo hqo => ?_⟩
      obtain rfl | hrest := List.mem_cons.mp ((hmem other).mpr ⟨hother, hpo, hqo⟩)
      · exact .inl rfl
      · exact .inr (Text.utf8_lt_of_lt ((List.pairwise_cons.mp hsorted).1 other hrest))

theorem ofList_joined_of_firstOverlap (h : r.classes.Filed) (hd : FirstOverlap r p q d) :
    ofList (r.joined p q) = .error (.duplicateKey d.name) := by
  obtain ⟨before, after, hsplit⟩ := List.append_of_mem hd.mem
  have hsorted := h.values_pairwise
  change r.descriptors.Pairwise _ at hsorted
  rw [hsplit] at hsorted
  have hjoined : r.joined p q = ((r.filter p).descriptors ++ before.filter q.accepts) ++
      d :: after.filter q.accepts := by
    rw [joined, descriptors_filter r q, hsplit, List.filter_append,
      List.filter_cons_of_pos hd.right, List.append_assoc]
  have hread :
      (((r.filter p).descriptors ++ before.filter q.accepts).map Descriptor.name).Nodup := by
    refine nodup_names_append_iff.mpr ⟨nodup_map_name_descriptors (Index.filed_filter h _), ?_, ?_⟩
    · have hbefore : before.Sublist r.descriptors := hsplit ▸ List.sublist_append_left _ _
      exact (nodup_map_name_descriptors h).sublist ((List.filter_sublist.trans hbefore).map _)
    · -- What both keep comes behind `d`, and these classes come before it.
      intro other hleft hright
      rw [descriptors_filter] at hleft
      obtain ⟨hmem, hp⟩ := List.mem_filter.mp hleft
      obtain ⟨hbefore, hq⟩ := List.mem_filter.mp hright
      have hlt : other.name < d.name :=
        (List.pairwise_append.mp hsorted).2.2 other hbefore d List.mem_cons_self
      obtain rfl | hgt := hd.least other hmem hp hq
      · exact String.lt_irrefl _ hlt
      · exact String.lt_asymm hlt (Text.utf8_lt_iff.mp hgt)
  have hrepeated :
      d.name ∈ ((r.filter p).descriptors ++ before.filter q.accepts).map Descriptor.name := by
    refine List.mem_map_of_mem (List.mem_append_left _ ?_)
    rw [descriptors_filter]
    exact List.mem_filter.mpr ⟨hd.mem, hd.left⟩
  rw [ofList, hjoined, foldlM_addClass_of_repeated hread hrepeated]

theorem ofList_joined_eq_error_iff (h : r.classes.Filed) {e : RosterError} :
    ofList (r.joined p q) = .error e ↔ ∃ d, FirstOverlap r p q d ∧ e = .duplicateKey d.name := by
  constructor
  · intro he
    have hmeet : ¬ r.Apart p q := by
      intro hapart
      cases he.symm.trans (ofList_joined h hapart)
    obtain ⟨d, hd⟩ := exists_firstOverlap h hmeet
    cases he.symm.trans (ofList_joined_of_firstOverlap h hd)
    exact ⟨d, hd, rfl⟩
  · rintro ⟨d, hd, rfl⟩
    exact ofList_joined_of_firstOverlap h hd

theorem apart_negate (r : Roster) (p : Criterion Descriptor) : r.Apart p p.negate := by
  intro d _ hboth
  simp [Criterion.negate, hboth.1] at hboth

theorem classes_filter_or_negate (r : Roster) (p : Criterion Descriptor) :
    (r.filter (p.or p.negate)).classes = r.classes := by
  refine congrArg Index.mk (List.filter_eq_self.mpr fun entry _ => ?_)
  simp [Criterion.or, Criterion.negate]

/-- Taken apart and put together again, a roster is what it was, whether its classes are keyed or
not and whatever criterion parts them. Of two parts that overlap the error names the least class
that is in both. -/
theorem rejoin_exact (h : Reachable r) :
    ofList r.descriptors = .ok ⟨r.classes, "classes", "classes"⟩ ∧
      (∀ description, description ≠ "" →
        ofEntries (r.names.zip r.descriptors) description = .ok (r.redescribe description)) ∧
      (∀ p q : Criterion Descriptor,
        ((∃ joint, ofList (r.joined p q) = .ok joint) ↔ r.Apart p q) ∧
        (∀ joint, ofList (r.joined p q) = .ok joint →
          joint = ⟨(r.filter (p.or q)).classes, "classes", "classes"⟩) ∧
        ∀ e, ofList (r.joined p q) = .error e ↔
          ∃ d, FirstOverlap r p q d ∧ e = .duplicateKey d.name) ∧
      ∀ p : Criterion Descriptor,
        ofList (r.joined p p.negate) = .ok ⟨r.classes, "classes", "classes"⟩ := by
  have hfiled := h.filed
  refine ⟨ofList_descriptors hfiled, ?_, ?_, ?_⟩
  · intro description hne
    have hkeyed := ofEntries_of_keyed hfiled.named hne (ofList_descriptors hfiled)
    rw [zip_names_descriptors]
    exact hkeyed
  · intro p q
    have hok : (∃ joint, ofList (r.joined p q) = .ok joint) ↔ r.Apart p q :=
      ofList_eq_ok_iff_nodup.trans (nodup_joined_iff hfiled)
    refine ⟨hok, ?_, fun e => ofList_joined_eq_error_iff hfiled⟩
    intro joint hjoint
    cases hjoint.symm.trans (ofList_joined hfiled (hok.mp ⟨joint, hjoint⟩))
    rfl
  · intro p
    rw [ofList_joined hfiled (apart_negate r p), classes_filter_or_negate]

theorem rejoin_exact_overlapping :
    ∃ r, ofEntries [("b.Y", ⟨"b.Y"⟩), ("é", ⟨"é"⟩), ("a.X", ⟨"a.X"⟩)] "all" = .ok r ∧
      let late : Criterion Descriptor := .undescribed fun d => d.name != "a.X"
      Reachable (r.filter .always) ∧
      ofList (r.filter .always).descriptors = .ok ⟨r.classes, "classes", "classes"⟩ ∧
      ofEntries ((r.filter .always).names.zip (r.filter .always).descriptors) "some" =
        .ok ((r.filter .always).redescribe "some") ∧
      ofList ((r.filter .always).joined .always late) = .error (.duplicateKey "b.Y") ∧
      ofList ((r.filter .always).joined late late.negate) =
        .ok ⟨r.classes, "classes", "classes"⟩ := by
  let r : Roster := .ofIndex ⟨[("a.X", ⟨"a.X"⟩), ("b.Y", ⟨"b.Y"⟩), ("é", ⟨"é"⟩)]⟩ "all"
  have hr : Built r := .ofEntries (rfl :
    Roster.ofEntries [("b.Y", ⟨"b.Y"⟩), ("é", ⟨"é"⟩), ("a.X", ⟨"a.X"⟩)] "all" = .ok r)
  have hkept : Reachable (r.filter .always) := .filter (.built hr) .always
  obtain ⟨hlist, hentries, hparts, hhalves⟩ := rejoin_exact hkept
  refine ⟨r, rfl, hkept, hlist, hentries "some" (by decide), ?_, hhalves _⟩
  refine ((hparts _ _).2.2 _).mpr ⟨⟨"b.Y"⟩, ⟨by decide, rfl, by decide, ?_⟩, rfl⟩
  have hclasses : (r.filter .always).descriptors = [⟨"a.X"⟩, ⟨"b.Y"⟩, ⟨"é"⟩] := rfl
  intro other hother _ hlate
  simp only [hclasses, List.mem_cons, List.not_mem_nil, or_false] at hother
  obtain rfl | rfl | rfl := hother
  · exact absurd hlate (by decide)
  · exact .inl rfl
  · exact .inr (by decide)

end Roster
end ClassRoster
