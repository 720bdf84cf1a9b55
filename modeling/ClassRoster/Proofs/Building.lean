import ClassRoster.Proofs.Congruence
import Mathlib.Order.Bounds.Defs
import Mathlib.Order.Nat

/-!
What the two builders make of what they are given. A list of classes is taken whole or refused at
its first repeated name, and the order in which the classes come does not matter. Keyed classes
are taken one by one up to the first wrong key; what is said about them is what is said about the
classes before it, and the description is only looked at when nothing else is wrong. The loop
invariant of both is that the names held are the names read so far.
-/

namespace ClassRoster
namespace Index

variable {α : Type} {i : Index α} {key : String}

theorem keys_insert_perm (value : α) (h : key ∉ i.keys) :
    (i.insert key value).keys.Perm (key :: i.keys) := by
  obtain ⟨entries⟩ := i
  simp only [keys, insert] at h ⊢
  induction entries with
  | nil => exact .refl _
  | cons head rest ih =>
      obtain ⟨hhead, hrest⟩ := not_or.mp (mt List.mem_cons.mpr h)
      simp only [place]
      split
      · exact .refl _
      · rw [List.map_cons, List.map_cons]
        exact ((ih hrest).cons head.1).trans (.swap key head.1 _)

end Index

namespace Roster

variable {classes : Index Descriptor} {d : Descriptor} {ds : List Descriptor}

theorem addClass_of_notMem (h : d.name ∉ classes.keys) :
    addClass classes d = .ok (classes.insert d.name d) := by
  rw [← Index.contains_iff_mem_keys, Bool.not_eq_true] at h
  simp only [addClass, Index.insertNew?, h, Bool.false_eq_true, if_false]

theorem addClass_of_mem (h : d.name ∈ classes.keys) :
    addClass classes d = .error (.duplicateKey d.name) := by
  rw [← Index.contains_iff_mem_keys] at h
  simp only [addClass, Index.insertNew?, h, if_true]

theorem nodup_names_concat_iff :
    ((ds ++ [d]).map Descriptor.name).Nodup ↔
      d.name ∉ ds.map Descriptor.name ∧ (ds.map Descriptor.name).Nodup := by
  rw [List.map_append, List.map_singleton, (List.perm_append_singleton _ _).nodup_iff,
    List.nodup_cons]

/-- Classes with distinct names are all taken, and their names are the names that are held. -/
theorem exists_foldlM_addClass (h : (ds.map Descriptor.name).Nodup) :
    ∃ classes, ds.foldlM addClass .empty = .ok classes ∧
      classes.keys.Perm (ds.map Descriptor.name) := by
  induction ds using List.reverseRecOn with
  | nil => exact ⟨.empty, rfl, .refl _⟩
  | append_singleton ds d ih =>
      obtain ⟨hnew, hds⟩ := nodup_names_concat_iff.mp h
      obtain ⟨classes, hfold, hkeys⟩ := ih hds
      have hfree : d.name ∉ classes.keys := fun hmem => hnew (hkeys.mem_iff.mp hmem)
      refine ⟨classes.insert d.name d, ?_, ?_⟩
      · rw [List.foldlM_append, hfold]
        exact congrArg (· >>= pure) (addClass_of_notMem hfree)
      · rw [List.map_append, List.map_singleton]
        exact ((Index.keys_insert_perm d hfree).trans (hkeys.cons d.name)).trans
          (List.perm_append_singleton _ _).symm

/-- The classes after the first repeated name are not looked at. -/
theorem foldlM_addClass_of_repeated {before after : List Descriptor}
    (hbefore : (before.map Descriptor.name).Nodup) (hmem : d.name ∈ before.map Descriptor.name) :
    (before ++ d :: after).foldlM addClass .empty = .error (.duplicateKey d.name) := by
  obtain ⟨classes, hfold, hkeys⟩ := exists_foldlM_addClass hbefore
  rw [List.foldlM_append, hfold]
  change (addClass classes d >>= fun next => after.foldlM addClass next) = _
  rw [addClass_of_mem (hkeys.mem_iff.mpr hmem)]
  rfl

/-- The class at `i` has a name that a class before it has. -/
def RepeatedAt (ds : List Descriptor) (i : Nat) : Prop :=
  ∃ d, ds[i]? = some d ∧ d.name ∈ (ds.take i).map Descriptor.name

theorem RepeatedAt.lt_length {i : Nat} (h : RepeatedAt ds i) : i < ds.length := by
  obtain ⟨d, hd, -⟩ := h
  exact (List.getElem?_eq_some_iff.mp hd).1

theorem RepeatedAt.append_right {i : Nat} (h : RepeatedAt ds i) (rest : List Descriptor) :
    RepeatedAt (ds ++ rest) i := by
  have hlt := h.lt_length
  obtain ⟨d, hd, hmem⟩ := h
  refine ⟨d, ?_, ?_⟩
  · rw [List.getElem?_append_left hlt, hd]
  · rw [List.take_append_of_le_length hlt.le]
    exact hmem

theorem exists_repeatedAt (h : ¬ (ds.map Descriptor.name).Nodup) : ∃ i, RepeatedAt ds i := by
  induction ds using List.reverseRecOn with
  | nil => exact absurd List.nodup_nil h
  | append_singleton ds d ih =>
      by_cases hds : (ds.map Descriptor.name).Nodup
      · have hmem : d.name ∈ ds.map Descriptor.name := by
          by_contra hnew
          exact h (nodup_names_concat_iff.mpr ⟨hnew, hds⟩)
        refine ⟨ds.length, d, ?_, ?_⟩
        · exact List.getElem?_concat_length
        · rw [List.take_left]
          exact hmem
      · obtain ⟨i, hi⟩ := ih hds
        exact ⟨i, hi.append_right [d]⟩

/-- If a name is repeated, there is a first time. -/
theorem exists_first_repeatedAt (h : ¬ (ds.map Descriptor.name).Nodup) :
    ∃ i d, IsLeast {i | RepeatedAt ds i} i ∧ ds[i]? = some d := by
  classical
  have hfirst := Nat.isLeast_find (exists_repeatedAt h)
  obtain ⟨d, hd, -⟩ := hfirst.1
  exact ⟨_, d, hfirst, hd⟩

/-- Up to the first time the names are distinct. -/
theorem nodup_take_of_first {i : Nat} (h : IsLeast {i | RepeatedAt ds i} i) :
    ((ds.take i).map Descriptor.name).Nodup := by
  by_contra hrepeated
  obtain ⟨j, hj⟩ := exists_repeatedAt hrepeated
  have hlt : j < i := hj.lt_length.trans_le (List.length_take_le i ds)
  have hds : RepeatedAt ds j := List.take_append_drop i ds ▸ hj.append_right (ds.drop i)
  exact absurd (h.2 hds) (Nat.not_le.mpr hlt)

theorem foldlM_addClass_of_first {i : Nat} (h : IsLeast {i | RepeatedAt ds i} i)
    (hd : ds[i]? = some d) : ds.foldlM addClass .empty = .error (.duplicateKey d.name) := by
  obtain ⟨hlt, hget⟩ := List.getElem?_eq_some_iff.mp hd
  have hsplit : ds = ds.take i ++ d :: ds.drop (i + 1) := by
    rw [← hget, ← List.drop_eq_getElem_cons hlt, List.take_append_drop]
  obtain ⟨other, hother, hmem⟩ := h.1
  cases hd.symm.trans hother
  rw [hsplit]
  exact foldlM_addClass_of_repeated (nodup_take_of_first h) hmem

theorem ofList_of_nodup (h : (ds.map Descriptor.name).Nodup) :
    ∃ r, ofList ds = .ok r ∧ r.names.Perm (ds.map Descriptor.name) := by
  obtain ⟨classes, hfold, hkeys⟩ := exists_foldlM_addClass h
  refine ⟨ofIndex classes defaultDescription, ?_, hkeys⟩
  rw [ofList, hfold]

theorem ofList_of_first {i : Nat} (h : IsLeast {i | RepeatedAt ds i} i) (hd : ds[i]? = some d) :
    ofList ds = .error (.duplicateKey d.name) := by
  rw [ofList, foldlM_addClass_of_first h hd]

theorem ofList_eq_ok_iff_nodup : (∃ r, ofList ds = .ok r) ↔ (ds.map Descriptor.name).Nodup := by
  constructor
  · rintro ⟨r, hr⟩
    by_contra hrepeated
    obtain ⟨i, d, hi, hd⟩ := exists_first_repeatedAt hrepeated
    rw [ofList_of_first hi hd] at hr
    cases hr
  · intro h
    obtain ⟨r, hr, -⟩ := ofList_of_nodup h
    exact ⟨r, hr⟩

theorem names_perm_of_ofList {r : Roster} (h : ofList ds = .ok r) :
    r.names.Perm (ds.map Descriptor.name) := by
  obtain ⟨q, hq, hnames⟩ := ofList_of_nodup (ofList_eq_ok_iff_nodup.mp ⟨r, h⟩)
  cases h.symm.trans hq
  exact hnames

theorem ofList_eq_error_iff {e : RosterError} :
    ofList ds = .error e ↔
      ∃ i d, IsLeast {i | RepeatedAt ds i} i ∧ ds[i]? = some d ∧ e = .duplicateKey d.name := by
  constructor
  · intro h
    have hrepeated : ¬ (ds.map Descriptor.name).Nodup := by
      intro hnodup
      obtain ⟨r, hr, -⟩ := ofList_of_nodup hnodup
      cases h.symm.trans hr
    obtain ⟨i, d, hi, hd⟩ := exists_first_repeatedAt hrepeated
    cases h.symm.trans (ofList_of_first hi hd)
    exact ⟨i, d, hi, hd, rfl⟩
  · rintro ⟨i, d, hi, hd, rfl⟩
    exact ofList_of_first hi hd

/-- What was built from the same names under the same description is the same. -/
theorem eq_of_names_perm {a b : Roster} (ha : Built a) (hb : Built b)
    (hdescription : a.description = b.description) (hnames : a.names.Perm b.names) : a = b := by
  have hclasses : a.classes = b.classes :=
    ha.filed.eq_of_mem_keys_iff hb.filed fun _ => hnames.mem_iff
  have hroot : a.root = b.root := by
    rw [ha.root_eq_description, hb.root_eq_description, hdescription]
  calc a
    _ = ⟨a.classes, a.description, a.root⟩ := rfl
    _ = ⟨b.classes, b.description, b.root⟩ := by rw [hclasses, hdescription, hroot]
    _ = b := rfl

theorem ofList_perm {others : List Descriptor} {r : Roster} (h : ofList ds = .ok r)
    (hperm : others.Perm ds) : ofList others = .ok r := by
  have hnames := hperm.map Descriptor.name
  have hnodup := ofList_eq_ok_iff_nodup.mp ⟨r, h⟩
  obtain ⟨q, hq, hqnames⟩ := ofList_of_nodup (hnames.nodup_iff.mpr hnodup)
  have heq : q = r := by
    apply eq_of_names_perm (.ofList hq) (.ofList h)
    · rw [description_of_ofList hq, description_of_ofList h]
    · exact (hqnames.trans hnames).trans (names_perm_of_ofList h).symm
  rw [hq, heq]

/-- Classes make a roster just if their names are distinct. The roster has exactly these classes, in
the order of their names and whatever order they came in; otherwise the error names the first class
that repeats the name of one before it. -/
theorem ofList_exact (ds : List Descriptor) :
    ((∃ r, ofList ds = .ok r) ↔ (ds.map Descriptor.name).Nodup) ∧
      (∀ r, ofList ds = .ok r →
        r.names.Pairwise (fun a b => Text.utf8 a < Text.utf8 b) ∧
          r.names.Perm (ds.map Descriptor.name) ∧ r.descriptors.Perm ds ∧
          ∀ others, others.Perm ds → ∃ q, ofList others = .ok q ∧ (q == r) = true ∧
            q.report = r.report) ∧
      ∀ e, ofList ds = .error e ↔
        ∃ i d, IsLeast {i | RepeatedAt ds i} i ∧ ds[i]? = some d ∧ e = .duplicateKey d.name := by
  refine ⟨ofList_eq_ok_iff_nodup, ?_, fun e => ofList_eq_error_iff⟩
  intro r hr
  have hfiled := (Built.ofList hr).filed
  have hnames := names_perm_of_ofList hr
  refine ⟨hfiled.keys_pairwise.imp Text.utf8_lt_of_lt, hnames, ?_, ?_⟩
  · have hclasses := hnames.map Descriptor.mk
    rw [names, hfiled.map_mk_keys, List.map_map] at hclasses
    exact hclasses.trans (.of_eq (List.map_id _))
  · intro others hperm
    exact ⟨r, ofList_perm hr hperm, beq_iff.mpr ⟨rfl, rfl⟩, rfl⟩

theorem ofList_exact_repeated :
    ∃ r, ofList [⟨"é"⟩, ⟨"z.Y"⟩, ⟨"a.X"⟩] = .ok r ∧ r.names.Perm ["é", "z.Y", "a.X"] ∧
      (∃ q, ofList [⟨"z.Y"⟩, ⟨"a.X"⟩, ⟨"é"⟩] = .ok q ∧ (q == r) = true ∧ q.report = r.report) ∧
      ofList [⟨"b.Y"⟩, ⟨"a.X"⟩, ⟨"c.Z"⟩, ⟨"a.X"⟩, ⟨"b.Y"⟩] = .error (.duplicateKey "a.X") := by
  obtain ⟨r, hr⟩ := (ofList_exact [⟨"é"⟩, ⟨"z.Y"⟩, ⟨"a.X"⟩]).1.mpr (by decide)
  obtain ⟨-, hnames, -, hothers⟩ := (ofList_exact _).2.1 r hr
  refine ⟨r, hr, hnames, hothers _ (by decide), ((ofList_exact _).2.2 _).mpr ?_⟩
  refine ⟨3, ⟨"a.X"⟩, ⟨⟨⟨"a.X"⟩, rfl, by decide⟩, ?_⟩, rfl, rfl⟩
  rintro j ⟨d, hd, hmem⟩
  match j with
  | 0 => cases hmem
  | 1 => cases hd; simp at hmem
  | 2 => cases hd; simp at hmem
  | j + 3 => exact Nat.le_add_left 3 j

/-- The index of the first entry whose key is not the name of its class, or the number of entries
where there is none. -/
def firstMiskeyed (entries : List (String × Descriptor)) : Nat :=
  entries.findIdx fun e => e.1 != e.2.name

/-- The classes of the entries before the first wrong key. -/
def keyedClasses (entries : List (String × Descriptor)) : List Descriptor :=
  (entries.take (firstMiskeyed entries)).map Prod.snd

/-- Entries are taken as their classes are up to the first wrong key, at which the loop ends. -/
theorem foldlM_addEntry (entries : List (String × Descriptor)) (start : Index Descriptor) :
    entries.foldlM addEntry start =
      match (keyedClasses entries).foldlM addClass start, entries[firstMiskeyed entries]? with
      | .error e, _ => .error e
      | .ok _, some entry => .error (.keyMismatch entry.1 entry.2.name)
      | .ok classes, none => .ok classes := by
  induction entries generalizing start with
  | nil => rfl
  | cons entry entries ih =>
      by_cases hkey : entry.1 = entry.2.name
      · have hfirst : firstMiskeyed (entry :: entries) = firstMiskeyed entries + 1 := by
          simp [firstMiskeyed, List.findIdx_cons, hkey]
        have hkeyed : keyedClasses (entry :: entries) = entry.2 :: keyedClasses entries := by
          simp [keyedClasses, hfirst]
        rw [hfirst, hkeyed, List.foldlM_cons, List.foldlM_cons, List.getElem?_cons_succ, addEntry,
          if_pos hkey]
        cases hadd : addClass start entry.2 with
        | error e => rfl
        | ok classes => exact ih classes
      · have hfirst : firstMiskeyed (entry :: entries) = 0 := by
          simp [firstMiskeyed, List.findIdx_cons, bne_iff_ne.mpr hkey]
        rw [keyedClasses, hfirst, List.foldlM_cons, addEntry, if_neg hkey]
        rfl

theorem keyedClasses_eq_of_none {entries : List (String × Descriptor)}
    (h : entries[firstMiskeyed entries]? = none) : keyedClasses entries = entries.map Prod.snd := by
  rw [keyedClasses, List.take_of_length_le (List.getElem?_eq_none_iff.mp h)]

/-- Keyed classes are refused for a repeated name before the first wrong key, then for that key,
then for the empty description; if there is no reason to refuse them, they make the roster that
their classes make, redescribed. -/
theorem ofEntries_first_failure (entries : List (String × Descriptor)) (description : String) :
    (¬ ((keyedClasses entries).map Descriptor.name).Nodup →
        ∃ name, ofList (keyedClasses entries) = .error (.duplicateKey name) ∧
          ofEntries entries description = .error (.duplicateKey name)) ∧
      (((keyedClasses entries).map Descriptor.name).Nodup →
        (∀ entry, entries[firstMiskeyed entries]? = some entry →
          ofEntries entries description = .error (.keyMismatch entry.1 entry.2.name)) ∧
        (entries[firstMiskeyed entries]? = none →
          (description = "" → ofEntries entries description = .error .emptyDescription) ∧
          (description ≠ "" → ∃ r, ofList (entries.map Prod.snd) = .ok r ∧
            ofEntries entries description = .ok (r.redescribe description)))) := by
  have hloop := foldlM_addEntry entries .empty
  constructor
  · intro hrepeated
    obtain ⟨i, d, hi, hd⟩ := exists_first_repeatedAt hrepeated
    rw [foldlM_addClass_of_first hi hd] at hloop
    exact ⟨d.name, ofList_of_first hi hd, by rw [ofEntries, hloop]⟩
  · intro hnodup
    obtain ⟨classes, hfold, -⟩ := exists_foldlM_addClass hnodup
    rw [hfold] at hloop
    constructor
    · intro entry hentry
      rw [hentry] at hloop
      rw [ofEntries, hloop]
    · intro hnone
      rw [hnone] at hloop
      rw [keyedClasses_eq_of_none hnone] at hfold
      constructor
      · rintro rfl
        rw [ofEntries, hloop]
        rfl
      · intro hne
        refine ⟨ofIndex classes defaultDescription, ?_, ?_⟩
        · rw [ofList, hfold]
        · rw [ofEntries, hloop]
          exact if_neg fun hempty => hne (String.isEmpty_iff.mp hempty)

theorem ofEntries_first_failure_precedence :
    ofEntries [("a.X", ⟨"a.X"⟩), ("a.X", ⟨"a.X"⟩), ("b.Y", ⟨"c.Z"⟩)] "" =
        .error (.duplicateKey "a.X") ∧
      ofEntries [("a.X", ⟨"a.X"⟩), ("a.X", ⟨"b.Y"⟩), ("a.X", ⟨"a.X"⟩)] "" =
        .error (.keyMismatch "a.X" "b.Y") ∧
      ofEntries [("b.Y", ⟨"b.Y"⟩), ("a.X", ⟨"a.X"⟩)] "" = .error .emptyDescription ∧
      ∃ r, ofList [⟨"b.Y"⟩, ⟨"a.X"⟩] = .ok r ∧
        ofEntries [("b.Y", ⟨"b.Y"⟩), ("a.X", ⟨"a.X"⟩)] "all" = .ok (r.redescribe "all") := by
  have twice := ofEntries_first_failure [("a.X", ⟨"a.X"⟩), ("a.X", ⟨"a.X"⟩), ("b.Y", ⟨"c.Z"⟩)] ""
  have wrong := ofEntries_first_failure [("a.X", ⟨"a.X"⟩), ("a.X", ⟨"b.Y"⟩), ("a.X", ⟨"a.X"⟩)] ""
  have right := ofEntries_first_failure [("b.Y", ⟨"b.Y"⟩), ("a.X", ⟨"a.X"⟩)]
  refine ⟨?_, ?_, ?_, ?_⟩
  · obtain ⟨name, hlist, hentries⟩ := twice.1 (by decide)
    cases hlist
    exact hentries
  · exact (wrong.2 (by decide)).1 ("a.X", ⟨"b.Y"⟩) rfl
  · exact (((right "").2 (by decide)).2 rfl).1 rfl
  · exact (((right "all").2 (by decide)).2 rfl).2 (by decide)

end Roster
end ClassRoster
