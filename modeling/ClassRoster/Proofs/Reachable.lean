import ClassRoster.Proofs.ByteOrder
import ClassRoster.Roster.Cursor
import ClassRoster.Roster.Report

/-!
The rosters that can be come by, and why all the ways to look at one agree. Some views read the
names under which classes are held, others read the classes; what joins the two is that every
class is held under its own name. Both builders establish that and every derivation keeps it.
-/

namespace ClassRoster

/-- The names increase strictly and each class is held under its own name. -/
structure Index.Filed (i : Index Descriptor) : Prop where
  ordered : i.Ordered
  named : ∀ e ∈ i.entries, e.1 = e.2.name

namespace Index

variable {i : Index Descriptor}

theorem filed_empty : (empty : Index Descriptor).Filed :=
  ⟨ordered_empty, fun _ h => absurd h List.not_mem_nil⟩

theorem filed_insert (h : i.Filed) (d : Descriptor) : (i.insert d.name d).Filed := by
  refine ⟨ordered_insert h.ordered d.name d, ?_⟩
  intro e he
  obtain rfl | he := mem_place he
  · rfl
  · exact h.named e he

theorem filed_filter (h : i.Filed) (keep : Descriptor → Bool) : (i.filter keep).Filed :=
  ⟨ordered_filter h.ordered keep, fun e he => h.named e (List.mem_of_mem_filter he)⟩

theorem Filed.map_name_values (h : i.Filed) : i.values.map Descriptor.name = i.keys := by
  rw [values, keys, List.map_map]
  exact List.map_congr_left fun e he => (h.named e he).symm

theorem Filed.map_mk_keys (h : i.Filed) : i.keys.map Descriptor.mk = i.values := by
  rw [← h.map_name_values, List.map_map]
  exact List.map_id _

theorem Filed.keys_pairwise (h : i.Filed) : i.keys.Pairwise (· < ·) :=
  List.pairwise_map.mpr h.ordered

theorem Filed.values_pairwise (h : i.Filed) : i.values.Pairwise fun a b => a.name < b.name :=
  List.pairwise_map.mp (h.map_name_values ▸ h.keys_pairwise)

theorem Filed.nodup_keys (h : i.Filed) : i.keys.Nodup :=
  h.keys_pairwise.imp String.ne_of_lt

/-- Only the class of a name can be held under that name. -/
theorem Filed.find?_of_mem (h : i.Filed) {name : String} (hmem : name ∈ i.keys) :
    i.find? name = some ⟨name⟩ := by
  obtain ⟨d, hd⟩ := Option.isSome_iff_exists.mp (contains_iff_mem_keys.mpr hmem)
  obtain ⟨before, after, hentries, -⟩ := List.lookup_eq_some_iff.mp hd
  have hname : name = d.name := h.named (name, d) (by simp [hentries])
  rw [hd, hname]

theorem find?_of_notMem {name : String} (hmem : name ∉ i.keys) : i.find? name = none := by
  have hcontains : ¬ (i.find? name).isSome = true := fun h =>
    hmem (contains_iff_mem_keys.mp h)
  simpa using hcontains

end Index

namespace Roster

section Filed
variable {r : Roster} (h : r.classes.Filed)
include h

theorem map_name_descriptors : r.descriptors.map Descriptor.name = r.names :=
  h.map_name_values

theorem map_mk_names : r.names.map Descriptor.mk = r.descriptors :=
  h.map_mk_keys

theorem nodup_map_name_descriptors : (r.descriptors.map Descriptor.name).Nodup :=
  map_name_descriptors h ▸ h.nodup_keys

theorem nodup_descriptors : r.descriptors.Nodup :=
  List.Pairwise.of_map _ (fun _ _ hne heq => hne (congrArg _ heq)) (nodup_map_name_descriptors h)

theorem mem_descriptors_iff {d : Descriptor} : d ∈ r.descriptors ↔ d.name ∈ r.names := by
  rw [← map_name_descriptors h, List.mem_map]
  constructor
  · intro hd
    exact ⟨d, hd, rfl⟩
  · rintro ⟨other, hother, hname⟩
    exact Descriptor.name_injective hname ▸ hother

end Filed

/-- What every step keeps, a run that succeeds keeps. -/
theorem foldlM_ok_of_step {α β ε : Type} {step : β → α → Except ε β} {P : β → Prop}
    (hstep : ∀ b a next, P b → step b a = .ok next → P next) {as : List α} {b last : β}
    (hb : P b) (h : as.foldlM step b = .ok last) : P last := by
  induction as generalizing b with
  | nil => cases h; exact hb
  | cons a as ih =>
      rw [List.foldlM_cons] at h
      cases hs : step b a with
      | error e => rw [hs] at h; cases h
      | ok next => rw [hs] at h; exact ih (hstep b a next hb hs) h

theorem addClass_eq_ok {classes next : Index Descriptor} {d : Descriptor}
    (h : addClass classes d = .ok next) :
    d.name ∉ classes.keys ∧ next = classes.insert d.name d := by
  rw [← Index.contains_iff_mem_keys]
  simp only [addClass, Index.insertNew?] at h
  cases hc : classes.contains d.name with
  | true => simp [hc] at h
  | false =>
      simp only [hc, Bool.false_eq_true, if_false, Except.ok.injEq] at h
      exact ⟨Bool.false_ne_true, h.symm⟩

theorem addEntry_eq_ok {classes next : Index Descriptor} {entry : String × Descriptor}
    (h : addEntry classes entry = .ok next) :
    entry.1 = entry.2.name ∧ addClass classes entry.2 = .ok next := by
  simp only [addEntry] at h
  split at h
  · next heq => exact ⟨heq, h⟩
  · cases h

theorem filed_addClass {classes next : Index Descriptor} {d : Descriptor}
    (h : classes.Filed) (hadd : addClass classes d = .ok next) : next.Filed := by
  rw [(addClass_eq_ok hadd).2]
  exact Index.filed_insert h d

/-- A roster straight from one of the two builders. -/
inductive Built : Roster → Prop
  | ofList {ds : List Descriptor} {r : Roster} (h : Roster.ofList ds = .ok r) : Built r
  | ofEntries {entries : List (String × Descriptor)} {description : String} {r : Roster}
      (h : Roster.ofEntries entries description = .ok r) : Built r

theorem description_of_ofList {ds : List Descriptor} {r : Roster} (h : Roster.ofList ds = .ok r) :
    r.description = defaultDescription := by
  simp only [Roster.ofList] at h
  split at h <;> cases h
  rfl

theorem description_of_ofEntries {entries : List (String × Descriptor)} {description : String}
    {r : Roster} (h : Roster.ofEntries entries description = .ok r) :
    description ≠ "" ∧ r.description = description := by
  simp only [Roster.ofEntries] at h
  split at h
  · split at h
    · cases h
    · next hne =>
        cases h
        exact ⟨by simpa using hne, rfl⟩
  · cases h

theorem Built.eq_ofIndex {r : Roster} (h : Built r) :
    ∃ classes description, classes.Filed ∧ r = ofIndex classes description := by
  cases h with
  | @ofList ds _ h =>
      simp only [Roster.ofList] at h
      split at h
      · next classes hfold =>
          cases h
          exact ⟨classes, _, foldlM_ok_of_step (fun _ _ _ => filed_addClass)
            Index.filed_empty hfold, rfl⟩
      · cases h
  | @ofEntries entries description _ h =>
      simp only [Roster.ofEntries] at h
      split at h
      · next classes hfold =>
          split at h
          · cases h
          · cases h
            exact ⟨classes, _, foldlM_ok_of_step
              (fun _ _ _ hf ha => filed_addClass hf (addEntry_eq_ok ha).2)
              Index.filed_empty hfold, rfl⟩
      · cases h

theorem Built.filed {r : Roster} (h : Built r) : r.classes.Filed := by
  obtain ⟨classes, description, hfiled, rfl⟩ := h.eq_ofIndex
  exact hfiled

theorem Built.root_eq_description {r : Roster} (h : Built r) : r.root = r.description := by
  obtain ⟨classes, description, -, rfl⟩ := h.eq_ofIndex
  rfl

/-- A roster that was built, then filtered, renamed and built again from its own classes, in any
order and any number of times. -/
inductive Reachable : Roster → Prop
  | built {r : Roster} (h : Built r) : Reachable r
  | filter {r : Roster} (h : Reachable r) (c : Criterion Descriptor) : Reachable (r.filter c)
  | redescribe {r : Roster} (h : Reachable r) (description : String) :
      Reachable (r.redescribe description)
  | rebuild {r q : Roster} (h : Reachable r) (hq : Roster.ofList r.descriptors = .ok q) :
      Reachable q

theorem Reachable.filed {r : Roster} (h : Reachable r) : r.classes.Filed := by
  induction h with
  | built h => exact h.filed
  | filter _ c ih => exact Index.filed_filter ih c.accepts
  | redescribe _ _ ih => exact ih
  | rebuild _ hq _ => exact (Built.ofList hq).filed

end Roster
end ClassRoster
