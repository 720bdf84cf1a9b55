import ClassRoster.Proofs.Derivation

/-!
How far rosters that compare equal can stand for each other. Comparing looks at descriptions and
classes and not at roots, while a described criterion is appended to the root. So two equal rosters
answer alike whenever they are asked, and stay equal along a chain unless it ends with a described
criterion that still hangs from their own roots.
-/

namespace ClassRoster

/-- A class is known by its name, so that filed classes are known by their names. -/
theorem Index.Filed.eq_of_keys_eq {i j : Index Descriptor} (hi : i.Filed) (hj : j.Filed)
    (h : i.keys = j.keys) : i = j := by
  have entries_eq {k : Index Descriptor} (hk : k.Filed) :
      k.entries = k.keys.map fun name => (name, ⟨name⟩) := by
    rw [keys, List.map_map]
    calc k.entries
      _ = k.entries.map id := (List.map_id _).symm
      _ = k.entries.map _ := by
          apply List.map_congr_left
          intro e he
          exact Prod.ext rfl (Descriptor.name_injective (hk.named e he).symm)
  cases i
  cases j
  exact congrArg Index.mk ((entries_eq hi).trans ((congrArg _ h).trans (entries_eq hj).symm))

/-- The order of the names is no matter of choice. -/
theorem Index.Filed.eq_of_mem_keys_iff {i j : Index Descriptor} (hi : i.Filed) (hj : j.Filed)
    (h : ∀ name, name ∈ i.keys ↔ name ∈ j.keys) : i = j := by
  have hperm : i.keys.Perm j.keys := (List.perm_ext_iff_of_nodup hi.nodup_keys hj.nodup_keys).mpr h
  apply hi.eq_of_keys_eq hj
  exact hperm.eq_of_pairwise (fun _ _ _ _ hlt hgt => absurd hlt (String.lt_asymm hgt))
    hi.keys_pairwise hj.keys_pairwise

namespace Roster
open ClassRoster.Derivation

variable {a b : Roster}

theorem beq_iff_of_reachable (ha : Reachable a) (hb : Reachable b) :
    (a == b) = true ↔ a.description = b.description ∧ a.names = b.names := by
  rw [beq_iff]
  refine and_congr_right fun _ => ⟨congrArg Index.keys, fun h => ?_⟩
  exact ha.filed.eq_of_keys_eq hb.filed h

/-- Only the own roots can part equal rosters, and only where a described criterion hangs from
them. -/
theorem beq_derive_iff (h : (a == b) = true) (steps : List Derivation) :
    (a.derive steps == b.derive steps) = true ↔
      lastPhrase? steps = none ∨ lastRenaming? steps ≠ none ∨ a.root = b.root := by
  obtain ⟨hdescription, hclasses⟩ := beq_iff.mp h
  have hkept : (a.derive steps).classes = (b.derive steps).classes := by
    rw [classes_derive, classes_derive, hclasses]
  rw [beq_iff, and_iff_left hkept, description_derive, description_derive]
  -- The roots come in only where a phrase is appended to them.
  cases hphrase : lastPhrase? steps with
  | none => simp [hdescription]
  | some phrase =>
      simp only [root_derive]
      cases lastRenaming? steps with
      | none => simp
      | some description => simp

/-- What can be relied on for two rosters that compare equal. -/
structure Interchangeable (a b : Roster) : Prop where
  get : ∀ name, a.get name = b.get name
  getToken : ∀ t, a.getToken t = b.getToken t
  contains : ∀ name, a.contains name = b.contains name
  containsToken : ∀ t, a.containsToken t = b.containsToken t
  names : a.names = b.names
  descriptors : a.descriptors = b.descriptors
  walk : ∀ calls, a.cursor.run calls = b.cursor.run calls
  size : a.size = b.size
  isEmpty : a.isEmpty = b.isEmpty
  redescribe : ∀ description, (a.redescribe description == b.redescribe description) = true
  filter_undescribed : ∀ c : Criterion Descriptor, c.described = false →
    (a.filter c == b.filter c) = true
  filter_described : ∀ c : Criterion Descriptor, c.described = true →
    ((a.filter c == b.filter c) = true ↔ a.root = b.root)
  filter_redescribe : ∀ (c : Criterion Descriptor) description,
    ((a.filter c).redescribe description == (b.filter c).redescribe description) = true

theorem interchangeable_of_beq (h : (a == b) = true) : Interchangeable a b := by
  obtain ⟨-, hclasses⟩ := beq_iff.mp h
  have hdescriptors : a.descriptors = b.descriptors := congrArg Index.values hclasses
  have hphrase (c : Criterion Descriptor) :
      lastPhrase? [.filter c] = if c.described then some c.description else none :=
    lastPhrase?_concat_filter [] c
  constructor
  case get => intro name; rw [Roster.get, hclasses]; rfl
  case getToken => intro t; rw [Roster.getToken, Roster.get, hclasses]; rfl
  case contains => intro name; rw [Roster.contains, hclasses]; rfl
  case containsToken => intro t; rw [Roster.containsToken, Roster.contains, hclasses]; rfl
  case names => exact congrArg Index.keys hclasses
  case descriptors => exact hdescriptors
  case walk => intro calls; rw [cursor, hdescriptors]; rfl
  case size => exact congrArg Index.size hclasses
  case isEmpty => exact congrArg Index.isEmpty hclasses
  case redescribe =>
    intro description
    exact (beq_derive_iff h [.redescribe description]).mpr (.inl rfl)
  case filter_undescribed =>
    intro c hc
    refine (beq_derive_iff h [.filter c]).mpr (.inl ?_)
    rw [hphrase, hc]
    rfl
  case filter_described =>
    intro c hc
    have hroots := beq_derive_iff h [.filter c]
    rw [hphrase, hc, if_pos rfl] at hroots
    refine hroots.trans ⟨?_, fun hroot => .inr (.inr hroot)⟩
    rintro (hnone | hrenamed | hroot)
    · cases hnone
    · exact absurd rfl hrenamed
    · exact hroot
  case filter_redescribe =>
    intro c description
    refine (beq_derive_iff h [.filter c, .redescribe description]).mpr (.inl ?_)
    exact lastPhrase?_concat_redescribe [.filter c] description

/-- Rosters are equal just if they say and list the same, and equal rosters can stand for each other
as long as no described criterion is applied to them. Then they can if their roots are equal. -/
theorem beq_iff_interchangeable (ha : Reachable a) (hb : Reachable b) :
    ((a == b) = true ↔ a.description = b.description ∧ a.names = b.names) ∧
      ((a == b) = true → Interchangeable a b) :=
  ⟨beq_iff_of_reachable ha hb, interchangeable_of_beq⟩

theorem beq_iff_interchangeable_roots_differ :
    ∃ a b, Roster.ofEntries [("p.A", ⟨"p.A"⟩)] "all that always true" = .ok a ∧
      Roster.ofEntries [("p.A", ⟨"p.A"⟩)] "all" = .ok b ∧
      Reachable a ∧ Reachable (b.filter .always) ∧ (a == b.filter .always) = true ∧
      Interchangeable a (b.filter .always) ∧
      (a.filter .never == (b.filter .always).filter .never) = false := by
  let a : Roster := .ofIndex ⟨[("p.A", ⟨"p.A"⟩)]⟩ "all that always true"
  let b : Roster := .ofIndex ⟨[("p.A", ⟨"p.A"⟩)]⟩ "all"
  have ha : Reachable a := .built (.ofEntries
    (rfl : Roster.ofEntries [("p.A", ⟨"p.A"⟩)] "all that always true" = .ok a))
  have hb : Reachable (b.filter .always) := .filter (.built (.ofEntries
    (rfl : Roster.ofEntries [("p.A", ⟨"p.A"⟩)] "all" = .ok b))) _
  obtain ⟨hequal, hlike⟩ := beq_iff_interchangeable ha hb
  have hsame : (a == b.filter .always) = true := hequal.mpr ⟨rfl, rfl⟩
  refine ⟨a, b, rfl, rfl, ha, hb, hsame, hlike hsame, ?_⟩
  refine Bool.eq_false_iff.mpr fun hfiltered => ?_
  have hroots := ((hlike hsame).filter_described .never rfl).mp hfiltered
  exact absurd hroots (by decide)

end Roster
end ClassRoster
