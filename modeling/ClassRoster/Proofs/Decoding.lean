import ClassRoster.Codec
import Mathlib.Data.List.Forall2
import Mathlib.Data.List.Perm.Basic

/-!
The forms in which a value can be read. Each type has one form in which it is written and is read
from others too: a record as an object or as a list, at every level, a label by itself or as a
field with nothing in it. Reading takes exactly these forms, and what it gives does not depend on
the form.
-/

namespace ClassRoster
namespace Json

/-- A record with these values of its fields: the list of the values, or an object that has the
fields in any order and among unknown ones. -/
inductive IsRecord (names : List String) (values : List Json) : Json → Prop
  | list (hlength : names.length = values.length) : IsRecord names values (.arr values)
  | object {fields unknown : List (String × Json)} (hlength : names.length = values.length)
      (hfields : fields.Perm (names.zip values ++ unknown)) (hunknown : ∀ f ∈ unknown, f.1 ∉ names) :
      IsRecord names values (.obj fields)

inductive IsLabel (title : String) : Json → Prop
  | bare : IsLabel title (.str title)
  | wrapped : IsLabel title (.obj [(title, .null)])

theorem mapM_eq_some_iff {α β : Type} {f : α → Option β} {as : List α} {bs : List β} :
    as.mapM f = some bs ↔ List.Forall₂ (fun a b => f a = some b) as bs := by
  induction as generalizing bs with
  | nil => simp [eq_comm]
  | cons a as ih =>
      rw [List.mapM_cons, List.forall₂_cons_left_iff]
      simp only [Option.bind_eq_bind, Option.bind_eq_some_iff, Option.pure_def, Option.some.injEq, ih]
      constructor
      · rintro ⟨b, hb, rest, hrest, rfl⟩
        exact ⟨b, rest, hb, hrest, rfl⟩
      · rintro ⟨b, rest, hb, hrest, rfl⟩
        exact ⟨b, hb, rest, hrest, rfl⟩

theorem field?_obj_eq_some_iff {fields : List (String × Json)} {name : String} {value : Json} :
    (obj fields).field? name = some value ↔
      fields.filter (fun f => f.1 == name) = [(name, value)] := by
  constructor
  · intro h
    simp only [field?] at h
    split at h
    · next key found heq =>
        have hmem : (key, found) ∈ fields.filter (fun f => f.1 == name) :=
          heq ▸ List.mem_singleton_self _
        have hkey : key = name := beq_iff_eq.mp (List.mem_filter.mp hmem).2
        rw [heq, hkey, Option.some.inj h]
    · cases h
  · intro h
    simp only [field?, h]

theorem filter_or_perm {α : Type} {p q : α → Bool} (hdisjoint : ∀ a, p a = true → q a = false)
    (l : List α) : (l.filter fun a => p a || q a).Perm (l.filter p ++ l.filter q) := by
  have hfirst : (l.filter fun a => p a || q a).filter p = l.filter p := by
    rw [List.filter_filter]
    exact List.filter_congr fun a _ => by cases p a <;> simp
  have hsecond : (l.filter fun a => p a || q a).filter (fun a => !p a) = l.filter q := by
    rw [List.filter_filter]
    refine List.filter_congr fun a _ => ?_
    cases hp : p a with
    | true => simp [hdisjoint a hp]
    | false => simp
  rw [← hfirst, ← hsecond]
  exact (List.filter_append_perm p _).symm

/-- If every known field stands once in an object, they stand there in some order. -/
theorem filter_mem_perm_zip {fields : List (String × Json)} {names : List String}
    {values : List Json} (hnames : names.Nodup)
    (h : List.Forall₂ (fun name value => fields.filter (fun f => f.1 == name) = [(name, value)])
      names values) :
    (fields.filter fun f => decide (f.1 ∈ names)).Perm (names.zip values) := by
  induction h with
  | nil => simp
  | @cons name value names values hone _ ih =>
      obtain ⟨hname, hnames⟩ := List.nodup_cons.mp hnames
      have hdisjoint (f : String × Json) (hf : (f.1 == name) = true) :
          decide (f.1 ∈ names) = false := by
        rw [beq_iff_eq.mp hf]
        exact decide_eq_false hname
      have hsplit : (fields.filter fun f => decide (f.1 ∈ name :: names)) =
          fields.filter fun f => f.1 == name || decide (f.1 ∈ names) :=
        List.filter_congr fun f _ => by rw [Bool.eq_iff_iff]; simp
      rw [hsplit, List.zip_cons_cons]
      refine (filter_or_perm hdisjoint fields).trans ?_
      rw [hone]
      exact (ih hnames).cons (name, value)

theorem filter_zip_of_mem {names : List String} {values : List Json} (hnames : names.Nodup)
    {name : String} {value : Json} (h : (name, value) ∈ names.zip values) :
    (names.zip values).filter (fun f => f.1 == name) = [(name, value)] := by
  induction names generalizing values with
  | nil => exact absurd h List.not_mem_nil
  | cons first names ih =>
      obtain ⟨hfirst, hnames⟩ := List.nodup_cons.mp hnames
      cases values with
      | nil => exact absurd h List.not_mem_nil
      | cons leading values =>
          rw [List.zip_cons_cons] at h ⊢
          obtain heq | hmem := List.mem_cons.mp h
          · cases heq
            have hrest : (names.zip values).filter (fun f => f.1 == name) = [] := by
              refine List.filter_eq_nil_iff.mpr fun f hf hkey => ?_
              exact hfirst (beq_iff_eq.mp hkey ▸ (List.of_mem_zip hf).1)
            rw [List.filter_cons, if_pos (beq_self_eq_true name), hrest]
          · have hne : ¬ (first == name) = true := by
              intro heq
              exact hfirst (beq_iff_eq.mp heq ▸ (List.of_mem_zip hmem).1)
            rw [List.filter_cons, if_neg hne]
            exact ih hnames hmem

theorem record?_eq_some_iff {names : List String} (hnames : names.Nodup) (hne : names ≠ [])
    {values : List Json} {j : Json} : j.record? names = some values ↔ IsRecord names values j := by
  constructor
  · intro h
    cases j with
    | arr items =>
        simp only [record?] at h
        split at h
        · next hlength => cases h; exact .list hlength.symm
        · cases h
    | obj fields =>
        have hfields := mapM_eq_some_iff.mp h
        have hsingle := hfields.imp fun name value => field?_obj_eq_some_iff.mp
        -- The known fields make up the record, all others are unknown ones.
        have hparts := List.filter_append_perm (fun f : String × Json => decide (f.1 ∈ names)) fields
        refine .object hfields.length_eq
          (hparts.symm.trans ((filter_mem_perm_zip hnames hsingle).append_right _)) fun f hf => ?_
        simpa using (List.mem_filter.mp hf).2
    | _ =>
        obtain ⟨name, names, rfl⟩ := List.exists_cons_of_ne_nil hne
        simp [record?, field?] at h
  · intro h
    cases h with
    | list hlength => exact record?_arr hlength.symm
    | @object fields unknown hlength hfields hunknown =>
        refine mapM_eq_some_iff.mpr (List.forall₂_iff_zip.mpr ⟨hlength, fun {name value} hmem => ?_⟩)
        rw [field?_obj_eq_some_iff]
        refine List.Perm.eq_singleton ((hfields.filter _).trans ?_)
        have hother : unknown.filter (fun f => f.1 == name) = [] := by
          refine List.filter_eq_nil_iff.mpr fun f hf hkey => ?_
          exact hunknown f hf (beq_iff_eq.mp hkey ▸ (List.of_mem_zip hmem).1)
        rw [List.filter_append, filter_zip_of_mem hnames hmem, hother]
        exact .refl _

theorem record?_bind_eq_some_iff {α : Type} {names : List String} (hnames : names.Nodup)
    (hne : names ≠ []) {decode? : List Json → Option α} {v : α} {j : Json} :
    (j.record? names).bind decode? = some v ↔
      ∃ values, IsRecord names values j ∧ decode? values = some v := by
  rw [Option.bind_eq_some_iff]
  simp only [record?_eq_some_iff hnames hne]

theorem label?_eq_some_iff {title : String} {j : Json} :
    j.label? = some title ↔ IsLabel title j := by
  constructor
  · intro h
    simp only [label?] at h
    split at h
    · cases h; exact .bare
    · cases h; exact .wrapped
    · cases h
  · rintro (_ | _) <;> rfl

/-- A value that is looked for by its title among all there are. -/
theorem label?_bind_find?_eq_some_iff {α : Type} {all : List α} {title : α → String}
    (hall : ∀ a, all.find? (title · == title a) = some a) {a : α} {j : Json} :
    (j.label? >>= fun t => all.find? (title · == t)) = some a ↔ IsLabel (title a) j := by
  rw [← label?_eq_some_iff, Option.bind_eq_bind, Option.bind_eq_some_iff]
  constructor
  · rintro ⟨t, ht, hfound⟩
    have heq := List.find?_some hfound
    rw [ht, beq_iff_eq.mp heq]
  · intro h
    exact ⟨_, h, hall a⟩

theorem str?_eq_some_iff {s : String} {j : Json} : j.str? = some s ↔ j = .str s := by
  cases j <;> simp [str?]

theorem word?_eq_some_iff {w : UInt64} {j : Json} : j.word? = some w ↔ j = ofWord w := by
  refine ⟨fun h => ?_, fun h => h ▸ word?_ofWord w⟩
  cases j with
  | int n =>
      simp only [word?] at h
      split at h
      · next hn =>
          cases h
          have hnat : (UInt64.ofNat n.toNat).toNat = n.toNat := UInt64.toNat_ofNat_of_lt' hn.2
          rw [ofWord, ofNat, hnat, Int.toNat_of_nonneg hn.1]
      · cases h
  | _ => cases h

theorem mapM_eq_some_iff_eq_map {α : Type} {read? : Json → Option α} {write : α → Json}
    (h : ∀ {a j}, read? j = some a ↔ j = write a) {as : List α} {js : List Json} :
    js.mapM read? = some as ↔ js = as.map write := by
  rw [mapM_eq_some_iff]
  simp only [h]
  rw [← List.forall₂_map_right_iff (R := (· = ·)), List.forall₂_eq_eq_eq]

theorem strings?_eq_some_iff {texts : List String} {j : Json} :
    j.strings? = some texts ↔ j = .ofStrings texts := by
  constructor
  · intro h
    obtain ⟨items, hitems, htexts⟩ := Option.bind_eq_some_iff.mp h
    have heq : items = texts.map str := (mapM_eq_some_iff_eq_map str?_eq_some_iff).mp htexts
    cases j with
    | arr _ => cases hitems; exact congrArg arr heq
    | _ => cases hitems
  · rintro rfl
    exact (mapM_eq_some_iff_eq_map str?_eq_some_iff).mpr rfl

/-- The object with the fields in their order and no others. -/
theorem isRecord_zip {names : List String} {values : List Json}
    (hlength : names.length = values.length) : IsRecord names values (.obj (names.zip values)) :=
  .object hlength (by rw [List.append_nil]) fun _ h => absurd h List.not_mem_nil

end Json
open Json

def Token.Form (t : Token) (j : Json) : Prop := j = .str t.name

def Descriptor.Form (d : Descriptor) (j : Json) : Prop := IsRecord ["name"] [.str d.name] j

def Report.Form (r : Report) (j : Json) : Prop :=
  IsRecord ["description", "prefix", "classes"]
    [.str r.description, .str r.root, .ofStrings r.classes] j

def Counters.Form (c : Counters) (j : Json) : Prop :=
  IsRecord
    ["built_from_mapping", "built_from_iterable", "build_rejections", "classes_indexed",
      "filters_applied", "filters_described", "classes_scanned", "classes_retained",
      "redescriptions", "lookups", "lookup_misses"]
    ([c.builtFromMapping, c.builtFromIterable, c.buildRejections, c.classesIndexed,
      c.filtersApplied, c.filtersDescribed, c.classesScanned, c.classesRetained,
      c.redescriptions, c.lookups, c.lookupMisses].map .ofWord) j

def CounterReport.Form (r : CounterReport) (j : Json) : Prop :=
  ∃ counters, IsRecord ["counters"] [counters] j ∧ r.counters.Form counters

def PublicError.Form (e : PublicError) (j : Json) : Prop :=
  ∃ kind origin, IsRecord ["kind", "origin", "message"] [kind, origin, .str e.message] j ∧
    IsLabel e.kind.title kind ∧ IsLabel e.origin.title origin

theorem Token.ofJson?_eq_some_iff {t : Token} {j : Json} : ofJson? j = some t ↔ t.Form j := by
  rw [ofJson?, Option.map_eq_some_iff]
  constructor
  · rintro ⟨name, hname, rfl⟩
    exact str?_eq_some_iff.mp hname
  · intro h
    exact ⟨t.name, str?_eq_some_iff.mpr h, rfl⟩

theorem Descriptor.ofJson?_eq_some_iff {d : Descriptor} {j : Json} :
    ofJson? j = some d ↔ d.Form j := by
  refine (record?_bind_eq_some_iff (by decide) (by decide)).trans ⟨?_, ?_⟩
  · rintro ⟨values, hrecord, h⟩
    split at h
    · next name =>
        obtain ⟨s, hs, h⟩ := Option.bind_eq_some_iff.mp h
        cases h
        cases str?_eq_some_iff.mp hs
        exact hrecord
    · cases h
  · intro h
    exact ⟨_, h, rfl⟩

theorem Report.ofJson?_eq_some_iff {r : Report} {j : Json} : ofJson? j = some r ↔ r.Form j := by
  refine (record?_bind_eq_some_iff (by decide) (by decide)).trans ⟨?_, ?_⟩
  · rintro ⟨values, hrecord, h⟩
    split at h
    · next description root classes =>
        obtain ⟨s, hs, h⟩ := Option.bind_eq_some_iff.mp h
        obtain ⟨t, ht, h⟩ := Option.bind_eq_some_iff.mp h
        obtain ⟨texts, htexts, h⟩ := Option.bind_eq_some_iff.mp h
        cases h
        cases str?_eq_some_iff.mp hs
        cases str?_eq_some_iff.mp ht
        cases strings?_eq_some_iff.mp htexts
        exact hrecord
    · cases h
  · intro h
    have hclasses : (Json.ofStrings r.classes).strings? = some r.classes :=
      strings?_eq_some_iff.mpr rfl
    refine ⟨_, h, ?_⟩
    simp [str?, hclasses]

theorem Counters.ofWords?_eq_some_iff {ws : List UInt64} {c : Counters} :
    ofWords? ws = some c ↔ ws = c.words := by
  refine ⟨fun h => ?_, fun h => h ▸ ofWords?_words c⟩
  simp only [ofWords?] at h
  split at h
  · cases h; rfl
  · cases h

theorem Counters.ofJson?_eq_some_iff {c : Counters} {j : Json} :
    ofJson? j = some c ↔ c.Form j := by
  refine (record?_bind_eq_some_iff (by decide) (by decide)).trans ⟨?_, ?_⟩
  · rintro ⟨values, hrecord, h⟩
    obtain ⟨ws, hws, hc⟩ := Option.bind_eq_some_iff.mp h
    cases ofWords?_eq_some_iff.mp hc
    cases (mapM_eq_some_iff_eq_map word?_eq_some_iff).mp hws
    exact hrecord
  · intro h
    have hws : (c.words.map ofWord).mapM word? = some c.words :=
      (mapM_eq_some_iff_eq_map word?_eq_some_iff).mpr rfl
    exact ⟨_, h, Option.bind_eq_some_iff.mpr ⟨c.words, hws, ofWords?_words c⟩⟩

theorem CounterReport.ofJson?_eq_some_iff {r : CounterReport} {j : Json} :
    ofJson? j = some r ↔ r.Form j := by
  refine (record?_bind_eq_some_iff (by decide) (by decide)).trans ⟨?_, ?_⟩
  · rintro ⟨values, hrecord, h⟩
    split at h
    · next counters =>
        obtain ⟨c, hc, h⟩ := Option.bind_eq_some_iff.mp h
        cases h
        exact ⟨counters, hrecord, Counters.ofJson?_eq_some_iff.mp hc⟩
    · cases h
  · rintro ⟨counters, hrecord, hcounters⟩
    refine ⟨_, hrecord, ?_⟩
    simp [Counters.ofJson?_eq_some_iff.mpr hcounters]

theorem ErrorKind.ofJson?_eq_some_iff {k : ErrorKind} {j : Json} :
    ofJson? j = some k ↔ IsLabel k.title j :=
  label?_bind_find?_eq_some_iff fun k => by cases k <;> rfl

theorem Origin.ofJson?_eq_some_iff {o : Origin} {j : Json} :
    ofJson? j = some o ↔ IsLabel o.title j :=
  label?_bind_find?_eq_some_iff fun o => by cases o <;> rfl

theorem PublicError.ofJson?_eq_some_iff {e : PublicError} {j : Json} :
    ofJson? j = some e ↔ e.Form j := by
  refine (record?_bind_eq_some_iff (by decide) (by decide)).trans ⟨?_, ?_⟩
  · rintro ⟨values, hrecord, h⟩
    split at h
    · next kind origin message =>
        obtain ⟨k, hk, h⟩ := Option.bind_eq_some_iff.mp h
        obtain ⟨o, ho, h⟩ := Option.bind_eq_some_iff.mp h
        obtain ⟨s, hs, h⟩ := Option.bind_eq_some_iff.mp h
        cases h
        cases str?_eq_some_iff.mp hs
        exact ⟨kind, origin, hrecord, ErrorKind.ofJson?_eq_some_iff.mp hk,
          Origin.ofJson?_eq_some_iff.mp ho⟩
    · cases h
  · rintro ⟨kind, origin, hrecord, hkind, horigin⟩
    refine ⟨_, hrecord, ?_⟩
    simp [ErrorKind.ofJson?_eq_some_iff.mpr hkind, Origin.ofJson?_eq_some_iff.mpr horigin, str?]

/-- Writing and reading of a type whose forms are `Form`. -/
structure Lossless {α : Type} (write : α → Json) (read? : Json → Option α)
    (Form : α → Json → Prop) : Prop where
  read_write : ∀ v, read? (write v) = some v
  read_iff : ∀ v j, read? j = some v ↔ Form v j
  reread : ∀ v j, read? j = some v → read? (write v) = read? j

/-- Writing and reading of a record. An object is read like the list of its values, whether these
can be read or not. -/
structure LosslessRecord {α : Type} (names : List String) (write : α → Json)
    (read? : Json → Option α) (Form : α → Json → Prop) : Prop extends
    Lossless write read? Form where
  layouts : ∀ (values : List Json) (fields unknown : List (String × Json)),
    names.length = values.length → fields.Perm (names.zip values ++ unknown) →
    (∀ f ∈ unknown, f.1 ∉ names) → read? (.obj fields) = read? (.arr values)

theorem lossless_of_iff {α : Type} {write : α → Json} {read? : Json → Option α}
    {Form : α → Json → Prop} (hread : ∀ v j, read? j = some v ↔ Form v j)
    (hwrite : ∀ v, Form v (write v)) : Lossless write read? Form where
  read_write v := (hread v _).mpr (hwrite v)
  read_iff := hread
  reread v _ h := h ▸ (hread v _).mpr (hwrite v)

theorem losslessRecord_of_iff {α : Type} {names : List String} {write : α → Json}
    {read? : Json → Option α} {Form : α → Json → Prop} (decode? : List Json → Option α)
    (hnames : names.Nodup) (hne : names ≠ [])
    (hdecode : ∀ j, read? j = (j.record? names).bind decode?)
    (hread : ∀ v j, read? j = some v ↔ Form v j) (hwrite : ∀ v, Form v (write v)) :
    LosslessRecord names write read? Form where
  toLossless := lossless_of_iff hread hwrite
  layouts values fields unknown hlength hfields hunknown := by
    have hrecord {j : Json} (h : IsRecord names values j) : read? j = decode? values := by
      rw [hdecode, (record?_eq_some_iff hnames hne).mpr h, Option.bind_some]
    rw [hrecord (.object hlength hfields hunknown), hrecord (.list hlength)]

/-- Every value that leaves the library can be read back, and of every type exactly its forms can be
read. -/
theorem forms_lossless :
    Lossless Token.toJson Token.ofJson? Token.Form ∧
      LosslessRecord ["name"] Descriptor.toJson Descriptor.ofJson? Descriptor.Form ∧
      LosslessRecord ["description", "prefix", "classes"] Report.toJson Report.ofJson? Report.Form ∧
      LosslessRecord Counters.fieldNames Counters.toJson Counters.ofJson? Counters.Form ∧
      LosslessRecord ["counters"] CounterReport.toJson CounterReport.ofJson? CounterReport.Form ∧
      LosslessRecord ["kind", "origin", "message"] PublicError.toJson PublicError.ofJson?
        PublicError.Form := by
  refine ⟨?_, ?_, ?_, ?_, ?_, ?_⟩
  · exact lossless_of_iff (fun _ _ => Token.ofJson?_eq_some_iff) fun _ => rfl
  · exact losslessRecord_of_iff _ (by decide) (by decide) (fun _ => rfl)
      (fun _ _ => Descriptor.ofJson?_eq_some_iff) fun _ => isRecord_zip rfl
  · exact losslessRecord_of_iff _ (by decide) (by decide) (fun _ => rfl)
      (fun _ _ => Report.ofJson?_eq_some_iff) fun _ => isRecord_zip rfl
  · exact losslessRecord_of_iff _ (by decide) (by decide) (fun _ => rfl)
      (fun _ _ => Counters.ofJson?_eq_some_iff) fun _ => isRecord_zip rfl
  · exact losslessRecord_of_iff _ (by decide) (by decide) (fun _ => rfl)
      (fun _ _ => CounterReport.ofJson?_eq_some_iff)
      fun r => ⟨r.counters.toJson, isRecord_zip rfl, isRecord_zip rfl⟩
  · exact losslessRecord_of_iff _ (by decide) (by decide) (fun _ => rfl)
      (fun _ _ => PublicError.ofJson?_eq_some_iff)
      fun e => ⟨e.kind.toJson, e.origin.toJson, isRecord_zip rfl, .bare, .bare⟩

example : CounterReport.ofJson? (.arr [.arr ((List.range 11).map .ofNat)]) =
    some ⟨0, 1, 2, 3, 4, 5, 6, 7, 8, 9, 10⟩ := rfl

end ClassRoster
