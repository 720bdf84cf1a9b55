import ClassRoster.Proofs.Reachable
import Mathlib.Data.List.Induction

/-!
All views of a roster show one sequence of names. The views are the names, the classes, the
report, a walk from either end, the sizes, and the look-ups by name and by token.
-/

namespace ClassRoster

namespace Cursor

theorem run_next (ds : List Descriptor) :
    (mk ds).run (List.replicate (ds.length + 1) .next) =
      ds.map (fun d => .found (some d)) ++ [.found none] := by
  induction ds with
  | nil => rfl
  | cons d ds ih =>
      rw [List.length_cons, List.replicate_succ, run]
      simp only [call, next, List.head?_cons, List.tail_cons, List.map_cons, List.cons_append, ih]

theorem run_back (ds : List Descriptor) :
    (mk ds).run (List.replicate (ds.length + 1) .back) =
      ds.reverse.map (fun d => .found (some d)) ++ [.found none] := by
  induction ds using List.reverseRecOn with
  | nil => rfl
  | append_singleton ds d ih =>
      rw [List.length_append, List.length_singleton, List.replicate_succ, run]
      simp only [call, back, List.getLast?_concat, List.dropLast_concat, List.reverse_concat,
        List.map_cons, List.cons_append, ih]

end Cursor

namespace Roster

/-- Everything that can be read off a roster is told by `names`. The names increase in the order
of their encodings, and a class is known by its name, so that `⟨name⟩` is the class of a name. -/
structure Coherent (r : Roster) : Prop where
  increasing : r.classes.keys.Pairwise fun a b => Text.utf8 a < Text.utf8 b
  distinct : r.classes.keys.Nodup
  named : ∀ e ∈ r.classes.entries, e.1 = e.2.name
  names : r.names = r.classes.keys
  descriptors : r.descriptors.map Descriptor.name = r.names
  reported : r.report.classes = r.names
  forward : r.cursor.run (List.replicate (r.names.length + 1) .next) =
    r.names.map (fun name => .found (some ⟨name⟩)) ++ [.found none]
  backward : r.cursor.run (List.replicate (r.names.length + 1) .back) =
    r.names.reverse.map (fun name => .found (some ⟨name⟩)) ++ [.found none]
  size : r.size = r.names.length
  reportSize : r.report.size = r.names.length
  isEmpty : r.isEmpty = true ↔ r.names = []
  contains : ∀ name, r.contains name = true ↔ name ∈ r.names
  containsToken : ∀ name, r.containsToken ⟨name⟩ = true ↔ name ∈ r.names
  get_of_mem : ∀ name ∈ r.names, r.get name = .ok ⟨name⟩
  get_of_notMem : ∀ name, name ∉ r.names → r.get name = .error (.notFound name)
  getToken_of_mem : ∀ name ∈ r.names, r.getToken ⟨name⟩ = .ok ⟨name⟩
  getToken_of_notMem : ∀ name, name ∉ r.names → r.getToken ⟨name⟩ = .error (.notFound name)

variable {r : Roster}

theorem get_eq_ok_of_filed (h : r.classes.Filed) {name : String} (hmem : name ∈ r.names) :
    r.get name = .ok ⟨name⟩ := by
  rw [get, h.find?_of_mem hmem]

theorem get_eq_error {name : String} (hmem : name ∉ r.names) :
    r.get name = .error (.notFound name) := by
  rw [get, Index.find?_of_notMem hmem]

theorem cursor_eq_of_filed (h : r.classes.Filed) :
    r.cursor = ⟨r.names.map Descriptor.mk⟩ := by
  rw [cursor, names, h.map_mk_keys]
  rfl

theorem views_agree (h : Reachable r) : r.Coherent := by
  have hfiled := h.filed
  have hwalk := cursor_eq_of_filed hfiled
  have hmk : (r.names.map Descriptor.mk).length = r.names.length := List.length_map _
  constructor
  case increasing => exact hfiled.keys_pairwise.imp Text.utf8_lt_of_lt
  case distinct => exact hfiled.nodup_keys
  case named => exact hfiled.named
  case names => rfl
  case descriptors => exact hfiled.map_name_values
  case reported => rfl
  case forward =>
    rw [hwalk, ← hmk, Cursor.run_next, List.map_map]
    rfl
  case backward =>
    rw [hwalk, ← hmk, Cursor.run_back, ← List.map_reverse, List.map_map]
    rfl
  case size => exact (List.length_map _).symm
  case reportSize => rfl
  case isEmpty => simp [isEmpty, Index.isEmpty, names, Index.keys]
  case contains => exact fun name => Index.contains_iff_mem_keys
  case containsToken => exact fun name => Index.contains_iff_mem_keys
  case get_of_mem => exact fun name => get_eq_ok_of_filed hfiled
  case get_of_notMem => exact fun name => get_eq_error
  case getToken_of_mem => exact fun name => get_eq_ok_of_filed hfiled
  case getToken_of_notMem => exact fun name => get_eq_error

theorem views_agree_rebuilt :
    ∃ r q, Roster.ofEntries [("b.Y", ⟨"b.Y"⟩), ("a.X", ⟨"a.X"⟩), ("é", ⟨"é"⟩)] "all" = .ok r ∧
      Roster.ofList (r.filter (.undescribed fun d => d.name != "b.Y")).descriptors = .ok q ∧
      q.names = ["a.X", "é"] ∧ Reachable q ∧ q.Coherent := by
  let r : Roster := .ofIndex ⟨[("a.X", ⟨"a.X"⟩), ("b.Y", ⟨"b.Y"⟩), ("é", ⟨"é"⟩)]⟩ "all"
  let q : Roster := .ofIndex ⟨[("a.X", ⟨"a.X"⟩), ("é", ⟨"é"⟩)]⟩ "classes"
  have hr : Built r := .ofEntries
    (rfl : Roster.ofEntries [("b.Y", ⟨"b.Y"⟩), ("a.X", ⟨"a.X"⟩), ("é", ⟨"é"⟩)] "all" = .ok r)
  have hkept : Reachable (r.filter (.undescribed fun d => d.name != "b.Y")) :=
    .filter (.built hr) _
  have hq : Reachable q := .rebuild hkept rfl
  exact ⟨r, q, rfl, rfl, rfl, hq, views_agree hq⟩

end Roster
end ClassRoster
