import ClassRoster.Proofs.FilterAlgebra
import ClassRoster.Proofs.Packages

/-!
Subtrees in the order of names. A subtree filter looks at the package of each class and at nothing
else, and still what it keeps is one block of the roster. The dot and the slash are neighbours among
the characters, so that the names below a root are those from the root with a dot on up to the root
with a slash. The blocks lie as their roots do: where one root is at or below the other, so is the
block, and any other two blocks have nothing in common.
-/

namespace ClassRoster
namespace Text

theorem eq_dot_of_between {c : Char} (hdot : ¬ c < '.') (hslash : c < '/') : c = '.' := by
  have hlow : ¬ c.val.toNat < 46 := hdot
  have hhigh : c.val.toNat < 47 := hslash
  have hcode : c.val.toNat = 46 := by omega
  exact Char.toNat_inj.mp hcode

/-- Text begins with `lead` and a dot just if it comes before `lead` with a slash and not before
`lead` with a dot. -/
theorem prefix_dot_iff {lead text : List Char} :
    lead ++ ['.'] <+: text ↔ ¬ text < lead ++ ['.'] ∧ text < lead ++ ['/'] := by
  induction lead generalizing text with
  | nil =>
      cases text with
      | nil => simp
      | cons c rest =>
          simp only [List.nil_append, List.cons_prefix_cons, List.nil_prefix,
            List.cons_lt_cons_iff, List.not_lt_nil, and_false, or_false, and_true]
          constructor
          · rintro rfl
            exact ⟨by decide, by decide⟩
          · intro ⟨hdot, hslash⟩
            exact (eq_dot_of_between hdot hslash).symm
  | cons l lead ih =>
      cases text with
      | nil => simp
      | cons c rest =>
          -- Both bounds begin with `l`, and so does everything between them.
          simp only [List.cons_append, List.cons_prefix_cons, List.cons_lt_cons_iff, ih]
          constructor
          · rintro ⟨rfl, hdot, hslash⟩
            refine ⟨?_, .inr ⟨rfl, hslash⟩⟩
            rintro (hlt | ⟨-, hrest⟩)
            · exact absurd hlt (Char.lt_irrefl l)
            · exact hdot hrest
          · rintro ⟨hdot, hlt | ⟨rfl, hslash⟩⟩
            · exact absurd (.inl hlt) hdot
            · exact ⟨rfl, fun hrest => hdot (.inr ⟨rfl, hrest⟩), hslash⟩

variable {root other name : String}

theorem exists_below_iff_begins :
    (∃ below, name = root ++ "." ++ below) ↔ root.toList ++ ['.'] <+: name.toList := by
  constructor
  · rintro ⟨below, rfl⟩
    exact ⟨below.toList, by simp⟩
  · rintro ⟨below, hname⟩
    refine ⟨String.ofList below, ?_⟩
    rw [← String.toList_inj, ← hname]
    simp

theorem exists_below_iff_between :
    (∃ below, name = root ++ "." ++ below) ↔ root ++ "." ≤ name ∧ name < root ++ "/" := by
  have hdot : (root ++ ".").toList = root.toList ++ ['.'] := String.toList_append
  have hslash : (root ++ "/").toList = root.toList ++ ['/'] := String.toList_append
  rw [exists_below_iff_begins, prefix_dot_iff, ← hdot, ← hslash]
  rfl

/-- Whether `other` is `root` or goes on behind it at a dot. -/
def AtOrBelow (root other : String) : Prop :=
  other = root ∨ ∃ below, other = root ++ "." ++ below

theorem atOrBelow_iff_begins :
    AtOrBelow root other ↔ root.toList ++ ['.'] <+: other.toList ++ ['.'] := by
  rw [AtOrBelow, exists_below_iff_begins, List.prefix_concat_iff, List.append_left_inj,
    String.toList_inj, eq_comm]

theorem AtOrBelow.below (h : AtOrBelow root other) (hname : ∃ below, name = other ++ "." ++ below) :
    ∃ below, name = root ++ "." ++ below :=
  exists_below_iff_begins.mpr
    ((atOrBelow_iff_begins.mp h).trans (exists_below_iff_begins.mp hname))

/-- No name is below two roots of which neither is at or below the other. -/
theorem atOrBelow_or_of_below (hroot : ∃ below, name = root ++ "." ++ below)
    (hother : ∃ below, name = other ++ "." ++ below) :
    AtOrBelow root other ∨ AtOrBelow other root := by
  rw [exists_below_iff_begins] at hroot hother
  rw [atOrBelow_iff_begins, atOrBelow_iff_begins]
  exact List.prefix_or_prefix_of_prefix hroot hother

/-- The least name below a root tells whether the root is itself at or below another one. -/
theorem atOrBelow_iff_below :
    AtOrBelow root other ↔ ∃ below, other ++ "." = root ++ "." ++ below := by
  have hdot : (other ++ ".").toList = other.toList ++ ['.'] := String.toList_append
  rw [atOrBelow_iff_begins, exists_below_iff_begins, hdot]

end Text

/-- Names in order are those before a bound, followed by the others. -/
theorem filter_lt_append_filter_le {names : List String} (h : names.Pairwise (· < ·))
    (bound : String) :
    names.filter (fun name => name < bound) ++ names.filter (fun name => bound ≤ name) =
      names := by
  have hnot : (fun name => decide (bound ≤ name)) = fun name => !decide (name < bound) := by
    funext name
    rw [← decide_not, decide_eq_decide, String.not_lt]
  have hperm : List.Perm (names.filter (fun name => name < bound) ++
      names.filter (fun name => bound ≤ name)) names := by
    rw [hnot]
    exact List.filter_append_perm _ names
  -- Both sides have the same names, and both have them in order.
  refine hperm.eq_of_pairwise (fun a b _ _ hab hba => absurd hba (String.lt_asymm hab)) ?_ h
  refine List.pairwise_append.mpr ⟨h.filter _, h.filter _, ?_⟩
  intro a ha b hb
  have hlow : a < bound := of_decide_eq_true (List.mem_filter.mp ha).2
  have hhigh : bound ≤ b := of_decide_eq_true (List.mem_filter.mp hb).2
  exact Std.lt_of_lt_of_le hlow hhigh

/-- What lies between two bounds is one block of the names in order. -/
theorem filter_between_block {names : List String} (h : names.Pairwise (· < ·))
    {low high : String} (hbounds : low < high) :
    names = names.filter (fun name => name < low) ++
      names.filter (fun name => low ≤ name ∧ name < high) ++
      names.filter (fun name => high ≤ name) := by
  have hlow := filter_lt_append_filter_le h low
  have hhigh := filter_lt_append_filter_le (h.filter fun name => low ≤ name) high
  rw [List.filter_filter, List.filter_filter] at hhigh
  have hbetween : names.filter (fun name => low ≤ name ∧ name < high) =
      names.filter fun name => decide (name < high) && decide (low ≤ name) := by
    apply List.filter_congr
    intro name _
    rw [Bool.decide_and, Bool.and_comm]
  have hlast : names.filter (fun name => high ≤ name) =
      names.filter fun name => decide (high ≤ name) && decide (low ≤ name) := by
    apply List.filter_congr
    intro name _
    rw [← Bool.decide_and, decide_eq_decide]
    exact ⟨fun hname => ⟨hname, Std.le_of_lt (Std.lt_of_lt_of_le hbounds hname)⟩, And.left⟩
  rw [List.append_assoc, hbetween, hlast, hhigh, hlow]

/-- A pattern for a subtree: a root that does not end in a dot, with two dots or more behind it. -/
structure SubtreePattern where
  root : String
  dots : Nat
  root_ne : root ≠ ""
  root_end : root.toList.getLast? ≠ some '.'
  two_le_dots : 2 ≤ dots

namespace SubtreePattern
open Text

def text (p : SubtreePattern) : String := p.root ++ Text.dots p.dots

def criterion (p : SubtreePattern) : Criterion Descriptor := .resideIn p.text

theorem accepts_criterion_iff {p : SubtreePattern} {d : Descriptor} :
    p.criterion.accepts d = true ↔ ∃ below, d.name = p.root ++ "." ++ below := by
  rw [criterion, text, Criterion.accepts_resideIn,
    PackagePattern.ofText_append_dots p.root_end p.two_le_dots,
    PackagePattern.accepts_subtree_iff, or_iff_right p.root_ne,
    ← Descriptor.name_below_iff p.root_ne]

variable {p q : SubtreePattern}

theorem names_filter_criterion {r : Roster} (h : r.classes.Filed) :
    (r.filter p.criterion).names =
      r.names.filter fun name => p.root ++ "." ≤ name ∧ name < p.root ++ "/" := by
  rw [Roster.names_filter h]
  apply List.filter_congr
  intro name _
  rw [Bool.eq_iff_iff, accepts_criterion_iff, decide_eq_true_iff]
  exact exists_below_iff_between

theorem mem_names_filter_criterion_iff {r : Roster} (h : r.classes.Filed) {name : String} :
    name ∈ (r.filter p.criterion).names ↔
      name ∈ r.names ∧ ∃ below, name = p.root ++ "." ++ below := by
  rw [Roster.mem_names_filter_iff h, accepts_criterion_iff]

/-- Whatever `q` keeps of a roster, `p` keeps. -/
def Covers (p q : SubtreePattern) : Prop :=
  ∀ r, Roster.Reachable r → (r.filter q.criterion).names ⊆ (r.filter p.criterion).names

/-- Nothing that `p` keeps of a roster is kept by `q`. -/
def Excludes (p q : SubtreePattern) : Prop :=
  ∀ r, Roster.Reachable r →
    List.Disjoint (r.filter p.criterion).names (r.filter q.criterion).names

theorem Excludes.symm (h : p.Excludes q) : q.Excludes p :=
  fun r hr _ hq hp => h r hr hp hq

/-- Some roster has a class right below the root, one without a name of its own. -/
theorem exists_kept (p : SubtreePattern) :
    ∃ r, Roster.Reachable r ∧ p.root ++ "." ∈ (r.filter p.criterion).names := by
  let d : Descriptor := ⟨p.root ++ "."⟩
  have hr : Roster.Reachable (.ofIndex ⟨[(d.name, d)]⟩ "classes") :=
    .built (.ofList (rfl : Roster.ofList [d] = .ok _))
  refine ⟨_, hr, ?_⟩
  rw [mem_names_filter_criterion_iff hr.filed]
  exact ⟨List.mem_singleton_self _, "", String.append_empty.symm⟩

theorem covers_iff : p.Covers q ↔ AtOrBelow p.root q.root := by
  constructor
  · intro h
    obtain ⟨r, hr, hq⟩ := q.exists_kept
    have hp := (mem_names_filter_criterion_iff hr.filed).mp (h r hr hq)
    exact atOrBelow_iff_below.mpr hp.2
  · intro h r hr name hname
    rw [mem_names_filter_criterion_iff hr.filed] at hname ⊢
    exact ⟨hname.1, h.below hname.2⟩

theorem Covers.not_excludes (h : p.Covers q) : ¬ p.Excludes q := by
  intro hexcludes
  obtain ⟨r, hr, hq⟩ := q.exists_kept
  exact hexcludes r hr (h r hr hq) hq

theorem excludes_iff :
    p.Excludes q ↔ ¬ AtOrBelow p.root q.root ∧ ¬ AtOrBelow q.root p.root := by
  constructor
  · intro h
    refine ⟨fun hbelow => ?_, fun hbelow => ?_⟩
    · exact (covers_iff.mpr hbelow).not_excludes h
    · exact (covers_iff.mpr hbelow).not_excludes h.symm
  · intro ⟨hpq, hqp⟩ r hr name hp hq
    rw [mem_names_filter_criterion_iff hr.filed] at hp hq
    cases atOrBelow_or_of_below hp.2 hq.2 with
    | inl h => exact hpq h
    | inr h => exact hqp h

/-- What a subtree pattern selects, said in the order of the names. A name is kept if its encoding
lies between two bounds, the kept names stand together in every roster, and the blocks of two
patterns lie to each other as their roots do, whatever the roster. -/
structure SelectsBlock (p : SubtreePattern) : Prop where
  mem_iff : ∀ r, Roster.Reachable r → ∀ name, name ∈ (r.filter p.criterion).names ↔
    name ∈ r.names ∧ utf8 (p.root ++ ".") ≤ utf8 name ∧ utf8 name < utf8 (p.root ++ "/")
  names_eq : ∀ r, Roster.Reachable r →
    r.names = r.names.filter (fun name => name < p.root ++ ".") ++
      (r.filter p.criterion).names ++ r.names.filter (fun name => p.root ++ "/" ≤ name)
  contiguous : ∀ r, Roster.Reachable r → (r.filter p.criterion).descriptors <:+: r.descriptors
  covers_iff : ∀ q, p.Covers q ↔ AtOrBelow p.root q.root
  excludes_iff : ∀ q, p.Excludes q ↔ ¬ AtOrBelow p.root q.root ∧ ¬ AtOrBelow q.root p.root
  nested : ∀ q, p.Excludes q ∨ p.Covers q ∨ q.Covers p

/-- A subtree filter keeps one block of a roster, and the blocks are nested like their roots. -/
theorem selects_block (p : SubtreePattern) : p.SelectsBlock := by
  have hbounds : p.root ++ "." < p.root ++ "/" := (exists_below_iff_between.mp ⟨"", by simp⟩).2
  have hnames : ∀ r, Roster.Reachable r →
      r.names = r.names.filter (fun name => name < p.root ++ ".") ++
        (r.filter p.criterion).names ++ r.names.filter (fun name => p.root ++ "/" ≤ name) := by
    intro r hr
    rw [names_filter_criterion hr.filed]
    exact filter_between_block hr.filed.keys_pairwise hbounds
  constructor
  case mem_iff =>
    intro r hr name
    rw [mem_names_filter_criterion_iff hr.filed, exists_below_iff_between, utf8_le_iff, utf8_lt_iff]
  case names_eq => exact hnames
  case contiguous =>
    intro r hr
    have hblock : (r.filter p.criterion).names <:+: r.names := ⟨_, _, (hnames r hr).symm⟩
    rw [← Roster.map_mk_names hr.filed, ← Roster.map_mk_names (hr.filter p.criterion).filed]
    exact hblock.map Descriptor.mk
  case covers_iff => exact fun q => SubtreePattern.covers_iff
  case excludes_iff => exact fun q => SubtreePattern.excludes_iff
  case nested =>
    intro q
    by_cases hpq : AtOrBelow p.root q.root
    · exact .inr (.inl (SubtreePattern.covers_iff.mpr hpq))
    · by_cases hqp : AtOrBelow q.root p.root
      · exact .inr (.inr (SubtreePattern.covers_iff.mpr hqp))
      · exact .inl (SubtreePattern.excludes_iff.mpr ⟨hpq, hqp⟩)

theorem selects_block_among_neighbours :
    ∃ (p q s : SubtreePattern) (r : Roster),
      p.text = "p.." ∧ q.text = "p.q..." ∧ s.text = "p-q.." ∧
      Roster.ofList [⟨"pé.E"⟩, ⟨"p.q.F"⟩, ⟨"p/D"⟩, ⟨"p-q.C"⟩, ⟨"p.A"⟩, ⟨"p$B"⟩, ⟨"p"⟩] = .ok r ∧
      Roster.Reachable r ∧
      (r.filter p.criterion).names = ["p.A", "p.q.F"] ∧
      r.names = ["p", "p$B", "p-q.C"] ++ (r.filter p.criterion).names ++ ["p/D", "pé.E"] ∧
      ("p$B" ∈ (r.filter p.criterion).names ↔
        "p$B" ∈ r.names ∧ utf8 "p." ≤ utf8 "p$B" ∧ utf8 "p$B" < utf8 "p/") ∧
      p.Covers q ∧ ¬ q.Covers p ∧ p.Excludes s := by
  let p : SubtreePattern := ⟨"p", 2, by decide, by decide, by decide⟩
  let q : SubtreePattern := ⟨"p.q", 3, by decide, by decide, by decide⟩
  let s : SubtreePattern := ⟨"p-q", 2, by decide, by decide, by decide⟩
  let r : Roster := .ofIndex ⟨[("p", ⟨"p"⟩), ("p$B", ⟨"p$B"⟩), ("p-q.C", ⟨"p-q.C"⟩),
    ("p.A", ⟨"p.A"⟩), ("p.q.F", ⟨"p.q.F"⟩), ("p/D", ⟨"p/D"⟩), ("pé.E", ⟨"pé.E"⟩)]⟩ "classes"
  have hbuilt : Roster.ofList [⟨"pé.E"⟩, ⟨"p.q.F"⟩, ⟨"p/D"⟩, ⟨"p-q.C"⟩, ⟨"p.A"⟩, ⟨"p$B"⟩, ⟨"p"⟩] =
      .ok r := rfl
  have hr : Roster.Reachable r := .built (.ofList hbuilt)
  have block := selects_block p
  have hkept : (r.filter p.criterion).names = ["p.A", "p.q.F"] := by decide
  have hbefore : r.names.filter (fun name => name < p.root ++ ".") = ["p", "p$B", "p-q.C"] := by
    decide
  have hafter : r.names.filter (fun name => p.root ++ "/" ≤ name) = ["p/D", "pé.E"] := by decide
  have hnames := block.names_eq r hr
  rw [hbefore, hafter] at hnames
  refine ⟨p, q, s, r, rfl, rfl, rfl, hbuilt, hr, hkept, hnames, ?_, ?_, ?_, ?_⟩
  · exact block.mem_iff r hr "p$B"
  · exact (block.covers_iff q).mpr (.inr ⟨"q", rfl⟩)
  · rw [(selects_block q).covers_iff, atOrBelow_iff_begins]
    decide
  · rw [block.excludes_iff, atOrBelow_iff_begins, atOrBelow_iff_begins]
    decide

end SubtreePattern
end ClassRoster
