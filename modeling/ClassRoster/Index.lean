/-!
A finite map from names to values, kept as a list of entries in the order of the names. The
order is that of code points. `Ordered` is what insertion and filtering keep; insertion is a
single pass that replaces on a hit, so that its look-up laws need no `Ordered`.
-/

namespace ClassRoster

structure Index (α : Type) where
  entries : List (String × α)
deriving DecidableEq, Repr

namespace Index

variable {α : Type}

def empty : Index α := ⟨[]⟩

def size (i : Index α) : Nat := i.entries.length

def isEmpty (i : Index α) : Bool := i.entries.isEmpty

def keys (i : Index α) : List String := i.entries.map Prod.fst

def values (i : Index α) : List α := i.entries.map Prod.snd

def find? (i : Index α) (key : String) : Option α := i.entries.lookup key

def contains (i : Index α) (key : String) : Bool := (i.find? key).isSome

def filter (i : Index α) (keep : α → Bool) : Index α := ⟨i.entries.filter fun e => keep e.2⟩

/-- Puts an entry at its place, over the one of the same name if there is one. -/
def place (key : String) (value : α) : List (String × α) → List (String × α)
  | [] => [(key, value)]
  | e :: rest =>
      if key < e.1 then (key, value) :: e :: rest
      else if key = e.1 then (key, value) :: rest
      else e :: place key value rest

def insert (i : Index α) (key : String) (value : α) : Index α := ⟨place key value i.entries⟩

/-- Inserts under a name that is not taken. -/
def insertNew? (i : Index α) (key : String) (value : α) : Option (Index α) :=
  if i.contains key then none else some (i.insert key value)

/-- The names increase strictly along the entries. -/
def Ordered (i : Index α) : Prop := i.entries.Pairwise fun a b => a.1 < b.1

theorem ordered_empty : (empty : Index α).Ordered := .nil

theorem mem_place {key : String} {value : α} {entries : List (String × α)} {e : String × α}
    (h : e ∈ place key value entries) : e = (key, value) ∨ e ∈ entries := by
  induction entries with
  | nil => simpa [place] using h
  | cons head rest ih => grind [place]

theorem ordered_insert {i : Index α} (h : i.Ordered) (key : String) (value : α) :
    (i.insert key value).Ordered := by
  obtain ⟨entries⟩ := i
  simp only [Ordered, insert] at h ⊢
  induction entries with
  | nil => simp [place]
  | cons head rest ih =>
      obtain ⟨hhead, hrest⟩ := List.pairwise_cons.mp h
      simp only [place]
      split
      · next hlt =>
          refine List.pairwise_cons.mpr ⟨fun e he => ?_, h⟩
          cases he with
          | head => exact hlt
          | tail _ he => exact String.lt_trans hlt (hhead e he)
      · next hge =>
          split
          · next heq => subst heq; exact List.pairwise_cons.mpr ⟨hhead, hrest⟩
          · next hne =>
              refine List.pairwise_cons.mpr ⟨fun e he => ?_, ih hrest⟩
              obtain rfl | he := mem_place he
              · exact (Std.lt_trichotomy head.1 key).resolve_right
                  fun h => h.elim (fun h => hne h.symm) hge
              · exact hhead e he

theorem ordered_filter {i : Index α} (h : i.Ordered) (keep : α → Bool) :
    (i.filter keep).Ordered :=
  List.Pairwise.filter _ h

theorem filter_filter (i : Index α) (p q : α → Bool) :
    (i.filter p).filter q = i.filter fun a => p a && q a := by
  simp only [filter, List.filter_filter, Bool.and_comm]

theorem find?_insert_self (i : Index α) (key : String) (value : α) :
    (i.insert key value).find? key = some value := by
  obtain ⟨entries⟩ := i
  simp only [find?, insert]
  induction entries with
  | nil => simp [place]
  | cons head rest ih =>
      obtain ⟨name, old⟩ := head
      simp only [place]
      split
      · simp
      · split
        · simp
        · next hne => simp [List.lookup_cons, beq_false_of_ne hne, ih]

theorem find?_insert_of_ne (i : Index α) {key other : String} (value : α) (h : other ≠ key) :
    (i.insert key value).find? other = i.find? other := by
  obtain ⟨entries⟩ := i
  simp only [find?, insert]
  induction entries with
  | nil => simp [place, List.lookup_cons, beq_false_of_ne h]
  | cons head rest ih =>
      obtain ⟨name, old⟩ := head
      simp only [place]
      split
      · simp [List.lookup_cons, beq_false_of_ne h]
      · split
        · next heq => subst heq; simp [List.lookup_cons, beq_false_of_ne h]
        · simp [List.lookup_cons, ih]

theorem contains_iff_mem_keys {i : Index α} {key : String} :
    i.contains key = true ↔ key ∈ i.keys := by
  obtain ⟨entries⟩ := i
  simp only [contains, find?, keys]
  induction entries with
  | nil => simp
  | cons head rest ih =>
      obtain ⟨name, old⟩ := head
      by_cases h : key = name
      · simp [h]
      · simp [List.lookup_cons, beq_false_of_ne h, ih, h]

end Index
end ClassRoster
