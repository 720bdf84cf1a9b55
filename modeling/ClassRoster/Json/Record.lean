import ClassRoster.Json.Basic

/-!
How records, labels and words stand in JSON. A record is an object that has each of its fields
once, in any order and among any others, or the list of its fields in their order and nothing
more. A label is its name, or an object whose only field is the name with nothing in it.
-/

namespace ClassRoster
namespace Json

/-- The values of the fields `names`, in the order of `names`. -/
def record? (names : List String) (j : Json) : Option (List Json) :=
  match j with
  | arr items => if items.length = names.length then some items else none
  | j => names.mapM j.field?

def label? : Json → Option String
  | str name => some name
  | obj [(name, null)] => some name
  | _ => none

def ofWord (w : UInt64) : Json := ofNat w.toNat

/-- An integer of 64 bits without a sign. -/
def word? : Json → Option UInt64
  | int n => if 0 ≤ n ∧ n.toNat < UInt64.size then some (UInt64.ofNat n.toNat) else none
  | _ => none

theorem word?_ofWord (w : UInt64) : (ofWord w).word? = some w := by
  have h : w.toNat < UInt64.size := w.toNat_lt
  simp [ofWord, ofNat, word?, h]

theorem record?_arr {names : List String} {items : List Json}
    (h : items.length = names.length) : record? names (arr items) = some items := by
  simp [record?, h]

end Json
end ClassRoster
