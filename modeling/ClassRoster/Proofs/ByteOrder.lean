import Mathlib.Data.List.Lex

/-!
The order of strings is the order of their UTF-8 encodings. Names are compared by code point;
anyone who sees only the encoded bytes compares them in the same way. What makes it so is that
the encodings of two different characters differ at a byte of which the smaller belongs to the
smaller character, so that whatever follows them does not matter.
-/

namespace ClassRoster
namespace Text

/-- The encoding of a text in UTF-8. -/
def utf8 (s : String) : List UInt8 := s.toUTF8.data.toList

theorem utf8_eq_flatMap (s : String) : utf8 s = s.toList.flatMap String.utf8EncodeChar := by
  rw [utf8, String.toUTF8_eq_toByteArray, ← String.utf8Encode_toList, List.utf8Encode,
    List.toList_data_toByteArray]

/-- The two differ at a byte that both have, and it is smaller in the first. -/
def DivergesBelow (xs ys : List UInt8) : Prop :=
  ∃ common x y restx resty, xs = common ++ x :: restx ∧ ys = common ++ y :: resty ∧ x < y

theorem DivergesBelow.append_lt {xs ys : List UInt8} (h : DivergesBelow xs ys)
    (s t : List UInt8) : xs ++ s < ys ++ t := by
  obtain ⟨common, x, y, restx, resty, rfl, rfl, hlt⟩ := h
  simp only [List.append_assoc, List.cons_append]
  exact List.Lex.append_left _ (List.Lex.rel hlt) common

theorem DivergesBelow.head {x y : UInt8} (h : x < y) (restx resty : List UInt8) :
    DivergesBelow (x :: restx) (y :: resty) :=
  ⟨[], x, y, restx, resty, rfl, rfl, h⟩

theorem DivergesBelow.cons {xs ys : List UInt8} (h : DivergesBelow xs ys) (b : UInt8) :
    DivergesBelow (b :: xs) (b :: ys) := by
  obtain ⟨common, x, y, restx, resty, rfl, rfl, hlt⟩ := h
  exact ⟨b :: common, x, y, restx, resty, rfl, rfl, hlt⟩

theorem ofNat_lt_ofNat {a b : Nat} (h : a < b) (hb : b < 256) :
    UInt8.ofNat a < UInt8.ofNat b := by
  rw [UInt8.lt_iff_toNat_lt, UInt8.toNat_ofNat', UInt8.toNat_ofNat']
  omega

theorem DivergesBelow.head_or_cons {a b : Nat} {xs ys : List UInt8} (hab : a ≤ b) (hb : b < 256)
    (h : a = b → DivergesBelow xs ys) :
    DivergesBelow (UInt8.ofNat a :: xs) (UInt8.ofNat b :: ys) := by
  obtain hlt | rfl := Nat.lt_or_eq_of_le hab
  · exact .head (ofNat_lt_ofNat hlt hb) xs ys
  · exact (h rfl).cons _

/-- An encoding that is longer begins with a greater byte; of two that are equally long the bytes
are the digits of the code points, the most significant ones first. -/
theorem utf8EncodeChar_divergesBelow {c d : Char} (h : c < d) :
    DivergesBelow (String.utf8EncodeChar c) (String.utf8EncodeChar d) := by
  have hlt : c.val.toNat < d.val.toNat := h
  have hd : d.val.toNat < 0x110000 := by
    obtain h | h := d.valid <;> omega
  simp only [String.utf8EncodeChar]
  generalize c.val.toNat = v at *
  generalize d.val.toNat = w at *
  have longer {a b : Nat} (hab : a < b) (hb : b < 256) (xs ys : List UInt8) :
      DivergesBelow (UInt8.ofNat a :: xs) (UInt8.ofNat b :: ys) :=
    .head (ofNat_lt_ofNat hab hb) xs ys
  split
  · split
    · exact longer (by omega) (by omega) _ _
    · split
      · exact longer (by omega) (by omega) _ _
      · split <;> exact longer (by omega) (by omega) _ _
  · have : ¬ w ≤ 0x7f := by omega
    simp only [this, if_false]
    split
    · split
      · exact .head_or_cons (by omega) (by omega) fun h1 => longer (by omega) (by omega) _ _
      · split <;> exact longer (by omega) (by omega) _ _
    · have : ¬ w ≤ 0x7ff := by omega
      simp only [this, if_false]
      split
      · split
        · exact .head_or_cons (by omega) (by omega) fun h1 =>
            .head_or_cons (by omega) (by omega) fun h2 => longer (by omega) (by omega) _ _
        · exact longer (by omega) (by omega) _ _
      · have : ¬ w ≤ 0xffff := by omega
        simp only [this, if_false]
        exact .head_or_cons (by omega) (by omega) fun h1 =>
          .head_or_cons (by omega) (by omega) fun h2 =>
          .head_or_cons (by omega) (by omega) fun h3 => longer (by omega) (by omega) _ _

theorem utf8_lt_of_lt {a b : String} (h : a < b) : utf8 a < utf8 b := by
  have hlist : a.toList < b.toList := h
  rw [utf8_eq_flatMap, utf8_eq_flatMap]
  generalize a.toList = cs at hlist
  generalize b.toList = ds at hlist
  induction hlist with
  | @nil d ds =>
      have hne : String.utf8EncodeChar d ≠ [] := String.utf8EncodeChar_ne_nil
      obtain ⟨byte, bytes, hbytes⟩ := List.exists_cons_of_ne_nil hne
      rw [List.flatMap_nil, List.flatMap_cons, hbytes]
      exact .nil
  | @cons c cs ds _ ih =>
      rw [List.flatMap_cons, List.flatMap_cons]
      exact List.Lex.append_left _ ih _
  | @rel c cs d ds hcd =>
      rw [List.flatMap_cons, List.flatMap_cons]
      exact (utf8EncodeChar_divergesBelow hcd).append_lt _ _

/-- Strings are ordered as their encodings are. -/
theorem utf8_lt_iff {a b : String} : utf8 a < utf8 b ↔ a < b := by
  refine ⟨fun h => ?_, utf8_lt_of_lt⟩
  obtain hlt | rfl | hgt := Std.lt_trichotomy a b
  · exact hlt
  · exact absurd h (List.lt_irrefl _)
  · exact absurd (utf8_lt_of_lt hgt) (List.lt_asymm h)

theorem utf8_le_iff {a b : String} : utf8 a ≤ utf8 b ↔ a ≤ b :=
  not_congr utf8_lt_iff

end Text
end ClassRoster
