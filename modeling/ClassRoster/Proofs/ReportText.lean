import ClassRoster.Json.Compact
import ClassRoster.Json.Token
import ClassRoster.Proofs.Congruence
import ClassRoster.Proofs.Decoding
import Mathlib.Tactic.TFAE

/-!
The text of a report tells everything that can come of the roster. A text without numbers can be
read in one way only: escaping keeps the end of a string apart from the quotes inside it, and every
kind of value begins with a character of its own. The report in turn tells the roster, since classes
are known by their names. Equal rosters may still differ in their roots, which the report shows and
a described criterion brings out.
-/

namespace ClassRoster
namespace Json

/-- A character of a string is written as itself, with a letter that stands for it, or as a code. -/
theorem stringChar_cases (c : Char) :
    (stringChar c = [c] ∧ c ≠ '"' ∧ c ≠ '\\') ∨
      (∃ letter, stringChar c = ['\\', letter] ∧ letter ≠ 'u' ∧ Token.escaped? letter = some c) ∨
      (stringChar c = controlEscape c ∧ c.toNat < 0x20) := by
  simp only [stringChar]
  split
  · exact .inr (.inl ⟨'"', rfl, by decide, rfl⟩)
  · exact .inr (.inl ⟨'\\', rfl, by decide, rfl⟩)
  · exact .inr (.inl ⟨'b', rfl, by decide, rfl⟩)
  · exact .inr (.inl ⟨'f', rfl, by decide, rfl⟩)
  · exact .inr (.inl ⟨'n', rfl, by decide, rfl⟩)
  · exact .inr (.inl ⟨'r', rfl, by decide, rfl⟩)
  · exact .inr (.inl ⟨'t', rfl, by decide, rfl⟩)
  · split
    · next h => exact .inr (.inr ⟨rfl, h⟩)
    · exact .inl ⟨rfl, by assumption, by assumption⟩

theorem digitChar_inj {m n : Nat} (hm : m < 16) (hn : n < 16)
    (h : Nat.digitChar m = Nat.digitChar n) : m = n := by
  have hvalue : ∀ k < 16, Token.hexValue? (Nat.digitChar k) = some k := by decide
  exact Option.some.inj ((hvalue m hm).symm.trans (h ▸ hvalue n hn))

theorem controlEscape_append_inj {c d : Char} (hc : c.toNat < 0x20) (hd : d.toNat < 0x20)
    {s t : List Char} (h : controlEscape c ++ s = controlEscape d ++ t) : c = d ∧ s = t := by
  simp only [controlEscape, List.cons_append, List.nil_append, List.cons.injEq, true_and] at h
  obtain ⟨hhigh, hlow, hrest⟩ := h
  have hdiv := digitChar_inj (by omega) (by omega) hhigh
  have hmod := digitChar_inj (by omega) (by omega) hlow
  have hcode : c.toNat = d.toNat := by omega
  exact ⟨Char.toNat_inj.mp hcode, hrest⟩

/-- What is written for a character tells the character and where it ends. -/
theorem stringChar_append_inj {c d : Char} {s t : List Char}
    (h : stringChar c ++ s = stringChar d ++ t) : c = d ∧ s = t := by
  obtain ⟨hc, -, hslash⟩ | ⟨letter, hc, hu, hletter⟩ | ⟨hc, hcode⟩ := stringChar_cases c
  · rw [hc] at h
    obtain ⟨hd, -, -⟩ | ⟨letter', hd, -⟩ | ⟨hd, -⟩ := stringChar_cases d
    · rw [hd] at h
      exact List.cons.inj h
    · rw [hd] at h
      exact absurd (List.cons.inj h).1 hslash
    · rw [hd] at h
      exact absurd (List.cons.inj h).1 hslash
  · rw [hc] at h
    obtain ⟨hd, -, hslash⟩ | ⟨letter', hd, -, hletter'⟩ | ⟨hd, -⟩ := stringChar_cases d
    · rw [hd] at h
      exact absurd (List.cons.inj h).1.symm hslash
    · rw [hd] at h
      obtain ⟨rfl, hrest⟩ := List.cons.inj (List.cons.inj h).2
      exact ⟨Option.some.inj (hletter.symm.trans hletter'), hrest⟩
    · rw [hd] at h
      exact absurd (List.cons.inj (List.cons.inj h).2).1 hu
  · rw [hc] at h
    obtain ⟨hd, -, hslash⟩ | ⟨letter', hd, hu, -⟩ | ⟨hd, hcode'⟩ := stringChar_cases d
    · rw [hd] at h
      exact absurd (List.cons.inj h).1.symm hslash
    · rw [hd] at h
      exact absurd (List.cons.inj (List.cons.inj h).2).1.symm hu
    · rw [hd] at h
      exact controlEscape_append_inj hcode hcode' h

/-- No character of a string is written so that the string seems to end. -/
theorem quote_ne_stringChar (c : Char) (s t : List Char) : '"' :: s ≠ stringChar c ++ t := by
  intro h
  obtain ⟨hc, hquote, -⟩ | ⟨letter, hc, -⟩ | ⟨hc, -⟩ := stringChar_cases c
  · rw [hc] at h
    exact hquote (List.cons.inj h).1.symm
  · rw [hc] at h
    exact absurd (List.cons.inj h).1 (by decide)
  · rw [hc] at h
    exact absurd (List.cons.inj h).1 (by decide)

theorem stringChars_append_inj {cs ds s t : List Char}
    (h : cs.flatMap stringChar ++ '"' :: s = ds.flatMap stringChar ++ '"' :: t) :
    cs = ds ∧ s = t := by
  induction cs generalizing ds with
  | nil =>
      cases ds with
      | nil => exact ⟨rfl, (List.cons.inj h).2⟩
      | cons d ds =>
          rw [List.flatMap_cons, List.append_assoc] at h
          exact absurd h (quote_ne_stringChar d _ _)
  | cons c cs ih =>
      cases ds with
      | nil =>
          rw [List.flatMap_cons, List.append_assoc] at h
          exact absurd h.symm (quote_ne_stringChar c _ _)
      | cons d ds =>
          rw [List.flatMap_cons, List.flatMap_cons, List.append_assoc, List.append_assoc] at h
          obtain ⟨rfl, hrest⟩ := stringChar_append_inj h
          obtain ⟨rfl, hst⟩ := ih hrest
          exact ⟨rfl, hst⟩

theorem stringText_append_inj {a b : String} {s t : List Char}
    (h : stringText a ++ s = stringText b ++ t) : a = b ∧ s = t := by
  simp only [stringText, List.cons_append, List.append_assoc, List.nil_append, List.cons.injEq,
    true_and] at h
  obtain ⟨hlist, hst⟩ := stringChars_append_inj h
  exact ⟨String.toList_inj.mp hlist, hst⟩

mutual

/-- No number stands in the value. -/
def Numberless : Json → Prop
  | null | bool _ | str _ => True
  | int _ | real _ => False
  | arr items => NumberlessItems items
  | obj fields => NumberlessFields fields

def NumberlessItems : List Json → Prop
  | [] => True
  | item :: items => item.Numberless ∧ NumberlessItems items

def NumberlessFields : List (String × Json) → Prop
  | [] => True
  | (_, value) :: fields => value.Numberless ∧ NumberlessFields fields

end

theorem numberlessItems_map_str (texts : List String) : NumberlessItems (texts.map str) := by
  induction texts with
  | nil => trivial
  | cons s texts ih => exact ⟨trivial, ih⟩

/-- The first character of the text of a value. -/
def lead : Json → Char
  | null => 'n'
  | bool b => if b then 't' else 'f'
  | int _ | real _ => '0'
  | str _ => '"'
  | arr _ => '['
  | obj _ => '\x7b'

theorem exists_text_eq_cons {j : Json} (hj : j.Numberless) : ∃ rest, text j = j.lead :: rest := by
  cases j with
  | null | str s => exact ⟨_, rfl⟩
  | bool b => cases b <;> exact ⟨_, rfl⟩
  | int n | real literal => exact hj.elim
  | arr items => cases items <;> exact ⟨_, rfl⟩
  | obj fields => cases fields <;> exact ⟨_, rfl⟩

theorem lead_eq_of_text_append_eq {j k : Json} (hj : j.Numberless) (hk : k.Numberless)
    {s t : List Char} (h : text j ++ s = text k ++ t) : j.lead = k.lead := by
  obtain ⟨rest, hrest⟩ := exists_text_eq_cons hj
  obtain ⟨rest', hrest'⟩ := exists_text_eq_cons hk
  rw [hrest, hrest'] at h
  exact (List.cons.inj h).1

theorem text_append_ne_close {j : Json} (hj : j.Numberless) (s t : List Char) :
    text j ++ s ≠ ']' :: t := by
  obtain ⟨rest, hrest⟩ := exists_text_eq_cons hj
  rw [hrest]
  intro h
  have hlead : j.lead = ']' := (List.cons.inj h).1
  cases j with
  | bool b => cases b <;> simp [lead] at hlead
  | _ => simp [lead] at hlead

theorem itemsText_append_eq {items others : List Json} (hi : NumberlessItems items)
    (ho : NumberlessItems others) {s t : List Char}
    (h : text (arr items) ++ s = text (arr others) ++ t) :
    itemsText items ++ s = itemsText others ++ t := by
  cases items with
  | nil =>
      cases others with
      | nil => exact (List.cons.inj h).2
      | cons other others =>
          simp only [text, List.cons_append, List.append_assoc, List.nil_append] at h
          exact absurd (List.cons.inj h).2.symm (text_append_ne_close ho.1 _ _)
  | cons item items =>
      cases others with
      | nil =>
          simp only [text, List.cons_append, List.append_assoc, List.nil_append] at h
          exact absurd (List.cons.inj h).2 (text_append_ne_close hi.1 _ _)
      | cons other others => exact congrArg (',' :: ·) (List.cons.inj h).2

theorem fieldsText_append_eq {fields others : List (String × Json)} {s t : List Char}
    (h : text (obj fields) ++ s = text (obj others) ++ t) :
    fieldsText fields ++ s = fieldsText others ++ t := by
  cases fields with
  | nil =>
      cases others with
      | nil => exact (List.cons.inj h).2
      | cons other others => exact absurd (List.cons.inj (List.cons.inj h).2).1 (by decide)
  | cons field fields =>
      cases others with
      | nil => exact absurd (List.cons.inj (List.cons.inj h).2).1 (by decide)
      | cons other others => exact congrArg (',' :: ·) (List.cons.inj h).2

mutual

/-- The text of a value tells the value and where it ends. A number would not do so, since more
digits could follow. -/
theorem text_append_inj {j k : Json} (hj : j.Numberless) (hk : k.Numberless) {s t : List Char}
    (h : text j ++ s = text k ++ t) : j = k ∧ s = t := by
  have hlead := lead_eq_of_text_append_eq hj hk h
  cases j with
  | null =>
      cases k with
      | null => exact ⟨rfl, List.append_cancel_left h⟩
      | _ => grind [lead]
  | bool a =>
      cases k with
      | bool b =>
          have hab : a = b := by grind [lead]
          subst hab
          exact ⟨rfl, List.append_cancel_left h⟩
      | _ => grind [lead]
  | int n | real literal => exact hj.elim
  | str a =>
      cases k with
      | str b =>
          obtain ⟨rfl, hst⟩ := stringText_append_inj h
          exact ⟨rfl, hst⟩
      | _ => grind [lead]
  | arr items =>
      cases k with
      | arr others =>
          obtain ⟨rfl, hst⟩ := itemsText_append_inj hj hk (itemsText_append_eq hj hk h)
          exact ⟨rfl, hst⟩
      | _ => grind [lead]
  | obj fields =>
      cases k with
      | obj others =>
          obtain ⟨rfl, hst⟩ := fieldsText_append_inj hj hk (fieldsText_append_eq h)
          exact ⟨rfl, hst⟩
      | _ => grind [lead]

theorem itemsText_append_inj {items others : List Json} (hi : NumberlessItems items)
    (ho : NumberlessItems others) {s t : List Char}
    (h : itemsText items ++ s = itemsText others ++ t) : items = others ∧ s = t := by
  cases items with
  | nil =>
      cases others with
      | nil => exact ⟨rfl, List.append_cancel_left h⟩
      | cons other others => exact absurd (List.cons.inj h).1 (by decide)
  | cons item items =>
      cases others with
      | nil => exact absurd (List.cons.inj h).1 (by decide)
      | cons other others =>
          simp only [itemsText, List.cons_append, List.append_assoc] at h
          obtain ⟨rfl, hrest⟩ := text_append_inj hi.1 ho.1 (List.cons.inj h).2
          obtain ⟨rfl, hst⟩ := itemsText_append_inj hi.2 ho.2 hrest
          exact ⟨rfl, hst⟩

theorem fieldsText_append_inj {fields others : List (String × Json)}
    (hf : NumberlessFields fields) (ho : NumberlessFields others) {s t : List Char}
    (h : fieldsText fields ++ s = fieldsText others ++ t) : fields = others ∧ s = t := by
  cases fields with
  | nil =>
      cases others with
      | nil => exact ⟨rfl, List.append_cancel_left h⟩
      | cons other others => exact absurd (List.cons.inj h).1 (by decide)
  | cons field fields =>
      cases others with
      | nil => exact absurd (List.cons.inj h).1 (by decide)
      | cons other others =>
          obtain ⟨name, value⟩ := field
          obtain ⟨name', value'⟩ := other
          simp only [fieldsText, List.cons_append, List.append_assoc] at h
          obtain ⟨rfl, hvalue⟩ := stringText_append_inj (List.cons.inj h).2
          obtain ⟨rfl, hrest⟩ := text_append_inj hf.1 ho.1 (List.cons.inj hvalue).2
          obtain ⟨rfl, hst⟩ := fieldsText_append_inj hf.2 ho.2 hrest
          exact ⟨rfl, hst⟩

end

theorem compact_injective {j k : Json} (hj : j.Numberless) (hk : k.Numberless)
    (h : j.compact = k.compact) : j = k := by
  have htext : text j ++ [] = text k ++ [] := congrArg (· ++ []) (String.ofList_injective h)
  exact (text_append_inj hj hk htext).1

end Json

namespace Report

theorem numberless_toJson (r : Report) : r.toJson.Numberless :=
  ⟨trivial, trivial, Json.numberlessItems_map_str r.classes, trivial⟩

theorem ofJson?_toJson (r : Report) : ofJson? r.toJson = some r :=
  ofJson?_eq_some_iff.mpr (Json.isRecord_zip rfl)

theorem compact_toJson_inj {a b : Report} :
    a.toJson.compact = b.toJson.compact ↔ a = b := by
  constructor
  · intro h
    have hjson := Json.compact_injective a.numberless_toJson b.numberless_toJson h
    exact Option.some.inj ((ofJson?_toJson a).symm.trans (hjson ▸ ofJson?_toJson b))
  · rintro rfl
    rfl

end Report

namespace Roster
open ClassRoster.Derivation

variable {a b : Roster}

/-- The texts of two reports are equal just if the reports are, just if the rosters are equal and
have the same root, and just if everything that can be derived from both is equal. -/
theorem report_text_identifies (ha : Reachable a) (hb : Reachable b) :
    List.TFAE
      [a.report.toJson.compact = b.report.toJson.compact,
        a.report = b.report,
        (a == b) = true ∧ a.root = b.root,
        ∀ steps, (a.derive steps == b.derive steps) = true] := by
  tfae_have 1 ↔ 2 := Report.compact_toJson_inj
  tfae_have 2 → 3 := by
    intro h
    obtain ⟨hdescription, hroot, hnames⟩ := Report.mk.inj h
    exact ⟨(beq_iff_of_reachable ha hb).mpr ⟨hdescription, hnames⟩, hroot⟩
  tfae_have 3 → 4 := by
    rintro ⟨hequal, hroot⟩ steps
    exact (beq_derive_iff hequal steps).mpr (.inr (.inr hroot))
  tfae_have 4 → 2 := by
    intro h
    have hequal : (a == b) = true := h []
    obtain ⟨hdescription, hnames⟩ := (beq_iff_of_reachable ha hb).mp hequal
    -- The roots are told by one described criterion.
    have hroot : a.root = b.root :=
      ((interchangeable_of_beq hequal).filter_described .always rfl).mp (h [.filter .always])
    rw [report, report, hdescription, hnames, hroot]
  tfae_finish

theorem report_text_identifies_quoted :
    ∃ a r b c, Roster.ofEntries [("a\",\"b", ⟨"a\",\"b"⟩)] "say \"[\\],\" \n" = .ok a ∧
      Roster.ofList [⟨"a\",\"b"⟩, ⟨"c"⟩] = .ok r ∧
      r.derive [.filter (.undescribed fun d => d.name != "c"), .redescribe "say \"[\\],\" \n"] = b ∧
      Roster.ofEntries [("a", ⟨"a"⟩), ("b", ⟨"b"⟩)] "say \"[\\],\" \n" = .ok c ∧
      Reachable a ∧ Reachable b ∧ Reachable c ∧
      a.report.toJson.compact = b.report.toJson.compact ∧
      (∀ steps, (a.derive steps == b.derive steps) = true) ∧
      a.report.toJson.compact ≠ c.report.toJson.compact := by
  let text := "say \"[\\],\" \n"
  let a : Roster := .ofIndex ⟨[("a\",\"b", ⟨"a\",\"b"⟩)]⟩ text
  let r : Roster := .ofIndex ⟨[("a\",\"b", ⟨"a\",\"b"⟩), ("c", ⟨"c"⟩)]⟩ "classes"
  let c : Roster := .ofIndex ⟨[("a", ⟨"a"⟩), ("b", ⟨"b"⟩)]⟩ text
  have ha : Reachable a := .built (.ofEntries
    (rfl : Roster.ofEntries [("a\",\"b", ⟨"a\",\"b"⟩)] text = .ok a))
  have hr : Reachable r := .built (.ofList
    (rfl : Roster.ofList [⟨"a\",\"b"⟩, ⟨"c"⟩] = .ok r))
  have hc : Reachable c := .built (.ofEntries
    (rfl : Roster.ofEntries [("a", ⟨"a"⟩), ("b", ⟨"b"⟩)] text = .ok c))
  have hb := (hr.filter (.undescribed fun d => d.name != "c")).redescribe text
  have hsame := report_text_identifies ha hb
  have hother := report_text_identifies ha hc
  refine ⟨a, r, _, c, rfl, rfl, rfl, rfl, ha, hb, hc, ?_, ?_, ?_⟩
  · exact (hsame.out 0 1).mpr rfl
  · exact (hsame.out 1 3).mp rfl
  · intro h
    have hreport := (hother.out 0 1).mp h
    exact absurd (congrArg Report.size hreport) (by decide)

end Roster
end ClassRoster
