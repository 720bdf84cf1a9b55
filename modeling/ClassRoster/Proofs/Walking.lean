import ClassRoster.Proofs.Reachable

/-!
Walks from both ends. At every moment of a walk the classes are in three stretches: those that the
front has yielded, those that are left, and those that the back has yielded, last one first. A call
moves at most one class from the middle to one of the ends. What is answered can therefore be told
from how many classes each end has yielded, and from nothing else.
-/

namespace ClassRoster
namespace Cursor

/-- The classes that one end has yielded, given the calls and answers so far. -/
def yielded (side : Call) (past : List (Call × Answer)) : List Descriptor :=
  past.filterMap fun
    | (k, .found (some d)) => if k = side then some d else none
    | _ => none

/-- What a call answers when the front has yielded `i` of the classes and the back `j`. -/
def answerAt (ds : List Descriptor) (i j : Nat) : Call → Answer
  | .next => .found (if i + j < ds.length then ds[i]? else none)
  | .back => .found (if i + j < ds.length then ds[ds.length - 1 - j]? else none)
  | .size => .count (ds.length - i - j)
  | .bounds => .range (ds.length - i - j) (some (ds.length - i - j))
  | .rest => .classes ((ds.drop i).take (ds.length - i - j))

variable {c : Cursor} {k : Call} {ds front back : List Descriptor}

theorem yielded_append (side : Call) (past recent : List (Call × Answer)) :
    yielded side (past ++ recent) = yielded side past ++ yielded side recent :=
  List.filterMap_append

theorem length_run (c : Cursor) (calls : List Call) : (c.run calls).length = calls.length := by
  induction calls generalizing c with
  | nil => rfl
  | cons k calls ih => rw [run, List.length_cons, List.length_cons, ih]

/-- The step lemma. A class that an end yields is the one next to that end. -/
theorem remaining_call (c : Cursor) (k : Call) :
    yielded .next [(k, (c.call k).1)] ++ (c.call k).2.remaining ++
      (yielded .back [(k, (c.call k).1)]).reverse = c.remaining := by
  obtain ⟨remaining⟩ := c
  cases k with
  | next => cases remaining <;> simp [call, Cursor.next, yielded]
  | back =>
      obtain rfl | ⟨others, d, rfl⟩ := List.eq_nil_or_concat remaining
      · rfl
      · simp [call, Cursor.back, yielded]
  | size | bounds | rest => simp [call, yielded]

/-- The run lemma. After some calls the others are made on a cursor that has what is left. -/
theorem exists_moment {calls : List Call} {past rest : List (Call × Answer)}
    (h : calls.zip (c.run calls) = past ++ rest) :
    ∃ (moment : Cursor) (others : List Call), rest = others.zip (moment.run others) ∧
      yielded .next past ++ moment.remaining ++ (yielded .back past).reverse = c.remaining := by
  induction past generalizing c calls with
  | nil => exact ⟨c, calls, h.symm, List.append_nil _⟩
  | cons first past ih =>
      cases calls with
      | nil => cases h
      | cons k calls =>
          rw [run, List.zip_cons_cons, List.cons_append, List.cons.injEq] at h
          obtain ⟨rfl, h⟩ := h
          obtain ⟨moment, others, hrest, hmoment⟩ := ih h
          refine ⟨moment, others, hrest, ?_⟩
          rw [← remaining_call c k, ← hmoment, ← List.singleton_append, yielded_append,
            yielded_append]
          simp only [List.reverse_append, List.append_assoc]

theorem call_eq_answerAt (h : front ++ c.remaining ++ back.reverse = ds) (k : Call) :
    (c.call k).1 = answerAt ds front.length back.length k := by
  obtain ⟨remaining⟩ := c
  have hlength : ds.length = front.length + remaining.length + back.length := by
    rw [← h, List.length_append, List.length_append, List.length_reverse]
  have hleft : ds.length - front.length - back.length = remaining.length := by omega
  cases k with
  | size | bounds => simp only [call, bounds, size, answerAt, hleft]
  | rest =>
      have hmiddle : (ds.drop front.length).take remaining.length = remaining := by
        rw [← h, List.append_assoc, List.drop_left, List.take_left]
      simp only [call, answerAt, hleft, hmiddle]
  | next =>
      cases remaining with
      | nil =>
          have hend : ¬ front.length + back.length < ds.length := by
            rw [hlength, List.length_nil]
            omega
          simp only [call, Cursor.next, answerAt, if_neg hend, List.head?_nil]
      | cons d others =>
          have hmore : front.length + back.length < ds.length := by
            rw [hlength, List.length_cons]
            omega
          have hget : ds[front.length]? = some d := by
            rw [← h, List.append_assoc, List.getElem?_append_right (Nat.le_refl _), Nat.sub_self]
            rfl
          simp only [call, Cursor.next, answerAt, if_pos hmore, hget, List.head?_cons]
  | back =>
      obtain rfl | ⟨others, d, rfl⟩ := List.eq_nil_or_concat remaining
      · have hend : ¬ front.length + back.length < ds.length := by
          rw [hlength, List.length_nil]
          omega
        simp only [call, Cursor.back, answerAt, if_neg hend, List.getLast?_nil]
      · rw [List.concat_eq_append] at h hlength ⊢
        rw [List.length_append, List.length_singleton] at hlength
        have hmore : front.length + back.length < ds.length := by omega
        have hindex : ds.length - 1 - back.length = (front ++ others).length := by
          rw [List.length_append]
          omega
        have hget : ds[ds.length - 1 - back.length]? = some d := by
          rw [hindex, ← h, ← List.append_assoc front, List.append_assoc (front ++ others),
            List.getElem?_append_right (Nat.le_refl _), Nat.sub_self]
          rfl
        simp only [call, Cursor.back, answerAt, if_pos hmore, hget, List.getLast?_concat]

theorem eq_none_iff_of_answerAt_eq {i j : Nat} {d? : Option Descriptor}
    (h : answerAt ds i j k = .found d?) : d? = none ↔ ds.length ≤ i + j := by
  cases k with
  | size | bounds | rest => cases h
  | next | back =>
      cases h
      split
      next hmore =>
        refine iff_of_false ?_ (Nat.not_le.mpr hmore)
        exact List.getElem?_eq_none_iff.not.mpr (by omega)
      next hend => exact iff_of_true rfl (Nat.not_lt.mp hend)

/-- What is so at every moment of a walk over `ds`. The log has the calls with their answers, `past`
is what it had at the moment, and the number of classes that an end has yielded is read off it. -/
structure Walks (ds : List Descriptor) (log : List (Call × Answer)) : Prop where
  bounded : ∀ past rest, log = past ++ rest →
    (yielded .next past).length + (yielded .back past).length ≤ ds.length
  answers : ∀ past k a rest, log = past ++ (k, a) :: rest →
    a = answerAt ds (yielded .next past).length (yielded .back past).length k
  exhausted : ∀ past k rest, log = past ++ (k, .found none) :: rest →
    ∀ side d?, (side, .found d?) ∈ rest → d? = none
  distinct : (yielded .next log ++ yielded .back log).Nodup
  ended : ∀ k, (k, .found none) ∈ log →
    (yielded .next log).length + (yielded .back log).length = ds.length
  complete : (yielded .next log).length + (yielded .back log).length = ds.length →
    yielded .next log ++ (yielded .back log).reverse = ds

section
variable {calls : List Call} {past rest : List (Call × Answer)} {a : Answer}

theorem length_yielded_le (h : calls.zip (c.run calls) = past ++ rest) :
    (yielded .next past).length + (yielded .back past).length ≤ c.remaining.length := by
  obtain ⟨moment, others, -, hmoment⟩ := exists_moment h
  rw [← hmoment]
  simp only [List.length_append, List.length_reverse]
  omega

theorem eq_answerAt_of_zip_run (h : calls.zip (c.run calls) = past ++ (k, a) :: rest) :
    a = answerAt c.remaining (yielded .next past).length (yielded .back past).length k := by
  obtain ⟨moment, others, hrest, hmoment⟩ := exists_moment h
  cases others with
  | nil => cases hrest
  | cons other others =>
      cases hrest
      exact call_eq_answerAt hmoment k

/-- When an end finds nothing, all classes have been yielded, and the numbers cannot change. -/
theorem length_yielded_of_found_none {recent later : List (Call × Answer)}
    (h : calls.zip (c.run calls) = past ++ (k, .found none) :: recent ++ later) :
    (yielded .next (past ++ (k, .found none) :: recent)).length +
      (yielded .back (past ++ (k, .found none) :: recent)).length = c.remaining.length := by
  have hle := length_yielded_le h
  rw [List.append_assoc, List.cons_append] at h
  have hend := (eq_none_iff_of_answerAt_eq (eq_answerAt_of_zip_run h).symm).mp rfl
  simp only [yielded_append, List.length_append] at hle ⊢
  omega

theorem walks_zip_run (hnodup : c.remaining.Nodup) (calls : List Call) :
    Walks c.remaining (calls.zip (c.run calls)) := by
  have hlog := (List.append_nil (calls.zip (c.run calls))).symm
  obtain ⟨last, others, -, hlast⟩ := exists_moment hlog
  constructor
  case bounded => exact fun past rest => length_yielded_le
  case answers => exact fun past k a rest => eq_answerAt_of_zip_run
  case exhausted =>
    intro past k rest h side d? hmem
    obtain ⟨recent, later, rfl⟩ := List.append_of_mem hmem
    rw [← List.cons_append, ← List.append_assoc] at h
    refine (eq_none_iff_of_answerAt_eq (eq_answerAt_of_zip_run h).symm).mpr ?_
    exact Nat.le_of_eq (length_yielded_of_found_none h).symm
  case distinct =>
    have hends : (yielded .next (calls.zip (c.run calls)) ++
        (yielded .back (calls.zip (c.run calls))).reverse).Sublist c.remaining := by
      rw [← hlast]
      exact (List.sublist_append_left _ _).append_right _
    have hperm := (List.reverse_perm (yielded .back (calls.zip (c.run calls)))).append_left
      (yielded .next (calls.zip (c.run calls)))
    exact hperm.nodup_iff.mp (hnodup.sublist hends)
  case ended =>
    intro k hmem
    obtain ⟨past, recent, h⟩ := List.append_of_mem hmem
    rw [h] at hlog ⊢
    exact length_yielded_of_found_none (h.trans hlog)
  case complete =>
    intro hlength
    have hnone : last.remaining = [] := by
      have hwhole := congrArg List.length hlast
      simp only [List.length_append, List.length_reverse] at hwhole
      exact List.length_eq_zero_iff.mp (by omega)
    rw [hnone, List.append_nil] at hlast
    exact hlast

end
end Cursor

namespace Roster

variable {r : Roster}

/-- A walk over a roster goes through its classes in the order of their names, from both ends at
once, however the calls are mixed. -/
theorem cursor_walks (h : Reachable r) (calls : List Cursor.Call) :
    r.descriptors.Pairwise (fun a b => Text.utf8 a.name < Text.utf8 b.name) ∧
      r.descriptors.map Descriptor.name = r.names ∧
      (r.cursor.run calls).length = calls.length ∧
      Cursor.Walks r.descriptors (calls.zip (r.cursor.run calls)) := by
  have hsorted := h.filed.values_pairwise
  refine ⟨hsorted.imp Text.utf8_lt_of_lt, map_name_descriptors h.filed, ?_, ?_⟩
  · exact r.cursor.length_run calls
  · exact r.cursor.walks_zip_run (nodup_descriptors h.filed) calls

theorem cursor_walks_meeting :
    ∃ r, Roster.ofList [⟨"c.Z"⟩, ⟨"a.X"⟩, ⟨"é"⟩] = .ok r ∧ Reachable r ∧
      let calls : List Cursor.Call := [.next, .back, .bounds, .rest, .back, .next, .size, .back]
      let log := calls.zip (r.cursor.run calls)
      log.map Prod.snd = [.found (some ⟨"a.X"⟩), .found (some ⟨"é"⟩), .range 1 (some 1),
        .classes [⟨"c.Z"⟩], .found (some ⟨"c.Z"⟩), .found none, .count 0, .found none] ∧
      (.next, .found none) ∈ log ∧ (Cursor.yielded .next log ++ Cursor.yielded .back log).Nodup ∧
      Cursor.yielded .next log ++ (Cursor.yielded .back log).reverse =
        [⟨"a.X"⟩, ⟨"c.Z"⟩, ⟨"é"⟩] := by
  let r : Roster := .ofIndex ⟨[("a.X", ⟨"a.X"⟩), ("c.Z", ⟨"c.Z"⟩), ("é", ⟨"é"⟩)]⟩ "classes"
  have hr : Reachable r :=
    .built (.ofList (rfl : Roster.ofList [⟨"c.Z"⟩, ⟨"a.X"⟩, ⟨"é"⟩] = .ok r))
  refine ⟨r, rfl, hr, ?_⟩
  intro calls log
  obtain ⟨-, -, -, walks⟩ := cursor_walks hr calls
  have hnone : (.next, .found none) ∈ log := by decide
  exact ⟨rfl, hnone, walks.distinct, walks.complete (walks.ended .next hnone)⟩

end Roster
end ClassRoster
