import ClassRoster.Observe.Counters

/-!
What the counters have come to. A counter is a total: the sum of what every event adds to it, cut
off at the limit. Cutting off on the way makes no difference to that, since nothing is ever taken
away, and a sum does not depend on the order of its terms. The number of rosters built is a total as
well, though it is the sum of two counters that may have been cut off each by itself.
-/

namespace ClassRoster

inductive Counter where
  | builtFromMapping
  | builtFromIterable
  | buildRejections
  | classesIndexed
  | filtersApplied
  | filtersDescribed
  | classesScanned
  | classesRetained
  | redescriptions
  | lookups
  | lookupMisses
deriving DecidableEq

namespace Counter

/-- What an event adds to a counter. -/
def share : Counter → Event → Nat
  | builtFromMapping, .built .mapping _ => 1
  | builtFromIterable, .built .iterable _ => 1
  | buildRejections, .rejected _ => 1
  | classesIndexed, .built _ classes => classes
  | filtersApplied, .filtered _ _ _ => 1
  | filtersDescribed, .filtered true _ _ => 1
  | classesScanned, .filtered _ scanned _ => scanned
  | classesRetained, .filtered _ _ retained => retained
  | redescriptions, .redescribed => 1
  | lookups, .lookup _ => 1
  | lookupMisses, .lookup false => 1
  | _, _ => 0

/-- What events add to a counter, without a limit. -/
def total (k : Counter) : List Event → Nat
  | [] => 0
  | e :: events => k.share e + k.total events

theorem total_perm (k : Counter) {events others : List Event} (h : others.Perm events) :
    k.total others = k.total events := by
  induction h with
  | nil => rfl
  | cons e _ ih => rw [total, total, ih]
  | swap e f _ => exact Nat.add_left_comm _ _ _
  | trans _ _ ih₁ ih₂ => exact ih₁.trans ih₂

end Counter

def Event.isBuilt : Event → Bool
  | .built _ _ => true
  | _ => false

/-- A roster is built from a mapping or from an iterable. -/
theorem total_built (events : List Event) :
    Counter.builtFromMapping.total events + Counter.builtFromIterable.total events =
      events.countP Event.isBuilt := by
  induction events with
  | nil => rfl
  | cons e events ih =>
      rw [Counter.total, Counter.total, List.countP_cons, ← ih]
      cases e with
      | built source classes =>
          cases source <;> simp only [Counter.share, Event.isBuilt, if_true] <;> omega
      | _ => simp [Counter.share, Event.isBuilt]

theorem toNat_le_counterLimit (a : UInt64) : a.toNat ≤ counterLimit :=
  Nat.le_pred_of_lt a.toNat_lt

theorem saturatingAdd_zero (a : UInt64) : saturatingAdd a 0 = a := by
  rw [← UInt64.toNat_inj, toNat_saturatingAdd, Nat.add_zero]
  exact Nat.min_eq_left (toNat_le_counterLimit a)

/-- What was cut off once would have been cut off in the end. -/
theorem saturatingAdd_saturatingAdd (a : UInt64) (m n : Nat) :
    saturatingAdd (saturatingAdd a m) n = saturatingAdd a (m + n) := by
  rw [← UInt64.toNat_inj, toNat_saturatingAdd, toNat_saturatingAdd, toNat_saturatingAdd]
  omega

namespace Counters

def value (c : Counters) : Counter → UInt64
  | .builtFromMapping => c.builtFromMapping
  | .builtFromIterable => c.builtFromIterable
  | .buildRejections => c.buildRejections
  | .classesIndexed => c.classesIndexed
  | .filtersApplied => c.filtersApplied
  | .filtersDescribed => c.filtersDescribed
  | .classesScanned => c.classesScanned
  | .classesRetained => c.classesRetained
  | .redescriptions => c.redescriptions
  | .lookups => c.lookups
  | .lookupMisses => c.lookupMisses

theorem ext_value {c d : Counters} (h : ∀ k, c.value k = d.value k) : c = d := by
  cases c
  cases d
  simp only [mk.injEq]
  exact ⟨h .builtFromMapping, h .builtFromIterable, h .buildRejections, h .classesIndexed,
    h .filtersApplied, h .filtersDescribed, h .classesScanned, h .classesRetained,
    h .redescriptions, h .lookups, h .lookupMisses⟩

/-- The step lemma. Every counter is moved by its share, most of them by nothing. -/
theorem value_record (c : Counters) (e : Event) (k : Counter) :
    (c.record e).value k = saturatingAdd (c.value k) (k.share e) := by
  cases e with
  | built source classes =>
      cases source <;> cases k <;> simp only [record, value, Counter.share, saturatingAdd_zero]
  | filtered described scanned retained =>
      cases described <;> cases k <;>
        simp only [record, value, Counter.share, saturatingAdd_zero, Bool.toNat_true,
          Bool.toNat_false]
  | lookup hit =>
      cases hit <;> cases k <;>
        simp only [record, value, Counter.share, saturatingAdd_zero, Bool.not_true, Bool.not_false,
          Bool.toNat_true, Bool.toNat_false]
  | rejected _ | redescribed =>
      cases k <;> simp only [record, value, Counter.share, saturatingAdd_zero]

theorem value_recordAll (c : Counters) (events : List Event) (k : Counter) :
    (c.recordAll events).value k = saturatingAdd (c.value k) (k.total events) := by
  induction events generalizing c with
  | nil => exact (saturatingAdd_zero _).symm
  | cons e events ih =>
      change ((c.record e).recordAll events).value k = _
      rw [ih, value_record, saturatingAdd_saturatingAdd, Counter.total]

theorem value_zero (k : Counter) : zero.value k = 0 := by
  cases k <;> rfl

/-- From zero on, a counter is the total of its shares. -/
theorem toNat_value_recordAll_zero (events : List Event) (k : Counter) :
    ((zero.recordAll events).value k).toNat = min (k.total events) counterLimit := by
  rw [value_recordAll, value_zero, toNat_saturatingAdd, UInt64.toNat_zero, Nat.zero_add]

theorem recordAll_perm (c : Counters) {events others : List Event} (h : others.Perm events) :
    c.recordAll others = c.recordAll events := by
  apply ext_value
  intro k
  rw [value_recordAll, value_recordAll, k.total_perm h]

theorem toNat_collectionsBuilt_recordAll (c : Counters) (events : List Event) :
    (c.recordAll events).collectionsBuilt.toNat =
      min (c.builtFromMapping.toNat + c.builtFromIterable.toNat + events.countP Event.isBuilt)
        counterLimit := by
  have hmapping := c.value_recordAll events .builtFromMapping
  have hiterable := c.value_recordAll events .builtFromIterable
  simp only [value] at hmapping hiterable
  rw [collectionsBuilt, toNat_saturatingAdd, hmapping, hiterable, toNat_saturatingAdd,
    toNat_saturatingAdd, ← total_built]
  omega

/-- Every counter is where it started plus what the events add to it, up to the limit, in whatever
order they came. -/
theorem recordAll_totals (c : Counters) (events : List Event) :
    (∀ k, ((c.recordAll events).value k).toNat =
        min ((c.value k).toNat + k.total events) counterLimit) ∧
      (∀ others, others.Perm events → c.recordAll others = c.recordAll events) ∧
      (c.recordAll events).collectionsBuilt.toNat =
        min (c.builtFromMapping.toNat + c.builtFromIterable.toNat + events.countP Event.isBuilt)
          counterLimit := by
  refine ⟨?_, fun others => c.recordAll_perm, c.toNat_collectionsBuilt_recordAll events⟩
  intro k
  rw [value_recordAll, toNat_saturatingAdd]

theorem recordAll_totals_saturated :
    let c : Counters := { zero with
      builtFromMapping := .ofNatLT counterLimit (by decide)
      classesScanned := .ofNatLT (counterLimit - 5) (by decide) }
    let events : List Event := [.built .mapping 3, .filtered true 4 4, .built .iterable 2,
      .filtered false 9 1]
    events.reverse.Perm events ∧ c.recordAll events.reverse = c.recordAll events ∧
      ((c.recordAll events).value .classesScanned).toNat = counterLimit ∧
      ((c.recordAll events).value .classesRetained).toNat = 5 ∧
      ((c.recordAll events).value .builtFromIterable).toNat = 1 ∧
      (c.recordAll events).collectionsBuilt.toNat = counterLimit := by
  intro c events
  obtain ⟨htotals, hperm, hbuilt⟩ := recordAll_totals c events
  have hreverse : events.reverse.Perm events := List.reverse_perm events
  exact ⟨hreverse, hperm _ hreverse, (htotals .classesScanned).trans (by decide),
    (htotals .classesRetained).trans (by decide), (htotals .builtFromIterable).trans (by decide),
    hbuilt.trans (by decide)⟩

end Counters
end ClassRoster
