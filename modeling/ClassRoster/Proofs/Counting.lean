import ClassRoster.Codec
import ClassRoster.Proofs.Routing
import Mathlib.Data.List.Forall2

/-!
Counters that belong together. A miss is a look-up, a described filter is a filter, and what a
filter retains it has scanned. Each of two such counters stops at the limit by itself; adding up to
a limit keeps the order of what is added, so that the greater of the two stays the greater one. Only
what a filter reports about sizes is not a matter of the counters.
-/

namespace ClassRoster

theorem saturatingAdd_le_saturatingAdd {a b : UInt64} {m n : Nat} (hab : a ≤ b) (hmn : m ≤ n) :
    saturatingAdd a m ≤ saturatingAdd b n := by
  have hab : a.toNat ≤ b.toNat := hab
  rw [UInt64.le_iff_toNat_le, toNat_saturatingAdd, toNat_saturatingAdd]
  omega

theorem le_saturatingAdd (a : UInt64) (n : Nat) : a ≤ saturatingAdd a n := by
  have hlt : a.toNat < UInt64.size := a.toNat_lt
  rw [UInt64.le_iff_toNat_le, toNat_saturatingAdd, counterLimit]
  omega

theorem saturatingAdd_eq_zero_iff {a : UInt64} {n : Nat} :
    saturatingAdd a n = 0 ↔ a = 0 ∧ n = 0 := by
  have hlimit : 0 < counterLimit := by decide
  rw [← UInt64.toNat_inj, ← UInt64.toNat_inj, toNat_saturatingAdd, UInt64.toNat_zero]
  omega

/-- A filter retains no more than it scans. -/
def Event.Sound : Event → Prop
  | .filtered _ scanned retained => retained ≤ scanned
  | _ => True

namespace Counters

structure Consistent (c : Counters) : Prop where
  misses : c.lookupMisses ≤ c.lookups
  described : c.filtersDescribed ≤ c.filtersApplied
  retained : c.classesRetained ≤ c.classesScanned
  scanned : c.filtersApplied = 0 → c.classesScanned = 0
  indexed : c.collectionsBuilt = 0 → c.classesIndexed = 0

/-- No counter of the first is greater than that of the second. -/
instance : LE Counters := ⟨fun c d => List.Forall₂ (· ≤ ·) c.words d.words⟩

theorem consistent_zero : zero.Consistent := by
  constructor <;> simp [zero]

theorem collectionsBuilt_eq_zero_iff {c : Counters} :
    c.collectionsBuilt = 0 ↔ c.builtFromMapping = 0 ∧ c.builtFromIterable = 0 := by
  rw [collectionsBuilt, saturatingAdd_eq_zero_iff, ← UInt64.toNat_inj (a := c.builtFromIterable),
    UInt64.toNat_zero]

/-- The step lemma. A counter that is moved with another one is moved at least as far as that. -/
theorem Consistent.record {c : Counters} (h : c.Consistent) {e : Event} (he : e.Sound) :
    (c.record e).Consistent := by
  cases e with
  | built source classes =>
      have hbuilt : (c.record (.built source classes)).collectionsBuilt ≠ 0 := by
        rw [Ne, collectionsBuilt_eq_zero_iff]
        cases source <;> simp [Counters.record, saturatingAdd_eq_zero_iff]
      cases source with
      | mapping => exact ⟨h.misses, h.described, h.retained, h.scanned, fun h0 => absurd h0 hbuilt⟩
      | iterable => exact ⟨h.misses, h.described, h.retained, h.scanned, fun h0 => absurd h0 hbuilt⟩
  | filtered described scanned retained =>
      refine ⟨h.misses, ?_, ?_, ?_, h.indexed⟩
      · exact saturatingAdd_le_saturatingAdd h.described (Bool.toNat_le described)
      · exact saturatingAdd_le_saturatingAdd h.retained he
      · intro happlied
        exact absurd (saturatingAdd_eq_zero_iff.mp happlied).2 Nat.one_ne_zero
  | lookup hit =>
      refine ⟨?_, h.described, h.retained, h.scanned, h.indexed⟩
      exact saturatingAdd_le_saturatingAdd h.misses (Bool.toNat_le _)
  | rejected _ | redescribed => exact ⟨h.misses, h.described, h.retained, h.scanned, h.indexed⟩

theorem Consistent.recordAll {c : Counters} (h : c.Consistent) {events : List Event}
    (hsound : ∀ e ∈ events, e.Sound) : (c.recordAll events).Consistent := by
  apply List.foldlRecOn (motive := Consistent)
  · exact h
  · intro c' ih e he
    exact ih.record (hsound e he)

theorem recordAll_append (c : Counters) (before after : List Event) :
    c.recordAll (before ++ after) = (c.recordAll before).recordAll after :=
  List.foldl_append

theorem le_refl (c : Counters) : c ≤ c := List.forall₂_same.mpr fun _ _ => UInt64.le_refl _

theorem le_trans {a b c : Counters} (hab : a ≤ b) (hbc : b ≤ c) : a ≤ c := by
  have hlength : a.words.length = c.words.length := rfl
  refine List.forall₂_iff_get.mpr ⟨hlength, fun i ha hc => ?_⟩
  exact UInt64.le_trans (List.Forall₂.get hab ha ha) (List.Forall₂.get hbc ha hc)

theorem le_record (c : Counters) (e : Event) : c ≤ c.record e := by
  change List.Forall₂ (· ≤ ·) c.words (c.record e).words
  cases e with
  | built source classes =>
      cases source <;> simp [Counters.record, words, le_saturatingAdd]
  | _ => simp [Counters.record, words, le_saturatingAdd]

theorem le_recordAll (c : Counters) (events : List Event) : c ≤ c.recordAll events := by
  apply List.foldlRecOn (motive := fun c' => c ≤ c')
  · exact c.le_refl
  · intro c' ih e _
    exact le_trans ih (c'.le_record e)

end Counters

theorem Index.size_filter_le {α : Type} (i : Index α) (keep : α → Bool) :
    (i.filter keep).size ≤ i.size :=
  List.length_filter_le _ _

namespace Outcome

theorem sound_putBuilt (rosters : Index Roster) (target : String) (source : Source)
    (result : Except RosterError Roster) :
    ∀ e ∈ (putBuilt rosters target (.build source result)).events, e.Sound := by
  intro e he
  cases result with
  | ok r => cases List.mem_singleton.mp he; trivial
  | error cause => cases List.mem_singleton.mp he; trivial

/-- Two sizes are told only by a filter, and they are those of a roster and of a part of it. -/
theorem sound_act (rosters : Index Roster) (r : Roster) (action : Action) :
    ∀ e ∈ (act rosters r action).events, e.Sound := by
  intro e he
  cases action with
  | filter target c =>
      cases List.mem_singleton.mp he
      exact r.classes.size_filter_le c.accepts
  | redescribe target description => cases List.mem_singleton.mp he; trivial
  | rebuild target => exact sound_putBuilt rosters target .iterable _ e he
  | getToken t => cases List.mem_singleton.mp he; trivial
  | get name => cases List.mem_singleton.mp he; trivial
  | _ => exact absurd he List.not_mem_nil

theorem sound_actOn (rosters : Index Roster) (source : String) (action : Action) :
    ∀ e ∈ (actOn rosters source action).events, e.Sound := by
  simp only [actOn]
  split
  · exact sound_act rosters _ action
  · exact fun e he => absurd he List.not_mem_nil

end Outcome

namespace History

theorem event_mem_of_mem_counted {past : List Signal} {e : Event} (h : e ∈ counted past) :
    .event e ∈ past := by
  induction past with
  | nil => exact absurd h List.not_mem_nil
  | cons signal past ih =>
      cases signal with
      | event latest =>
          simp only [counted] at h
          split at h
          · obtain hmem | hlast := List.mem_append.mp h
            · exact List.mem_cons_of_mem _ (ih hmem)
            · rw [List.mem_singleton.mp hlast]
              exact List.mem_cons_self
          · exact List.mem_cons_of_mem _ (ih h)
      | reset => exact absurd h List.not_mem_nil
      | read | opened _ | closed _ => exact List.mem_cons_of_mem _ (ih h)

/-- Without a reset the counted events only get more. -/
theorem exists_counted_append {recent : List Signal} (hreset : .reset ∉ recent)
    (past : List Signal) : ∃ more, counted (recent ++ past) = counted past ++ more := by
  induction recent with
  | nil => exact ⟨[], (List.append_nil _).symm⟩
  | cons signal recent ih =>
      obtain ⟨more, hmore⟩ := ih fun h => hreset (List.mem_cons_of_mem _ h)
      cases signal with
      | event e =>
          rw [List.cons_append, counted, hmore]
          split
          · exact ⟨more ++ [e], List.append_assoc _ _ _⟩
          · exact ⟨more, rfl⟩
      | reset => exact absurd List.mem_cons_self hreset
      | read | opened _ | closed _ => exact ⟨more, hmore⟩

end History

namespace Chronicle

def Sound (c : Chronicle) : Prop := ∀ e, .event e ∈ c.past → e.Sound

theorem Sound.mark {c : Chronicle} (h : c.Sound) (signal : Signal)
    (hsignal : ∀ e, signal = .event e → e.Sound) : (c.mark signal).Sound := by
  intro e he
  obtain hlatest | hmem := List.mem_cons.mp he
  · exact hsignal e hlatest.symm
  · exact h e hmem

theorem Sound.conclude {c : Chronicle} (h : c.Sound) {o : Outcome}
    (ho : ∀ e ∈ o.events, e.Sound) : (c.conclude o).Sound := by
  apply List.foldlRecOn (motive := Sound)
  · exact h
  · intro c' ih e he
    apply ih.mark (.event e)
    rintro _ ⟨⟩
    exact ho e he

mutual

theorem Sound.step {c : Chronicle} (h : c.Sound) : (step : Step) → (c.step step).Sound
  | .build target _ => h.conclude (Outcome.sound_putBuilt c.rosters target .iterable _)
  | .buildKeyed target _ _ => h.conclude (Outcome.sound_putBuilt c.rosters target .mapping _)
  | .act source action => h.conclude (Outcome.sound_actOn c.rosters source action)
  | .counters => h.mark .read nofun
  | .reset => h.mark .reset nofun
  | .withSink number body panics =>
      (Sound.stepAll (h.mark (.opened number) nofun) body).mark (.closed panics) nofun
  | .withJournal body => Sound.stepAll h body
  | .malformed => h

theorem Sound.stepAll {c : Chronicle} (h : c.Sound) : (steps : List Step) → (c.stepAll steps).Sound
  | [] => h
  | step :: steps => Sound.stepAll (h.step step) steps

end

theorem sound_start : start.Sound := fun _ h => absurd h List.not_mem_nil

end Chronicle

theorem Passes.last (s : Session) (c : Chronicle) (steps : List Step) :
    Passes s c steps (s.runAll steps).2 (c.stepAll steps) := by
  induction steps generalizing s c with
  | nil => exact .now
  | cons step steps ih => exact .after (ih (s.run step).2 (c.step step))

/-- After every run, and at every moment on the way, the counters belong together. They are no
smaller than at any moment before, back to the last reset. -/
theorem counters_consistent (steps : List Step) :
    (Session.start.runAll steps).2.metrics.counters.Consistent ∧
      ∀ s c, Passes .start .start steps s c →
        s.metrics.counters.Consistent ∧
        ∀ s' c' recent, Passes .start .start steps s' c' → c'.past = recent ++ c.past →
          .reset ∉ recent → s.metrics.counters ≤ s'.metrics.counters := by
  have hmoment {s : Session} {c : Chronicle} (h : Passes .start .start steps s c) :
      s.metrics.counters.Consistent := by
    rw [(h.follows .start).counters]
    -- What is counted here is among the events of the whole run, and those are sound.
    refine Counters.consistent_zero.recordAll fun e he => ?_
    have hmem := h.past_suffix.subset (History.event_mem_of_mem_counted he)
    exact Chronicle.sound_start.stepAll steps e hmem
  refine ⟨hmoment (.last .start .start steps), fun s c h => ⟨hmoment h, ?_⟩⟩
  intro s' c' recent h' hpast hreset
  obtain ⟨more, hmore⟩ := History.exists_counted_append hreset c.past
  rw [(h'.follows .start).counters, hpast, hmore, Counters.recordAll_append,
    ← (h.follows .start).counters]
  exact Counters.le_recordAll _ more

theorem counters_consistent_across_block :
    let steps : List Step := [.build "a" ["p.A", "p.B"], .reset,
      .act "a" (.filter "b" .never), .withSink 0 [.act "b" (.get "p.A")] true,
      .act "b" (.get "p.A")]
    let recent : List Signal := [.event (.lookup false), .closed true, .event (.lookup false),
      .opened 0]
    ∃ s c s' c', Passes .start .start steps s c ∧ Passes .start .start steps s' c' ∧
      .reset ∈ c.past ∧ c'.past = recent ++ c.past ∧ .reset ∉ recent ∧
      s'.metrics.counters = { Counters.zero with
        filtersApplied := 1, filtersDescribed := 1, classesScanned := 2, lookups := 1,
        lookupMisses := 1 } ∧
      s'.metrics.counters.Consistent ∧ s.metrics.counters ≤ s'.metrics.counters := by
  intro steps recent
  have hfiltered : Passes .start .start steps _ _ := .after (.after (.after .now))
  have hended : Passes .start .start steps _ _ := .last .start .start steps
  have hreset : .reset ∉ recent := by simp [recent]
  obtain ⟨hconsistent, hmoments⟩ := counters_consistent steps
  refine ⟨_, _, _, _, hfiltered, hended, ?_, rfl, hreset, rfl, hconsistent, ?_⟩
  · exact List.mem_cons_of_mem _ List.mem_cons_self
  · exact (hmoments _ _ hfiltered).2 _ _ recent hended rfl hreset

end ClassRoster
