import ClassRoster.Proofs.Listening
import Mathlib.Data.List.Forall2

/-!
What operations report. A deed is an operation with what it worked on and what it came to. The
answer to a step, the event it emits and the entry it writes are filled in at different places, and
each of them can be read off the deed; so along a run the three tell one story. A reading, and a
request that cannot be carried out, has an answer and nothing else.
-/

namespace ClassRoster

inductive Deed where
  | built (source : Source) (target : String) (result : Except RosterError Roster)
  | filtered (receiver : Roster) (c : Criterion Descriptor) (target : String) (result : Roster)
  | redescribed (target : String) (result : Roster)
  | lookedUp (receiver : Roster) (name : String) (result : Except RosterError Descriptor)
  | silent (answer : Answer)

namespace Deed

def answer : Deed → Answer
  | built _ _ (.ok r) | filtered _ _ _ r | redescribed _ r => .summary r.report
  | built _ _ (.error e) | lookedUp _ _ (.error e) => .failed e
  | lookedUp _ _ (.ok d) => .descriptor d
  | silent answer => answer

/-- The rosters after a deed. A result is put in its place; a failure leaves all as it is. -/
def leave (rosters : Index Roster) : Deed → Index Roster
  | built _ target (.ok r) | filtered _ _ target r | redescribed target r =>
      rosters.insert target r
  | _ => rosters

def event? : Deed → Option Event
  | built source _ (.ok r) => some (.built source r.size)
  | built source _ (.error _) => some (.rejected source)
  | filtered receiver c _ result => some (.filtered c.described receiver.size result.size)
  | redescribed _ _ => some .redescribed
  | lookedUp _ _ result => some (.lookup result.isOk)
  | silent _ => none

def entry? : Deed → Option Entry
  | built source _ (.ok r) => some (.built r.size r.description source)
  | built source _ (.error e) => some (.rejected e.message source)
  | filtered receiver _ _ result =>
      some (.filtered receiver.size result.size result.description)
  | _ => none

/-- What work on a roster does. -/
def ofAction (rosters : Index Roster) (r : Roster) : Action → Deed
  | .filter target c => .filtered r c target (r.filter c)
  | .redescribe target description => .redescribed target (r.redescribe description)
  | .rebuild target => .built .iterable target (Roster.ofList r.descriptors)
  | .getToken t => .lookedUp r t.name (r.getToken t)
  | .get name => .lookedUp r name (r.get name)
  | action => .silent (Outcome.act rosters r action).value.1

/-- What an operation does where the rosters are these. -/
def ofStep (rosters : Index Roster) : Step → Deed
  | .build target names => .built .iterable target (Roster.ofList (names.map Descriptor.mk))
  | .buildKeyed target entries description =>
      .built .mapping target
        (Roster.ofEntries (entries.map fun e => (e.1, ⟨e.2⟩)) description)
  | .act source action =>
      match rosters.find? source with
      | some r => ofAction rosters r action
      | none => .silent .noSuchRoster
  | _ => .silent .malformed

/-- The deeds of a run, each on the rosters that the ones before it have left. -/
def along (rosters : Index Roster) : List Step → List Deed
  | [] => []
  | step :: steps => ofStep rosters step :: along ((ofStep rosters step).leave rosters) steps

/-- All that an outcome holds can be read off the deed. -/
structure Tells (d : Deed) (rosters : Index Roster) (o : Outcome) : Prop where
  answer : o.value.1 = d.answer
  rosters : o.value.2 = d.leave rosters
  events : o.events = d.event?.toList
  entries : o.entries = d.entry?.toList

theorem tells_putBuilt (rosters : Index Roster) (source : Source) (target : String)
    (result : Except RosterError Roster) :
    (built source target result).Tells rosters
      (Outcome.putBuilt rosters target (.build source result)) := by
  cases result with
  | ok r => exact ⟨rfl, rfl, rfl, rfl⟩
  | error e => exact ⟨rfl, rfl, rfl, rfl⟩

theorem isOk_get (r : Roster) (name : String) : (r.get name).isOk = r.contains name := by
  simp only [Roster.get, Roster.contains, Index.contains]
  cases r.classes.find? name with
  | some d => rfl
  | none => rfl

theorem tells_lookUp (rosters : Index Roster) (receiver : Roster) (name : String)
    (result : Except RosterError Descriptor) :
    (lookedUp receiver name result).Tells rosters
      (Outcome.lookUp rosters ⟨result, [.lookup result.isOk], []⟩) := by
  cases result with
  | ok d => exact ⟨rfl, rfl, rfl, rfl⟩
  | error e => exact ⟨rfl, rfl, rfl, rfl⟩

/-- A look-up reports in advance how it ends. -/
theorem observed_get (r : Roster) (name : String) :
    Observed.get r name = ⟨r.get name, [.lookup (r.get name).isOk], []⟩ := by
  rw [isOk_get]
  rfl

theorem tells_act (rosters : Index Roster) (r : Roster) (action : Action) :
    (ofAction rosters r action).Tells rosters (Outcome.act rosters r action) := by
  cases action with
  | rebuild target => exact tells_putBuilt rosters .iterable target _
  | getToken t =>
      -- By the token's name: there is no other look-up.
      change (lookedUp r t.name _).Tells rosters (Outcome.lookUp rosters (.get r t.name))
      rw [observed_get]
      exact tells_lookUp rosters r t.name _
  | get name =>
      change (lookedUp r name _).Tells rosters (Outcome.lookUp rosters (.get r name))
      rw [observed_get]
      exact tells_lookUp rosters r name _
  | _ => exact ⟨rfl, rfl, rfl, rfl⟩

theorem tells_actOn (rosters : Index Roster) (source : String) (action : Action) :
    (ofStep rosters (.act source action)).Tells rosters
      (Outcome.actOn rosters source action) := by
  simp only [ofStep, Outcome.actOn]
  cases rosters.find? source with
  | some r => exact tells_act rosters r action
  | none => exact ⟨rfl, rfl, rfl, rfl⟩

end Deed

/-- Whether a step works on rosters. -/
def Step.isOperation : Step → Bool
  | .build .. | .buildKeyed .. | .act .. | .malformed => true
  | .counters | .reset | .withSink .. | .withJournal .. => false

/-- Whether an event comes with an entry. -/
def Event.isWritten : Event → Bool
  | .built .. | .rejected _ | .filtered .. => true
  | .redescribed | .lookup _ => false

/-- An entry says what an event says, as far as it is said without phrases. -/
inductive Entry.Echoes : Entry → Event → Prop
  | built (source : Source) (classes : Nat) (description : String) :
      Echoes (.built classes description source) (.built source classes)
  | rejected (source : Source) (reason : String) :
      Echoes (.rejected reason source) (.rejected source)
  | filtered (described : Bool) (scanned retained : Nat) (description : String) :
      Echoes (.filtered scanned retained description) (.filtered described scanned retained)

namespace Deed

/-- Entry by entry the journal follows the events. -/
theorem entries_echo_events (deeds : List Deed) :
    List.Forall₂ Entry.Echoes (deeds.filterMap entry?)
      ((deeds.filterMap event?).filter Event.isWritten) := by
  induction deeds with
  | nil => exact .nil
  | cons d deeds ih =>
      cases d with
      | built source target result =>
          cases result with
          | ok r => exact .cons (.built source r.size r.description) ih
          | error e => exact .cons (.rejected source e.message) ih
      | filtered receiver c target result =>
          exact .cons (.filtered c.described receiver.size result.size result.description) ih
      | redescribed _ _ | lookedUp _ _ _ | silent _ => exact ih

/-- A look-up that was made came to what the roster holds. -/
theorem result_of_ofStep_eq {rosters : Index Roster} {step : Step} {receiver : Roster}
    {name : String} {result : Except RosterError Descriptor}
    (h : ofStep rosters step = lookedUp receiver name result) : result = receiver.get name := by
  cases step with
  | act source action =>
      simp only [ofStep] at h
      split at h
      · cases action <;> cases h <;> rfl
      · cases h
  | _ => cases h

theorem result_of_mem_along {rosters : Index Roster} {steps : List Step} {receiver : Roster}
    {name : String} {result : Except RosterError Descriptor}
    (h : lookedUp receiver name result ∈ along rosters steps) : result = receiver.get name := by
  induction steps generalizing rosters with
  | nil => exact absurd h List.not_mem_nil
  | cons step steps ih =>
      obtain hfirst | hrest := List.mem_cons.mp h
      · exact result_of_ofStep_eq hfirst.symm
      · exact ih hrest

end Deed

namespace Session

/-- The session after some deeds. Events go where the metrics send them, entries to the innermost
journal. -/
def perform (s : Session) (deeds : List Deed) : Session where
  rosters := deeds.foldl Deed.leave s.rosters
  monitor :=
    { metrics := (deeds.filterMap Deed.event?).foldl Metrics.emit s.metrics
      journals := s.monitor.journals.modifyHead (· ++ deeds.filterMap Deed.entry?) }

theorem perform_nil (s : Session) : s.perform [] = s := by
  have hjournals : s.monitor.journals.modifyHead (· ++ []) = s.monitor.journals := by
    cases h : s.monitor.journals <;> simp
  rw [perform, List.filterMap_nil, List.filterMap_nil, hjournals]
  rfl

theorem perform_cons (s : Session) (d : Deed) (deeds : List Deed) :
    s.perform (d :: deeds) = (s.perform [d]).perform deeds := by
  have hsplit {α : Type} (f : Deed → Option α) :
      (d :: deeds).filterMap f = [d].filterMap f ++ deeds.filterMap f :=
    List.filterMap_append (l := [d])
  simp only [perform, hsplit, List.foldl_append, List.modifyHead_modifyHead, Function.comp_def,
    List.append_assoc]
  rfl

theorem conclude_of_tells (s : Session) {d : Deed} {o : Outcome} (h : d.Tells s.rosters o) :
    s.conclude o = (d.answer, s.perform [d]) := by
  have hfilterMap {α : Type} (f : Deed → Option α) : [d].filterMap f = (f d).toList := by
    cases h : f d <;> simp [h]
  have hmonitor : s.monitor.attend o = (s.perform [d]).monitor := by
    rw [perform, hfilterMap, hfilterMap, ← h.events, ← h.entries, ← Monitor.journals_attend]
    exact congrArg (Monitor.mk · _) (Monitor.metrics_attend _ _)
  rw [conclude, hmonitor, h.answer, h.rosters]
  rfl

/-- The step lemma. -/
theorem run_operation (s : Session) {step : Step} (h : step.isOperation = true) :
    s.run step =
      ((Deed.ofStep s.rosters step).answer, s.perform [Deed.ofStep s.rosters step]) := by
  cases step with
  | build target names =>
      exact s.conclude_of_tells (Deed.tells_putBuilt s.rosters .iterable target _)
  | buildKeyed target entries description =>
      exact s.conclude_of_tells (Deed.tells_putBuilt s.rosters .mapping target _)
  | act source action => exact s.conclude_of_tells (Deed.tells_actOn s.rosters source action)
  | malformed =>
      have htells : (Deed.silent .malformed).Tells s.rosters (.reply s.rosters .malformed) :=
        ⟨rfl, rfl, rfl, rfl⟩
      exact s.conclude_of_tells htells
  | counters | reset | withSink _ _ _ | withJournal _ => cases h

theorem runAll_operations (s : Session) {steps : List Step}
    (h : ∀ step ∈ steps, step.isOperation = true) :
    s.runAll steps =
      ((Deed.along s.rosters steps).map Deed.answer, s.perform (Deed.along s.rosters steps)) := by
  induction steps generalizing s with
  | nil => exact congrArg (Prod.mk []) s.perform_nil.symm
  | cons step steps ih =>
      obtain ⟨hstep, hsteps⟩ := List.forall_mem_cons.mp h
      let d := Deed.ofStep s.rosters step
      have hrest : (s.perform [d]).runAll steps =
          ((Deed.along (d.leave s.rosters) steps).map Deed.answer,
            s.perform (d :: Deed.along (d.leave s.rosters) steps)) :=
        (ih (s.perform [d]) hsteps).trans (congrArg (Prod.mk _) (s.perform_cons d _).symm)
      simp only [runAll, s.run_operation hstep]
      change (d.answer :: ((s.perform [d]).runAll steps).1, ((s.perform [d]).runAll steps).2) = _
      rw [hrest]
      rfl

/-- Along a run of operations the answers, the events and the entries tell one story: each of them
is read off the same deeds, and so is where the run ends, whoever listens. A sink that listens has
the events behind what it had before. -/
theorem channels_agree (s : Session) {steps : List Step}
    (h : ∀ step ∈ steps, step.isOperation = true) (number : Nat) (panics : Bool) :
    let deeds := Deed.along s.rosters steps
    s.runAll steps = (deeds.map Deed.answer, s.perform deeds) ∧
      (s.run (.withJournal [.withSink number steps panics])).1 =
        .journal [.sink number (deeds.map Deed.answer)
            (s.metrics.gathered number ++ deeds.filterMap Deed.event?) panics]
          (deeds.filterMap Deed.entry?) ∧
      List.Forall₂ Entry.Echoes (deeds.filterMap Deed.entry?)
        ((deeds.filterMap Deed.event?).filter Event.isWritten) ∧
      ∀ receiver name result, .lookedUp receiver name result ∈ deeds →
        result = receiver.get name ∧ result.isOk = receiver.contains name := by
  intro deeds
  refine ⟨s.runAll_operations h, ?_, Deed.entries_echo_events deeds, ?_⟩
  · let outside : Session := { s with monitor := s.monitor.openJournal }
    let entered : Session := outside.withMetrics (s.metrics.install number)
    let left : Session := entered.perform deeds
    have hbody : (outside.withMetrics (outside.metrics.install number)).runAll steps =
        (deeds.map Deed.answer, left) := entered.runAll_operations h
    have hblock : outside.run (.withSink number steps panics) =
        (.sink number (deeds.map Deed.answer) (left.metrics.gathered number) panics,
          left.withMetrics (left.metrics.restore s.metrics.installed)) := by
      rw [outside.run_withSink, hbody]
      rfl
    have hmetrics : left.metrics =
        (s.metrics.install number).give number (deeds.filterMap Deed.event?) :=
      Metrics.foldl_emit_install s.metrics number _
    have hgathered : left.metrics.gathered number =
        s.metrics.gathered number ++ deeds.filterMap Deed.event? := by
      rw [hmetrics, Metrics.gathered_give_self]
      rfl
    rw [← hgathered]
    change Answer.journal [(outside.run (.withSink number steps panics)).1]
      ((outside.run (.withSink number steps panics)).2.monitor.journals.headD []) = _
    rw [hblock]
    rfl
  · intro receiver name result hmem
    have hresult := Deed.result_of_mem_along hmem
    exact ⟨hresult, hresult ▸ Deed.isOk_get receiver name⟩

theorem channels_agree_failures :
    let steps : List Step := [.build "a" ["p.B", "p.A"], .build "a" ["x", "x"],
      .buildKeyed "b" [("k", "n")] "all",
      .act "a" (.filter "b" (.ofTest "be A" fun d => d.name == "p.A")),
      .act "a" (.filter "c" (.undescribed fun _ => true)), .act "b" (.redescribe "b" "kept"),
      .act "b" (.get "p.A"), .act "b" (.getToken ⟨"p.B"⟩), .act "b" .names, .act "z" .report]
    let receiver : Roster := .ofIndex ⟨[("p.A", ⟨"p.A"⟩)]⟩ "kept"
    (∀ step ∈ steps, step.isOperation = true) ∧
      (∃ answers, (Session.start.run (.withJournal [.withSink 0 steps true])).1 =
        .journal [.sink 0 answers [.built .iterable 2, .rejected .iterable, .rejected .mapping,
            .filtered true 2 1, .filtered false 2 2, .redescribed, .lookup true, .lookup false] true]
          [.built 2 "classes" .iterable, .rejected "class 'x' supplied more than once" .iterable,
            .rejected "class keyed as 'k' is named 'n'" .mapping,
            .filtered 2 1 "classes that be A", .filtered 2 2 "classes"]) ∧
      (Except.error (.notFound "p.B") : Except RosterError Descriptor) = receiver.get "p.B" ∧
      receiver.contains "p.B" = false := by
  intro steps receiver
  have hsteps : ∀ step ∈ steps, step.isOperation = true := by simp [steps, Step.isOperation]
  obtain ⟨-, hblock, -, hlooked⟩ := channels_agree .start hsteps 0 true
  have hmiss : .lookedUp receiver "p.B" (.error (.notFound "p.B")) ∈ Deed.along .empty steps :=
    List.mem_of_getElem? (rfl : (Deed.along .empty steps)[7]? = some _)
  obtain ⟨hresult, hok⟩ := hlooked _ _ _ hmiss
  exact ⟨hsteps, ⟨_, hblock⟩, hresult, hok.symm⟩

end Session
end ClassRoster
