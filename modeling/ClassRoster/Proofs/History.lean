import ClassRoster.Session.Run
import Mathlib.Data.List.Dedup

/-!
Histories of sessions. A history tells what steps do without saying who listens: the events they
report, the resets and readings of the counters, and where blocks begin and end and with which
sinks. Who should hear of an event is read off the nesting of the blocks alone. Histories are kept
with the latest signal first, so that the past of every moment is a tail of the whole.
-/

namespace ClassRoster

inductive Signal where
  | event (e : Event)
  | reset
  | read
  | opened (number : Nat)
  | closed (panicked : Bool)

namespace History

/-- The sinks of all blocks so far, one for each block. -/
def installs : List Signal → List Nat
  | [] => []
  | .opened number :: past => number :: installs past
  | _ :: past => installs past

/-- The sinks that blocks were opened with, each of them once. -/
def sinks (past : List Signal) : List Nat := (installs past).dedup

/-- The sinks of the blocks that are open, that of the innermost block first. -/
def enclosing : List Signal → List Nat
  | [] => []
  | .opened number :: past => number :: enclosing past
  | .closed _ :: past => (enclosing past).tail
  | _ :: past => enclosing past

def events : List Signal → List Event
  | [] => []
  | .event e :: past => events past ++ [e]
  | _ :: past => events past

/-- The events whose innermost block has the sink `recipient`; for `none`, those outside every
block. -/
def given (recipient : Option Nat) : List Signal → List Event
  | [] => []
  | .event e :: past =>
      if (enclosing past).head? = recipient then given recipient past ++ [e]
      else given recipient past
  | _ :: past => given recipient past

/-- The events outside every block since the last reset, wherever the reset was made. -/
def counted : List Signal → List Event
  | [] => []
  | .event e :: past => if enclosing past = [] then counted past ++ [e] else counted past
  | .reset :: _ => []
  | _ :: past => counted past

/-- What every reading of the counters so far should have given. -/
def readings : List Signal → List Counters
  | [] => []
  | .read :: past => readings past ++ [Counters.zero.recordAll (counted past)]
  | _ :: past => readings past

/-- What the sink of every block closed so far should have had then, and whether the block
panicked. -/
def closings : List Signal → List (List Event × Bool)
  | [] => []
  | .closed panicked :: past => closings past ++ [(given (enclosing past).head? past, panicked)]
  | _ :: past => closings past

theorem mem_installs_of_mem_enclosing {past : List Signal} {number : Nat}
    (h : number ∈ enclosing past) : number ∈ installs past := by
  induction past with
  | nil => exact absurd h List.not_mem_nil
  | cons signal past ih =>
      cases signal with
      | event _ | reset | read => exact ih h
      | closed _ => exact ih (List.mem_of_mem_tail h)
      | opened other =>
          obtain rfl | hmem := List.mem_cons.mp h
          · exact List.mem_cons_self
          · exact List.mem_cons_of_mem _ (ih hmem)

theorem mem_sinks_of_head? {past : List Signal} {number : Nat}
    (h : (enclosing past).head? = some number) : number ∈ sinks past :=
  List.mem_dedup.mpr (mem_installs_of_mem_enclosing (List.mem_of_mem_head? h))

/-- A sink that no block was opened with was given nothing. -/
theorem given_of_notMem_installs {past : List Signal} {number : Nat} (h : number ∉ installs past) :
    given (some number) past = [] := by
  induction past with
  | nil => rfl
  | cons signal past ih =>
      cases signal with
      | event e =>
          have hne : (enclosing past).head? ≠ some number := by
            intro hhead
            exact h (mem_installs_of_mem_enclosing (List.mem_of_mem_head? hhead))
          rw [given, if_neg hne]
          exact ih h
      | reset | read | closed _ => exact ih h
      | opened other => exact ih fun hmem => h (List.mem_cons_of_mem _ hmem)

theorem flatMap_perm_of_mem {α : Type} {f g : Nat → List α} {a : α} {number : Nat}
    {numbers : List Nat} (hnodup : numbers.Nodup) (hmem : number ∈ numbers)
    (hnumber : g number = f number ++ [a]) (hother : ∀ k, k ≠ number → g k = f k) :
    (numbers.flatMap g).Perm (numbers.flatMap f ++ [a]) := by
  have hsame {others : List Nat} (hothers : number ∉ others) :
      others.flatMap g = others.flatMap f := by
    refine List.flatMap_congr fun k hk => hother k ?_
    rintro rfl
    exact hothers hk
  obtain ⟨before, after, rfl⟩ := List.append_of_mem hmem
  have hapart : ¬ (number ∈ before ∨ number ∈ after) := by
    rw [← List.mem_append]
    exact (List.nodup_middle.mp hnodup).notMem
  obtain ⟨hbefore, hafter⟩ := not_or.mp hapart
  simp only [List.flatMap_append, List.flatMap_cons, hsame hbefore, hsame hafter, hnumber,
    List.append_assoc]
  exact (List.perm_append_comm.append_left _).append_left _

/-- Each event is given once: all that the sinks and the counters are given is all there is. -/
theorem events_perm_given (past : List Signal) :
    (events past).Perm
      (given none past ++ (sinks past).flatMap fun number => given (some number) past) := by
  induction past with
  | nil => exact .refl _
  | cons signal past ih =>
      cases signal with
      | reset | read | closed _ => exact ih
      | opened number =>
          by_cases hmem : number ∈ installs past
          · rw [sinks, installs, List.dedup_cons_of_mem hmem]
            exact ih
          · have hfresh : given (some number) past = [] := given_of_notMem_installs hmem
            rw [sinks, installs, List.dedup_cons_of_notMem hmem, List.flatMap_cons]
            simpa only [given, events, hfresh, List.nil_append, sinks] using ih
      | event e =>
          have happend := ih.append_right [e]
          rw [List.append_assoc] at happend
          cases hhead : (enclosing past).head? with
          | none =>
              have hothers : ∀ number, given (some number) (.event e :: past) =
                  given (some number) past := fun number => by simp [given, hhead]
              have hnone : given none (.event e :: past) = given none past ++ [e] := by
                simp [given, hhead]
              simp only [hnone, hothers, List.append_assoc]
              exact happend.trans (List.perm_append_comm.append_left _)
          | some number =>
              have hnone : given none (.event e :: past) = given none past := by
                simp [given, hhead]
              rw [hnone]
              refine happend.trans (List.Perm.append_left _ (List.Perm.symm ?_))
              refine flatMap_perm_of_mem (List.nodup_dedup _) (mem_sinks_of_head? hhead) ?_ ?_
              · simp [given, hhead]
              · intro k hk
                simp [given, hhead, hk.symm]

end History

/-- The rosters and the history of a session, with the latest signal first. -/
structure Chronicle where
  rosters : Index Roster
  past : List Signal

namespace Chronicle

def start : Chronicle := ⟨.empty, []⟩

def mark (c : Chronicle) (signal : Signal) : Chronicle := { c with past := signal :: c.past }

def conclude (c : Chronicle) (o : Outcome) : Chronicle :=
  o.events.foldl (fun c e => c.mark (.event e)) { c with rosters := o.value.2 }

mutual

def step (c : Chronicle) : Step → Chronicle
  | .build target names => c.conclude (.build c.rosters target names)
  | .buildKeyed target entries description =>
      c.conclude (.buildKeyed c.rosters target entries description)
  | .counters => c.mark .read
  | .reset => c.mark .reset
  | .withSink number body panics =>
      (stepAll (c.mark (.opened number)) body).mark (.closed panics)
  | .withJournal body => stepAll c body
  | .act source action => c.conclude (.actOn c.rosters source action)
  | .malformed => c

def stepAll (c : Chronicle) : List Step → Chronicle
  | [] => c
  | step :: steps => stepAll (c.step step) steps

end

end Chronicle
end ClassRoster
