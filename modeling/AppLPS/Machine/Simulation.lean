/-
Module: AppLPS.Machine.Simulation
Purpose: Refinement of a more abstract machine: each step is an abstract run
  from view to view, and when the machine logs these runs, replaying the log
  always gives the abstract view of the state that has been reached.
Trusted boundary: none
Main exports: Machine.Replays, Machine.Replays.exec_log, Machine.Refines,
  Machine.Refines.exists_exec, Machine.guarded_of_backward
-/
import AppLPS.Machine.Basic

/-!
A step may be no change at all to the abstract machine, one change, or several.
The assumptions on the steps are a guard, so that a machine may refine another
one in some of its runs only.
-/

namespace Machine

variable {State Event Fault Abstract Change AbstractFault : Type*}
  {machine : Machine State Event Fault}
  {abstract : Machine Abstract Change AbstractFault}

/-- The obligations of a refinement: every step under the guard keeps the
invariant, and its changes lead from the view before to the view after. -/
structure Replays (machine : Machine State Event Fault)
    (abstract : Machine Abstract Change AbstractFault) (view : State → Abstract)
    (changes : State → Event → List Change) (invariant : State → Prop)
    (guard : State → Event → Prop) : Prop where
  preserved : ∀ state event after, invariant state → guard state event →
    machine.next state event = some after → invariant after
  simulates : ∀ state event after, invariant state → guard state event →
    machine.next state event = some after →
    abstract.exec (view state) (changes state event) = some (view after)

namespace Replays

variable {view : State → Abstract} {changes : State → Event → List Change}
  {invariant : State → Prop} {guard : State → Event → Prop}

/-- What a guarded run adds to the log replays its effect on the view. -/
theorem exec_added
    (replays : machine.Replays abstract view changes invariant guard)
    {observed after : State × List Change} {events : List Event}
    (start : invariant observed.1)
    (guarded : (machine.logged changes).Guarded
      (fun before event => guard before.1 event) observed events)
    (run : (machine.logged changes).exec observed events = some after) :
    ∃ added, after.2 = observed.2 ++ added ∧
      abstract.exec (view observed.1) added = some (view after.1) := by
  induction events generalizing observed with
  | nil =>
      cases run
      exact ⟨[], (List.append_nil _).symm, rfl⟩
  | cons event events inductionHypothesis =>
      obtain ⟨middle, taken, rest⟩ := Option.bind_eq_some_iff.mp run
      obtain ⟨here, later⟩ := guarded middle taken
      obtain ⟨stepped, logEq⟩ := logged_next_eq_some.mp taken
      obtain ⟨added, addedEq, replayed⟩ := inductionHypothesis
        (replays.preserved _ _ _ start here stepped) later rest
      refine ⟨changes observed.1 event ++ added, ?_, ?_⟩
      · rw [addedEq, logEq, List.append_assoc]
      · rw [exec_append, replays.simulates _ _ _ start here stepped]
        exact replayed

/-- Replaying the log of a guarded run gives the view of the state reached. -/
theorem exec_log
    (replays : machine.Replays abstract view changes invariant guard)
    {state : State} {after : State × List Change} {events : List Event}
    (start : invariant state)
    (guarded : (machine.logged changes).Guarded
      (fun before event => guard before.1 event) (state, []) events)
    (run : (machine.logged changes).exec (state, []) events = some after) :
    abstract.exec (view state) after.2 = some (view after.1) := by
  obtain ⟨added, addedEq, replayed⟩ := replays.exec_added start guarded run
  rw [addedEq, List.nil_append]
  exact replayed

end Replays

/-- A refinement without a log: every step under the guard keeps the invariant
and is some abstract run from view to view. -/
structure Refines (machine : Machine State Event Fault)
    (abstract : Machine Abstract Change AbstractFault) (view : State → Abstract)
    (invariant : State → Prop) (guard : State → Event → Prop) : Prop where
  preserved : ∀ state event after, invariant state → guard state event →
    machine.next state event = some after → invariant after
  simulates : ∀ state event after, invariant state → guard state event →
    machine.next state event = some after →
    ∃ taken, abstract.exec (view state) taken = some (view after)

/-- Every guarded run is some abstract run from view to view. -/
theorem Refines.exists_exec {view : State → Abstract}
    {invariant : State → Prop} {guard : State → Event → Prop}
    (refines : machine.Refines abstract view invariant guard)
    {state after : State} {events : List Event} (start : invariant state)
    (guarded : machine.Guarded guard state events)
    (run : machine.exec state events = some after) :
    ∃ taken, abstract.exec (view state) taken = some (view after) := by
  induction events generalizing state with
  | nil =>
      cases run
      exact ⟨[], rfl⟩
  | cons event events inductionHypothesis =>
      obtain ⟨middle, stepped, rest⟩ := Option.bind_eq_some_iff.mp run
      obtain ⟨here, later⟩ := guarded middle stepped
      obtain ⟨first, firstRun⟩ :=
        refines.simulates _ _ _ start here stepped
      obtain ⟨more, moreRun⟩ := inductionHypothesis
        (refines.preserved _ _ _ start here stepped) later rest
      refine ⟨first ++ more, ?_⟩
      rw [exec_append, firstRun]
      exact moreRun

/-- A property that steps can only lose holds after every step of a run that
ends with it. -/
theorem guarded_of_backward {good : State → Prop}
    (backward : ∀ state event after, machine.next state event = some after →
      good after → good state)
    {state last : State} {events : List Event}
    (run : machine.exec state events = some last) (ends : good last) :
    machine.Guarded
        (fun before event => ∀ after, machine.next before event = some after →
          good after) state events ∧ good state := by
  induction events generalizing state with
  | nil =>
      cases run
      exact ⟨trivial, ends⟩
  | cons event events inductionHypothesis =>
      obtain ⟨middle, taken, rest⟩ := Option.bind_eq_some_iff.mp run
      obtain ⟨later, goodMiddle⟩ := inductionHypothesis rest
      refine ⟨guarded_cons taken ?_ later,
        backward state event middle taken goodMiddle⟩
      intro after isAfter
      cases taken.symm.trans isAfter
      exact goodMiddle

end Machine
