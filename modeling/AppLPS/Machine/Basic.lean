/-
Module: AppLPS.Machine.Basic
Purpose: Partial deterministic machines driven by lists of events, with faults,
  and the rules by which a property of every visited state is proved.
Trusted boundary: none
Main exports: Machine, Machine.next, Machine.exec, Machine.Faults,
  Machine.Always, Machine.Guarded, Machine.always_of_guarded,
  Machine.always_iff_guarded, Machine.observe, Machine.logged
-/
import Mathlib.Data.List.Infix

/-!
A machine reads one event at a time.  An event may be disabled in a state
(`none`), may crash it (`some (.error fault)`), or may lead to one next state.
All nondeterminism of the modelled system sits in the choice of the event, so
"for every interleaving" is "for every list of events".

`Always` says that a predicate holds in every state a run visits and `Guarded`
that every step a run takes meets a condition on the state before it.  A list
of events that gets stuck simply stops: neither predicate asks that it runs to
its end.
-/

/-- A partial deterministic transition function whose steps may fault. -/
structure Machine (State Event Fault : Type*) where
  step : State → Event → Option (Except Fault State)

namespace Machine

variable {State Event Fault : Type*} (machine : Machine State Event Fault)

/-- The state after a step that is enabled and does not fault. -/
def next (state : State) (event : Event) : Option State :=
  match machine.step state event with
  | some (.ok after) => some after
  | _ => none

/-- The event is enabled and crashes the machine. -/
def Faults (state : State) (event : Event) : Prop :=
  ∃ fault, machine.step state event = some (.error fault)

/-- Run a whole list of events. -/
def exec (state : State) : List Event → Option State
  | [] => some state
  | event :: events =>
      (machine.next state event).bind fun after => exec after events

/-- `holds` is true of every state that the run of the events visits, the
first one included. -/
def Always (holds : State → Prop) (state : State) : List Event → Prop
  | [] => holds state
  | event :: events =>
      holds state ∧
        ∀ after, machine.next state event = some after →
          Always holds after events

/-- Every step that the run of the events takes meets the condition, which
reads the state before the step and its event. -/
def Guarded (condition : State → Event → Prop) (state : State) :
    List Event → Prop
  | [] => True
  | event :: events =>
      ∀ after, machine.next state event = some after →
        condition state event ∧ Guarded condition after events

/-- A guard that can be decided for one step can be decided for a run. -/
instance Guarded.decidable (condition : State → Event → Prop)
    [∀ state event, Decidable (condition state event)] :
    (state : State) → (events : List Event) →
      Decidable (machine.Guarded condition state events)
  | _, [] => isTrue trivial
  | state, event :: events =>
      match taken : machine.next state event with
      | none => isTrue fun after isAfter => by
          rw [taken] at isAfter
          cases isAfter
      | some after =>
          have := decidable condition after events
          decidable_of_iff
            (condition state event ∧ machine.Guarded condition after events)
            ⟨fun guarded other isAfter => by
                cases taken.symm.trans isAfter
                exact guarded,
              fun guarded => guarded after taken⟩

variable {machine}

theorem next_eq_some {state after : State} {event : Event} :
    machine.next state event = some after ↔
      machine.step state event = some (.ok after) := by
  unfold next
  split
  · rename_i reached stepEq
    rw [stepEq]
    simp
  · rename_i notOk
    simp only [reduceCtorEq, false_iff]
    exact notOk after

@[simp] theorem exec_nil (state : State) :
    machine.exec state [] = some state := rfl

@[simp] theorem exec_cons (state : State) (event : Event)
    (events : List Event) :
    machine.exec state (event :: events) =
      (machine.next state event).bind fun after =>
        machine.exec after events := rfl

theorem exec_append (state : State) (first second : List Event) :
    machine.exec state (first ++ second) =
      (machine.exec state first).bind fun after =>
        machine.exec after second := by
  induction first generalizing state with
  | nil => rfl
  | cons event events inductionHypothesis =>
      simp only [List.cons_append, exec_cons]
      cases machine.next state event with
      | none => rfl
      | some middle => exact inductionHypothesis middle

/-- A run of one more event. -/
theorem exec_snoc (state : State) (events : List Event) (event : Event) :
    machine.exec state (events ++ [event]) =
      (machine.exec state events).bind fun after =>
        machine.next after event := by
  rw [exec_append]
  congr 1
  funext after
  simp

/-- The beginning of an infinite run is a run. -/
theorem exec_of_steps {visited : Nat → State} {taken : Nat → Event}
    (goesOn : ∀ step,
      machine.next (visited step) (taken step) = some (visited (step + 1)))
    (length : Nat) :
    machine.exec (visited 0) ((List.range length).map taken) =
      some (visited length) := by
  induction length with
  | zero => rfl
  | succ length inductionHypothesis =>
      rw [List.range_succ, List.map_append, List.map_singleton, exec_snoc,
        inductionHypothesis]
      exact goesOn length

theorem Always.head {holds : State → Prop} {state : State}
    {events : List Event} (always : machine.Always holds state events) :
    holds state := by
  cases events with
  | nil => exact always
  | cons event events => exact always.1

/-- What holds in every visited state holds in the last one. -/
theorem Always.last {holds : State → Prop} {state after : State}
    {events : List Event} (always : machine.Always holds state events)
    (run : machine.exec state events = some after) : holds after := by
  induction events generalizing state with
  | nil =>
      cases run
      exact always
  | cons event events inductionHypothesis =>
      obtain ⟨middle, taken, rest⟩ := Option.bind_eq_some_iff.mp run
      exact inductionHypothesis (always.2 middle taken) rest

theorem Always.mono {holds weaker : State → Prop} {state : State}
    {events : List Event} (implies : ∀ visited, holds visited → weaker visited)
    (always : machine.Always holds state events) :
    machine.Always weaker state events := by
  induction events generalizing state with
  | nil => exact implies state always
  | cons event events inductionHypothesis =>
      exact ⟨implies state always.1,
        fun after taken => inductionHypothesis (always.2 after taken)⟩

/-- A run whose first step is known is guarded when that step and the rest
are. -/
theorem guarded_cons {condition : State → Event → Prop}
    {state after : State} {event : Event} {events : List Event}
    (taken : machine.next state event = some after)
    (here : condition state event)
    (later : machine.Guarded condition after events) :
    machine.Guarded condition state (event :: events) := by
  intro reached reachedEq
  cases taken.symm.trans reachedEq
  exact ⟨here, later⟩

/-- A condition on the events alone guards every run of such events. -/
theorem guarded_of_forall {condition : State → Event → Prop}
    {events : List Event}
    (all : ∀ event ∈ events, ∀ visited, condition visited event)
    (state : State) : machine.Guarded condition state events := by
  induction events generalizing state with
  | nil => trivial
  | cons event events inductionHypothesis =>
      intro after _
      exact ⟨all event List.mem_cons_self state,
        inductionHypothesis
          (fun later member => all later (List.mem_cons_of_mem _ member))
          after⟩

theorem Guarded.mono {condition weaker : State → Event → Prop} {state : State}
    {events : List Event}
    (implies : ∀ visited event, condition visited event → weaker visited event)
    (guarded : machine.Guarded condition state events) :
    machine.Guarded weaker state events := by
  induction events generalizing state with
  | nil => trivial
  | cons event events inductionHypothesis =>
      intro after taken
      have ⟨here, later⟩ := guarded after taken
      exact ⟨implies state event here, inductionHypothesis later⟩

/-- Guarded runs compose. -/
theorem Guarded.append {condition : State → Event → Prop}
    {state middle : State} {first second : List Event}
    (before : machine.Guarded condition state first)
    (run : machine.exec state first = some middle)
    (later : machine.Guarded condition middle second) :
    machine.Guarded condition state (first ++ second) := by
  induction first generalizing state with
  | nil =>
      cases run
      exact later
  | cons event events inductionHypothesis =>
      obtain ⟨reached, taken, rest⟩ := Option.bind_eq_some_iff.mp run
      have ⟨here, further⟩ := before reached taken
      exact guarded_cons taken here (inductionHypothesis further rest)

/-- The invariant rule: what the guarded steps preserve holds in every state
of a guarded run. -/
theorem always_of_guarded {holds : State → Prop}
    {condition : State → Event → Prop}
    (preserved : ∀ state event after, holds state → condition state event →
      machine.next state event = some after → holds after)
    {state : State} {events : List Event} (start : holds state)
    (guarded : machine.Guarded condition state events) :
    machine.Always holds state events := by
  induction events generalizing state with
  | nil => exact start
  | cons event events inductionHypothesis =>
      refine ⟨start, fun after taken => ?_⟩
      have ⟨here, later⟩ := guarded after taken
      exact inductionHypothesis
        (preserved state event after start here taken) later

/-- The invariant rule for steps under no condition. -/
theorem always_of_preserved {holds : State → Prop}
    (preserved : ∀ state event after, holds state →
      machine.next state event = some after → holds after)
    {state : State} (start : holds state) (events : List Event) :
    machine.Always holds state events := by
  induction events generalizing state with
  | nil => exact start
  | cons event events inductionHypothesis =>
      exact ⟨start, fun after taken =>
        inductionHypothesis (preserved state event after start taken)⟩

/-- The exactness rule.  Under the assumptions `environment` on the steps and
an invariant they preserve, if a step from a good state leads to a good state
exactly when it meets the condition, then a run visits good states only exactly
when each of its steps meets the condition. -/
theorem always_iff_guarded (invariant : State → Prop) {good : State → Prop}
    {environment condition : State → Event → Prop}
    (preserved : ∀ state event after, invariant state →
      environment state event → machine.next state event = some after →
      invariant after)
    (exact : ∀ state event after, invariant state → environment state event →
      good state → machine.next state event = some after →
      (good after ↔ condition state event))
    {state : State} {events : List Event} (start : invariant state)
    (startGood : good state)
    (assumed : machine.Guarded environment state events) :
    machine.Always good state events ↔
      machine.Guarded condition state events := by
  induction events generalizing state with
  | nil => exact ⟨fun _ => trivial, fun _ => startGood⟩
  | cons event events inductionHypothesis =>
      constructor
      · intro always after taken
        obtain ⟨_, later⟩ := always
        have ⟨assumedHere, assumedLater⟩ := assumed after taken
        have goodAfter := (later after taken).head
        exact ⟨(exact state event after start assumedHere startGood
            taken).mp goodAfter,
          (inductionHypothesis
            (preserved state event after start assumedHere taken) goodAfter
            assumedLater).mp (later after taken)⟩
      · intro guarded
        refine ⟨startGood, fun after taken => ?_⟩
        have ⟨assumedHere, assumedLater⟩ := assumed after taken
        have ⟨here, later⟩ := guarded after taken
        exact (inductionHypothesis
          (preserved state event after start assumedHere taken)
          ((exact state event after start assumedHere startGood
            taken).mpr here)
          assumedLater).mpr later

/-! ## History variables -/

/-- The machine with a history variable: `record` updates it from the state
before a step, the event and the state after. -/
def observe {History : Type*} (machine : Machine State Event Fault)
    (record : State → Event → State → History → History) :
    Machine (State × History) Event Fault where
  step := fun observed event =>
    (machine.step observed.1 event).map fun result =>
      result.map fun after => (after, record observed.1 event after observed.2)

variable {History : Type*}
  {record : State → Event → State → History → History}

theorem observe_next_eq_some {observed after : State × History}
    {event : Event} :
    (machine.observe record).next observed event = some after ↔
      machine.next observed.1 event = some after.1 ∧
        after.2 = record observed.1 event after.1 observed.2 := by
  obtain ⟨reached, history⟩ := after
  simp only [next_eq_some, observe]
  cases machine.step observed.1 event with
  | none => simp
  | some result =>
      cases result with
      | error fault => simp [Except.map]
      | ok middle =>
          simp only [Except.map, Option.map_some, Option.some.injEq,
            Except.ok.injEq, Prod.mk.injEq]
          constructor
          · intro same
            obtain ⟨rfl, rfl⟩ := same
            exact ⟨rfl, rfl⟩
          · intro same
            obtain ⟨rfl, rfl⟩ := same
            exact ⟨rfl, rfl⟩

theorem exists_of_observe_next {observed after : State × History}
    {event : Event}
    (taken : (machine.observe record).next observed event = some after) :
    ∃ reached, machine.next observed.1 event = some reached ∧
      after = (reached, record observed.1 event reached observed.2) := by
  obtain ⟨stepped, recordEq⟩ := observe_next_eq_some.mp taken
  exact ⟨after.1, stepped, Prod.ext rfl recordEq⟩

/-! ## Logs -/

/-- The machine with a log, to which every step appends what it adds. -/
def logged {Item : Type*} (machine : Machine State Event Fault)
    (adds : State → Event → List Item) :
    Machine (State × List Item) Event Fault :=
  machine.observe fun before event _ log => log ++ adds before event

section Logged

variable {Item : Type*} {adds : State → Event → List Item}

theorem logged_next_eq_some {observed after : State × List Item}
    {event : Event} :
    (machine.logged adds).next observed event = some after ↔
      machine.next observed.1 event = some after.1 ∧
        after.2 = observed.2 ++ adds observed.1 event :=
  observe_next_eq_some

/-- A log only grows. -/
theorem logged_subset {observed after : State × List Item}
    {events : List Event}
    (run : (machine.logged adds).exec observed events = some after) :
    observed.2 ⊆ after.2 := by
  induction events generalizing observed with
  | nil =>
      cases run
      exact List.Subset.refl _
  | cons event events inductionHypothesis =>
      obtain ⟨middle, taken, rest⟩ := Option.bind_eq_some_iff.mp run
      have grows := inductionHypothesis rest
      rw [(logged_next_eq_some.mp taken).2] at grows
      exact List.Subset.trans (List.subset_append_left _ _) grows

/-- What the steps of a run add is in the log at its end. -/
theorem guarded_logged {observed after : State × List Item}
    {events : List Event}
    (run : (machine.logged adds).exec observed events = some after) :
    (machine.logged adds).Guarded
      (fun before event => ∀ item ∈ adds before.1 event, item ∈ after.2)
      observed events := by
  induction events generalizing observed with
  | nil => trivial
  | cons event events inductionHypothesis =>
      obtain ⟨middle, taken, rest⟩ := Option.bind_eq_some_iff.mp run
      apply guarded_cons taken _ (inductionHypothesis rest)
      intro item added
      apply logged_subset rest
      rw [(logged_next_eq_some.mp taken).2]
      exact List.mem_append_right _ added

end Logged

end Machine
