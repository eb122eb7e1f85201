/-
Module: AppLPS.Machine.Progress
Purpose: Machines that are left alone come to rest: rankings that every
  internal event lowers, and the ranking of pools whose work is replaced by
  smaller work.
Trusted boundary: none
Main exports: Machine.Settles, Machine.settles_of_rank,
  Machine.Settles.of_stuck, Machine.Settles.exists_end,
  Machine.Settles.no_infinite_run, Machine.Settles.exists_external,
  Multiset.replaced_lt, Pool.load, Network.total
-/
import Mathlib.Algebra.BigOperators.Group.Finset.Basic
import Mathlib.Data.Fintype.Basic
import Mathlib.Data.Multiset.DershowitzManna
import AppLPS.Machine.Network
import AppLPS.Machine.Pool

/-!
Some events of a machine are its own doing: work it has accepted and goes on
with, whoever orders it.  `Settles` says that these events alone cannot go on
for ever, in no order, and what holds wherever they cannot go on at all.

One piece of work may be followed by any number of others, as a query is by
the downloads of its answer, so no number bounds the run from the start.  What
bounds it is that the followers are smaller: the ranks of the pending work go
down in the multiset order.
-/

namespace Machine

variable {State Event Fault : Type*} {machine : Machine State Event Fault}
  {internal : Event → Prop} {settled : State → Prop}

/-- Every run of internal events comes to an end, and the predicate holds in
each state that no internal event leads out of. -/
inductive Settles (machine : Machine State Event Fault)
    (internal : Event → Prop) (settled : State → Prop) : State → Prop where
  | intro {state : State}
      (later : ∀ event after, internal event →
        machine.next state event = some after →
        Settles machine internal settled after)
      (ended : (∀ event, internal event → machine.next state event = none) →
        settled state) :
      Settles machine internal settled state

/-- The ranking rule: under an invariant of the internal events, each of them
lowers the rank, and the states they do not lead out of are settled. -/
theorem settles_of_rank {Rank : Type*} {less : Rank → Rank → Prop}
    (founded : WellFounded less) (rank : State → Rank)
    (invariant : State → Prop)
    (preserved : ∀ state event after, invariant state → internal event →
      machine.next state event = some after → invariant after)
    (lowers : ∀ state event after, invariant state → internal event →
      machine.next state event = some after → less (rank after) (rank state))
    (ended : ∀ state, invariant state →
      (∀ event, internal event → machine.next state event = none) →
      settled state)
    {state : State} (start : invariant state) :
    machine.Settles internal settled state := by
  induction state using (InvImage.wf rank founded).induction with
  | _ state inductionHypothesis =>
      refine .intro ?_ (ended state start)
      intro event after isInternal taken
      exact inductionHypothesis after
        (lowers state event after start isInternal taken)
        (preserved state event after start isInternal taken)

namespace Settles

/-- Where no internal event leads on, the state is settled. -/
theorem of_stuck {state : State}
    (settles : machine.Settles internal settled state)
    (stuck : ∀ event, internal event → machine.next state event = none) :
    settled state := by
  obtain ⟨_, ended⟩ := settles
  exact ended stuck

/-- Some run of internal events leads to a settled state. -/
theorem exists_end {state : State}
    (settles : machine.Settles internal settled state) :
    ∃ events last, (∀ event ∈ events, internal event) ∧
      machine.exec state events = some last ∧ settled last := by
  induction settles with
  | @intro state later ended inductionHypothesis =>
      by_cases stuck : ∀ event, internal event → machine.next state event = none
      · exact ⟨[], state, by simp, rfl, ended stuck⟩
      · push Not at stuck
        obtain ⟨event, isInternal, enabled⟩ := stuck
        obtain ⟨after, taken⟩ := Option.ne_none_iff_exists'.mp enabled
        obtain ⟨events, last, areInternal, run, isSettled⟩ :=
          inductionHypothesis event after isInternal taken
        refine ⟨event :: events, last, ?_, ?_, isSettled⟩
        · exact List.forall_mem_cons.mpr ⟨isInternal, areInternal⟩
        · rw [exec_cons, taken]
          exact run

/-- No run of internal events goes on for ever. -/
theorem no_infinite_run {state : State}
    (settles : machine.Settles internal settled state) :
    ¬ ∃ visited : Nat → State, visited 0 = state ∧
      ∀ step, ∃ event, internal event ∧
        machine.next (visited step) event = some (visited (step + 1)) := by
  induction settles with
  | @intro state later ended inductionHypothesis =>
      intro infinite
      obtain ⟨visited, rfl, goesOn⟩ := infinite
      obtain ⟨event, isInternal, taken⟩ := goesOn 0
      exact inductionHypothesis event (visited 1) isInternal taken
        ⟨fun step => visited (step + 1), rfl, fun step => goesOn (step + 1)⟩

/-- An infinite run whose states all settle is never left to the internal
events for good. -/
theorem exists_external {visited : Nat → State} {taken : Nat → Event}
    (settles : ∀ step, machine.Settles internal settled (visited step))
    (goesOn : ∀ step,
      machine.next (visited step) (taken step) = some (visited (step + 1)))
    (bound : Nat) : ∃ step, bound ≤ step ∧ ¬ internal (taken step) := by
  by_contra none
  push Not at none
  apply (settles bound).no_infinite_run
  refine ⟨fun step => visited (bound + step), rfl, fun step => ?_⟩
  exact ⟨taken (bound + step), none _ (Nat.le_add_right bound step),
    goesOn (bound + step)⟩

end Settles

end Machine

/-! ## Multisets of ranks -/

namespace Multiset

variable {Rank : Type*} [Preorder Rank]

/-- Replacing one rank by any number of lower ones. -/
theorem replaced_lt {rest lower : Multiset Rank} {rank : Rank}
    (below : ∀ part ∈ lower, part < rank) :
    IsDershowitzMannaLT (lower + rest) (rank ::ₘ rest) := by
  refine ⟨rest, lower, {rank}, by simp, add_comm _ _, ?_, ?_⟩
  · rw [add_comm, singleton_add]
  · intro part member
    exact ⟨rank, mem_singleton_self rank, below part member⟩

/-- The order is kept by what both sides share. -/
theorem IsDershowitzMannaLT.add_right {lower higher : Multiset Rank}
    (lt : IsDershowitzMannaLT lower higher) (shared : Multiset Rank) :
    IsDershowitzMannaLT (lower + shared) (higher + shared) := by
  obtain ⟨rest, replacing, replaced, nonempty, rfl, rfl, below⟩ := lt
  exact ⟨rest + shared, replacing, replaced, nonempty, add_right_comm _ _ _,
    add_right_comm _ _ _, below⟩

end Multiset

namespace Pool

variable {Work Rank : Type*}

/-- The ranks of the pending work. -/
def load (rank : Work → Rank) (pool : Pool Work) : Multiset Rank :=
  (pool.values.map rank : List Rank)

theorem load_submitAll (rank : Work → Rank) (pool : Pool Work)
    (works : List Work) :
    (pool.submitAll works).load rank =
      ((works.map rank : List Rank) : Multiset Rank) + pool.load rank := by
  rw [load, load, values_submitAll, List.map_append, ← Multiset.coe_add,
    add_comm]

theorem load_remove (rank : Work → Rank) {pool : Pool Work} {ticket : Nat}
    {work : Work} (found : pool.find? ticket = some work) :
    pool.load rank = rank work ::ₘ (pool.remove ticket).load rank := by
  obtain ⟨before, after, valuesEq, removed, _⟩ := exists_values_split found
  rw [load, load, valuesEq, removed, Multiset.cons_coe, Multiset.coe_eq_coe,
    List.map_append, List.map_append, List.map_cons]
  exact List.perm_middle

theorem load_update (rank : Work → Rank) {pool : Pool Work} {ticket : Nat}
    {work : Work} (found : pool.find? ticket = some work)
    (change : Work → Work) :
    (pool.update ticket change).load rank =
      rank (change work) ::ₘ (pool.remove ticket).load rank := by
  obtain ⟨before, after, _, removed, updated⟩ := exists_values_split found
  rw [load, load, updated, removed, Multiset.cons_coe, Multiset.coe_eq_coe,
    List.map_append, List.map_append, List.map_cons]
  exact List.perm_middle

/-- Pending work is under some ticket. -/
theorem exists_find {pool : Pool Work} {work : Work}
    (member : work ∈ pool.values) :
    ∃ ticket, pool.find? ticket = some work := by
  obtain ⟨item, itemMember, rfl⟩ := List.mem_map.mp member
  exact ⟨item.1, find?_of_mem_items itemMember⟩

end Pool

namespace Network

variable {Client State Server Measure : Type*} [Fintype Client]
  [DecidableEq Client] [AddCommMonoid Measure]

/-- What all clients together add up to. -/
def total (measure : State → Measure)
    (network : Network Client State Server) : Measure :=
  ∑ client, measure (network.clients client)

/-- The share of the other clients. -/
def share (measure : State → Measure)
    (network : Network Client State Server) (client : Client) : Measure :=
  ∑ other ∈ Finset.univ.erase client, measure (network.clients other)

theorem total_eq (measure : State → Measure)
    (network : Network Client State Server) (client : Client) :
    network.total measure =
      measure (network.clients client) + network.share measure client :=
  (Finset.add_sum_erase _ _ (Finset.mem_univ client)).symm

/-- A move of one client changes its own summand. -/
theorem total_moved (measure : State → Measure)
    (network : Network Client State Server) (client : Client)
    (server : Server) (state : State) :
    (network.moved client server state).total measure =
      measure state + network.share measure client := by
  rw [total_eq measure _ client, moved_clients_self]
  congr 1
  apply Finset.sum_congr rfl
  intro other isOther
  rw [moved_clients_of_ne _ _ _ (Finset.ne_of_mem_erase isOther)]

end Network
