/-
Module: AppLPS.Machine.Pool
Purpose: Pools of pending work, addressed by tickets that are never reused.
Trusted boundary: none
Main exports: Pool, Pool.submitAll, Pool.find?, Pool.remove, Pool.update,
  Pool.exists_split, Pool.All, Pool.Any, Pool.Each, Pool.yields
-/
import Mathlib.Data.List.Nodup
import Mathlib.Data.List.Perm.Basic

/-!
A pool holds the work that has been submitted and not yet removed, oldest
first.  Every submission receives a fresh ticket, so a ticket names one piece
of work for the whole life of the pool.  Work may be removed or rewritten in
any order.

`Pool.exists_split` is the rule the rest is read from: a ticket that is present
cuts the pool at one place, and removing or updating it changes that place
only.
-/

/-- Pending work with distinct tickets below the next one to be issued. -/
structure Pool (Work : Type*) where
  next : Nat
  items : List (Nat × Work)
  bounded : ∀ item ∈ items, item.1 < next
  distinct : (items.map Prod.fst).Nodup

namespace Pool

variable {Work Result : Type*}

@[ext] theorem ext {first second : Pool Work}
    (sameNext : first.next = second.next)
    (sameItems : first.items = second.items) : first = second := by
  cases first
  cases second
  cases sameNext
  cases sameItems
  rfl

/-- Nothing is pending and no ticket was ever issued. -/
def empty : Pool Work where
  next := 0
  items := []
  bounded := by simp
  distinct := by simp

instance : Inhabited (Pool Work) := ⟨empty⟩

/-- The pending work, oldest first. -/
def values (pool : Pool Work) : List Work := pool.items.map Prod.snd

/-- Submit one piece of work under the next ticket. -/
def submit (pool : Pool Work) (work : Work) : Pool Work where
  next := pool.next + 1
  items := pool.items ++ [(pool.next, work)]
  bounded := by
    intro item member
    rcases List.mem_append.mp member with old | new
    · exact Nat.lt_succ_of_lt (pool.bounded item old)
    · cases List.mem_singleton.mp new
      exact Nat.lt_succ_self _
  distinct := by
    rw [List.map_append, List.nodup_append]
    refine ⟨pool.distinct, by simp, ?_⟩
    intro ticket old ticket' new
    obtain ⟨item, member, rfl⟩ := List.mem_map.mp old
    cases List.mem_singleton.mp new
    exact Nat.ne_of_lt (pool.bounded item member)

/-- Submit several pieces of work in order. -/
def submitAll (pool : Pool Work) (works : List Work) : Pool Work :=
  works.foldl submit pool

/-- The work under a ticket. -/
def find? (pool : Pool Work) (ticket : Nat) : Option Work :=
  (pool.items.find? fun item => item.1 == ticket).map Prod.snd

/-- Drop the work under a ticket. -/
def remove (pool : Pool Work) (ticket : Nat) : Pool Work where
  next := pool.next
  items := pool.items.filter fun item => item.1 != ticket
  bounded := fun item member =>
    pool.bounded item (List.mem_filter.mp member).1
  distinct := pool.distinct.sublist (List.filter_sublist.map Prod.fst)

/-- Rewrite the work under a ticket in place. -/
def update (pool : Pool Work) (ticket : Nat) (change : Work → Work) :
    Pool Work where
  next := pool.next
  items := pool.items.map fun item =>
    if item.1 = ticket then (item.1, change item.2) else item
  bounded := by
    intro item member
    obtain ⟨old, oldMember, rfl⟩ := List.mem_map.mp member
    split
    · exact pool.bounded old oldMember
    · exact pool.bounded old oldMember
  distinct := by
    have sameTickets :
        (pool.items.map fun item =>
          if item.1 = ticket then (item.1, change item.2) else item).map
            Prod.fst = pool.items.map Prod.fst := by
      rw [List.map_map]
      apply List.map_congr_left
      intro item _
      simp only [Function.comp_apply]
      split <;> rfl
    rw [sameTickets]
    exact pool.distinct

@[simp] theorem values_empty : (empty : Pool Work).values = [] := rfl

@[simp] theorem submitAll_nil (pool : Pool Work) :
    pool.submitAll [] = pool := rfl

@[simp] theorem submitAll_cons (pool : Pool Work) (work : Work)
    (works : List Work) :
    pool.submitAll (work :: works) = (pool.submit work).submitAll works := rfl

@[simp] theorem values_submit (pool : Pool Work) (work : Work) :
    (pool.submit work).values = pool.values ++ [work] := by
  simp [values, submit]

@[simp] theorem values_submitAll (pool : Pool Work) (works : List Work) :
    (pool.submitAll works).values = pool.values ++ works := by
  induction works generalizing pool with
  | nil => simp
  | cons work works inductionHypothesis =>
      rw [submitAll_cons, inductionHypothesis, values_submit]
      simp

theorem next_submitAll (pool : Pool Work) (works : List Work) :
    (pool.submitAll works).next = pool.next + works.length := by
  induction works generalizing pool with
  | nil => rfl
  | cons work works inductionHypothesis =>
      rw [submitAll_cons, inductionHypothesis]
      simp only [submit, List.length_cons]
      omega

/-- The tickets of a batch are consecutive and start at the next one. -/
theorem items_submitAll (pool : Pool Work) (works : List Work) :
    (pool.submitAll works).items =
      pool.items ++ works.mapIdx fun index work => (pool.next + index, work) := by
  induction works generalizing pool with
  | nil => simp
  | cons work works inductionHypothesis =>
      rw [submitAll_cons, inductionHypothesis, List.mapIdx_cons]
      simp [submit, Nat.add_comm, Nat.add_left_comm]

/-- The work of a batch by its position in it. -/
theorem mem_items_submitAll_iff {pool : Pool Work} {works : List Work}
    {item : Nat × Work} :
    item ∈ (pool.submitAll works).items ↔
      item ∈ pool.items ∨
        ∃ index, works[index]? = some item.2 ∧ item.1 = pool.next + index := by
  rw [items_submitAll, List.mem_append, List.mem_mapIdx]
  apply or_congr_right
  constructor
  · intro isIssued
    obtain ⟨index, inRange, rfl⟩ := isIssued
    exact ⟨index, List.getElem?_eq_getElem inRange, rfl⟩
  · intro isIssued
    obtain ⟨index, atIndex, ticketEq⟩ := isIssued
    obtain ⟨inRange, workEq⟩ := List.getElem?_eq_some_iff.mp atIndex
    exact ⟨index, inRange, Prod.ext ticketEq.symm workEq⟩

/-- A present ticket cuts the pool at one place; removing or updating it
changes that place only. -/
theorem exists_split {pool : Pool Work} {ticket : Nat} {work : Work}
    (found : pool.find? ticket = some work) :
    ∃ before after,
      pool.items = before ++ (ticket, work) :: after ∧
      (pool.remove ticket).items = before ++ after ∧
      ∀ change, (pool.update ticket change).items =
        before ++ (ticket, change work) :: after := by
  obtain ⟨⟨ticket', work'⟩, foundItem, rfl⟩ := Option.map_eq_some_iff.mp found
  obtain ⟨here, before, after, itemsEq, earlier⟩ :=
    List.find?_eq_some_iff_append.mp foundItem
  have sameTicket : ticket' = ticket := eq_of_beq here
  subst ticket'
  have distinct := pool.distinct
  rw [itemsEq, List.map_append, List.map_cons, List.nodup_append,
    List.nodup_cons] at distinct
  have beforeNe : ∀ item ∈ before, item.1 ≠ ticket := fun item member =>
    distinct.2.2 item.1 (List.mem_map.mpr ⟨item, member, rfl⟩) ticket
      List.mem_cons_self
  have afterNe : ∀ item ∈ after, item.1 ≠ ticket := by
    intro item member same
    exact distinct.2.1.1 (List.mem_map.mpr ⟨item, member, same⟩)
  refine ⟨before, after, itemsEq, ?_, fun change => ?_⟩
  · have keepBefore :
        before.filter (fun item => item.1 != ticket) = before :=
      List.filter_eq_self.mpr fun item member => by
        simpa using beforeNe item member
    have keepAfter :
        after.filter (fun item => item.1 != ticket) = after :=
      List.filter_eq_self.mpr fun item member => by
        simpa using afterNe item member
    simp [remove, itemsEq, keepBefore, keepAfter]
  · have fixes : ∀ items : List (Nat × Work),
        (∀ item ∈ items, item.1 ≠ ticket) →
        items.map (fun item =>
          if item.1 = ticket then (item.1, change item.2) else item) =
            items := by
      intro items ne
      calc
        items.map (fun item =>
            if item.1 = ticket then (item.1, change item.2) else item)
          = items.map id :=
              List.map_congr_left fun item member => by simp [ne item member]
        _ = items := List.map_id items
    simp [update, itemsEq, fixes before beforeNe, fixes after afterNe]

theorem mem_items_of_find? {pool : Pool Work} {ticket : Nat} {work : Work}
    (found : pool.find? ticket = some work) : (ticket, work) ∈ pool.items := by
  obtain ⟨before, after, itemsEq, _⟩ := exists_split found
  rw [itemsEq]
  simp

theorem find?_of_mem_items {pool : Pool Work} {ticket : Nat} {work : Work}
    (member : (ticket, work) ∈ pool.items) :
    pool.find? ticket = some work := by
  cases found : pool.find? ticket with
  | none =>
      simp only [find?, Option.map_eq_none_iff, List.find?_eq_none] at found
      simpa using found _ member
  | some other =>
      have otherMember := mem_items_of_find? found
      have same := List.inj_on_of_nodup_map pool.distinct member otherMember rfl
      cases same
      rfl

theorem mem_values_of_find? {pool : Pool Work} {ticket : Nat} {work : Work}
    (found : pool.find? ticket = some work) : work ∈ pool.values :=
  List.mem_map.mpr ⟨_, mem_items_of_find? found, rfl⟩

/-- `exists_split` read on the work alone. -/
theorem exists_values_split {pool : Pool Work} {ticket : Nat} {work : Work}
    (found : pool.find? ticket = some work) :
    ∃ before after,
      pool.values = before ++ work :: after ∧
      (pool.remove ticket).values = before ++ after ∧
      ∀ change, (pool.update ticket change).values =
        before ++ change work :: after := by
  obtain ⟨before, after, itemsEq, removed, updated⟩ := exists_split found
  refine ⟨before.map Prod.snd, after.map Prod.snd, ?_, ?_, fun change => ?_⟩
  · simp [values, itemsEq]
  · simp [values, removed]
  · simp [values, updated]

/-- An update leaves all other work. -/
theorem mem_values_update {pool : Pool Work} {ticket : Nat} {work other : Work}
    (found : pool.find? ticket = some work) (change : Work → Work)
    (member : other ∈ pool.values) :
    other ∈ (pool.update ticket change).values ∨ other = work := by
  obtain ⟨before, after, valuesEq, _, updated⟩ := exists_values_split found
  rw [updated]
  rw [valuesEq] at member
  rcases List.mem_append.mp member with old | rest
  · exact .inl (List.mem_append_left _ old)
  · rcases List.mem_cons.mp rest with here | old
    · exact .inr here
    · exact .inl (List.mem_append_right _ (List.mem_cons_of_mem _ old))

/-- Removing one piece of work leaves all other work. -/
theorem mem_values_remove {pool : Pool Work} {ticket : Nat} {work other : Work}
    (found : pool.find? ticket = some work) (member : other ∈ pool.values) :
    other ∈ (pool.remove ticket).values ∨ other = work := by
  obtain ⟨before, after, valuesEq, removed, _⟩ := exists_values_split found
  rw [removed]
  rw [valuesEq] at member
  rcases List.mem_append.mp member with old | rest
  · exact .inl (List.mem_append_left _ old)
  · rcases List.mem_cons.mp rest with here | old
    · exact .inr here
    · exact .inl (List.mem_append_right _ old)

theorem mem_values_update_self {pool : Pool Work} {ticket : Nat} {work : Work}
    (found : pool.find? ticket = some work) (change : Work → Work) :
    change work ∈ (pool.update ticket change).values := by
  obtain ⟨before, after, _, _, updated⟩ := exists_values_split found
  rw [updated]
  exact List.mem_append_right _ List.mem_cons_self

theorem mem_items_update {pool : Pool Work} {ticket : Nat}
    {change : Work → Work} {item : Nat × Work} :
    item ∈ (pool.update ticket change).items ↔
      ∃ old ∈ pool.items,
        item = if old.1 = ticket then (old.1, change old.2) else old := by
  simp [update, eq_comm]

theorem find?_update {pool : Pool Work} {ticket : Nat} {work : Work}
    (found : pool.find? ticket = some work) (change : Work → Work) :
    (pool.update ticket change).find? ticket = some (change work) := by
  apply find?_of_mem_items
  apply mem_items_update.mpr
  exact ⟨(ticket, work), mem_items_of_find? found, by simp⟩

theorem length_values_update (pool : Pool Work) (ticket : Nat)
    (change : Work → Work) :
    (pool.update ticket change).values.length = pool.values.length := by
  simp [values, update]

theorem length_values_remove {pool : Pool Work} {ticket : Nat} {work : Work}
    (found : pool.find? ticket = some work) :
    (pool.remove ticket).values.length + 1 = pool.values.length := by
  obtain ⟨before, after, valuesEq, removed, _⟩ := exists_values_split found
  rw [valuesEq, removed]
  simp only [List.length_append, List.length_cons]
  omega

theorem mem_items_remove {pool : Pool Work} {ticket : Nat}
    {item : Nat × Work} :
    item ∈ (pool.remove ticket).items ↔
      item ∈ pool.items ∧ item.1 ≠ ticket := by
  simp [remove]

/-! ## Predicates on all pending work -/

/-- Every piece of pending work satisfies the predicate. -/
def All (holds : Work → Prop) (pool : Pool Work) : Prop :=
  ∀ work ∈ pool.values, holds work

theorem all_empty (holds : Work → Prop) : (empty : Pool Work).All holds := by
  simp [All]

theorem All.mono {holds weaker : Work → Prop} {pool : Pool Work}
    (implies : ∀ work, holds work → weaker work) (all : pool.All holds) :
    pool.All weaker :=
  fun work member => implies work (all work member)

theorem All.of_find? {holds : Work → Prop} {pool : Pool Work} {ticket : Nat}
    {work : Work} (all : pool.All holds)
    (found : pool.find? ticket = some work) : holds work :=
  all work (mem_values_of_find? found)

theorem All.submitAll {holds : Work → Prop} {pool : Pool Work}
    {works : List Work} (all : pool.All holds)
    (fresh : ∀ work ∈ works, holds work) :
    (pool.submitAll works).All holds := by
  intro work member
  rw [values_submitAll] at member
  rcases List.mem_append.mp member with old | new
  · exact all work old
  · exact fresh work new

theorem All.remove {holds : Work → Prop} {pool : Pool Work}
    (all : pool.All holds) (ticket : Nat) : (pool.remove ticket).All holds := by
  intro work member
  obtain ⟨item, itemMember, rfl⟩ := List.mem_map.mp member
  exact all item.2
    (List.mem_map.mpr ⟨item, (mem_items_remove.mp itemMember).1, rfl⟩)

theorem All.update {holds : Work → Prop} {pool : Pool Work} {ticket : Nat}
    {work : Work} {change : Work → Work} (all : pool.All holds)
    (found : pool.find? ticket = some work) (changed : holds (change work)) :
    (pool.update ticket change).All holds := by
  obtain ⟨before, after, valuesEq, _, updated⟩ := exists_values_split found
  intro other member
  rw [updated] at member
  rcases List.mem_append.mp member with old | rest
  · exact all other (by simp [valuesEq, old])
  · rcases List.mem_cons.mp rest with here | old
    · rw [here]
      exact changed
    · exact all other (by simp [valuesEq, old])

/-! ## Predicates on some pending work -/

/-- Some piece of pending work satisfies the predicate. -/
def Any (holds : Work → Prop) (pool : Pool Work) : Prop :=
  ∃ work ∈ pool.values, holds work

theorem not_any_of_no_values {holds : Work → Prop} {pool : Pool Work}
    (nothing : pool.values = []) : ¬ pool.Any holds := by
  intro any
  obtain ⟨work, member, _⟩ := any
  rw [nothing] at member
  cases member

theorem Any.submitAll {holds : Work → Prop} {pool : Pool Work}
    (any : pool.Any holds) (works : List Work) :
    (pool.submitAll works).Any holds := by
  obtain ⟨work, member, workHolds⟩ := any
  exact ⟨work, by simp [member], workHolds⟩

theorem any_submitAll_of_mem {holds : Work → Prop} {pool : Pool Work}
    {works : List Work} {work : Work} (member : work ∈ works)
    (workHolds : holds work) : (pool.submitAll works).Any holds :=
  ⟨work, by simp [member], workHolds⟩

/-- Rewriting work keeps what the change keeps. -/
theorem Any.update {holds : Work → Prop} {pool : Pool Work} {ticket : Nat}
    {work : Work} {change : Work → Work} (any : pool.Any holds)
    (found : pool.find? ticket = some work)
    (kept : holds work → holds (change work)) :
    (pool.update ticket change).Any holds := by
  obtain ⟨other, member, otherHolds⟩ := any
  rcases mem_values_update found change member with stays | same
  · exact ⟨other, stays, otherHolds⟩
  · subst same
    exact ⟨change other, mem_values_update_self found change, kept otherHolds⟩

/-- Removing other work takes nothing away. -/
theorem Any.remove {holds : Work → Prop} {pool : Pool Work} {ticket : Nat}
    {work : Work} (any : pool.Any holds)
    (found : pool.find? ticket = some work) (isOther : ¬ holds work) :
    (pool.remove ticket).Any holds := by
  obtain ⟨other, member, otherHolds⟩ := any
  rcases mem_values_remove found member with stays | same
  · exact ⟨other, stays, otherHolds⟩
  · subst same
    exact absurd otherHolds isOther

/-! ## Predicates on tickets and their work -/

/-- Every piece of pending work satisfies the predicate with its ticket. -/
def Each (holds : Nat → Work → Prop) (pool : Pool Work) : Prop :=
  ∀ item ∈ pool.items, holds item.1 item.2

theorem Each.of_find? {holds : Nat → Work → Prop} {pool : Pool Work}
    {ticket : Nat} {work : Work} (each : pool.Each holds)
    (found : pool.find? ticket = some work) : holds ticket work :=
  each (ticket, work) (mem_items_of_find? found)

theorem Each.submitAll {holds : Nat → Work → Prop} {pool : Pool Work}
    {works : List Work} (each : pool.Each holds)
    (fresh : ∀ index work, works[index]? = some work →
      holds (pool.next + index) work) :
    (pool.submitAll works).Each holds := by
  intro item member
  rcases mem_items_submitAll_iff.mp member with old | ⟨index, atIndex, ticketEq⟩
  · exact each item old
  · rw [ticketEq]
    exact fresh index item.2 atIndex

theorem Each.remove {holds weaker : Nat → Work → Prop} {pool : Pool Work}
    {ticket : Nat}
    (implies : ∀ other work, other ≠ ticket → holds other work →
      weaker other work)
    (each : pool.Each holds) : (pool.remove ticket).Each weaker := by
  intro item member
  have ⟨old, ne⟩ := mem_items_remove.mp member
  exact implies item.1 item.2 ne (each item old)

theorem Each.update {holds : Nat → Work → Prop} {pool : Pool Work}
    {ticket : Nat} {change : Work → Work}
    (changed : ∀ work, pool.find? ticket = some work → holds ticket work →
      holds ticket (change work))
    (each : pool.Each holds) : (pool.update ticket change).Each holds := by
  intro item member
  obtain ⟨old, oldMember, rfl⟩ := mem_items_update.mp member
  split
  · rename_i here
    subst here
    exact changed old.2 (find?_of_mem_items oldMember) (each old oldMember)
  · exact each old oldMember

/-! ## What the pending work will yield -/

/-- The results that the pending work will yield, oldest first. -/
def yields (produce : Work → Option Result) (pool : Pool Work) : List Result :=
  pool.values.filterMap produce

theorem yields_of_no_values (produce : Work → Option Result)
    {pool : Pool Work} (nothing : pool.values = []) :
    pool.yields produce = [] := by
  rw [yields, nothing, List.filterMap_nil]

theorem yields_submitAll (produce : Work → Option Result) (pool : Pool Work)
    (works : List Work) :
    (pool.submitAll works).yields produce =
      pool.yields produce ++ works.filterMap produce := by
  rw [yields, values_submitAll, List.filterMap_append, yields]

/-- Removing work takes away what it would have yielded. -/
theorem yields_remove_perm (produce : Work → Option Result)
    {pool : Pool Work} {ticket : Nat} {work : Work}
    (found : pool.find? ticket = some work) :
    (pool.yields produce).Perm
      ((produce work).toList ++ (pool.remove ticket).yields produce) := by
  obtain ⟨before, after, valuesEq, removed, _⟩ := exists_values_split found
  rw [yields, yields, valuesEq, removed, List.filterMap_append,
    List.filterMap_cons, List.filterMap_append]
  cases produce work with
  | none => exact List.Perm.refl _
  | some result => exact List.perm_middle

/-- Rewriting work replaces what it would have yielded. -/
theorem yields_update_perm (produce : Work → Option Result)
    {pool : Pool Work} {ticket : Nat} {work : Work}
    (found : pool.find? ticket = some work) (change : Work → Work) :
    ((pool.update ticket change).yields produce).Perm
      ((produce (change work)).toList ++ (pool.remove ticket).yields produce) := by
  obtain ⟨before, after, _, removed, updated⟩ := exists_values_split found
  rw [yields, yields, updated, removed, List.filterMap_append,
    List.filterMap_cons, List.filterMap_append]
  cases produce (change work) with
  | none => exact List.Perm.refl _
  | some result => exact List.perm_middle

/-- Rewriting work that yields the same changes nothing. -/
theorem yields_update (produce : Work → Option Result)
    {pool : Pool Work} {ticket : Nat} {work : Work}
    (found : pool.find? ticket = some work) {change : Work → Work}
    (same : produce (change work) = produce work) :
    (pool.update ticket change).yields produce = pool.yields produce := by
  obtain ⟨before, after, valuesEq, _, updated⟩ := exists_values_split found
  rw [yields, yields, valuesEq, updated, List.filterMap_append,
    List.filterMap_cons, List.filterMap_append, List.filterMap_cons, same]

end Pool
