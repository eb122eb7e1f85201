/-
Module: AppLPS.Proofs.MergedView
Purpose: In every run of a transaction its iterators read the database as
  `Commit` would leave it, whatever is changed between their steps.
Trusted boundary: none
Main exports: Meets, LevelDbTransaction.view, LevelDbTransaction.Positioned,
  LevelDbTransaction.Sound, LevelDbTransaction.iterators_read_view,
  LevelDbTransaction.Scans, LevelDbTransaction.scan_visits_rows
-/
import AppLPS.Firestore.LevelDbTransaction
import Mathlib.Algebra.Order.Ring.Int
import Mathlib.Data.List.TakeWhile
import Mathlib.Logic.Function.Basic
import Mathlib.Order.Monotone.Basic

namespace AppLPS

/-! ## Calls that may fail -/

section Meets

variable {Fault Result Next : Type} {allowed : Fault → Prop}

/-- A call returns what a condition asks for, or fails as it may. -/
inductive Meets (allowed : Fault → Prop) (post : Result → Prop) :
    Except Fault Result → Prop where
  | ok {result : Result} (holds : post result) : Meets allowed post (.ok result)
  | error {fault : Fault} (isAllowed : allowed fault) :
      Meets allowed post (.error fault)

theorem Meets.bind {middle : Result → Prop} {post : Next → Prop}
    {computed : Except Fault Result} {continued : Result → Except Fault Next}
    (first : Meets allowed middle computed)
    (rest : ∀ result, middle result → Meets allowed post (continued result)) :
    Meets allowed post (computed >>= continued) := by
  cases first with
  | ok holds => exact rest _ holds
  | error isAllowed => exact .error isAllowed

theorem Meets.of_ok {post : Result → Prop} {result : Result}
    (meets : Meets allowed post (.ok result)) : post result := by
  cases meets with
  | ok holds => exact holds

/-- A call that may not fail returns. -/
theorem Meets.exists_ok {post : Result → Prop} {computed : Except Fault Result}
    (meets : Meets allowed post computed) (never : ∀ fault, ¬allowed fault) :
    ∃ result, computed = .ok result ∧ post result := by
  cases meets with
  | ok holds => exact ⟨_, rfl, holds⟩
  | error isAllowed => exact absurd isAllowed (never _)

theorem Meets.mono {first second : Result → Prop}
    {computed : Except Fault Result} (meets : Meets allowed first computed)
    (weaker : ∀ result, first result → second result) :
    Meets allowed second computed := by
  cases meets with
  | ok holds => exact .ok (weaker _ holds)
  | error isAllowed => exact .error isAllowed

end Meets

namespace LevelDbTransaction

variable {κ ν : Type} [LinearOrder κ]

/-- The failed assertion on a status that LevelDB reports in a call. -/
inductive Reported (dbStatus : DbStatus κ ν) : IteratorFault → Prop where
  | status {dbIter : List (κ × ν)} {status : String}
      (reported : dbStatus dbIter = some status) :
      Reported dbStatus
        (.failedAssertion ("leveldb iterator reported an error: " ++ status))

omit [LinearOrder κ] in
theorem assertOk_spec (dbStatus : DbStatus κ ν) (dbIter : List (κ × ν)) :
    Meets (Reported dbStatus) (fun _ => True) (assertOk dbStatus dbIter) := by
  unfold assertOk
  cases reported : dbStatus dbIter with
  | none => exact .ok trivial
  | some status => exact .error (.status reported)

omit [LinearOrder κ] in
theorem not_reported (fault : IteratorFault) :
    ¬Reported (fun _ : List (κ × ν) => none) fault := by
  intro failed
  cases failed with
  | status reported => cases reported

/-! ## The view of a transaction -/

/-- What the database holds at a key that is not deleted. -/
def undeleted (txn : LevelDbTransaction κ ν) (key : κ) : Option ν :=
  if key ∈ txn.deletions then none else txn.db[key]?

/-- The changes laid over the database. -/
def view (txn : LevelDbTransaction κ ν) (key : κ) : Option ν :=
  (txn.mutations[key]?).or (txn.undeleted key)

/-- No key is both changed and deleted. -/
def Separate (txn : LevelDbTransaction κ ν) : Prop :=
  ∀ key ∈ txn.deletions, txn.mutations[key]? = none

variable {txn : LevelDbTransaction κ ν} {key other : κ} {value : ν}

theorem mem_put_deletions :
    other ∈ (txn.put key value).deletions ↔
      key ≠ other ∧ other ∈ txn.deletions := by
  simp only [put, Std.TreeSet.mem_erase, ne_eq, compare_eq_iff_eq]

theorem mem_delete_deletions :
    other ∈ (txn.delete key).deletions ↔
      key = other ∨ other ∈ txn.deletions := by
  simp only [delete, Std.TreeSet.mem_insert, compare_eq_iff_eq]

theorem put_mutations :
    (txn.put key value).mutations[other]? =
      if key = other then some value else txn.mutations[other]? := by
  simp only [put, Std.TreeMap.getElem?_insert, compare_eq_iff_eq]

theorem delete_mutations :
    (txn.delete key).mutations[other]? =
      if key = other then none else txn.mutations[other]? := by
  simp only [delete, Std.TreeMap.getElem?_erase, compare_eq_iff_eq]

theorem Separate.put (separate : txn.Separate) :
    (txn.put key value).Separate := by
  intro other deleted
  obtain ⟨ne, deleted⟩ := mem_put_deletions.mp deleted
  rw [put_mutations, if_neg ne]
  exact separate other deleted

theorem Separate.delete (separate : txn.Separate) :
    (txn.delete key).Separate := by
  intro other deleted
  rw [delete_mutations]
  split
  · rfl
  · rename_i ne
    exact separate other ((mem_delete_deletions.mp deleted).resolve_left ne)

theorem view_put :
    (txn.put key value).view = Function.update txn.view key (some value) := by
  funext other
  unfold view undeleted
  rw [put_mutations]
  by_cases same : key = other
  · subst same
    rw [if_pos rfl, Function.update_self, Option.some_or]
  · rw [if_neg same, Function.update_of_ne (Ne.symm same)]
    simp only [mem_put_deletions, ne_eq, same, not_false_eq_true, true_and]
    rfl

theorem view_delete :
    (txn.delete key).view = Function.update txn.view key none := by
  funext other
  unfold view undeleted
  rw [delete_mutations]
  by_cases same : key = other
  · subst same
    rw [if_pos rfl, Function.update_self, Option.none_or,
      if_pos (mem_delete_deletions.mpr (.inl rfl))]
  · rw [if_neg same, Function.update_of_ne (Ne.symm same)]
    simp only [mem_delete_deletions, same, false_or]
    rfl

theorem get_eq_view (separate : txn.Separate) (key : κ) :
    txn.get key = txn.view key := by
  unfold get view undeleted
  split
  · rename_i deleted
    rw [separate key deleted, Option.none_or]
  · cases txn.mutations[key]? <;> rfl

/-! ## Commit -/

/-- Committing leaves the database that the transaction has shown. -/
theorem commit_view (txn : LevelDbTransaction κ ν) (key : κ) :
    txn.commit[key]? = txn.view key := by
  unfold commit view undeleted
  rw [Std.TreeMap.getElem?_foldl_insert txn.mutations.pairwise_toList,
    Std.TreeMap.find?_toList, Std.TreeMap.getElem?_foldl_erase]
  simp only [Std.TreeSet.mem_toList]

/-! ## Positions -/

/-- A position in the changes and the rows of the database from a position on
are at the first row of the range, deleted rows left out. -/
structure Positioned (txn : LevelDbTransaction κ ν) (range : κ → Prop)
    (mutationsIter : Option κ) (dbIter : List (κ × ν)) : Prop where
  mutation : ∃ row, FirstWhere (fun key => txn.mutations[key]?) range row ∧
    mutationsIter = row.map (·.1)
  suffix : dbIter <:+ txn.db.toList
  inRange : ∀ row ∈ dbIter, range row.1
  live : ∀ row ∈ dbIter.head?, row.1 ∉ txn.deletions
  complete : ∀ row ∈ txn.db.toList, range row.1 → row.1 ∉ txn.deletions →
    row ∈ dbIter

/-- What the iterator shows is the earlier one of its positions. -/
inductive Shows (txn : LevelDbTransaction κ ν) (iterator : Iterator κ ν) :
    Prop where
  | ended (noMutation : iterator.mutationsIter = none)
      (noRow : iterator.dbIter = []) (invalid : iterator.isValid = false)
  | mutation (position : iterator.mutationsIter = some iterator.current.1)
      (held : txn.mutations[iterator.current.1]? = some iterator.current.2)
      (valid : iterator.isValid = true) (isMutation : iterator.isMutation = true)
      (before : ∀ row ∈ iterator.dbIter.head?, iterator.current.1 ≤ row.1)
  | row {rows : List (κ × ν)}
      (position : iterator.dbIter = iterator.current :: rows)
      (valid : iterator.isValid = true) (isRow : iterator.isMutation = false)
      (before : ∀ key ∈ iterator.mutationsIter, iterator.current.1 < key)

/-- An iterator that has seen all changes and is at the first row of a
range. -/
structure At (txn : LevelDbTransaction κ ν) (range : κ → Prop)
    (iterator : Iterator κ ν) : Prop where
  synced : iterator.lastVersion = txn.version
  positioned : Positioned txn range iterator.mutationsIter iterator.dbIter
  shows : Shows txn iterator

variable {range : κ → Prop} {iterator : Iterator κ ν}
  {mutationsIter : Option κ} {dbIter : List (κ × ν)}

theorem Positioned.ascending
    (positioned : Positioned txn range mutationsIter dbIter) :
    dbIter.Pairwise fun first second => first.1 < second.1 :=
  txn.db.pairwise_toList.sublist positioned.suffix.sublist

/-- The first row from the position on is the first one that is not deleted. -/
theorem Positioned.firstRow
    (positioned : Positioned txn range mutationsIter dbIter) :
    FirstWhere txn.undeleted range dbIter.head? := by
  have sameHead : (dbIter.filter fun row => row.1 ∉ txn.deletions).head? =
      dbIter.head? := by
    cases dbIter with
    | nil => rfl
    | cons row rows =>
        rw [List.filter_cons_of_pos]
        · rfl
        · exact decide_eq_true (positioned.live row rfl)
  rw [← sameHead]
  refine firstWhere_head? (positioned.ascending.filter _) ?_ ?_
  · intro row member
    exact positioned.inRange row (List.mem_filter.mp member).1
  · intro key inRange value
    rw [List.mem_filter, decide_eq_true_eq, undeleted]
    constructor
    · intro found
      rw [if_neg found.2]
      exact Std.TreeMap.row_mem_toList.mp
        (positioned.suffix.subset found.1)
    · intro held
      split at held
      · cases held
      · rename_i notDeleted
        have member := Std.TreeMap.mem_toList_iff_getElem?_eq_some.mpr held
        exact ⟨positioned.complete _ member inRange notDeleted, notDeleted⟩

/-- A positioned iterator that shows its position shows the first entry of the
view. -/
theorem Shows.entry (shows : Shows txn iterator)
    (positioned :
      Positioned txn range iterator.mutationsIter iterator.dbIter) :
    FirstWhere txn.view range iterator.entry := by
  obtain ⟨row, first, position⟩ := positioned.mutation
  have merged := first.overlay positioned.firstRow
  suffices earlierEntry row iterator.dbIter.head? = iterator.entry by
    rw [← this]
    exact merged
  unfold Iterator.entry
  cases shows with
  | ended noMutation noRow invalid =>
      rw [noMutation, eq_comm, Option.map_eq_none_iff] at position
      rw [position, noRow, invalid]
      rfl
  | mutation isPosition held valid isMutation before =>
      rw [isPosition] at position
      obtain ⟨found, rfl, isKey⟩ := Option.map_eq_some_iff.mp position.symm
      cases first with
      | found inRange foundHeld least =>
          rename_i key value
          have sameRow : (key, value) = iterator.current := by
            cases isKey
            exact Prod.ext rfl (Option.some.inj (foundHeld.symm.trans held))
          rw [sameRow, valid, if_pos rfl]
          cases under : iterator.dbIter.head? with
          | none => rfl
          | some below => exact if_pos (before below under)
  | row isPosition valid isRow before =>
      rw [isPosition, valid, if_pos rfl, List.head?_cons]
      cases row with
      | none => rfl
      | some above =>
          have later := before above.1 position
          exact if_neg (not_le.mpr later)

/-- `UpdateCurrent` shows the position. -/
theorem updateCurrent_spec
    (positioned :
      Positioned txn range iterator.mutationsIter iterator.dbIter) :
    ∃ after, iterator.updateCurrent txn = .ok after ∧
      after.mutationsIter = iterator.mutationsIter ∧
      after.dbIter = iterator.dbIter ∧
      after.lastVersion = iterator.lastVersion ∧ Shows txn after := by
  obtain ⟨dbIter, lastVersion, mutationsIter, current, isMutation, isValid⟩ :=
    iterator
  obtain ⟨row, first, position⟩ := positioned.mutation
  dsimp only at position
  cases first with
  | absent =>
      cases position
      cases dbIter with
      | nil => exact ⟨_, rfl, rfl, rfl, rfl, .ended rfl rfl rfl⟩
      | cons row rows =>
          refine ⟨_, rfl, rfl, rfl, rfl, .row rfl rfl rfl ?_⟩
          intro key isKey
          cases isKey
  | found inRange held least =>
      rename_i key value
      cases position
      have mutationAt : txn.mutationAt key = .ok (key, value) := by
        rw [LevelDbTransaction.mutationAt, held]
      cases dbIter with
      | nil =>
          simp only [Iterator.updateCurrent, Option.map_some, mutationAt,
            ok_bind]
          refine ⟨_, rfl, rfl, rfl, rfl, .mutation rfl held rfl rfl ?_⟩
          intro row isRow
          cases isRow
      | cons row rows =>
          simp only [Iterator.updateCurrent, Option.map_some, mutationAt,
            ok_bind]
          by_cases before : key ≤ row.1
          · rw [if_pos before]
            refine ⟨_, rfl, rfl, rfl, rfl, .mutation rfl held rfl rfl ?_⟩
            intro first isFirst
            cases isFirst
            exact before
          · rw [if_neg before]
            refine ⟨_, rfl, rfl, rfl, rfl, .row rfl rfl rfl ?_⟩
            intro other isOther
            cases isOther
            exact not_le.mp before

/-! ## Seek -/

/-- Leaving out deleted rows at the front keeps the position. -/
theorem positioned_skipDeleted
    (mutation : ∃ row,
      FirstWhere (fun key => txn.mutations[key]?) range row ∧
        mutationsIter = row.map (·.1))
    (suffix : dbIter <:+ txn.db.toList)
    (inRange : ∀ row ∈ dbIter, range row.1)
    (complete : ∀ row ∈ txn.db.toList, range row.1 →
      row.1 ∉ txn.deletions → row ∈ dbIter) :
    Positioned txn range mutationsIter (txn.skipDeleted dbIter) where
  mutation := mutation
  suffix := (List.dropWhile_suffix _).trans suffix
  inRange := fun row member =>
    inRange row ((List.dropWhile_suffix _).subset member)
  live := by
    intro row isFirst deleted
    have stopped := List.head?_dropWhile_not
      (fun row : κ × ν => decide (row.1 ∈ txn.deletions)) dbIter
    rw [skipDeleted] at isFirst
    rw [Option.mem_def.mp isFirst] at stopped
    exact Bool.eq_false_iff.mp stopped (decide_eq_true deleted)
  complete := by
    intro row member rowInRange notDeleted
    have held := complete row member rowInRange notDeleted
    rw [← List.takeWhile_append_dropWhile (l := dbIter)
      (p := fun row => decide (row.1 ∈ txn.deletions))] at held
    refine (List.mem_append.mp held).resolve_left ?_
    intro skipped
    have deleted := List.mem_takeWhile_imp skipped
    exact notDeleted (by simpa using deleted)

/-- `Seek` stops at the first entry of the view from the key on. -/
theorem seek_spec (iterator : Iterator κ ν) (txn : LevelDbTransaction κ ν)
    (dbStatus : DbStatus κ ν) (key : κ) :
    Meets (Reported dbStatus) (At txn (key ≤ ·))
      (iterator.seek txn dbStatus key) := by
  let sought : Iterator κ ν :=
    { iterator with
      dbIter := txn.skipDeleted
        (txn.db.toList.dropWhile fun row => decide (row.1 < key))
      mutationsIter :=
        (txn.mutations.toList.find? fun row => key ≤ row.1).map (·.1) }
  have positioned :
      Positioned txn (key ≤ ·) sought.mutationsIter sought.dbIter := by
    refine positioned_skipDeleted
      ⟨_, firstWhere_find? txn.mutations (key ≤ ·), rfl⟩
      (List.dropWhile_suffix _) ?_ ?_
    · intro row member
      rw [dropWhile_lt_eq_filter txn.db.pairwise_toList] at member
      exact of_decide_eq_true (List.mem_filter.mp member).2
    · intro row member inRange _
      rw [dropWhile_lt_eq_filter txn.db.pairwise_toList]
      exact List.mem_filter.mpr ⟨member, decide_eq_true inRange⟩
  obtain ⟨after, updated, mutationsEq, dbEq, _, shows⟩ :=
    updateCurrent_spec positioned
  unfold Iterator.seek
  refine (assertOk_spec dbStatus _).bind fun _ _ => ?_
  refine (assertOk_spec dbStatus _).bind fun _ _ => ?_
  change Meets _ _ (sought.updateCurrent txn >>= _)
  rw [updated, ok_bind]
  refine .ok ⟨rfl, ?_, ?_⟩
  · dsimp only
    rw [mutationsEq, dbEq]
    exact positioned
  · cases shows with
    | ended noMutation noRow invalid => exact .ended noMutation noRow invalid
    | mutation position held valid isMutation before =>
        exact .mutation position held valid isMutation before
    | row position valid isRow before => exact .row position valid isRow before

/-! ## Next -/

/-- Passing the first row of the database leaves the position behind it. -/
theorem Positioned.passRow {row : κ × ν} {rows : List (κ × ν)}
    {later : Option κ}
    (positioned : Positioned txn range mutationsIter (row :: rows))
    (upward : Monotone range)
    (mutation : ∃ first,
      FirstWhere (fun key => txn.mutations[key]?) (row.1 < ·) first ∧
        later = first.map (·.1)) :
    Positioned txn (row.1 < ·) later (txn.skipDeleted rows) := by
  refine positioned_skipDeleted mutation
    ((List.suffix_cons row rows).trans positioned.suffix) ?_ ?_
  · intro later member
    exact List.rel_of_pairwise_cons positioned.ascending member
  · intro later member after notDeleted
    have inRange : range later.1 :=
      upward after.le (positioned.inRange row List.mem_cons_self)
    rcases List.mem_cons.mp
      (positioned.complete later member inRange notDeleted) with isRow | member
    · rw [isRow] at after
      exact absurd after (lt_irrefl _)
    · exact member

/-- The rows of the database that lie behind a key stay where they are. -/
theorem Positioned.keepRows {key : κ} {later : Option κ}
    (positioned : Positioned txn range mutationsIter dbIter)
    (upward : Monotone range) (inRange : range key)
    (before : ∀ row ∈ dbIter.head?, key < row.1)
    (mutation : ∃ first,
      FirstWhere (fun key => txn.mutations[key]?) (key < ·) first ∧
        later = first.map (·.1)) :
    Positioned txn (key < ·) later dbIter where
  mutation := mutation
  suffix := positioned.suffix
  inRange := by
    intro row member
    cases dbIter with
    | nil => cases member
    | cons first rows =>
        have firstAfter := before first rfl
        rcases List.mem_cons.mp member with isFirst | member
        · rw [isFirst]
          exact firstAfter
        · exact firstAfter.trans
            (List.rel_of_pairwise_cons positioned.ascending member)
  live := positioned.live
  complete := fun row member after =>
    positioned.complete row member (upward after.le inRange)

variable {dbStatus : DbStatus κ ν}

theorem advanceLDB_spec (row : κ × ν) (rows : List (κ × ν)) :
    Meets (Reported dbStatus) (· = txn.skipDeleted rows)
      (Iterator.advanceLDB txn dbStatus (row :: rows)) :=
  (assertOk_spec dbStatus _).bind fun _ _ => .ok rfl

/-- An iterator whose positions have moved behind the row that it shows. -/
structure Advanced (txn : LevelDbTransaction κ ν) (key : κ)
    (iterator : Iterator κ ν) : Prop where
  synced : iterator.lastVersion = txn.version
  positioned :
    Positioned txn (key < ·) iterator.mutationsIter iterator.dbIter

/-- From a row of the database the iterator goes to the next one. -/
theorem nextRow_spec {rows : List (κ × ν)} (at_ : At txn range iterator)
    (upward : Monotone range)
    (position : iterator.dbIter = iterator.current :: rows)
    (before : ∀ key ∈ iterator.mutationsIter, iterator.current.1 < key) :
    Meets (Reported dbStatus) (Advanced txn iterator.current.1)
      (iterator.nextRow txn dbStatus) := by
  have positioned := at_.positioned
  obtain ⟨first, isFirst, isPosition⟩ := positioned.mutation
  rw [position] at positioned
  have inRange := positioned.inRange _ List.mem_cons_self
  unfold Iterator.nextRow
  rw [position]
  refine (advanceLDB_spec _ rows).bind ?_
  rintro _ rfl
  refine .ok ⟨at_.synced, positioned.passRow upward ⟨first, ?_, isPosition⟩⟩
  refine isFirst.narrow (fun key after => upward after.le inRange) ?_
  intro row isRow
  rw [Option.mem_def.mp isRow] at isPosition
  exact before row.1 isPosition

/-- From a changed row the iterator goes to the next one, past the row of the
database under it. -/
theorem nextMutation_spec (at_ : At txn range iterator)
    (upward : Monotone range) (inRange : range iterator.current.1)
    (position : iterator.mutationsIter = some iterator.current.1)
    (held : txn.mutations[iterator.current.1]? = some iterator.current.2)
    (before : ∀ row ∈ iterator.dbIter.head?, iterator.current.1 ≤ row.1) :
    Meets (Reported dbStatus) (Advanced txn iterator.current.1)
      (iterator.nextMutation txn dbStatus) := by
  have positioned := at_.positioned
  have later := firstWhere_find? txn.mutations (iterator.current.1 < ·)
  have mutationAt :
      txn.mutationAt iterator.current.1 = .ok iterator.current := by
    rw [LevelDbTransaction.mutationAt, held]
  simp only [Iterator.nextMutation, position, mutationAt, ok_bind]
  cases rowsEq : iterator.dbIter with
  | nil =>
      rw [rowsEq] at positioned
      refine .ok ⟨at_.synced, ?_⟩
      refine positioned.keepRows upward inRange ?_ ⟨_, later, rfl⟩
      intro row isRow
      cases isRow
  | cons row rows =>
      rw [rowsEq] at positioned before
      by_cases shadowed : row.1 = iterator.current.1
      · simp only [if_pos shadowed]
        refine (advanceLDB_spec row rows).bind ?_
        rintro _ rfl
        refine .ok ⟨at_.synced, ?_⟩
        rw [← shadowed] at later ⊢
        exact positioned.passRow upward ⟨_, later, rfl⟩
      · simp only [if_neg shadowed, pure_bind]
        refine .ok ⟨at_.synced, ?_⟩
        refine positioned.keepRows upward inRange ?_ ⟨_, later, rfl⟩
        intro first isFirst
        exact lt_of_le_of_ne (before first isFirst)
          (by cases isFirst; exact Ne.symm shadowed)

/-- A row shown by a positioned iterator is in its range. -/
theorem At.inRange (at_ : At txn range iterator)
    (valid : iterator.isValid = true) : range iterator.current.1 := by
  refine (at_.shows.entry at_.positioned).inRange ?_
  rw [Iterator.entry, if_pos valid]

/-- The step of an iterator that has seen all changes. -/
theorem step_spec (at_ : At txn range iterator) (upward : Monotone range)
    (valid : iterator.isValid = true) :
    Meets (Reported dbStatus) (At txn (iterator.current.1 < ·))
      (iterator.advance txn dbStatus >>= fun stepped =>
        stepped.updateCurrent txn) := by
  have advanced : Meets (Reported dbStatus) (Advanced txn iterator.current.1)
      (iterator.advance txn dbStatus) := by
    cases at_.shows with
    | ended noMutation noRow invalid => cases invalid.symm.trans valid
    | mutation position held valid isMutation before =>
        rw [Iterator.advance, if_pos isMutation]
        exact nextMutation_spec at_ upward (at_.inRange valid) position held
          before
    | row position valid isRow before =>
        rw [Iterator.advance, if_neg (Bool.eq_false_iff.mp isRow)]
        exact nextRow_spec at_ upward position before
  refine advanced.bind fun middle moved => ?_
  obtain ⟨after, updated, mutationsEq, dbEq, versionEq, shows⟩ :=
    updateCurrent_spec moved.positioned
  rw [updated]
  refine .ok ⟨versionEq.trans moved.synced, ?_, shows⟩
  rw [mutationsEq, dbEq]
  exact moved.positioned

/-- An iterator is behind the transaction, or at the first row of some range
that goes up to the end. -/
structure Sound (txn : LevelDbTransaction κ ν) (iterator : Iterator κ ν) :
    Prop where
  version_le : iterator.lastVersion ≤ txn.version
  at_ : iterator.isValid = true → iterator.lastVersion = txn.version →
    ∃ range, Monotone range ∧ At txn range iterator

theorem monotone_le (key : κ) : Monotone (key ≤ ·) :=
  fun _ _ le before => before.trans le

theorem monotone_lt (key : κ) : Monotone (key < ·) :=
  fun _ _ le before => lt_of_lt_of_le before le

theorem At.sound (at_ : At txn range iterator) (upward : Monotone range) :
    Sound txn iterator where
  version_le := Int32.le_of_eq at_.synced
  at_ := fun _ _ => ⟨range, upward, at_⟩

/-- What `Next` leaves behind. -/
structure Stepped (txn : LevelDbTransaction κ ν) (key : κ)
    (iterator : Iterator κ ν) : Prop where
  sound : Sound txn iterator
  entry : FirstWhere txn.view (key < ·) iterator.entry

theorem At.stepped {key : κ} (at_ : At txn (key < ·) iterator) :
    Stepped txn key iterator where
  sound := at_.sound (monotone_lt key)
  entry := at_.shows.entry at_.positioned

/-- An iterator that has looked for its row again has made the step already, if
the row is gone. -/
theorem At.stepped_of_gone {key : κ} (at_ : At txn (key ≤ ·) iterator)
    (gone : ∀ row ∈ iterator.entry, key < row.1) : Stepped txn key iterator where
  sound := at_.sound (monotone_le key)
  entry := (at_.shows.entry at_.positioned).narrow
    (fun _ after => after.le) gone

/-- `Next` stops at the first entry of the view behind the row that was shown,
whether that row is still there or not. -/
theorem next_spec (dbStatus : DbStatus κ ν) (sound : Sound txn iterator)
    (valid : iterator.isValid = true) :
    Meets (Reported dbStatus) (Stepped txn iterator.current.1)
      (iterator.next txn dbStatus) := by
  unfold Iterator.next
  rw [if_pos valid]
  by_cases changed : iterator.lastVersion < txn.version
  · simp only [Iterator.syncToTransaction, if_pos changed, bind_assoc, ok_bind]
    refine (seek_spec iterator txn dbStatus iterator.current.1).bind ?_
    intro sought at_
    by_cases soughtValid : sought.isValid = true
    · by_cases advanced : iterator.current.1 < sought.current.1
      · simp only [soughtValid, advanced, decide_true, Bool.and_self,
          Bool.not_true, Bool.false_and, if_neg Bool.false_ne_true]
        refine .ok (at_.stepped_of_gone ?_)
        intro row isRow
        rw [Iterator.entry, soughtValid, if_pos rfl] at isRow
        cases isRow
        exact advanced
      · have same : sought.current.1 = iterator.current.1 :=
          le_antisymm (not_lt.mp advanced) (at_.inRange soughtValid)
        simp only [soughtValid, advanced, decide_false, Bool.and_false,
          Bool.not_false, Bool.and_self, if_true]
        rw [← same]
        exact (step_spec at_ (monotone_le _) soughtValid).mono
          fun after atAfter => atAfter.stepped
    · simp only [soughtValid, Bool.false_and, Bool.not_false, Bool.true_and,
        if_neg Bool.false_ne_true]
      refine .ok (at_.stepped_of_gone ?_)
      intro row isRow
      rw [Iterator.entry, if_neg soughtValid] at isRow
      cases isRow
  · have synced : iterator.lastVersion = txn.version :=
      Int32.le_antisymm sound.version_le (Int32.not_lt.mp changed)
    obtain ⟨range, upward, at_⟩ := sound.at_ valid synced
    simp only [Iterator.syncToTransaction, if_neg changed, ok_bind, valid,
      Bool.not_false, Bool.and_self, if_true]
    exact (step_spec at_ upward valid).mono fun after atAfter => atAfter.stepped

/-! ## Runs -/

/-- A version that has not run out goes up by one. -/
theorem toInt_add_one {version : Int32} (room : version.toInt + 1 < 2 ^ 31) :
    (version + 1).toInt = version.toInt + 1 := by
  have lower := version.le_toInt
  rw [Int32.toInt_add, Int32.toInt_one]
  exact Int.bmod_eq_of_le (by omega) (by omega)

theorem Change.version_make (change : Change κ ν) :
    (change.make txn).version = txn.version + 1 := by
  cases change <;> rfl

/-- A change leaves every iterator behind. -/
theorem Sound.change {after : LevelDbTransaction κ ν}
    (sound : Sound txn iterator) (counted : after.version = txn.version + 1)
    (room : txn.version.toInt + 1 < 2 ^ 31) : Sound after iterator := by
  have later : iterator.lastVersion < after.version := by
    have behind := Int32.le_iff_toInt_le.mp sound.version_le
    rw [Int32.lt_iff_toInt_lt, counted, toInt_add_one room]
    exact Int.lt_add_one_of_le behind
  exact ⟨Int32.le_of_lt later,
    fun _ synced => absurd synced (Int32.ne_of_lt later)⟩

/-- What holds in every state of a run. -/
structure Readers.Sound (readers : Readers κ ν) : Prop where
  separate : readers.txn.Separate
  sound : ∀ iterator ∈ readers.iterators, readers.txn.Sound iterator

/-- A change of the database, or nothing for the steps that read. -/
def Event.apply (contents : κ → Option ν) : Event κ ν → κ → Option ν
  | .put key value => Function.update contents key (some value)
  | .delete key => Function.update contents key none
  | _ => contents

def Event.isChange : Event κ ν → Bool
  | .put .. => true
  | .delete .. => true
  | _ => false

section Runs

variable [Inhabited κ] [Inhabited ν] {readers after : Readers κ ν}
  {event : Event κ ν}

theorem sound_newIterator (txn : LevelDbTransaction κ ν) :
    Sound txn txn.newIterator where
  version_le := Int32.le_rfl
  at_ := fun valid => absurd valid Bool.false_ne_true

omit [Inhabited κ] [Inhabited ν] in
theorem Readers.Sound.replace (sound : readers.Sound) {index : Nat}
    (newSound : readers.txn.Sound iterator) :
    Readers.Sound { readers with
      iterators := readers.iterators.set index iterator } where
  separate := sound.separate
  sound := by
    intro other member
    rcases List.mem_or_eq_of_mem_set member with old | rfl
    · exact sound.sound other old
    · exact newSound

/-- One step keeps the iterators sound while the version has not run out, and
only `Put` and `Delete` change the view. -/
theorem Readers.Sound.next (sound : readers.Sound)
    (taken : machine.next readers event = some after)
    (room : readers.txn.version.toInt + [event].countP Event.isChange < 2 ^ 31) :
    after.Sound ∧ after.txn.view = event.apply readers.txn.view ∧
      after.txn.version.toInt =
        readers.txn.version.toInt + [event].countP Event.isChange := by
  have stepped := Machine.next_eq_some.mp taken
  cases event with
  | put key value =>
      cases stepped
      refine ⟨⟨sound.separate.put, ?_⟩, view_put, toInt_add_one room⟩
      intro iterator member
      exact (sound.sound iterator member).change rfl room
  | delete key =>
      cases stepped
      refine ⟨⟨sound.separate.delete, ?_⟩, view_delete, toInt_add_one room⟩
      intro iterator member
      exact (sound.sound iterator member).change rfl room
  | newIterator =>
      cases stepped
      refine ⟨⟨sound.separate, ?_⟩, rfl, (Int.add_zero _).symm⟩
      intro iterator member
      rcases List.mem_append.mp member with old | new
      · exact sound.sound iterator old
      · rw [List.mem_singleton.mp new]
        exact sound_newIterator readers.txn
  | seek index key dbStatus =>
      obtain ⟨iterator, isIterator, replaced⟩ :=
        Option.map_eq_some_iff.mp stepped
      have spec := seek_spec iterator readers.txn dbStatus key
      cases soughtEq : iterator.seek readers.txn dbStatus key with
      | error fault =>
          rw [soughtEq] at replaced
          cases replaced
      | ok sought =>
          rw [soughtEq] at replaced spec
          cases replaced
          exact ⟨sound.replace (spec.of_ok.sound (monotone_le key)), rfl,
            (Int.add_zero _).symm⟩
  | next index dbStatus =>
      obtain ⟨iterator, isIterator, replaced⟩ :=
        Option.map_eq_some_iff.mp stepped
      have member := List.mem_of_getElem? isIterator
      by_cases valid : iterator.isValid = true
      · have spec := next_spec dbStatus (sound.sound iterator member) valid
        cases movedEq : iterator.next readers.txn dbStatus with
        | error fault =>
            rw [movedEq] at replaced
            cases replaced
        | ok moved =>
            rw [movedEq] at replaced spec
            cases replaced
            exact ⟨sound.replace spec.of_ok.sound, rfl, (Int.add_zero _).symm⟩
      · rw [Iterator.next, if_neg valid] at replaced
        cases replaced

/-- A run with room for its changes replays them on the view. -/
theorem Readers.Sound.exec {events : List (Event κ ν)} (sound : readers.Sound)
    (run : machine.exec readers events = some after)
    (room : readers.txn.version.toInt + events.countP Event.isChange < 2 ^ 31) :
    after.Sound ∧ after.txn.view = events.foldl Event.apply readers.txn.view := by
  induction events generalizing readers with
  | nil =>
      cases run
      exact ⟨sound, rfl⟩
  | cons event events inductionHypothesis =>
      obtain ⟨middle, taken, rest⟩ := Option.bind_eq_some_iff.mp run
      have counted : (event :: events).countP Event.isChange =
          [event].countP Event.isChange + events.countP Event.isChange := by
        rw [← List.singleton_append, List.countP_append]
      obtain ⟨middleSound, viewEq, versionEq⟩ := sound.next taken (by omega)
      rw [List.foldl_cons, ← viewEq]
      exact inductionHypothesis middleSound rest (by omega)

omit [Inhabited κ] [Inhabited ν] in
theorem sound_start (db : Std.TreeMap κ ν) : (start db).Sound where
  separate := by
    intro key deleted
    exact absurd deleted Std.TreeSet.not_mem_emptyc
  sound := List.forall_mem_nil _

omit [Inhabited κ] [Inhabited ν] in
theorem view_start (db : Std.TreeMap κ ν) :
    (start db).txn.view = fun key => db[key]? := by
  funext key
  simp [start, view, undeleted]

/-- After every run of a transaction in which the versions do not run out, with
any number of iterators between whose steps rows are put and deleted: `Seek`
stops at the first row, from its key on, of the database that `Commit` would
leave, `Next` at the first one behind the row that the iterator showed, even if
that row has been deleted since, and both fail only as LevelDB reports an error;
and that database, which `Get` answers from, is the committed one with all
changes made in order. -/
theorem iterators_read_view (db : Std.TreeMap κ ν) {events : List (Event κ ν)}
    {readers : Readers κ ν}
    (run : machine.exec (start db) events = some readers)
    (few : events.countP Event.isChange < 2 ^ 31) :
    (∀ iterator ∈ readers.iterators, ∀ dbStatus : DbStatus κ ν,
      (∀ key, Meets (Reported dbStatus)
        (fun after => FirstWhere (readers.txn.commit[·]?) (key ≤ ·) after.entry)
        (iterator.seek readers.txn dbStatus key)) ∧
      ∀ row, iterator.entry = some row → Meets (Reported dbStatus)
        (fun after => FirstWhere (readers.txn.commit[·]?) (row.1 < ·) after.entry)
        (iterator.next readers.txn dbStatus)) ∧
    ∀ key, readers.txn.commit[key]? = readers.txn.get key ∧
      readers.txn.get key = events.foldl Event.apply (db[·]?) key := by
  have room : (start db).txn.version.toInt + events.countP Event.isChange <
      2 ^ 31 := by
    change (0 : Int32).toInt + _ < _
    rw [Int32.toInt_zero, Int.zero_add]
    exact_mod_cast few
  obtain ⟨sound, viewEq⟩ := (sound_start db).exec run room
  have committed : (readers.txn.commit[·]?) = readers.txn.view :=
    funext (commit_view readers.txn)
  rw [committed]
  refine ⟨?_, ?_⟩
  · intro iterator member dbStatus
    refine ⟨?_, ?_⟩
    · intro key
      exact (seek_spec iterator readers.txn dbStatus key).mono
        fun after at_ => at_.shows.entry at_.positioned
    · intro row isEntry
      rw [Iterator.entry, Option.ite_none_right_eq_some] at isEntry
      obtain ⟨valid, isCurrent⟩ := isEntry
      cases isCurrent
      exact (next_spec dbStatus (sound.sound iterator member) valid).mono
        fun after stepped => stepped.entry
  · intro key
    rw [commit_view, get_eq_view sound.separate, viewEq, view_start]
    exact ⟨rfl, rfl⟩

end Runs

/-- Rows 1 and 3 of a database. -/
def twoRows : Std.TreeMap Nat String :=
  ((∅ : Std.TreeMap Nat String).insert 1 "one").insert 3 "three"

def noError : DbStatus Nat String := fun _ => none

/-- An iterator stops at a row that has been put, and then that row and the next
one are deleted. -/
def deletesUnderneath : List (Event Nat String) :=
  [.newIterator, .put 2 "two", .seek 0 2 noError, .delete 2, .delete 3,
    .put 4 "four"]

/-- `iterators_read_view` for the step from the deleted row. -/
theorem iterators_read_view_deleted :
    ∃ readers, machine.exec (start twoRows) deletesUnderneath = some readers ∧
      ∃ iterator ∈ readers.iterators, iterator.entry = some (2, "two") ∧
        ∃ after, iterator.next readers.txn noError = .ok after ∧
          FirstWhere (readers.txn.commit[·]?) (2 < ·) after.entry := by
  have shown : (machine.exec (start twoRows) deletesUnderneath).map
      (fun readers => readers.iterators.map (·.entry)) =
        some [some (2, "two")] := by
    decide +kernel
  obtain ⟨readers, run, entries⟩ := Option.map_eq_some_iff.mp shown
  obtain ⟨iterator, rest, iteratorsEq, isEntry, _⟩ := List.map_eq_cons_iff.mp
    entries
  have member : iterator ∈ readers.iterators := by
    rw [iteratorsEq]
    exact List.mem_cons_self
  have moved := ((iterators_read_view twoRows run (by decide)).1 iterator member
    noError).2 _ isEntry
  exact ⟨readers, run, iterator, member, isEntry,
    moved.exists_ok not_reported⟩

/-! ## Scans -/

/-- A loop over the rows from an iterator's position on, up to any point: what
it changes between two steps are rows that it has visited, or rows before
them.  The indices are the changes that it makes, the rows that it visits and
the iterator where it stops. -/
inductive Scans : LevelDbTransaction κ ν → Iterator κ ν → List (Change κ ν) →
    List (κ × ν) → Iterator κ ν → Prop where
  | stop {txn : LevelDbTransaction κ ν} {iterator : Iterator κ ν} :
      Scans txn iterator [] [] iterator
  | visit {txn : LevelDbTransaction κ ν} {iterator after last : Iterator κ ν}
      {changes later : List (Change κ ν)} {rows : List (κ × ν)}
      (dbStatus : DbStatus κ ν)
      (valid : iterator.isValid = true)
      (behind : ∀ change ∈ changes, change.target ≤ iterator.current.1)
      (stepped : iterator.next (changes.foldl Change.make txn) dbStatus =
        .ok after)
      (rest : Scans (changes.foldl Change.make txn) after later rows last) :
      Scans txn iterator (changes ++ later) (iterator.current :: rows) last

theorem Change.view_make (change : Change κ ν) (key : κ)
    (ne : key ≠ change.target) : (change.make txn).view key = txn.view key := by
  cases change with
  | put =>
      rw [Change.make, view_put]
      exact Function.update_of_ne ne _ _
  | delete =>
      rw [Change.make, view_delete]
      exact Function.update_of_ne ne _ _

/-- Changes up to a key do not touch the rows behind it. -/
theorem view_changes {changes : List (Change κ ν)} {last : κ}
    (behind : ∀ change ∈ changes, change.target ≤ last) (key : κ)
    (after : last < key) :
    (changes.foldl Change.make txn).view key = txn.view key := by
  induction changes generalizing txn with
  | nil => rfl
  | cons change changes inductionHypothesis =>
      have first := behind change List.mem_cons_self
      have rest := fun other member =>
        behind other (List.mem_cons_of_mem _ member)
      rw [List.foldl_cons, inductionHypothesis rest]
      exact change.view_make key (first.trans_lt after).ne'

/-- Changes that the versions have room for are counted, and keep an iterator
sound. -/
theorem Sound.changes (sound : Sound txn iterator) (changes : List (Change κ ν))
    (room : txn.version.toInt + changes.length < 2 ^ 31) :
    Sound (changes.foldl Change.make txn) iterator ∧
      (changes.foldl Change.make txn).version.toInt =
        txn.version.toInt + changes.length := by
  induction changes generalizing txn with
  | nil => exact ⟨sound, (Int.add_zero _).symm⟩
  | cons change changes inductionHypothesis =>
      rw [List.length_cons, Int.natCast_succ] at room
      have fits : txn.version.toInt + 1 < 2 ^ 31 := by omega
      have counted : (change.make txn).version.toInt = txn.version.toInt + 1 := by
        rw [change.version_make, toInt_add_one fits]
      obtain ⟨restSound, restCounted⟩ := inductionHypothesis
        (sound.change change.version_make fits) (by omega)
      refine ⟨restSound, restCounted.trans ?_⟩
      rw [counted, List.length_cons, Int.natCast_succ]
      omega

/-- A scan from the first row of a range on visits rows of the range in order,
each once, and all of them if it goes on to the end. -/
theorem Scans.visits {last : Iterator κ ν} {made : List (Change κ ν)}
    {rows : List (κ × ν)} [DecidablePred range]
    (scans : Scans txn iterator made rows last)
    (room : txn.version.toInt + made.length < 2 ^ 31)
    (upward : Monotone range) (sound : Sound txn iterator)
    (first : FirstWhere txn.view range iterator.entry) :
    rows <+: (txn.commit.toList.filter fun row => range row.1) ∧
      (last.isValid = false →
        rows = txn.commit.toList.filter fun row => range row.1) := by
  have committed (txn : LevelDbTransaction κ ν) :
      txn.view = (txn.commit[·]?) := funext fun key => (commit_view txn key).symm
  induction scans generalizing range with
  | @stop txn iterator =>
      refine ⟨List.nil_prefix, ?_⟩
      intro ended
      rw [committed, Iterator.entry, ended, if_neg Bool.false_ne_true] at first
      exact first.filter_toList_nil.symm
  | @visit txn iterator after last changes later rows dbStatus valid behind
      stepped rest inductionHypothesis =>
      rw [List.length_append, Int.natCast_add] at room
      rw [committed, Iterator.entry, if_pos valid] at first
      obtain ⟨changedSound, counted⟩ := sound.changes changes (by omega)
      have moved := next_spec dbStatus changedSound valid
      rw [stepped] at moved
      have visited := inductionHypothesis (by omega)
        (monotone_lt iterator.current.1) moved.of_ok.sound moved.of_ok.entry
      have sameRows :
          ((changes.foldl Change.make txn).commit.toList.filter fun row =>
              iterator.current.1 < row.1) =
            txn.commit.toList.filter fun row => iterator.current.1 < row.1 := by
        refine filter_toList_congr fun key behindKey => ?_
        rw [commit_view, commit_view, view_changes behind key behindKey]
      rw [first.filter_toList upward, ← sameRows]
      exact ⟨List.cons_prefix_cons.mpr ⟨rfl, visited.1⟩,
        fun ended => congrArg _ (visited.2 ended)⟩

/-- A loop that seeks a key and goes on row by row visits the rows from the key
on in order, each once, although it may put and delete rows up to the one that
it is at, as long as the versions do not run out. -/
theorem scan_visits_rows {dbStatus : DbStatus κ ν} {key : κ}
    {first last : Iterator κ ν} {made : List (Change κ ν)} {rows : List (κ × ν)}
    (sought : iterator.seek txn dbStatus key = .ok first)
    (scans : Scans txn first made rows last)
    (room : txn.version.toInt + made.length < 2 ^ 31) :
    rows <+: (txn.commit.toList.filter fun row => key ≤ row.1) ∧
      (last.isValid = false →
        rows = txn.commit.toList.filter fun row => key ≤ row.1) := by
  have spec := seek_spec iterator txn dbStatus key
  rw [sought] at spec
  have at_ := spec.of_ok
  exact scans.visits room (monotone_le key) (at_.sound (monotone_le key))
    (at_.shows.entry at_.positioned)

/-- `scan_visits_rows` for a loop to the end that deletes each row that it is
at, and puts one before the last. -/
theorem scan_visits_rows_deleting :
    ∃ first last rows,
      (newIterator { db := twoRows }).seek { db := twoRows } noError 1 =
        .ok first ∧
      Scans { db := twoRows } first [.delete 1, .delete 3, .put 2 "two"] rows
        last ∧
      last.isValid = false ∧
      rows = (commit { db := twoRows }).toList.filter fun row => 1 ≤ row.1 := by
  have sought : (newIterator { db := twoRows }).seek { db := twoRows } noError 1 =
      .ok ⟨[(1, "one"), (3, "three")], 0, none, (1, "one"), false, true⟩ := rfl
  have third : Scans (delete { db := twoRows } 1)
      ⟨[(3, "three")], 1, none, (3, "three"), false, true⟩
      ([.delete 3, .put 2 "two"] ++ []) [(3, "three")]
      ⟨[], 3, none, (3, "three"), false, false⟩ :=
    .visit noError rfl (by decide +kernel) rfl .stop
  have scans : Scans { db := twoRows }
      ⟨[(1, "one"), (3, "three")], 0, none, (1, "one"), false, true⟩
      ([.delete 1] ++ ([.delete 3, .put 2 "two"] ++ []))
      [(1, "one"), (3, "three")]
      ⟨[], 3, none, (3, "three"), false, false⟩ :=
    .visit noError rfl (by decide +kernel) rfl third
  exact ⟨_, _, _, sought, scans, rfl,
    (scan_visits_rows sought scans (by decide)).2 rfl⟩

end LevelDbTransaction

end AppLPS
