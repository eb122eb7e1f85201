/-
Module: AppLPS.Firestore.LevelDbTransaction
Purpose: The vendored `LevelDbTransaction`: changes buffered over a committed
  LevelDB database, and the iterator over the merged rows.
Trusted boundary: a LevelDB iterator whose status is OK reads the rows of the
  committed database in the order of their keys
Main exports: LevelDbTransaction, LevelDbTransaction.put,
  LevelDbTransaction.delete, LevelDbTransaction.get,
  LevelDbTransaction.commit, LevelDbTransaction.Iterator,
  LevelDbTransaction.Iterator.seek, LevelDbTransaction.Iterator.next,
  LevelDbTransaction.machine
-/
import AppLPS.Machine.Basic
import AppLPS.Ordered.Entries
import Std.Data.TreeSet.Lemmas

namespace AppLPS

/-!
Keys and values are byte strings in the source; nothing here depends on more
than the order of the keys.  A LevelDB iterator reads a snapshot that no step
of a transaction changes, so its position is the list of the rows from there
on.  A position in the `std::map` of changes is the key of its row: the map may
lose the row, and reading the position is undefined from then on.  The versions
are numbers of 32 bits with a sign: past the last of them the C++ is undefined,
and the model wraps around.
-/

/-- What an iterator must never do. -/
inductive IteratorFault where
  | failedAssertion (message : String)
  /-- A LevelDB iterator is advanced at the end of the database. -/
  | dbIteratorAtEnd
  /-- A position in the changes is read whose row is gone. -/
  | danglingPosition
deriving DecidableEq, Repr

@[simp] theorem ok_bind {Fault Result Next : Type} (result : Result)
    (rest : Result → Except Fault Next) :
    (Except.ok result >>= rest) = rest result := rfl

/-- What `db_iter_->status()` reports in a call, by the position that it reports
it at: `none` for `OK`. -/
abbrev DbStatus (κ ν : Type) : Type := List (κ × ν) → Option String

/-- `HARD_ASSERT(db_iter_->status().ok(), ...)`. -/
def assertOk {κ ν : Type} (dbStatus : DbStatus κ ν) (dbIter : List (κ × ν)) :
    Except IteratorFault Unit :=
  match dbStatus dbIter with
  | none => .ok ()
  | some status =>
      .error (.failedAssertion ("leveldb iterator reported an error: " ++ status))

structure LevelDbTransaction (κ ν : Type) [LinearOrder κ] where
  db : Std.TreeMap κ ν
  deletions : Std.TreeSet κ := ∅
  mutations : Std.TreeMap κ ν := ∅
  version : Int32 := 0

namespace LevelDbTransaction

variable {κ ν : Type} [LinearOrder κ]

def put (txn : LevelDbTransaction κ ν) (key : κ) (value : ν) :
    LevelDbTransaction κ ν :=
  { txn with
    deletions := txn.deletions.erase key
    mutations := txn.mutations.insert key value
    version := txn.version + 1 }

def delete (txn : LevelDbTransaction κ ν) (key : κ) :
    LevelDbTransaction κ ν :=
  { txn with
    deletions := txn.deletions.insert key
    mutations := txn.mutations.erase key
    version := txn.version + 1 }

/-- `Get`, with `none` for the status `NotFound`. -/
def get (txn : LevelDbTransaction κ ν) (key : κ) : Option ν :=
  if key ∈ txn.deletions then none
  else
    match txn.mutations[key]? with
    | some value => some value
    | none => txn.db[key]?

/-- The database after `Commit` has written its batch. -/
def commit (txn : LevelDbTransaction κ ν) : Std.TreeMap κ ν :=
  let deleted := txn.deletions.toList.foldl (fun db key => db.erase key) txn.db
  txn.mutations.toList.foldl (fun db entry => db.insert entry.1 entry.2) deleted

/-- `Put` or `Delete`. -/
inductive Change (κ ν : Type) where
  | put (key : κ) (value : ν)
  | delete (key : κ)

def Change.target : Change κ ν → κ
  | .put key _ => key
  | .delete key => key

def Change.make (txn : LevelDbTransaction κ ν) :
    Change κ ν → LevelDbTransaction κ ν
  | .put key value => txn.put key value
  | .delete key => txn.delete key

/-! ## The iterator -/

structure Iterator (κ ν : Type) where
  dbIter : List (κ × ν)
  lastVersion : Int32
  mutationsIter : Option κ
  current : κ × ν
  isMutation : Bool
  isValid : Bool

/-- `*mutations_iter_`. -/
def mutationAt (txn : LevelDbTransaction κ ν) (position : κ) :
    Except IteratorFault (κ × ν) :=
  match txn.mutations[position]? with
  | some value => .ok (position, value)
  | none => .error .danglingPosition

/-- The rows from the first one on that is not deleted. -/
def skipDeleted (txn : LevelDbTransaction κ ν) (rows : List (κ × ν)) :
    List (κ × ν) :=
  rows.dropWhile fun row => decide (row.1 ∈ txn.deletions)

def newIterator [Inhabited κ] [Inhabited ν] (txn : LevelDbTransaction κ ν) :
    Iterator κ ν where
  dbIter := []
  lastVersion := txn.version
  mutationsIter := txn.mutations.toList.head?.map (·.1)
  current := default
  isMutation := false
  isValid := false

namespace Iterator

def updateCurrent (iterator : Iterator κ ν) (txn : LevelDbTransaction κ ν) :
    Except IteratorFault (Iterator κ ν) :=
  match iterator.mutationsIter, iterator.dbIter with
  | none, [] => .ok { iterator with isValid := false }
  | none, row :: _ =>
      .ok { iterator with isValid := true, isMutation := false, current := row }
  | some position, [] => do
      let mutation ← txn.mutationAt position
      .ok { iterator with
        isValid := true, isMutation := true, current := mutation }
  | some position, row :: _ => do
      let mutation ← txn.mutationAt position
      if mutation.1 ≤ row.1 then
        .ok { iterator with
          isValid := true, isMutation := true, current := mutation }
      else
        .ok { iterator with
          isValid := true, isMutation := false, current := row }

def seek (iterator : Iterator κ ν) (txn : LevelDbTransaction κ ν)
    (dbStatus : DbStatus κ ν) (key : κ) :
    Except IteratorFault (Iterator κ ν) := do
  let rows := txn.db.toList.dropWhile fun row => decide (row.1 < key)
  assertOk dbStatus rows
  assertOk dbStatus (txn.skipDeleted rows)
  let sought : Iterator κ ν := { iterator with
    dbIter := txn.skipDeleted rows
    mutationsIter :=
      (txn.mutations.toList.find? fun row => key ≤ row.1).map (·.1) }
  let updated ← sought.updateCurrent txn
  .ok { updated with lastVersion := txn.version }

/-- `SyncToTransaction`, with its result. -/
def syncToTransaction (iterator : Iterator κ ν)
    (txn : LevelDbTransaction κ ν) (dbStatus : DbStatus κ ν) :
    Except IteratorFault (Iterator κ ν × Bool) :=
  if iterator.lastVersion < txn.version then do
    let sought ← iterator.seek txn dbStatus iterator.current.1
    .ok (sought,
      sought.isValid && decide (iterator.current.1 < sought.current.1))
  else .ok (iterator, false)

/-- `AdvanceLDB`. -/
def advanceLDB (txn : LevelDbTransaction κ ν) (dbStatus : DbStatus κ ν) :
    List (κ × ν) → Except IteratorFault (List (κ × ν))
  | [] => .error .dbIteratorAtEnd
  | _ :: rows => do
      assertOk dbStatus (txn.skipDeleted rows)
      .ok (txn.skipDeleted rows)

/-- The step from a row that the changes hold: a row of the database under it is
passed as well. -/
def nextMutation (iterator : Iterator κ ν) (txn : LevelDbTransaction κ ν)
    (dbStatus : DbStatus κ ν) : Except IteratorFault (Iterator κ ν) :=
  match iterator.mutationsIter with
  | none => .error .danglingPosition
  | some position => do
      let mutation ← txn.mutationAt position
      let dbIter ←
        match iterator.dbIter with
        | [] => pure []
        | row :: rows =>
            if row.1 = mutation.1 then advanceLDB txn dbStatus (row :: rows)
            else pure (row :: rows)
      .ok { iterator with
        dbIter := dbIter
        mutationsIter :=
          (txn.mutations.toList.find? fun row => position < row.1).map (·.1) }

def nextRow (iterator : Iterator κ ν) (txn : LevelDbTransaction κ ν)
    (dbStatus : DbStatus κ ν) : Except IteratorFault (Iterator κ ν) := do
  let dbIter ← advanceLDB txn dbStatus iterator.dbIter
  .ok { iterator with dbIter := dbIter }

/-- The step of `Next` itself. -/
def advance (iterator : Iterator κ ν) (txn : LevelDbTransaction κ ν)
    (dbStatus : DbStatus κ ν) : Except IteratorFault (Iterator κ ν) :=
  if iterator.isMutation then iterator.nextMutation txn dbStatus
  else iterator.nextRow txn dbStatus

def next (iterator : Iterator κ ν) (txn : LevelDbTransaction κ ν)
    (dbStatus : DbStatus κ ν) : Except IteratorFault (Iterator κ ν) :=
  if iterator.isValid then do
    let (synced, advanced) ← iterator.syncToTransaction txn dbStatus
    if !advanced && synced.isValid then do
      let stepped ← synced.advance txn dbStatus
      stepped.updateCurrent txn
    else .ok synced
  else .error (.failedAssertion "Next() called on invalid iterator")

/-- The row that the iterator points to, if it is valid. -/
def entry (iterator : Iterator κ ν) : Option (κ × ν) :=
  if iterator.isValid then some iterator.current else none

end Iterator

/-! ## Any number of iterators over one transaction -/

structure Readers (κ ν : Type) [LinearOrder κ] where
  txn : LevelDbTransaction κ ν
  iterators : List (Iterator κ ν) := []

inductive Event (κ ν : Type) where
  | put (key : κ) (value : ν)
  | delete (key : κ)
  | newIterator
  | seek (index : Nat) (key : κ) (dbStatus : DbStatus κ ν)
  | next (index : Nat) (dbStatus : DbStatus κ ν)

namespace Readers

variable [Inhabited κ] [Inhabited ν]

/-- An iterator is replaced by what it becomes, or fails. -/
def replace (readers : Readers κ ν) (index : Nat) :
    Except IteratorFault (Iterator κ ν) → Except IteratorFault (Readers κ ν)
  | .ok iterator =>
      .ok { readers with iterators := readers.iterators.set index iterator }
  | .error fault => .error fault

def step (readers : Readers κ ν) :
    Event κ ν → Option (Except IteratorFault (Readers κ ν))
  | .put key value =>
      some (.ok { readers with txn := readers.txn.put key value })
  | .delete key => some (.ok { readers with txn := readers.txn.delete key })
  | .newIterator =>
      some (.ok { readers with
        iterators := readers.iterators ++ [readers.txn.newIterator] })
  | .seek index key dbStatus =>
      (readers.iterators[index]?).map fun iterator =>
        readers.replace index (iterator.seek readers.txn dbStatus key)
  | .next index dbStatus =>
      (readers.iterators[index]?).map fun iterator =>
        readers.replace index (iterator.next readers.txn dbStatus)

end Readers

def machine [Inhabited κ] [Inhabited ν] :
    Machine (Readers κ ν) (Event κ ν) IteratorFault where
  step := Readers.step

/-- A transaction that has just begun. -/
def start (db : Std.TreeMap κ ν) : Readers κ ν where
  txn := { db := db }

end LevelDbTransaction

end AppLPS
