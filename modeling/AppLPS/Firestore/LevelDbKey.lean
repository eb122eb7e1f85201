/-
Module: AppLPS.Firestore.LevelDbKey
Purpose: The vendored keys of the local store's tables: components behind
  labels, written and read with `OrderedCode`.
Trusted boundary: none
Main exports: ComponentLabel, DocumentKey, Timestamp, Reader, Values,
  Component, Table, Table.key, Table.decode, tables
-/
import AppLPS.Firestore.OrderedCode
import AppLPS.Ordered.FrontReader

namespace AppLPS

/-! ## The parts of keys -/

abbrev ResourcePath := List (List UInt8)

/-- `DocumentKey`.  A default-constructed one, of the empty path, names no
document. -/
structure DocumentKey where
  path : ResourcePath
  ne_nil : path ≠ []
  isDocumentKey : path.length % 2 = 0
deriving DecidableEq

def kNanosPerSecond : Int32 := 1000000000

/-- A point in time, within the bounds that Firestore supports. -/
structure Timestamp where
  seconds : Int64
  nanoseconds : Int32
  nanoseconds_bounds : 0 ≤ nanoseconds ∧ nanoseconds < kNanosPerSecond
  seconds_bounds : -62135596800 ≤ seconds ∧ seconds < 253402300800
deriving DecidableEq

/-- `Timestamp(seconds, nanoseconds)`, with `ValidateBounds`. -/
def Timestamp.make (seconds : Int64) (nanoseconds : Int32) :
    Except HardAssert Timestamp :=
  if nanosecondsBounds : 0 ≤ nanoseconds ∧ nanoseconds < kNanosPerSecond then
    if secondsBounds : -62135596800 ≤ seconds ∧ seconds < 253402300800 then
      .ok ⟨seconds, nanoseconds, nanosecondsBounds, secondsBounds⟩
    else .error ⟨s!"Timestamp seconds out of range: {seconds}"⟩
  else .error ⟨s!"Timestamp nanoseconds out of range: {nanoseconds}"⟩

/-- A version is the time of its commit. -/
abbrev SnapshotVersion := Timestamp

inductive ComponentLabel where
  | terminator
  | tableName
  | batchId
  | canonicalId
  | targetId
  | userId
  | collectionId
  | documentId
  | snapshotVersion
  | bundleId
  | queryName
  | pathSegment
  | unknown
deriving DecidableEq, Repr

def ComponentLabel.value : ComponentLabel → Int64
  | .terminator => 0
  | .tableName => 5
  | .batchId => 10
  | .canonicalId => 11
  | .targetId => 12
  | .userId => 13
  | .collectionId => 14
  | .documentId => 15
  | .snapshotVersion => 16
  | .bundleId => 17
  | .queryName => 18
  | .pathSegment => 62
  | .unknown => 63

/-- A C string of the source; these are all ASCII. -/
def cString (text : String) : List UInt8 :=
  text.toList.map fun char => .ofNat char.toNat

/-! ## `Writer` -/

namespace Writer

open OrderedCode

def writeComponentLabel (label : ComponentLabel) : List UInt8 :=
  writeSignedNumIncreasing label.value

def writeTerminator : List UInt8 := writeComponentLabel .terminator

def writeLabeledInt32 (label : ComponentLabel) (value : Int32) : List UInt8 :=
  writeComponentLabel label ++ writeSignedNumIncreasing value.toInt64

def writeLabeledString (label : ComponentLabel) (value : List UInt8) :
    List UInt8 :=
  writeComponentLabel label ++ writeString value

def writeTableName (tableName : String) : List UInt8 :=
  writeLabeledString .tableName (cString tableName)

def writeResourcePath (path : ResourcePath) : List UInt8 :=
  path.flatMap fun segment =>
    writeComponentLabel .pathSegment ++ writeString segment

def writeSnapshotVersion (snapshotVersion : SnapshotVersion) : List UInt8 :=
  writeComponentLabel .snapshotVersion ++
    (writeSignedNumIncreasing snapshotVersion.seconds ++
      writeSignedNumIncreasing snapshotVersion.nanoseconds.toInt64)

end Writer

/-! ## `Reader` -/

/-- `Reader`.  Once it has failed, every routine that follows fails as well, and
what a failed routine returns is not looked at: the reader finds nothing. -/
abbrev Reader := FrontReader HardAssert UInt8

namespace Reader

open FrontReader

def readSignedNumIncreasing : Reader Int64 :=
  OrderedCode.readSignedNumIncreasing

def readString : Reader (List UInt8) :=
  fun src => .ok (OrderedCode.readString src)

def readComponentLabelMatching (expectedLabel : ComponentLabel) :
    Reader Bool := do
  let rawResult ← readSignedNumIncreasing
  return rawResult == expectedLabel.value

def readInt32 : Reader Int32 := do
  let rawResult ← readSignedNumIncreasing
  if Int32.minValue.toInt64 ≤ rawResult ∧ rawResult ≤ Int32.maxValue.toInt64
  then return rawResult.toInt32
  else fail

def readLabeledInt32 (expectedLabel : ComponentLabel) : Reader Int32 := do
  if ← readComponentLabelMatching expectedLabel then readInt32 else fail

def readLabeledString (expectedLabel : ComponentLabel) :
    Reader (List UInt8) := do
  if ← readComponentLabelMatching expectedLabel then readString else fail

def readLabeledStringMatching (expectedLabel : ComponentLabel)
    (expectedValue : List UInt8) : Reader Bool := do
  let value ← readLabeledString expectedLabel
  return value == expectedValue

def readTableNameMatching (expectedTableName : String) : Reader Unit := do
  if ← readLabeledStringMatching .tableName (cString expectedTableName) then
    return ()
  else fail

def readTerminator : Reader Unit := do
  if ← readComponentLabelMatching .terminator then return () else fail

/-- The loop of `ReadResourcePath`.  Each round takes some bytes, so there are
no more rounds than bytes. -/
def readSegments : Nat → Reader ResourcePath
  | 0 => return []
  | rounds + 1 => do
      let savedPosition ← position
      if savedPosition.isEmpty then return []
      else if ← readComponentLabelMatching .pathSegment then
        let segment ← readString
        let segments ← readSegments rounds
        return segment :: segments
      else
        restore savedPosition
        return []

def readResourcePath : Reader ResourcePath := fun src =>
  readSegments src.length src

def readDocumentKey : Reader DocumentKey := do
  let path ← readResourcePath
  if valid : path ≠ [] ∧ path.length % 2 = 0 then
    return ⟨path, valid.1, valid.2⟩
  else fail

/-- The end of `ReadSnapshotVersion`: the bounds are asserted also when the
nanoseconds could not be read and are 0. -/
def readNanoseconds (seconds : Int64) : Reader SnapshotVersion := fun src =>
  match readInt32 src with
  | .ok (some (nanos, rest)) =>
      (Timestamp.make seconds nanos).map fun version =>
        some (version, rest)
  | .ok none => (Timestamp.make seconds 0).map fun _ => none
  | .error fault => .error fault

def readSnapshotVersion : Reader SnapshotVersion := do
  if ← readComponentLabelMatching .snapshotVersion then
    let seconds ← readSignedNumIncreasing
    readNanoseconds seconds
  else fail

end Reader

/-! ## Tables

The key classes differ in the name of the table and in the components that
follow it. -/

inductive Component where
  | string (label : ComponentLabel)
  | int32 (label : ComponentLabel)
  | resourcePath
  | documentKey
  | snapshotVersion
deriving DecidableEq, Repr

namespace Component

def Value : Component → Type
  | .string _ => List UInt8
  | .int32 _ => Int32
  | .resourcePath => ResourcePath
  | .documentKey => DocumentKey
  | .snapshotVersion => SnapshotVersion

def write : (component : Component) → component.Value → List UInt8
  | .string label, value => Writer.writeLabeledString label value
  | .int32 label, value => Writer.writeLabeledInt32 label value
  | .resourcePath, path => Writer.writeResourcePath path
  | .documentKey, key => Writer.writeResourcePath key.path
  | .snapshotVersion, version => Writer.writeSnapshotVersion version

def read : (component : Component) → Reader component.Value
  | .string label => Reader.readLabeledString label
  | .int32 label => Reader.readLabeledInt32 label
  | .resourcePath => Reader.readResourcePath
  | .documentKey => Reader.readDocumentKey
  | .snapshotVersion => Reader.readSnapshotVersion

end Component

/-- A value for each of some components. -/
def Values : List Component → Type
  | [] => Unit
  | component :: components => component.Value × Values components

namespace Values

def nil : Values [] := ()

def cons {component : Component} {components : List Component}
    (value : component.Value) (values : Values components) :
    Values (component :: components) :=
  (value, values)

def write : (components : List Component) → Values components → List UInt8
  | [], _ => []
  | component :: components, values =>
      component.write values.1 ++ write components values.2

def read : (components : List Component) → Reader (Values components)
  | [] => return nil
  | component :: components => do
      let value ← component.read
      let values ← read components
      return cons value values

end Values

structure Table where
  name : String
  components : List Component
deriving DecidableEq, Repr

namespace Table

/-- `KeyPrefix` of the components that a key begins with. -/
def keyPrefix (table : Table) (components : List Component)
    (values : Values components) : List UInt8 :=
  Writer.writeTableName table.name ++ values.write components

def key (table : Table) (values : Values table.components) : List UInt8 :=
  table.keyPrefix table.components values ++ Writer.writeTerminator

def read (table : Table) : Reader (Values table.components) := do
  Reader.readTableNameMatching table.name
  let values ← Values.read table.components
  Reader.readTerminator
  return values

/-- `Decode`: what the key has been decoded to, or `none` for false.  What
follows the terminator is not looked at. -/
def decode (table : Table) (key : List UInt8) :
    Except HardAssert (Option (Values table.components)) :=
  (table.read key).map fun read => read.map (·.1)

end Table

namespace LevelDbVersionKey

def table : Table := ⟨"version", []⟩

def key : List UInt8 := table.key ()

end LevelDbVersionKey

namespace LevelDbMutationKey

def table : Table := ⟨"mutation", [.string .userId, .int32 .batchId]⟩

def key (userId : List UInt8) (batchId : Int32) : List UInt8 :=
  table.key (userId, batchId, ())

def decode (key : List UInt8) :
    Except HardAssert (Option (Values table.components)) :=
  table.decode key

end LevelDbMutationKey

namespace LevelDbDocumentMutationKey

def table : Table :=
  ⟨"document_mutation", [.string .userId, .documentKey, .int32 .batchId]⟩

def key (userId : List UInt8) (documentKey : DocumentKey)
    (batchId : Int32) : List UInt8 :=
  table.key (userId, documentKey, batchId, ())

def decode (key : List UInt8) :
    Except HardAssert (Option (Values table.components)) :=
  table.decode key

end LevelDbDocumentMutationKey

namespace LevelDbMutationQueueKey

def table : Table := ⟨"mutation_queue", [.string .userId]⟩

def key (userId : List UInt8) : List UInt8 :=
  table.key (userId, ())

def decode (key : List UInt8) :
    Except HardAssert (Option (Values table.components)) :=
  table.decode key

end LevelDbMutationQueueKey

namespace LevelDbTargetGlobalKey

def table : Table := ⟨"target_global", []⟩

def key : List UInt8 := table.key ()

def decode (key : List UInt8) :
    Except HardAssert (Option (Values table.components)) :=
  table.decode key

end LevelDbTargetGlobalKey

namespace LevelDbTargetKey

def table : Table := ⟨"target", [.int32 .targetId]⟩

def key (targetId : Int32) : List UInt8 :=
  table.key (targetId, ())

def decode (key : List UInt8) :
    Except HardAssert (Option (Values table.components)) :=
  table.decode key

end LevelDbTargetKey

namespace LevelDbQueryTargetKey

def table : Table := ⟨"query_target", [.string .canonicalId, .int32 .targetId]⟩

def key (canonicalId : List UInt8) (targetId : Int32) : List UInt8 :=
  table.key (canonicalId, targetId, ())

def decode (key : List UInt8) :
    Except HardAssert (Option (Values table.components)) :=
  table.decode key

end LevelDbQueryTargetKey

namespace LevelDbTargetDocumentKey

def table : Table := ⟨"target_document", [.int32 .targetId, .documentKey]⟩

def key (targetId : Int32) (documentKey : DocumentKey) : List UInt8 :=
  table.key (targetId, documentKey, ())

def decode (key : List UInt8) :
    Except HardAssert (Option (Values table.components)) :=
  table.decode key

end LevelDbTargetDocumentKey

namespace LevelDbDocumentTargetKey

def table : Table := ⟨"document_target", [.documentKey, .int32 .targetId]⟩

def key (documentKey : DocumentKey) (targetId : Int32) : List UInt8 :=
  table.key (documentKey, targetId, ())

def decode (key : List UInt8) :
    Except HardAssert (Option (Values table.components)) :=
  table.decode key

end LevelDbDocumentTargetKey

namespace LevelDbRemoteDocumentKey

def table : Table := ⟨"remote_document", [.documentKey]⟩

def key (documentKey : DocumentKey) : List UInt8 :=
  table.key (documentKey, ())

def decode (key : List UInt8) :
    Except HardAssert (Option (Values table.components)) :=
  table.decode key

end LevelDbRemoteDocumentKey

namespace LevelDbCollectionParentKey

def table : Table :=
  ⟨"collection_parent", [.string .collectionId, .resourcePath]⟩

def key (collectionId : List UInt8) (parent : ResourcePath) : List UInt8 :=
  table.key (collectionId, parent, ())

def decode (key : List UInt8) :
    Except HardAssert (Option (Values table.components)) :=
  table.decode key

end LevelDbCollectionParentKey

namespace LevelDbRemoteDocumentReadTimeKey

def table : Table :=
  ⟨"remote_document_read_time",
    [.resourcePath, .snapshotVersion, .string .documentId]⟩

def key (collectionPath : ResourcePath) (readTime : SnapshotVersion)
    (documentId : List UInt8) : List UInt8 :=
  table.key (collectionPath, readTime, documentId, ())

def decode (key : List UInt8) :
    Except HardAssert (Option (Values table.components)) :=
  table.decode key

end LevelDbRemoteDocumentReadTimeKey

namespace LevelDbBundleKey

def table : Table := ⟨"bundles", [.string .bundleId]⟩

def key (bundleId : List UInt8) : List UInt8 :=
  table.key (bundleId, ())

def decode (key : List UInt8) :
    Except HardAssert (Option (Values table.components)) :=
  table.decode key

end LevelDbBundleKey

namespace LevelDbNamedQueryKey

def table : Table := ⟨"named_queries", [.string .queryName]⟩

def key (queryName : List UInt8) : List UInt8 :=
  table.key (queryName, ())

def decode (key : List UInt8) :
    Except HardAssert (Option (Values table.components)) :=
  table.decode key

end LevelDbNamedQueryKey

/-- All tables of the local store. -/
def tables : List Table :=
  [LevelDbVersionKey.table, LevelDbMutationKey.table,
    LevelDbDocumentMutationKey.table, LevelDbMutationQueueKey.table,
    LevelDbTargetGlobalKey.table, LevelDbTargetKey.table,
    LevelDbQueryTargetKey.table, LevelDbTargetDocumentKey.table,
    LevelDbDocumentTargetKey.table, LevelDbRemoteDocumentKey.table,
    LevelDbCollectionParentKey.table, LevelDbRemoteDocumentReadTimeKey.table,
    LevelDbBundleKey.table, LevelDbNamedQueryKey.table]

end AppLPS
