/-
Module: AppLPS.Proofs.KeyCode
Purpose: The keys of the local store's tables: a key is decoded to exactly what
  it was made of, and the keys of a table compare like their components.
Trusted boundary: none
Main exports: Table.keys_decode_and_compare, Table.decode_eq_some_iff,
  Table.prefixMonotone_key, Table.decode_other
-/
import AppLPS.Firestore.LevelDbKey
import AppLPS.Proofs.NumberCode
import AppLPS.Proofs.StringCode
import Mathlib.Order.Lex

namespace AppLPS

open OrderedCode

/-! ## The order of the components -/

theorem DocumentKey.path_injective :
    Function.Injective DocumentKey.path := by
  rintro ⟨path, _, _⟩ ⟨other, _, _⟩ same
  cases same
  rfl

/-- `DocumentKey::CompareTo`. -/
instance DocumentKey.linearOrder : LinearOrder DocumentKey :=
  LinearOrder.lift' DocumentKey.path DocumentKey.path_injective

/-- `Timestamp` is compared by the seconds, then by the nanoseconds. -/
def Timestamp.pair (timestamp : Timestamp) : Int64 ×ₗ Int32 :=
  toLex (timestamp.seconds, timestamp.nanoseconds)

theorem Timestamp.pair_injective :
    Function.Injective Timestamp.pair := by
  rintro ⟨seconds, nanoseconds, _, _⟩ ⟨other, otherNanos, _, _⟩ same
  cases same
  rfl

instance Timestamp.linearOrder : LinearOrder Timestamp :=
  LinearOrder.lift' Timestamp.pair Timestamp.pair_injective

instance Component.linearOrderValue :
    (component : Component) → LinearOrder component.Value
  | .string _ => inferInstanceAs (LinearOrder (List UInt8))
  | .int32 _ => inferInstanceAs (LinearOrder Int32)
  | .resourcePath => inferInstanceAs (LinearOrder (List (List UInt8)))
  | .documentKey => inferInstanceAs (LinearOrder DocumentKey)
  | .snapshotVersion => inferInstanceAs (LinearOrder Timestamp)

/-- Values are compared one after the other. -/
instance Values.linearOrder :
    (components : List Component) → LinearOrder (Values components)
  | [] => inferInstanceAs (LinearOrder Unit)
  | component :: components =>
      @Prod.Lex.instLinearOrder component.Value (Values components)
        (Component.linearOrderValue component) (Values.linearOrder components)

/-! ## Writing -/

namespace Writer

theorem prefixMonotone_int32 :
    PrefixMonotone fun value : Int32 =>
      writeSignedNumIncreasing value.toInt64 := by
  intro less more lt
  refine prefixMonotone_writeSigned _ _ ?_
  rw [Int64.lt_iff_toInt_lt, Int32.toInt_toInt64, Int32.toInt_toInt64]
  exact Int32.lt_iff_toInt_lt.mp lt

theorem prefixMonotone_labeledInt32 (label : ComponentLabel) :
    PrefixMonotone (writeLabeledInt32 label) :=
  prefixMonotone_int32.prepend _

theorem prefixMonotone_labeledString (label : ComponentLabel) :
    PrefixMonotone (writeLabeledString label) :=
  prefixMonotone_writeString.prepend _

/-- One segment of a path. -/
def writeSegment (segment : List UInt8) : List UInt8 :=
  writeComponentLabel .pathSegment ++ writeString segment

theorem prefixMonotone_segment : PrefixMonotone writeSegment :=
  prefixMonotone_writeString.prepend _

theorem writeResourcePath_cons (segment : List UInt8) (path : ResourcePath) :
    writeResourcePath (segment :: path) =
      writeSegment segment ++ writeResourcePath path := rfl

theorem prefixMonotone_snapshotVersion :
    PrefixMonotone writeSnapshotVersion := by
  have pairs := (prefixMonotone_writeSigned.pair prefixMonotone_int32).prepend
    (writeComponentLabel .snapshotVersion)
  intro less more lt
  exact pairs less.pair more.pair lt

end Writer

namespace Component

/-- The label that a written component begins with; a path may be empty. -/
def label : Component → ComponentLabel
  | .string label => label
  | .int32 label => label
  | .resourcePath => .pathSegment
  | .documentKey => .pathSegment
  | .snapshotVersion => .snapshotVersion

/-- A path, which ends where no further segment follows. -/
def isPath : Component → Bool
  | .resourcePath => true
  | .documentKey => true
  | _ => false

end Component

/-- The label that follows a component. -/
def nextLabel : List Component → ComponentLabel
  | [] => .terminator
  | component :: _ => component.label

/-- All other labels come before that of a segment, and no path follows
another. -/
def Separated : List Component → Prop
  | [] => True
  | component :: components =>
      (if component.isPath then
        (nextLabel components).value < ComponentLabel.pathSegment.value
      else component.label.value < ComponentLabel.pathSegment.value) ∧
      Separated components

/-- What follows the name of the table in a key. -/
def Values.writeKey (components : List Component) (values : Values components) :
    List UInt8 :=
  values.write components ++ Writer.writeTerminator

theorem Values.writeKey_cons (component : Component)
    (components : List Component)
    (values : Values (component :: components)) :
    Values.writeKey (component :: components) values =
      component.write values.1 ++ Values.writeKey components values.2 :=
  List.append_assoc _ _ _

/-- What does not begin with a path begins with its label. -/
theorem Values.writeKey_begins {components : List Component}
    (notPath : (nextLabel components).value < ComponentLabel.pathSegment.value)
    (values : Values components) :
    ∃ after, Values.writeKey components values =
      Writer.writeComponentLabel (nextLabel components) ++ after := by
  cases components with
  | nil => exact ⟨[], (List.append_nil _).symm⟩
  | cons component components =>
      rw [Values.writeKey_cons]
      cases component with
      | string label => exact ⟨_, List.append_assoc _ _ _⟩
      | int32 label => exact ⟨_, List.append_assoc _ _ _⟩
      | resourcePath => exact absurd notPath (lt_irrefl _)
      | documentKey => exact absurd notPath (lt_irrefl _)
      | snapshotVersion => exact ⟨_, List.append_assoc _ _ _⟩

theorem before_writeSegment {components : List Component}
    (notPath : (nextLabel components).value < ComponentLabel.pathSegment.value)
    (segment : List UInt8) (values : Values components) :
    Before (Values.writeKey components values)
      (Writer.writeSegment segment) := by
  obtain ⟨after, begins⟩ := Values.writeKey_begins notPath values
  rw [begins]
  exact (prefixMonotone_writeSigned _ _ notPath).append after
    (writeString segment)

theorem Values.lt_cons_iff {component : Component}
    {components : List Component}
    {less more : Values (component :: components)} :
    less < more ↔ less.1 < more.1 ∨ less.1 = more.1 ∧ less.2 < more.2 :=
  Prod.Lex.lt_iff

/-- Written values of a component differ before what follows them. -/
theorem Component.before_write {component : Component}
    {components : List Component}
    (separated : Separated (component :: components))
    {less more : component.Value} (lt : less < more)
    (lessRest moreRest : Values components) :
    Before (component.write less ++ Values.writeKey components lessRest)
      (component.write more ++ Values.writeKey components moreRest) := by
  cases component with
  | string label =>
      exact (Writer.prefixMonotone_labeledString label _ _ lt).append _ _
  | int32 label =>
      exact (Writer.prefixMonotone_labeledInt32 label _ _ lt).append _ _
  | resourcePath =>
      exact Writer.prefixMonotone_segment.flatMap
        (before_writeSegment separated.1 · lessRest) lt _
  | documentKey =>
      exact Writer.prefixMonotone_segment.flatMap
        (before_writeSegment separated.1 · lessRest) lt _
  | snapshotVersion =>
      exact (Writer.prefixMonotone_snapshotVersion _ _ lt).append _ _

theorem prefixMonotone_writeKey {components : List Component}
    (separated : Separated components) :
    PrefixMonotone (Values.writeKey components) := by
  induction components with
  | nil =>
      intro less more lt
      exact absurd lt (lt_irrefl ())
  | cons component components inductionHypothesis =>
      intro less more lt
      rw [Values.writeKey_cons, Values.writeKey_cons]
      rcases Values.lt_cons_iff.mp lt with valueLt | ⟨same, restLt⟩
      · exact Component.before_write separated valueLt _ _
      · rw [same]
        exact (inductionHypothesis separated.2 _ _ restLt).prepend _

theorem Table.key_eq (table : Table) (values : Values table.components) :
    table.key values =
      Writer.writeTableName table.name ++
        Values.writeKey table.components values :=
  List.append_assoc _ _ _

theorem Table.prefixMonotone_key {table : Table}
    (separated : Separated table.components) :
    PrefixMonotone table.key := by
  have mono := (prefixMonotone_writeKey separated).prepend
    (Writer.writeTableName table.name)
  intro less more lt
  rw [Table.key_eq, Table.key_eq]
  exact mono less more lt

/-! ## Reading -/

namespace Reader

open FrontReader

theorem readSigned_takes {src rest : List UInt8} {raw : Int64} :
    readSignedNumIncreasing.Takes src raw rest ↔
      src = writeSignedNumIncreasing raw ++ rest :=
  readSigned_eq_some_iff src raw rest

theorem reads_string : Reads readString writeString := by
  intro src s rest
  rw [← readString_eq_some_iff]
  exact Except.ok.injEq _ _ ▸ Iff.rfl

theorem labelMatching_takes {label : ComponentLabel} {src rest : List UInt8}
    {matching : Bool} :
    (readComponentLabelMatching label).Takes src matching rest ↔
      ∃ raw, src = writeSignedNumIncreasing raw ++ rest ∧
        (raw == label.value) = matching := by
  rw [readComponentLabelMatching, bind_takes]
  simp only [readSigned_takes, pure_takes]
  constructor
  · rintro ⟨raw, middle, srcEq, isMatching, rfl⟩
    exact ⟨raw, srcEq, isMatching⟩
  · rintro ⟨raw, srcEq, isMatching⟩
    exact ⟨raw, rest, srcEq, isMatching, rfl⟩

/-- What is read behind the right label. -/
theorem labeled_takes {α : Type} {label : ComponentLabel} {read : Reader α}
    {src rest : List UInt8} {x : α} :
    (do if ← readComponentLabelMatching label then read else fail :
        Reader α).Takes src x rest ↔
      ∃ middle, src = Writer.writeComponentLabel label ++ middle ∧
        read.Takes middle x rest := by
  rw [bind_takes]
  constructor
  · rintro ⟨matching, middle, labelRead, taken⟩
    obtain ⟨raw, srcEq, rfl⟩ := labelMatching_takes.mp labelRead
    by_cases same : raw = label.value
    · subst same
      rw [beq_self_eq_true, if_pos rfl] at taken
      exact ⟨middle, srcEq, taken⟩
    · rw [beq_false_of_ne same, if_neg (by decide)] at taken
      exact absurd taken not_fail_takes
  · rintro ⟨middle, srcEq, taken⟩
    refine ⟨true, middle, labelMatching_takes.mpr ⟨_, srcEq, ?_⟩, ?_⟩
    · exact beq_self_eq_true _
    · rwa [if_pos rfl]

theorem reads_labeled {α : Type} {label : ComponentLabel} {read : Reader α}
    {encode : α → List UInt8} (reads : Reads read encode) :
    Reads (do if ← readComponentLabelMatching label then read else fail)
      fun x => Writer.writeComponentLabel label ++ encode x := by
  intro src x rest
  rw [labeled_takes]
  constructor
  · rintro ⟨middle, rfl, taken⟩
    rw [(reads _ _ _).mp taken, List.append_assoc]
  · intro srcEq
    rw [List.append_assoc] at srcEq
    exact ⟨_, srcEq, (reads _ _ _).mpr rfl⟩

theorem reads_int32 :
    Reads readInt32 fun value => writeSignedNumIncreasing value.toInt64 := by
  intro src value rest
  rw [readInt32, bind_takes]
  constructor
  · rintro ⟨raw, middle, rawRead, taken⟩
    split at taken
    · rename_i bounds
      obtain ⟨isValue, rfl⟩ := pure_takes.mp taken
      rw [Int64.le_iff_toInt_le, Int64.le_iff_toInt_le, Int32.toInt_toInt64,
        Int32.toInt_toInt64] at bounds
      change -2 ^ 31 ≤ raw.toInt ∧ raw.toInt ≤ 2 ^ 31 - 1 at bounds
      have wide : raw.toInt32.toInt64 = raw := by
        rw [← Int64.toInt_inj, Int32.toInt_toInt64, Int64.toInt_toInt32,
          Int.bmod_eq_of_le (by omega) (by omega)]
      dsimp only
      rw [← isValue, wide]
      exact readSigned_takes.mp rawRead
    · exact absurd taken not_fail_takes
  · intro srcEq
    refine ⟨value.toInt64, rest, readSigned_takes.mpr srcEq, ?_⟩
    have bounds : Int32.minValue.toInt64 ≤ value.toInt64 ∧
        value.toInt64 ≤ Int32.maxValue.toInt64 := by
      rw [Int64.le_iff_toInt_le, Int64.le_iff_toInt_le, Int32.toInt_toInt64,
        Int32.toInt_toInt64, Int32.toInt_toInt64]
      exact ⟨value.minValue_le_toInt, value.toInt_le⟩
    rw [if_pos bounds, Int32.toInt32_toInt64]
    exact pure_takes.mpr ⟨rfl, rfl⟩

theorem reads_labeledInt32 (label : ComponentLabel) :
    Reads (readLabeledInt32 label) (Writer.writeLabeledInt32 label) :=
  reads_labeled reads_int32

theorem reads_labeledString (label : ComponentLabel) :
    Reads (readLabeledString label) (Writer.writeLabeledString label) :=
  reads_labeled reads_string

theorem tableName_takes {tableName : String} {src rest : List UInt8} :
    (readTableNameMatching tableName).Takes src () rest ↔
      src = Writer.writeTableName tableName ++ rest := by
  rw [readTableNameMatching, readLabeledStringMatching, bind_takes]
  simp only [bind_takes, pure_takes]
  constructor
  · rintro ⟨matching, middle, ⟨value, middle, valueRead, isMatching, rfl⟩,
      taken⟩
    by_cases same : value = cString tableName
    · subst same
      rw [← isMatching, beq_self_eq_true, if_pos rfl, pure_takes] at taken
      rw [← taken.2]
      exact (reads_labeledString _ _ _ _).mp valueRead
    · rw [← isMatching, beq_false_of_ne same, if_neg (by decide)] at taken
      exact absurd taken not_fail_takes
  · intro srcEq
    refine ⟨true, rest, ⟨cString tableName, rest,
      (reads_labeledString _ _ _ _).mpr srcEq, beq_self_eq_true _, rfl⟩, ?_⟩
    rw [if_pos rfl]
    exact pure_takes.mpr ⟨rfl, rfl⟩

/-- The name of another table is read, and then the reader fails. -/
theorem tableName_other {tableName other : String}
    (ne : cString other ≠ cString tableName) (rest : List UInt8) :
    readTableNameMatching tableName (Writer.writeTableName other ++ rest) =
      .ok none := by
  have valueRead : (readLabeledString .tableName).Takes
      (Writer.writeTableName other ++ rest) (cString other) rest :=
    (reads_labeledString _ _ _ _).mpr rfl
  have mismatch :
      (readLabeledStringMatching .tableName (cString tableName)).Takes
        (Writer.writeTableName other ++ rest) false rest := by
    rw [readLabeledStringMatching, bind_takes]
    exact ⟨cString other, rest, valueRead,
      pure_takes.mpr ⟨beq_false_of_ne ne, rfl⟩⟩
  change FrontReader.bind _ _ _ = _
  unfold FrontReader.bind
  rw [mismatch]
  rfl

theorem terminator_takes {src rest : List UInt8} :
    readTerminator.Takes src () rest ↔ src = Writer.writeTerminator ++ rest := by
  rw [readTerminator, labeled_takes]
  simp only [pure_takes, true_and, exists_eq_right]
  rfl

/-- No further segment follows. -/
def Ends (rest : List UInt8) : Prop :=
  rest = [] ∨ ∃ raw after, rest = writeSignedNumIncreasing raw ++ after ∧
    raw ≠ ComponentLabel.pathSegment.value

theorem written_ne_nil (raw : Int64) (after : List UInt8) :
    writeSignedNumIncreasing raw ++ after ≠ [] := by
  obtain ⟨first, others, written, _⟩ := firstByte_writeSigned raw
  rw [written]
  exact List.cons_ne_nil _ _

/-- A round of the loop. -/
theorem readSegments_succ {rounds : Nat} {src rest : List UInt8}
    {path : ResourcePath} :
    (readSegments (rounds + 1)).Takes src path rest ↔
      path = [] ∧ src = rest ∧ Ends src ∨
        ∃ segment segments middle,
          path = segment :: segments ∧
          src = Writer.writeSegment segment ++ middle ∧
          (readSegments rounds).Takes middle segments rest := by
  rw [readSegments, bind_takes]
  simp only [position_takes]
  constructor
  · rintro ⟨_, _, ⟨rfl, rfl⟩, taken⟩
    split at taken
    · rename_i isEmpty
      obtain ⟨rfl, rfl⟩ := pure_takes.mp taken
      exact .inl ⟨rfl, rfl, .inl (List.isEmpty_iff.mp isEmpty)⟩
    · obtain ⟨matching, middle, labelRead, taken⟩ := bind_takes.mp taken
      obtain ⟨raw, rfl, isMatching⟩ := labelMatching_takes.mp labelRead
      split at taken
      · rename_i isSegment
        rw [isSegment, beq_iff_eq] at isMatching
        obtain ⟨segment, _, segmentRead, taken⟩ := bind_takes.mp taken
        obtain ⟨segments, _, segmentsRead, taken⟩ := bind_takes.mp taken
        obtain ⟨rfl, rfl⟩ := pure_takes.mp taken
        obtain rfl := (reads_string _ _ _).mp segmentRead
        refine .inr ⟨segment, segments, _, rfl, ?_, segmentsRead⟩
        rw [isMatching, Writer.writeSegment, Writer.writeComponentLabel,
          List.append_assoc]
      · rename_i notSegment
        rw [Bool.eq_false_iff.mpr notSegment, beq_eq_false_iff_ne] at isMatching
        obtain ⟨_, _, restored, taken⟩ := bind_takes.mp taken
        obtain rfl := restore_takes.mp restored
        obtain ⟨rfl, rfl⟩ := pure_takes.mp taken
        exact .inl ⟨rfl, rfl, .inr ⟨raw, middle, rfl, isMatching⟩⟩
  · rintro (⟨rfl, rfl, rfl | ⟨raw, after, rfl, ne⟩⟩ |
      ⟨segment, segments, middle, rfl, rfl, segmentsRead⟩)
    · exact ⟨[], [], ⟨rfl, rfl⟩, rfl⟩
    · refine ⟨_, _, ⟨rfl, rfl⟩, ?_⟩
      rw [if_neg (mt List.isEmpty_iff.mp (written_ne_nil raw after)),
        bind_takes]
      refine ⟨false, after, labelMatching_takes.mpr
        ⟨raw, rfl, beq_false_of_ne ne⟩, ?_⟩
      rw [if_neg (by decide), bind_takes]
      exact ⟨(), _, restore_takes.mpr rfl, pure_takes.mpr ⟨rfl, rfl⟩⟩
    · refine ⟨_, _, ⟨rfl, rfl⟩, ?_⟩
      have notEmpty := written_ne_nil ComponentLabel.pathSegment.value
        (writeString segment ++ middle)
      rw [Writer.writeSegment, List.append_assoc, Writer.writeComponentLabel,
        if_neg (mt List.isEmpty_iff.mp notEmpty), bind_takes]
      refine ⟨true, writeString segment ++ middle, labelMatching_takes.mpr
        ⟨_, rfl, beq_self_eq_true _⟩, ?_⟩
      rw [if_pos rfl, bind_takes]
      refine ⟨segment, middle, (reads_string _ _ _).mpr rfl, ?_⟩
      rw [bind_takes]
      exact ⟨segments, rest, segmentsRead, pure_takes.mpr ⟨rfl, rfl⟩⟩

theorem segments_takes {rounds : Nat} {src rest : List UInt8}
    {path : ResourcePath} (enough : src.length ≤ rounds) :
    (readSegments rounds).Takes src path rest ↔
      src = Writer.writeResourcePath path ++ rest ∧ Ends rest := by
  induction rounds generalizing src path with
  | zero =>
      obtain rfl := List.length_eq_zero_iff.mp (Nat.le_zero.mp enough)
      rw [readSegments, pure_takes]
      constructor
      · rintro ⟨rfl, rfl⟩
        exact ⟨rfl, .inl rfl⟩
      · rintro ⟨srcEq, _⟩
        cases path with
        | nil => exact ⟨rfl, srcEq⟩
        | cons segment segments =>
            rw [Writer.writeResourcePath_cons, Writer.writeSegment,
              List.append_assoc, List.append_assoc] at srcEq
            exact absurd srcEq.symm (written_ne_nil _ _)
  | succ rounds inductionHypothesis =>
      rw [readSegments_succ]
      have shorter : ∀ segment middle : List UInt8,
          src = Writer.writeSegment segment ++ middle →
            middle.length ≤ rounds := by
        intro segment middle srcEq
        have pos := List.length_pos_iff.mpr
          (written_ne_nil ComponentLabel.pathSegment.value
            (writeString segment))
        rw [srcEq, List.length_append] at enough
        rw [Writer.writeSegment, Writer.writeComponentLabel] at enough
        omega
      constructor
      · rintro (⟨rfl, rfl, ends⟩ |
          ⟨segment, segments, middle, rfl, srcEq, segmentsRead⟩)
        · exact ⟨rfl, ends⟩
        · obtain ⟨rfl, ends⟩ := (inductionHypothesis
            (shorter _ _ srcEq)).mp segmentsRead
          rw [Writer.writeResourcePath_cons, List.append_assoc]
          exact ⟨srcEq, ends⟩
      · rintro ⟨srcEq, ends⟩
        cases path with
        | nil =>
            obtain rfl : src = rest := srcEq
            exact .inl ⟨rfl, rfl, ends⟩
        | cons segment segments =>
            rw [Writer.writeResourcePath_cons, List.append_assoc] at srcEq
            exact .inr ⟨segment, segments, _, rfl, srcEq,
              (inductionHypothesis (shorter _ _ srcEq)).mpr ⟨rfl, ends⟩⟩

theorem resourcePath_takes {src rest : List UInt8} {path : ResourcePath} :
    readResourcePath.Takes src path rest ↔
      src = Writer.writeResourcePath path ++ rest ∧ Ends rest :=
  segments_takes le_rfl

theorem documentKey_takes {src rest : List UInt8} {key : DocumentKey} :
    readDocumentKey.Takes src key rest ↔
      src = Writer.writeResourcePath key.path ++ rest ∧ Ends rest := by
  rw [readDocumentKey, bind_takes]
  constructor
  · rintro ⟨path, middle, pathRead, taken⟩
    split at taken
    · obtain ⟨rfl, rfl⟩ := pure_takes.mp taken
      exact resourcePath_takes.mp pathRead
    · exact absurd taken not_fail_takes
  · intro written
    refine ⟨key.path, rest, resourcePath_takes.mpr written, ?_⟩
    rw [dif_pos ⟨key.ne_nil, key.isDocumentKey⟩]
    exact pure_takes.mpr ⟨rfl, rfl⟩

theorem make_eq_ok_iff {seconds : Int64} {nanoseconds : Int32}
    {version : SnapshotVersion} :
    Timestamp.make seconds nanoseconds = .ok version ↔
      version.seconds = seconds ∧ version.nanoseconds = nanoseconds := by
  unfold Timestamp.make
  obtain ⟨seconds', nanoseconds', nanosecondsBounds, secondsBounds⟩ := version
  constructor
  · intro made
    split at made
    · split at made
      · cases made
        exact ⟨rfl, rfl⟩
      · cases made
    · cases made
  · rintro ⟨rfl, rfl⟩
    rw [dif_pos nanosecondsBounds, dif_pos secondsBounds]

/-- What is read behind the label and the seconds. -/
theorem nanoseconds_takes {seconds : Int64} {src rest : List UInt8}
    {version : SnapshotVersion} :
    (readNanoseconds seconds).Takes src version rest ↔
      version.seconds = seconds ∧
        src = writeSignedNumIncreasing version.nanoseconds.toInt64 ++ rest := by
  have nanosRead := reads_int32 src version.nanoseconds rest
  unfold Takes at nanosRead ⊢
  rw [← nanosRead]
  unfold readNanoseconds
  constructor
  · intro taken
    split at taken
    · rename_i nanos after readEq
      match madeEq : Timestamp.make seconds nanos, taken with
      | .ok made, taken =>
          cases taken
          obtain ⟨secondsEq, nanosEq⟩ := make_eq_ok_iff.mp madeEq
          rw [nanosEq]
          exact ⟨secondsEq, readEq⟩
    · match madeEq : Timestamp.make seconds 0, taken with
      | .ok made, taken => cases taken
    · cases taken
  · rintro ⟨rfl, readEq⟩
    rw [readEq]
    dsimp only
    rw [make_eq_ok_iff.mpr ⟨rfl, rfl⟩]
    rfl

theorem reads_snapshotVersion :
    Reads readSnapshotVersion Writer.writeSnapshotVersion := by
  refine reads_labeled ?_
  intro src version rest
  rw [bind_takes]
  simp only [readSigned_takes, nanoseconds_takes]
  constructor
  · rintro ⟨seconds, middle, rfl, rfl, rfl⟩
    rw [List.append_assoc]
  · intro srcEq
    rw [List.append_assoc] at srcEq
    exact ⟨_, _, srcEq, rfl, rfl⟩

end Reader

/-- The components of a key, and its end. -/
def Values.readKey (components : List Component) :
    Reader (Values components) := do
  let values ← Values.read components
  Reader.readTerminator
  return values

open FrontReader Reader

/-- A path ends where the next component is labelled otherwise. -/
theorem Values.writeKey_ends {components : List Component}
    (notPath : (nextLabel components).value < ComponentLabel.pathSegment.value)
    (values : Values components) (rest : List UInt8) :
    Ends (Values.writeKey components values ++ rest) := by
  obtain ⟨after, begins⟩ := Values.writeKey_begins notPath values
  rw [begins, List.append_assoc]
  exact .inr ⟨_, _, rfl, notPath.ne⟩

theorem Component.read_takes {component : Component}
    {components : List Component}
    (separated : Separated (component :: components))
    {value : component.Value} {values : Values components}
    {src rest : List UInt8} :
    component.read.Takes src value
        (Values.writeKey components values ++ rest) ↔
      src = component.write value ++
        (Values.writeKey components values ++ rest) := by
  cases component with
  | string label => exact reads_labeledString label _ _ _
  | int32 label => exact reads_labeledInt32 label _ _ _
  | resourcePath =>
      refine resourcePath_takes.trans (and_iff_left ?_)
      exact Values.writeKey_ends separated.1 values rest
  | documentKey =>
      refine documentKey_takes.trans (and_iff_left ?_)
      exact Values.writeKey_ends separated.1 values rest
  | snapshotVersion => exact reads_snapshotVersion _ _ _

theorem Values.readKey_takes {components : List Component}
    {src rest : List UInt8} {values : Values components} :
    (Values.readKey components).Takes src values rest ↔
      (Values.read components).Takes src values
        (Writer.writeTerminator ++ rest) := by
  rw [Values.readKey, bind_takes]
  constructor
  · rintro ⟨_, _, valuesRead, taken⟩
    obtain ⟨_, _, terminatorRead, taken⟩ := bind_takes.mp taken
    obtain ⟨rfl, rfl⟩ := pure_takes.mp taken
    obtain rfl := terminator_takes.mp terminatorRead
    exact valuesRead
  · intro valuesRead
    exact ⟨values, _, valuesRead, bind_takes.mpr
      ⟨(), rest, terminator_takes.mpr rfl, pure_takes.mpr ⟨rfl, rfl⟩⟩⟩

theorem Values.readKey_cons {component : Component}
    {components : List Component} {src rest : List UInt8}
    {values : Values (component :: components)} :
    (Values.readKey (component :: components)).Takes src values rest ↔
      ∃ middle, component.read.Takes src values.1 middle ∧
        (Values.readKey components).Takes middle values.2 rest := by
  simp only [Values.readKey_takes]
  rw [Values.read, bind_takes]
  constructor
  · rintro ⟨value, middle, valueRead, taken⟩
    obtain ⟨_, _, othersRead, taken⟩ := bind_takes.mp taken
    obtain ⟨rfl, rfl⟩ := pure_takes.mp taken
    exact ⟨middle, valueRead, othersRead⟩
  · rintro ⟨middle, valueRead, othersRead⟩
    exact ⟨values.1, middle, valueRead, bind_takes.mpr
      ⟨values.2, _, othersRead, pure_takes.mpr ⟨rfl, rfl⟩⟩⟩

theorem Values.reads_key {components : List Component}
    (separated : Separated components) :
    Reads (Values.readKey components) (Values.writeKey components) := by
  induction components with
  | nil =>
      intro src values rest
      rw [Values.readKey_takes, Values.read, pure_takes]
      exact and_iff_right rfl
  | cons component components inductionHypothesis =>
      intro src values rest
      rw [Values.readKey_cons, Values.writeKey_cons, List.append_assoc,
        ← Component.read_takes separated]
      constructor
      · rintro ⟨middle, valueRead, restRead⟩
        obtain rfl := (inductionHypothesis separated.2 _ _ _).mp restRead
        exact valueRead
      · intro valueRead
        exact ⟨_, valueRead, (inductionHypothesis separated.2 _ _ _).mpr rfl⟩

theorem Table.reads_key {table : Table}
    (separated : Separated table.components) :
    Reads table.read table.key := by
  intro src values rest
  rw [Table.read, bind_takes, Table.key_eq, List.append_assoc,
    ← tableName_takes]
  constructor
  · rintro ⟨_, middle, nameRead, valuesRead⟩
    obtain rfl := (Values.reads_key separated _ _ _).mp valuesRead
    exact nameRead
  · intro nameRead
    exact ⟨_, _, nameRead, (Values.reads_key separated _ _ _).mpr rfl⟩

/-- A key is decoded to exactly what it was made of. -/
theorem Table.decode_eq_some_iff {table : Table}
    (separated : Separated table.components) (key : List UInt8)
    (values : Values table.components) :
    table.decode key = .ok (some values) ↔
      ∃ rest, key = table.key values ++ rest := by
  simp only [← Table.reads_key separated key values]
  unfold Table.decode Takes
  constructor
  · intro decoded
    match readEq : table.read key, decoded with
    | .ok (some (read, rest)), decoded =>
        cases decoded
        exact ⟨rest, rfl⟩
  · rintro ⟨rest, readEq⟩
    rw [readEq]
    rfl

/-! ## The tables -/

instance decidableSeparated :
    (components : List Component) → Decidable (Separated components)
  | [] => .isTrue trivial
  | _ :: components =>
      have := decidableSeparated components
      inferInstanceAs (Decidable (_ ∧ _))

theorem separated_tables : ∀ table ∈ tables, Separated table.components := by
  decide +kernel

theorem tableNames_distinct :
    ∀ table ∈ tables, ∀ other ∈ tables,
      cString table.name = cString other.name → table = other := by
  decide +kernel

/-- Another table does not decode a key. -/
theorem Table.decode_other {table other : Table} (member : table ∈ tables)
    (otherMember : other ∈ tables) (ne : other ≠ table)
    (others : Values other.components) (after : List UInt8) :
    table.decode (other.key others ++ after) = .ok none := by
  have otherName : cString other.name ≠ cString table.name :=
    fun same => ne (tableNames_distinct other otherMember table member same)
  have nameRead := tableName_other otherName
    (Values.writeKey other.components others ++ after)
  rw [Table.key_eq, List.append_assoc]
  change Except.map _ (FrontReader.bind _ _ _) = _
  unfold FrontReader.bind
  rw [nameRead]
  rfl

/-- The keys of each table: decoding gives exactly what a key was made of, keys
compare like their components, whatever follows them, and the key of another
table is not decoded. -/
theorem Table.keys_decode_and_compare {table : Table} (member : table ∈ tables)
    (values other : Values table.components) (after later : List UInt8) :
    (∀ key, table.decode key = .ok (some values) ↔
      ∃ rest, key = table.key values ++ rest) ∧
    (table.key values ++ after < table.key other ++ later ↔
      values < other ∨ values = other ∧ after < later) ∧
    ∀ otherTable ∈ tables, otherTable ≠ table → ∀ others,
      table.decode (otherTable.key others ++ after) = .ok none := by
  have separated := separated_tables table member
  refine ⟨fun key => Table.decode_eq_some_iff separated key values,
    (Table.prefixMonotone_key separated).append_lt_append_iff, ?_⟩
  intro otherTable otherMember ne others
  exact Table.decode_other member otherMember ne others after

/-- `Table.keys_decode_and_compare` for the batches -1 and 1 of one user. -/
theorem Table.keys_compare_batches :
    LevelDbMutationKey.decode (LevelDbMutationKey.key [] (-1)) =
        .ok (some ([], (-1 : Int32), ())) ∧
      LevelDbMutationKey.key [] (-1) < LevelDbMutationKey.key [] 1 ∧
      LevelDbMutationKey.decode LevelDbVersionKey.key = .ok none := by
  have member : LevelDbMutationKey.table ∈ tables := by decide
  obtain ⟨decoded, compare, others⟩ := Table.keys_decode_and_compare member
    ([], (-1 : Int32), ()) ([], (1 : Int32), ()) [] []
  rw [List.append_nil, List.append_nil] at compare
  refine ⟨(decoded _).mpr ⟨[], (List.append_nil _).symm⟩, ?_, ?_⟩
  · refine compare.mpr (.inl (Values.lt_cons_iff.mpr (.inr ⟨rfl, ?_⟩)))
    exact Values.lt_cons_iff.mpr (.inl (by decide))
  · have notDecoded := others LevelDbVersionKey.table (by decide) (by decide) ()
    rwa [List.append_nil] at notDecoded

end AppLPS
