/-
Module: AppLPS.Proofs.Duplicates
Purpose: When overlapping refreshes neither duplicate nor resurrect rows: as
  long as no download of an earlier refresh succeeds after a later one started.
Trusted boundary: none
Main exports: SnapshotKeyed, RowsBelong, RowsOfLatest, OwnDownload,
  rows_of_latest, overlapping_refreshes_duplicate
-/
import AppLPS.Proofs.LatestRefresh

namespace AppLPS.Device

/-! ## The property -/

/-- A snapshot of documents with distinct ids, each storing its id as its
date. -/
structure SnapshotKeyed (snapshot : List QueryDocumentSnapshot) : Prop where
  distinct : (snapshot.map (·.documentID)).Nodup
  dated : ∀ document ∈ snapshot,
    document.data.lookup "date" = some (.string document.documentID)

/-- No two rows have the same date, and every row belongs to a document of the
snapshot of the refresh. -/
structure RowsBelong (rows : List UserImage) (latest : Option Refresh) :
    Prop where
  distinct : (rows.map (·.date)).Nodup
  belong : ∀ row ∈ rows, ∃ refresh ∈ latest, ∃ snapshot,
    refresh.snapshot = some snapshot ∧
      ∃ document ∈ snapshot, Describes document row

/-- The rows of the list belong to the most recently started refresh. -/
def RowsOfLatest (observed : Device × Option Refresh) : Prop :=
  RowsBelong observed.1.controller.refImagenesUsuario observed.2

/-- Every query is answered with a keyed snapshot, if it succeeds. -/
def AnswersKeyed (_ : Device × Option Refresh) (event : Event) : Prop :=
  ∀ ticket snapshot, event = .answer ticket (.documents snapshot) →
    SnapshotKeyed snapshot

/-- Only downloads of the latest refresh complete with data. -/
def OwnDownload (observed : Device × Option Refresh) (event : Event) : Prop :=
  ∀ ticket imageData, event = .callback ticket →
    observed.1.answerTo ticket = some (.data imageData) →
    ∃ refresh ∈ observed.2, ∃ document,
      refresh.document? ticket = some document

/-! ## The invariant -/

/-- No download of the latest refresh that is still in flight has its row
already. -/
def NotShown (rows : List UserImage) (latest : Option Refresh)
    (pending : Pool Call) : Prop :=
  ∀ refresh ∈ latest, pending.Each fun ticket _ => ∀ document,
    refresh.document? ticket = some document →
      ∀ row ∈ rows, row.date ≠ document.documentID

/-- The rows belong to the latest refresh, whose other downloads have no row
yet, and all snapshots are keyed. -/
structure RowsInvariant (observed : Device × Option Refresh) : Prop where
  tracks : Tracks observed.2 observed.1.pending
  answersKeyed : observed.1.pending.All fun call =>
    ∀ snapshot, call.answer = some (.documents snapshot) →
      SnapshotKeyed snapshot
  snapshotKeyed : ∀ refresh ∈ observed.2, ∀ snapshot,
    refresh.snapshot = some snapshot → SnapshotKeyed snapshot
  rows : RowsOfLatest observed
  notShown : NotShown observed.1.controller.refImagenesUsuario observed.2
    observed.1.pending

/-- The downloads of a keyed snapshot are for distinct ids. -/
theorem Refresh.document?_injective {refresh : Refresh}
    (keyed : ∀ snapshot, refresh.snapshot = some snapshot →
      SnapshotKeyed snapshot)
    {one two : Nat} {first second : QueryDocumentSnapshot}
    (startedOne : refresh.document? one = some first)
    (startedTwo : refresh.document? two = some second)
    (same : first.documentID = second.documentID) : one = two := by
  obtain ⟨snapshot, index, received, rfl, foundOne⟩ :=
    Refresh.document?_eq_some.mp startedOne
  obtain ⟨snapshot', index', received', rfl, foundTwo⟩ :=
    Refresh.document?_eq_some.mp startedTwo
  cases received.symm.trans received'
  have distinct : ((ownDocuments refresh.correoUsuario snapshot).map
      (·.documentID)).Nodup :=
    (keyed snapshot received).distinct.sublist (List.filter_sublist.map _)
  have inRange := (List.getElem?_eq_some_iff.mp foundOne).1
  have sameIndex : index = index' :=
    (List.getElem?_inj (by simpa using inRange) distinct).mp
      (by simp [foundOne, foundTwo, same])
  rw [sameIndex]

theorem RowsBelong.nil (latest : Option Refresh) : RowsBelong [] latest :=
  ⟨List.nodup_nil, nofun⟩

namespace NotShown

variable {rows : List UserImage} {latest : Option Refresh}
  {pending : Pool Call}

theorem submitAll (notShown : NotShown rows latest pending)
    (tracks : Tracks latest pending) (works : List Call) :
    NotShown rows latest (pending.submitAll works) := by
  intro refresh isLatest
  cases isLatest
  exact tracks.each_submitAll (notShown refresh rfl) works

theorem remove (notShown : NotShown rows latest pending) (ticket : Nat) :
    NotShown rows latest (pending.remove ticket) :=
  fun refresh isLatest =>
    (notShown refresh isLatest).remove fun _ _ _ holds => holds

theorem respond (notShown : NotShown rows latest pending) (ticket : Nat)
    (response : Response) :
    NotShown rows latest
      (pending.update ticket fun call => call.respond response) :=
  fun refresh isLatest =>
    (notShown refresh isLatest).update fun _ _ holds => holds

theorem nil (latest : Option Refresh) (pending : Pool Call) :
    NotShown [] latest pending :=
  fun _ _ _ _ _ _ _ => nofun

end NotShown

namespace RowsInvariant

theorem launch (persisted : Option FIRUser) :
    RowsInvariant (launch persisted, none) where
  tracks := Tracks.none
  answersKeyed := Pool.all_empty _
  snapshotKeyed := nofun
  rows := RowsBelong.nil none
  notShown := nofun

private theorem answersKeyed_step {observed : Device × Option Refresh}
    {after : Device} {event : Event} (invariant : RowsInvariant observed)
    (assumed : AnswersKeyed observed event)
    (taken : machine.next observed.1 event = some after) :
    after.pending.All fun call =>
      ∀ snapshot, call.answer = some (.documents snapshot) →
        SnapshotKeyed snapshot := by
  apply all_of_next invariant.answersKeyed _ _ taken
  · intro request _ snapshot answered
    cases answered
  · intro ticket response call isEvent found accepts _ snapshot answered
    subst isEvent
    rw [Call.respond_answer accepts] at answered
    cases answered
    exact assumed ticket snapshot rfl

private theorem snapshotKeyed_step {observed : Device × Option Refresh}
    {after : Device} {event : Event} (invariant : RowsInvariant observed)
    (taken : machine.next observed.1 event = some after) :
    ∀ refresh ∈ recordRefresh observed.1 event after observed.2, ∀ snapshot,
      refresh.snapshot = some snapshot → SnapshotKeyed snapshot := by
  obtain ⟨device, latest⟩ := observed
  cases acts_of_next taken with
  | runTask found account =>
      rw [recordRefresh_runTask found account]
      intro refresh isLatest snapshot received
      cases isLatest
      cases received
  | callback found answered _ =>
      rename_i ticket call response outcome
      cases latest with
      | none => nofun
      | some refresh =>
          rw [recordRefresh, Option.map_some]
          rcases refresh.received_cases found answered with
            ⟨snapshot, rfl, _, receivedEq⟩ | ⟨_, receivedEq⟩
          · rw [receivedEq]
            intro _ isLatest _ same'
            cases isLatest
            cases same'
            exact invariant.answersKeyed.of_find? found snapshot answered
          · rw [receivedEq]
            exact invariant.snapshotKeyed
  | quiet _ _ _ isQuiet =>
      rw [recordRefresh_of_quiet isQuiet]
      exact invariant.snapshotKeyed
  | onDelete => exact invariant.snapshotKeyed
  | saveEdit => exact invariant.snapshotKeyed
  | save => exact invariant.snapshotKeyed
  | answer => exact invariant.snapshotKeyed

/-- Before the latest refresh has its snapshot the list is empty. -/
private theorem no_rows {device : Device} {refresh : Refresh}
    (invariant : RowsInvariant (device, some refresh))
    (waiting : refresh.snapshot = none) :
    device.controller.refImagenesUsuario = [] := by
  apply List.eq_nil_iff_forall_not_mem.mpr
  intro row member
  obtain ⟨_, ⟨⟩, snapshot, received, _⟩ := invariant.rows.belong row member
  rw [waiting] at received
  cases received

/-- A download of the latest refresh completes: its row is new. -/
private theorem data_step {device : Device} {refresh : Refresh} {ticket : Nat}
    {call : Call} {path : String} {document : QueryDocumentSnapshot}
    {started : QueryDocumentSnapshot} {row : UserImage}
    (invariant : RowsInvariant (device, some refresh))
    (found : device.pending.find? ticket = some call)
    (requestEq : call.request = .getData path document)
    (isOwn : refresh.document? ticket = some started)
    (describes : Describes document row) :
    RowsBelong (device.controller.refImagenesUsuario ++ [row])
        (some refresh) ∧
      NotShown (device.controller.refImagenesUsuario ++ [row]) (some refresh)
        (device.pending.remove ticket) := by
  have isDownload : call.request = download started :=
    (invariant.tracks.downloads refresh rfl).of_find? found started isOwn
  have sameDocument : document = started := by
    cases requestEq.symm.trans isDownload
    rfl
  subst sameDocument
  obtain ⟨snapshot, received, own⟩ :=
    Refresh.exists_snapshot_of_document? isOwn
  have inSnapshot : document ∈ snapshot := List.mem_of_mem_filter own
  have keyed := invariant.snapshotKeyed refresh rfl
  have dateEq : row.date = document.documentID := by
    have dated := (keyed snapshot received).dated document inSnapshot
    rw [describes.date] at dated
    simpa using dated
  have unseen := (invariant.notShown refresh rfl).of_find? found document isOwn
  refine ⟨⟨?_, ?_⟩, ?_⟩
  · rw [List.map_append, List.nodup_append]
    refine ⟨invariant.rows.distinct, by simp, ?_⟩
    intro date older date' newer same
    obtain ⟨oldRow, oldMember, rfl⟩ := List.mem_map.mp older
    cases List.mem_singleton.mp newer
    exact unseen oldRow oldMember (same.trans dateEq)
  · intro shown member
    rcases List.mem_append.mp member with old | new
    · exact invariant.rows.belong shown old
    · cases List.mem_singleton.mp new
      exact ⟨refresh, rfl, snapshot, received, document, inSnapshot, describes⟩
  · intro _ isLatest
    cases isLatest
    refine (invariant.notShown refresh rfl).remove ?_
    intro other _ ne before document' isOther shown member
    rcases List.mem_append.mp member with old | new
    · exact before document' isOther shown old
    · cases List.mem_singleton.mp new
      intro same
      exact ne (Refresh.document?_injective keyed isOther isOwn
        (same.symm.trans dateEq))

/-- A closure that leaves the rows alone. -/
private theorem other_step {device : Device} {refresh : Refresh} {ticket : Nat}
    {call : Call} {response : Response} {after : FirebaseController}
    (invariant : RowsInvariant (device, some refresh))
    (found : device.pending.find? ticket = some call)
    (answered : call.answer = some response)
    (rows : after.refImagenesUsuario = device.controller.refImagenesUsuario)
    (works : List Call) :
    RowsBelong after.refImagenesUsuario
        (some (refresh.received device ticket)) ∧
      NotShown after.refImagenesUsuario
        (some (refresh.received device ticket))
        ((device.pending.remove ticket).submitAll works) := by
  rw [rows]
  rcases refresh.received_cases found answered with
    ⟨snapshot, rfl, rfl, receivedEq⟩ | ⟨_, receivedEq⟩
  · have waiting := (invariant.tracks.waiting refresh rfl).of_find? found rfl
    rw [no_rows invariant waiting]
    exact ⟨RowsBelong.nil _, NotShown.nil _ _⟩
  · rw [receivedEq]
    exact ⟨invariant.rows,
      (invariant.notShown.remove ticket).submitAll
        (invariant.tracks.remove ticket) works⟩

private theorem rows_step {observed : Device × Option Refresh}
    {after : Device} {event : Event} (invariant : RowsInvariant observed)
    (ownDownload : OwnDownload observed event)
    (taken : machine.next observed.1 event = some after) :
    RowsBelong after.controller.refImagenesUsuario
        (recordRefresh observed.1 event after observed.2) ∧
      NotShown after.controller.refImagenesUsuario
        (recordRefresh observed.1 event after observed.2) after.pending := by
  obtain ⟨device, latest⟩ := observed
  have rows := invariant.rows
  have notShown := invariant.notShown
  cases acts_of_next taken with
  | quiet gallery pending _ isQuiet =>
      rw [recordRefresh_of_quiet isQuiet, gallery.rows, pending]
      exact ⟨rows, notShown⟩
  | runTask found account =>
      rw [recordRefresh_runTask found account]
      exact ⟨RowsBelong.nil _, NotShown.nil _ _⟩
  | onDelete _ _ afterEq =>
      subst afterEq
      exact ⟨rows, notShown.submitAll invariant.tracks _⟩
  | saveEdit => exact ⟨rows, notShown.submitAll invariant.tracks _⟩
  | save =>
      rw [perform_controller, FirebaseController.uploadStorage_controller]
      exact ⟨rows, notShown.submitAll invariant.tracks _⟩
  | answer => exact ⟨rows, notShown.respond _ _⟩
  | callback found answered completes =>
      rename_i ticket call response outcome
      generalize requestEq : call.request = request at completes
      have ownData : ∀ imageData, response = .data imageData →
          ∃ refresh ∈ latest, ∃ document,
            refresh.document? ticket = some document := by
        intro imageData isEvent
        subst isEvent
        exact ownDownload ticket imageData rfl (answerTo_eq found answered)
      cases latest with
      | none =>
          constructor
          · cases completes with
            | data =>
                obtain ⟨_, ⟨⟩, _⟩ := ownData _ rfl
            | _ => exact rows
          · intro refresh isLatest
            cases isLatest
      | some refresh =>
          rw [recordRefresh, Option.map_some]
          cases completes with
          | data named dated owned =>
              obtain ⟨_, ⟨⟩, started, isOwn⟩ := ownData _ rfl
              rw [invariant.tracks.received_eq_self found answered
                (by simp [requestEq])]
              exact data_step invariant found requestEq isOwn
                ⟨named, dated, owned⟩
          | _ => exact other_step invariant found answered rfl _

theorem step {observed after : Device × Option Refresh} {event : Event}
    (invariant : RowsInvariant observed)
    (condition : AnswersKeyed observed event ∧ OwnDownload observed event)
    (taken : (machine.observe recordRefresh).next observed event =
      some after) : RowsInvariant after := by
  obtain ⟨reached, stepped, rfl⟩ := Machine.exists_of_observe_next taken
  have ⟨belong, notShown⟩ := rows_step invariant condition.2 stepped
  exact ⟨invariant.tracks.of_next stepped,
    answersKeyed_step invariant condition.1 stepped,
    snapshotKeyed_step invariant stepped, belong, notShown⟩

end RowsInvariant

/-! ## Runs -/

/-- In every run in which only downloads of the latest refresh complete with
data, no two rows ever have the same date and every row belongs to the snapshot
of the latest refresh. -/
theorem rows_of_latest (persisted : Option FIRUser) {events : List Event}
    (guarded : (machine.observe recordRefresh).Guarded
      (fun observed event => AnswersKeyed observed event ∧
        OwnDownload observed event) (launch persisted, none) events) :
    (machine.observe recordRefresh).Always RowsOfLatest
      (launch persisted, none) events := by
  have always : (machine.observe recordRefresh).Always RowsInvariant
      (launch persisted, none) events :=
    Machine.always_of_guarded
      (fun _ _ _ invariant condition taken => invariant.step condition taken)
      (RowsInvariant.launch persisted) guarded
  exact always.mono fun _ invariant => invariant.rows

/-- Another document of the account. -/
def monte : QueryDocumentSnapshot where
  documentID := "2021-11-10 09:00:00"
  data := .record "ana@lps.es" "monte" "2021-11-10 09:00:00"

/-- A second refresh starts while the two downloads of the first are pending,
and these fail only after the second has got its snapshot. -/
def laterRefresh : List Event :=
  firstRefresh ++
    [.answer 0 (.documents [playa, monte]), .callback 0, .appear, .mainStep,
      .runTask 1, .answer 3 (.documents [playa, monte]), .callback 3,
      .answer 1 (.failure "cancelled"), .callback 1, .answer 5 (.data [2]),
      .callback 5, .answer 2 (.failure "cancelled"), .callback 2,
      .answer 4 (.data [3]), .callback 4]

theorem SnapshotKeyed.answers {snapshot : List QueryDocumentSnapshot}
    (keyed : SnapshotKeyed snapshot) (observed : Device × Option Refresh)
    (ticket : Nat) :
    AnswersKeyed observed (.answer ticket (.documents snapshot)) := by
  intro ticket' snapshot' isEvent
  cases isEvent
  exact keyed

theorem OwnDownload.of_no_data {observed : Device × Option Refresh}
    {ticket : Nat}
    (noData : ∀ imageData,
      observed.1.answerTo ticket ≠ some (.data imageData)) :
    OwnDownload observed (.callback ticket) := by
  intro ticket' imageData isEvent isData
  cases isEvent
  exact absurd isData (noData imageData)

theorem OwnDownload.of_started {observed : Device × Option Refresh}
    {ticket : Nat} {refresh : Refresh} {document : QueryDocumentSnapshot}
    (latest : observed.2 = some refresh)
    (started : refresh.document? ticket = some document) :
    OwnDownload observed (.callback ticket) := by
  intro ticket' imageData isEvent _
  cases isEvent
  exact ⟨refresh, latest, document, started⟩

/-- `rows_of_latest` for two refreshes that overlap. -/
theorem rows_of_latest_overlapping :
    (∃ device refresh,
      (machine.observe recordRefresh).exec (launch none, none) laterRefresh =
        some (device, some refresh) ∧
      device.controller.refImagenesUsuario.map (·.name) = ["monte", "playa"]) ∧
    (machine.observe recordRefresh).Always RowsOfLatest (launch none, none)
      laterRefresh := by
  refine ⟨⟨_, _, rfl, rfl⟩, rows_of_latest none ?_⟩
  have keyed : SnapshotKeyed [playa, monte] :=
    ⟨by decide, by simp [playa, monte]⟩
  have before : (machine.observe recordRefresh).Guarded
      (fun observed event => AnswersKeyed observed event ∧
        OwnDownload observed event) (launch none, none) firstRefresh :=
    Machine.guarded_of_forall
      (by simp [firstRefresh, AnswersKeyed, OwnDownload]) _
  refine before.append rfl ?_
  refine Machine.guarded_cons rfl ⟨keyed.answers _ _, nofun⟩ ?_
  refine Machine.guarded_cons rfl ⟨nofun, .of_no_data nofun⟩ ?_
  iterate 3 refine Machine.guarded_cons rfl ⟨nofun, nofun⟩ ?_
  refine Machine.guarded_cons rfl ⟨keyed.answers _ _, nofun⟩ ?_
  refine Machine.guarded_cons rfl ⟨nofun, .of_no_data nofun⟩ ?_
  refine Machine.guarded_cons rfl ⟨nofun, nofun⟩ ?_
  refine Machine.guarded_cons rfl ⟨nofun, .of_no_data nofun⟩ ?_
  refine Machine.guarded_cons rfl ⟨nofun, nofun⟩ ?_
  refine Machine.guarded_cons rfl ⟨nofun, .of_started rfl rfl⟩ ?_
  refine Machine.guarded_cons rfl ⟨nofun, nofun⟩ ?_
  refine Machine.guarded_cons rfl ⟨nofun, .of_no_data nofun⟩ ?_
  refine Machine.guarded_cons rfl ⟨nofun, nofun⟩ ?_
  exact Machine.guarded_cons rfl ⟨nofun, .of_started rfl rfl⟩ trivial

/-- The signed-in screen appears a second time while the download of its first
refresh is pending, and the download completes after the second refresh has
cleared the list. -/
def overlappingRefreshes : List Event :=
  firstRefresh ++ [.answer 0 (.documents [playa]), .callback 0,
    .appear, .mainStep, .runTask 1, .answer 1 (.data [2]), .callback 1,
    .answer 2 (.documents [playa]), .callback 2, .answer 3 (.data [2]),
    .callback 3]

/-- The picture is then listed twice. -/
theorem overlapping_refreshes_duplicate :
    ¬ (machine.observe recordRefresh).Always
        (fun observed =>
          (observed.1.controller.refImagenesUsuario.map (·.date)).Nodup)
        (launch none, none) overlappingRefreshes := by
  intro always
  have run : ∃ device latest,
      (machine.observe recordRefresh).exec (launch none, none)
        overlappingRefreshes = some (device, latest) ∧
      device.controller.refImagenesUsuario.map (·.date) =
        ["2021-11-09 08:05:30", "2021-11-09 08:05:30"] :=
    ⟨_, _, rfl, rfl⟩
  obtain ⟨device, latest, reached, dates⟩ := run
  have distinct := always.last reached
  simp only [dates] at distinct
  exact absurd distinct (by decide)

end AppLPS.Device
