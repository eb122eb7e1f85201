/-
Module: AppLPS.Proofs.NoPictures
Purpose: When "No pictures found" is shown rightly: exactly when nothing else
  ends the loading of the latest refresh before its query has completed.
Trusted boundary: none
Main exports: NoPicturesRight, EndsLoading, NotCutShort, noPicturesRight_iff,
  upload_cuts_refresh_short
-/
import AppLPS.Proofs.LatestRefresh

namespace AppLPS.Device

/-! ## The property -/

/-- The message is shown only when the query of the refresh has completed with
no document of its account. -/
def MessageRight (controller : FirebaseController) (refresh : Refresh) : Prop :=
  picturesBody controller = .noPictures →
    ∃ snapshot, refresh.snapshot = some snapshot ∧
      ownDocuments refresh.correoUsuario snapshot = []

/-- The message is right about the most recently started refresh. -/
def NoPicturesRight (observed : Device × Option Refresh) : Prop :=
  ∀ refresh ∈ observed.2, MessageRight observed.1.controller refresh

/-- No query is answered with a failure. -/
def QueriesSucceed (observed : Device × Option Refresh) (event : Event) :
    Prop :=
  ∀ ticket description call correoUsuario,
    event = .answer ticket (.failure description) →
      observed.1.pending.find? ticket = some call →
      call.request ≠ .getDocuments correoUsuario

/-- The closures that clear `loading` without having found a document of their
account: the one of an upload's `setData`, and the one of the query of another
refresh. -/
inductive EndsLoading (device : Device) (refresh : Refresh) : Event → Prop where
  | upload {ticket : Nat} {call : Call} {documentID correoUsuario : String}
      {fields : Fields} (found : device.pending.find? ticket = some call)
      (isUpload :
        call.request = .setData documentID fields (some correoUsuario)) :
      EndsLoading device refresh (.callback ticket)
  | query {ticket : Nat} {call : Call} {correoUsuario : String}
      {snapshot : List QueryDocumentSnapshot}
      (found : device.pending.find? ticket = some call)
      (isQuery : call.request = .getDocuments correoUsuario)
      (answered : call.answer = some (.documents snapshot))
      (isOther : ticket ≠ refresh.ticket)
      (noneOwn : ownDocuments correoUsuario snapshot = []) :
      EndsLoading device refresh (.callback ticket)

/-- While the latest refresh waits for its snapshot, and the list and `empty`
are as it has set them, no other closure clears `loading`. -/
def NotCutShort (observed : Device × Option Refresh) (event : Event) : Prop :=
  ∀ refresh ∈ observed.2, refresh.snapshot = none →
    observed.1.controller.empty = true →
    observed.1.controller.refImagenesUsuario = [] →
    ¬ EndsLoading observed.1 refresh event

/-! ## The invariant -/

theorem picturesBody_eq_noPictures {controller : FirebaseController} :
    picturesBody controller = .noPictures ↔
      controller.loading = false ∧ controller.empty = true ∧
        controller.refImagenesUsuario = [] := by
  unfold picturesBody
  cases controller.loading <;> cases controller.empty <;>
    simp [List.length_eq_zero_iff]

/-- The history is on track, no query has failed, and a snapshot with documents
of the account has cleared `empty`. -/
structure GalleryInvariant (observed : Device × Option Refresh) : Prop where
  tracks : Tracks observed.2 observed.1.pending
  succeeded : observed.1.pending.All fun call =>
    ∀ correoUsuario description, call.request = .getDocuments correoUsuario →
      call.answer ≠ some (.failure description)
  notEmpty : ∀ refresh ∈ observed.2, ∀ snapshot,
    refresh.snapshot = some snapshot →
      ownDocuments refresh.correoUsuario snapshot ≠ [] →
      observed.1.controller.empty = false

namespace GalleryInvariant

theorem launch (persisted : Option FIRUser) :
    GalleryInvariant (launch persisted, none) where
  tracks := Tracks.none
  succeeded := Pool.all_empty _
  notEmpty := nofun

private theorem succeeded_step {observed : Device × Option Refresh}
    {after : Device} {event : Event} (invariant : GalleryInvariant observed)
    (assumed : QueriesSucceed observed event)
    (taken : machine.next observed.1 event = some after) :
    after.pending.All fun call =>
      ∀ correoUsuario description, call.request = .getDocuments correoUsuario →
        call.answer ≠ some (.failure description) := by
  apply all_of_next invariant.succeeded _ _ taken
  · intro request _ correoUsuario description _
    simp
  · intro ticket response call isEvent found accepts _ correoUsuario description
      isQuery failed
    subst isEvent
    rw [Call.respond_answer accepts] at failed
    cases failed
    exact assumed ticket description call correoUsuario rfl found
      (by simpa using isQuery)

/-- `empty` stays cleared until the next refresh starts. -/
private theorem notEmpty_step {observed : Device × Option Refresh}
    {after : Device} {event : Event} (invariant : GalleryInvariant observed)
    (taken : machine.next observed.1 event = some after) :
    ∀ refresh ∈ recordRefresh observed.1 event after observed.2, ∀ snapshot,
      refresh.snapshot = some snapshot →
        ownDocuments refresh.correoUsuario snapshot ≠ [] →
        after.controller.empty = false := by
  obtain ⟨device, latest⟩ := observed
  have before := invariant.notEmpty
  cases acts_of_next taken with
  | quiet gallery _ _ isQuiet =>
      rw [recordRefresh_of_quiet isQuiet, gallery.empty]
      exact before
  | runTask found account =>
      rw [recordRefresh_runTask found account]
      intro refresh isLatest snapshot received
      cases isLatest
      cases received
  | onDelete _ _ afterEq =>
      subst afterEq
      exact before
  | saveEdit => exact before
  | save =>
      rw [perform_controller, FirebaseController.uploadStorage_controller]
      exact before
  | answer => exact before
  | callback found answered completes =>
      rename_i ticket call response outcome
      cases latest with
      | none =>
          intro refresh isLatest
          cases isLatest
      | some refresh =>
          rw [recordRefresh, Option.map_some]
          rcases refresh.received_cases found answered with
            ⟨snapshot, rfl, rfl, receivedEq⟩ | ⟨_, receivedEq⟩
          · rw [receivedEq]
            intro _ isLatest _ same' own
            cases isLatest
            cases same'
            rw [(invariant.tracks.query refresh rfl).of_find? found rfl]
              at completes
            cases completes
            simpa using fun _ => own
          · rw [receivedEq]
            intro _ isLatest snapshot received own
            cases isLatest
            exact completes.keeps_notEmpty
              (before refresh rfl snapshot received own)

theorem step {observed after : Device × Option Refresh} {event : Event}
    (invariant : GalleryInvariant observed)
    (assumed : QueriesSucceed observed event)
    (taken : (machine.observe recordRefresh).next observed event =
      some after) : GalleryInvariant after := by
  obtain ⟨reached, stepped, rfl⟩ := Machine.exists_of_observe_next taken
  exact ⟨invariant.tracks.of_next stepped,
    succeeded_step invariant assumed stepped,
    notEmpty_step invariant stepped⟩

end GalleryInvariant

/-! ## Steps -/

theorem messageRight_of_row {controller : FirebaseController}
    {refresh : Refresh} (shown : picturesBody controller ≠ .noPictures) :
    MessageRight controller refresh :=
  fun noPictures => absurd noPictures shown

/-- A closure that only clears `loading` leaves the message right exactly when
the latest refresh has its snapshot, or shows something else. -/
private theorem messageRight_of_cleared {controller after : FirebaseController}
    {refresh : Refresh}
    (notEmpty : ∀ snapshot, refresh.snapshot = some snapshot →
      ownDocuments refresh.correoUsuario snapshot ≠ [] →
      controller.empty = false)
    (loading : after.loading = false) (empty : after.empty = controller.empty)
    (rows : after.refImagenesUsuario = controller.refImagenesUsuario) :
    MessageRight after refresh ↔
      (refresh.snapshot = none → controller.empty = true →
        controller.refImagenesUsuario = [] → False) := by
  unfold MessageRight
  rw [picturesBody_eq_noPictures, loading, empty, rows]
  constructor
  · intro right waiting isEmpty noRows
    obtain ⟨snapshot, received, _⟩ := right ⟨rfl, isEmpty, noRows⟩
    rw [waiting] at received
    cases received
  · intro notWaiting noPictures
    obtain ⟨_, isEmpty, noRows⟩ := noPictures
    cases received : refresh.snapshot with
    | none => exact absurd noRows (notWaiting received isEmpty)
    | some snapshot =>
        refine ⟨snapshot, rfl, ?_⟩
        by_contra own
        rw [notEmpty snapshot received own] at isEmpty
        cases isEmpty

theorem endsLoading_callback_iff {device : Device} {refresh : Refresh}
    {ticket : Nat} {call : Call} {response : Response}
    (found : device.pending.find? ticket = some call)
    (answered : call.answer = some response) :
    EndsLoading device refresh (.callback ticket) ↔
      (∃ documentID fields correoUsuario,
        call.request = .setData documentID fields (some correoUsuario)) ∨
      (ticket ≠ refresh.ticket ∧ ∃ correoUsuario snapshot,
        call.request = .getDocuments correoUsuario ∧
          response = .documents snapshot ∧
          ownDocuments correoUsuario snapshot = []) := by
  constructor
  · intro ends
    rcases ends with ⟨otherFound, isUpload⟩ |
      ⟨otherFound, isQuery, received, isOther, noneOwn⟩
    · cases found.symm.trans otherFound
      exact .inl ⟨_, _, _, isUpload⟩
    · cases found.symm.trans otherFound
      cases answered.symm.trans received
      exact .inr ⟨isOther, _, _, isQuery, rfl, noneOwn⟩
  · intro ends
    rcases ends with ⟨documentID, fields, correoUsuario, isUpload⟩ |
      ⟨isOther, correoUsuario, snapshot, isQuery, rfl, noneOwn⟩
    · exact .upload found isUpload
    · exact .query found isQuery answered isOther noneOwn

/-- Away from the closures the message stays right. -/
private theorem right_of_not_callback {device after : Device}
    {latest : Option Refresh} {event : Event}
    (right : NoPicturesRight (device, latest))
    (notCallback : ∀ ticket, event ≠ .callback ticket)
    (taken : machine.next device event = some after) :
    NoPicturesRight (after, recordRefresh device event after latest) := by
  cases acts_of_next taken with
  | quiet gallery _ _ isQuiet =>
      rw [recordRefresh_of_quiet isQuiet]
      intro refresh isLatest
      rw [MessageRight, gallery.body_eq]
      exact right refresh isLatest
  | runTask found account =>
      intro refresh _
      exact messageRight_of_row (by
        simp [picturesBody, FirebaseController.getUserData])
  | onDelete _ _ afterEq =>
      subst afterEq
      exact right
  | saveEdit => exact right
  | save =>
      intro refresh isLatest
      rw [perform_controller, FirebaseController.uploadStorage_controller]
      exact right refresh isLatest
  | answer => exact right
  | callback => exact absurd rfl (notCallback _)

/-- The closure of a query: the message stays right exactly when it does not
cut the latest refresh short. -/
private theorem right_of_documents {device : Device} {refresh : Refresh}
    {ticket : Nat} {call : Call} {correoUsuario : String}
    {snapshot : List QueryDocumentSnapshot} {after : FirebaseController}
    (invariant : GalleryInvariant (device, some refresh))
    (found : device.pending.find? ticket = some call)
    (isQuery : call.request = .getDocuments correoUsuario)
    (answered : call.answer = some (.documents snapshot))
    (loading : after.loading = false)
    (empty : after.empty = (device.controller.empty &&
      (ownDocuments correoUsuario snapshot).isEmpty))
    (rows : after.refImagenesUsuario = device.controller.refImagenesUsuario) :
    MessageRight after (refresh.received device ticket) ↔
      NotCutShort (device, some refresh) (.callback ticket) := by
  have cutShort : NotCutShort (device, some refresh) (.callback ticket) ↔
      (refresh.snapshot = none → device.controller.empty = true →
        device.controller.refImagenesUsuario = [] →
        ¬ (ticket ≠ refresh.ticket ∧
          ownDocuments correoUsuario snapshot = [])) := by
    simp [NotCutShort, endsLoading_callback_iff found answered, isQuery]
  rw [cutShort]
  rcases refresh.received_cases found answered with
    ⟨_, ⟨⟩, isLatest, receivedEq⟩ | ⟨isOther, receivedEq⟩
  · have sameAccount :=
      (invariant.tracks.query refresh rfl).of_find? found isLatest
    cases isQuery.symm.trans sameAccount
    rw [receivedEq]
    apply iff_of_true
    · intro noPictures
      have isEmpty := (picturesBody_eq_noPictures.mp noPictures).2.1
      rw [empty, Bool.and_eq_true, List.isEmpty_iff] at isEmpty
      exact ⟨snapshot, rfl, isEmpty.2⟩
    · simp [isLatest]
  · have isOther : ticket ≠ refresh.ticket := fun same =>
      isOther same snapshot rfl
    rw [receivedEq]
    by_cases noneOwn : ownDocuments correoUsuario snapshot = []
    · rw [messageRight_of_cleared (invariant.notEmpty refresh rfl) loading
        (by simp [empty, noneOwn]) rows]
      simp [isOther, noneOwn]
    · apply iff_of_true
      · exact messageRight_of_row (by
          simp [picturesBody_eq_noPictures, empty, noneOwn])
      · simp [noneOwn]

/-- The closure of an upload's `setData`. -/
private theorem right_of_upload {device : Device} {refresh : Refresh}
    {ticket : Nat} {call : Call} {response : Response}
    {documentID correoUsuario : String} {fields : Fields}
    {after : FirebaseController}
    (invariant : GalleryInvariant (device, some refresh))
    (found : device.pending.find? ticket = some call)
    (isUpload : call.request = .setData documentID fields (some correoUsuario))
    (answered : call.answer = some response)
    (cleared : after = { device.controller with loading := false }) :
    MessageRight after (refresh.received device ticket) ↔
      NotCutShort (device, some refresh) (.callback ticket) := by
  rw [invariant.tracks.received_eq_self found answered (by simp [isUpload]),
    messageRight_of_cleared (invariant.notEmpty refresh rfl)
      (by rw [cleared]) (by rw [cleared]) (by rw [cleared])]
  simp [NotCutShort, endsLoading_callback_iff found answered, isUpload]

/-- The other closures: they cut nothing short. -/
private theorem right_of_other {device : Device} {refresh : Refresh}
    {ticket : Nat} {call : Call} {request : Request} {response : Response}
    {after : FirebaseController}
    (invariant : GalleryInvariant (device, some refresh))
    (found : device.pending.find? ticket = some call)
    (answered : call.answer = some response)
    (requestEq : call.request = request)
    (isOther : request.clearsLoading = false)
    (right : MessageRight after refresh) :
    MessageRight after (refresh.received device ticket) ↔
      NotCutShort (device, some refresh) (.callback ticket) := by
  subst requestEq
  have notQuery : ∀ correoUsuario,
      call.request ≠ .getDocuments correoUsuario := by
    intro correoUsuario isQuery
    rw [isQuery] at isOther
    cases isOther
  have notUpload : ∀ documentID fields correoUsuario,
      call.request ≠ .setData documentID fields (some correoUsuario) := by
    intro documentID fields correoUsuario isUpload
    rw [isUpload] at isOther
    cases isOther
  rw [invariant.tracks.received_eq_self found answered notQuery]
  apply iff_of_true right
  simp [NotCutShort, endsLoading_callback_iff found answered, notQuery,
    notUpload]

/-- One closure: the message stays right exactly when it does not cut the
latest refresh short. -/
private theorem right_of_completes {device : Device} {refresh : Refresh}
    {ticket : Nat} {call : Call} {response : Response} {outcome : Outcome}
    (invariant : GalleryInvariant (device, some refresh))
    (right : MessageRight device.controller refresh)
    (found : device.pending.find? ticket = some call)
    (answered : call.answer = some response)
    (completes :
      Completes device.controller call.request response outcome) :
    MessageRight outcome.controller (refresh.received device ticket) ↔
      NotCutShort (device, some refresh) (.callback ticket) := by
  generalize requestEq : call.request = request at completes
  cases completes with
  | documents =>
      exact right_of_documents invariant found requestEq answered rfl rfl rfl
  | documentsFailed =>
      exact absurd answered (invariant.succeeded.of_find? found _ _ requestEq)
  | data =>
      exact right_of_other invariant found answered requestEq rfl
        (messageRight_of_row (by simp [picturesBody_eq_noPictures]))
  | put =>
      exact right_of_other invariant found answered requestEq rfl
        (messageRight_of_row (by
          simp [picturesBody_eq_noPictures, FirebaseController.uploadData]))
  | uploaded =>
      exact right_of_upload invariant found requestEq answered rfl
  | uploadFailed =>
      exact right_of_upload invariant found requestEq answered rfl
  | dataFailed => exact right_of_other invariant found answered requestEq rfl right
  | putFailed => exact right_of_other invariant found answered requestEq rfl right
  | edited => exact right_of_other invariant found answered requestEq rfl right
  | deleted => exact right_of_other invariant found answered requestEq rfl right
  | itemDeleted => exact right_of_other invariant found answered requestEq rfl right

/-- One step: the message stays right exactly when the step does not cut the
latest refresh short. -/
private theorem noPicturesRight_step {observed after : Device × Option Refresh}
    {event : Event} (invariant : GalleryInvariant observed)
    (right : NoPicturesRight observed)
    (taken : (machine.observe recordRefresh).next observed event =
      some after) :
    NoPicturesRight after ↔ NotCutShort observed event := by
  obtain ⟨device, latest⟩ := observed
  obtain ⟨reached, stepped, rfl⟩ := Machine.exists_of_observe_next taken
  by_cases isCallback : ∃ ticket, event = .callback ticket
  · obtain ⟨ticket, rfl⟩ := isCallback
    cases latest with
    | none => simp [NoPicturesRight, NotCutShort, recordRefresh]
    | some refresh =>
        cases acts_of_next stepped with
        | quiet _ _ _ isQuiet => cases isQuiet
        | callback found answered completes =>
            rw [← right_of_completes invariant (right refresh rfl) found
              answered completes]
            simp [NoPicturesRight, recordRefresh]
  · have notCallback : ∀ ticket, event ≠ .callback ticket :=
      fun ticket same => isCallback ⟨ticket, same⟩
    apply iff_of_true (right_of_not_callback right notCallback stepped)
    rintro refresh _ _ _ _ (_ | _) <;> exact notCallback _ rfl

/-- In every run whose queries succeed, "No pictures found" is right in every
state exactly when no upload and no other refresh ends the loading of the
latest refresh early. -/
theorem noPicturesRight_iff (persisted : Option FIRUser) (events : List Event)
    (assumed : (machine.observe recordRefresh).Guarded QueriesSucceed
      (launch persisted, none) events) :
    (machine.observe recordRefresh).Always NoPicturesRight
        (launch persisted, none) events ↔
      (machine.observe recordRefresh).Guarded NotCutShort
        (launch persisted, none) events :=
  Machine.always_iff_guarded GalleryInvariant
    (fun _ _ _ invariant assumed taken => invariant.step assumed taken)
    (fun _ _ _ invariant _ right taken =>
      noPicturesRight_step invariant right taken)
    (GalleryInvariant.launch persisted) nofun assumed

theorem NotCutShort.of_not_callback {observed : Device × Option Refresh}
    {event : Event} (notCallback : ∀ ticket, event ≠ .callback ticket) :
    NotCutShort observed event := by
  intro refresh _ _ _ _ ends
  cases ends with
  | upload => exact notCallback _ rfl
  | query => exact notCallback _ rfl

theorem NotCutShort.of_received {device : Device} {refresh : Refresh}
    {snapshot : List QueryDocumentSnapshot} {event : Event}
    (received : refresh.snapshot = some snapshot) :
    NotCutShort (device, some refresh) event := by
  rintro _ ⟨⟩ waiting
  cases received.symm.trans waiting

/-- The closure is of no upload, and if it is of another query, then that has
found a document of its account. -/
theorem NotCutShort.of_found {device : Device} {refresh : Refresh}
    {ticket : Nat} {call : Call} {response : Response}
    (found : device.pending.find? ticket = some call)
    (answered : call.answer = some response)
    (notUpload : ∀ documentID fields correoUsuario,
      call.request ≠ .setData documentID fields (some correoUsuario))
    (own : ticket ≠ refresh.ticket → ∀ correoUsuario snapshot,
      call.request = .getDocuments correoUsuario →
        response = .documents snapshot →
        ownDocuments correoUsuario snapshot ≠ []) :
    NotCutShort (device, some refresh) (.callback ticket) := by
  rintro _ ⟨⟩ _ _ _ ends
  rcases (endsLoading_callback_iff found answered).mp ends with
    ⟨_, _, _, isUpload⟩ | ⟨isOther, _, _, isQuery, isSnapshot, noneOwn⟩
  · exact notUpload _ _ _ isUpload
  · exact own isOther _ _ isQuery isSnapshot noneOwn

/-- The first refresh finds no picture, an upload stores one, and of the two
refreshes that follow it the earlier one completes while the later one waits. -/
def uploadBetweenRefreshes : List Event :=
  firstRefresh ++
    [.answer 0 (.documents []), .callback 0,
      .save ⟨some [1], some [2]⟩ "playa" noon, .answer 1 .done, .callback 1,
      .answer 2 .done, .callback 2, .runTask 1, .appear, .mainStep, .runTask 2,
      .answer 3 (.documents [playa]), .callback 3,
      .answer 4 (.documents [playa]), .callback 4]

/-- `noPicturesRight_iff` for an upload and overlapping refreshes. -/
theorem noPicturesRight_uploadBetween :
    (∃ observed,
      (machine.observe recordRefresh).exec (launch none, none)
        uploadBetweenRefreshes = some observed) ∧
    (machine.observe recordRefresh).Always NoPicturesRight (launch none, none)
      uploadBetweenRefreshes := by
  refine ⟨⟨_, rfl⟩, (noPicturesRight_iff none _ ?_).mpr ?_⟩
  · exact Machine.guarded_of_forall
      (by simp [uploadBetweenRefreshes, firstRefresh, QueriesSucceed]) _
  · have before : (machine.observe recordRefresh).Guarded NotCutShort
        (launch none, none) firstRefresh :=
      Machine.guarded_of_forall (fun event member observed =>
        .of_not_callback (by
          intro ticket isCallback
          simp [isCallback, firstRefresh] at member)) _
    refine before.append rfl ?_
    refine Machine.guarded_cons rfl (.of_not_callback nofun) ?_
    refine Machine.guarded_cons rfl (.of_found rfl rfl nofun nofun) ?_
    iterate 2 refine Machine.guarded_cons rfl (.of_not_callback nofun) ?_
    refine Machine.guarded_cons rfl (.of_found rfl rfl nofun nofun) ?_
    refine Machine.guarded_cons rfl (.of_not_callback nofun) ?_
    refine Machine.guarded_cons rfl (.of_received rfl) ?_
    iterate 5 refine Machine.guarded_cons rfl (.of_not_callback nofun) ?_
    refine Machine.guarded_cons rfl (.of_found rfl rfl nofun ?_) ?_
    · intro _ _ _ isQuery isSnapshot
      cases isQuery
      cases isSnapshot
      decide
    refine Machine.guarded_cons rfl (.of_not_callback nofun) ?_
    exact Machine.guarded_cons rfl (.of_found rfl rfl nofun nofun) trivial

/-- An upload completes while the refresh of the screen waits for its
snapshot. -/
def uploadDuringRefresh : List Event :=
  firstRefresh ++
    [.save ⟨some [1], some [2]⟩ "playa" noon, .answer 1 .done, .callback 1,
      .answer 2 .done, .callback 2]

/-- The screen then says that there are no pictures, although the query is
still pending and the upload has just stored one. -/
theorem upload_cuts_refresh_short :
    ¬ (machine.observe recordRefresh).Always NoPicturesRight
        (launch none, none) uploadDuringRefresh := by
  intro always
  have run : ∃ device refresh,
      (machine.observe recordRefresh).exec (launch none, none)
        uploadDuringRefresh = some (device, some refresh) ∧
      refresh.snapshot = none ∧
      picturesBody device.controller = .noPictures :=
    ⟨_, _, rfl, rfl, rfl⟩
  obtain ⟨device, refresh, reached, waiting, shown⟩ := run
  obtain ⟨snapshot, received, _⟩ := always.last reached refresh rfl shown
  rw [waiting] at received
  cases received

end AppLPS.Device
