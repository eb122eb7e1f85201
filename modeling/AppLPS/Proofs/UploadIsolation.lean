/-
Module: AppLPS.Proofs.UploadIsolation
Purpose: When every account gets back exactly what it has uploaded: exactly
  when no two uploads have read the same second from their clocks.
Trusted boundary: none
Main exports: uploadedBy, FromUploads, World.readings, World.UploadsInvariant,
  World.RefreshesShow, World.uploads_isolated_iff
-/
import AppLPS.Proofs.Records
import AppLPS.Proofs.RefreshAlone

namespace AppLPS

/-! ## What an account expects to see -/

namespace Upload

/-- The record that `uploadData` writes for the upload. -/
def fields (upload : Upload) : Fields :=
  .record upload.correoUsuario upload.nombre upload.fecha

def document (upload : Upload) : QueryDocumentSnapshot where
  documentID := upload.fecha
  data := upload.fields

/-- The row of the upload on the screens of its account. -/
def row (upload : Upload) : UserImage where
  name := upload.nombre
  date := upload.fecha
  email := upload.correoUsuario
  data := upload.data

end Upload

/-- What a user sees of a row. -/
def UserImage.shown (row : UserImage) : String × Data := (row.name, row.data)

/-- The names and the bytes that have been uploaded under an account: the one
that the device took for its session, which is `"none"` before the first call of
its listener. -/
def uploadedBy (correoUsuario : String) (uploads : List Upload) :
    List (String × Data) :=
  (uploads.filter fun upload => upload.correoUsuario = correoUsuario).map
    fun upload => upload.row.shown

/-! ## Stores that hold uploads -/

/-- Every document and every blob is that of an upload of its key. -/
structure FromUploads (uploads : List Upload) (backend : Backend) : Prop where
  files : ∀ documentID fields,
    backend.files.lookup documentID = some fields →
      ∃ upload ∈ uploads, upload.fecha = documentID ∧ upload.fields = fields
  images : ∀ path data, backend.images.lookup path = some data →
    ∃ upload ∈ uploads, imagePath upload.fecha = path ∧ upload.data = data

/-- The key has its document and its blob. -/
structure Stored (backend : Backend) (fecha : String) : Prop where
  blob : imagePath fecha ∈ backend.images
  document : fecha ∈ backend.files

theorem nodup_snapshotOf (files : Collection) : (snapshotOf files).Nodup :=
  List.Nodup.of_map (·.documentID) (nodup_documentIDs files)

/-- The test of `ownDocuments` on a record that the app has written. -/
theorem email_beq (email correoUsuario : String) :
    (some (FieldValue.string email) == some (.string correoUsuario)) =
      decide (email = correoUsuario) := by
  rw [Bool.eq_iff_iff]
  simp

namespace FromUploads

variable {uploads : List Upload} {backend : Backend}

/-- With distinct keys the documents are those of the uploads, one each. -/
theorem snapshot_perm (origin : FromUploads uploads backend)
    (stored : ∀ upload ∈ uploads, Stored backend upload.fecha)
    (distinct : (uploads.map (·.fecha)).Nodup) :
    (snapshotOf backend.files).Perm (uploads.map Upload.document) := by
  have distinctDocuments : (uploads.map Upload.document).Nodup := by
    apply List.Nodup.of_map (·.documentID)
    rw [List.map_map]
    exact distinct
  apply (List.perm_ext_iff_of_nodup (nodup_snapshotOf _) distinctDocuments).mpr
  intro document
  rw [mem_snapshotOf]
  constructor
  · intro isStored
    obtain ⟨upload, member, key, fields⟩ := origin.files _ _ isStored.1
    apply List.mem_map.mpr
    refine ⟨upload, member, ?_⟩
    rw [Upload.document, key, fields]
  · intro isUploaded
    obtain ⟨upload, member, rfl⟩ := List.mem_map.mp isUploaded
    have hasDocument := (stored upload member).document
    obtain ⟨fields, isStored⟩ :=
      Option.isSome_iff_exists.mp (AList.lookup_isSome.mpr hasDocument)
    obtain ⟨other, otherMember, key, rfl⟩ := origin.files _ _ isStored
    cases List.inj_on_of_nodup_map distinct otherMember member key
    exact ⟨isStored, upload.segment.plain⟩

/-- With distinct keys a document goes with the blob of its own upload. -/
theorem picture_document (origin : FromUploads uploads backend)
    (stored : ∀ upload ∈ uploads, Stored backend upload.fecha)
    (distinct : (uploads.map (·.fecha)).Nodup)
    (fits : ∀ upload ∈ uploads, upload.data.length ≤ maxSize)
    {upload : Upload} (member : upload ∈ uploads) :
    backend.picture upload.document = some upload.row := by
  obtain ⟨data, isStored⟩ := Option.isSome_iff_exists.mp
    (AList.lookup_isSome.mpr (stored upload member).blob)
  obtain ⟨other, otherMember, path, rfl⟩ := origin.images _ _ isStored
  cases List.inj_on_of_nodup_map distinct otherMember member
    ((imagePath_inj other.segment upload.segment).mp path)
  have date : upload.document.data.interpolated "date" "none" = upload.fecha :=
    rfl
  rw [Backend.picture, date, isStored, Option.bind_some,
    if_pos (fits _ member)]
  rfl

/-- With distinct keys every account is listed exactly what it has uploaded. -/
theorem listing_perm (origin : FromUploads uploads backend)
    (stored : ∀ upload ∈ uploads, Stored backend upload.fecha)
    (distinct : (uploads.map (·.fecha)).Nodup)
    (fits : ∀ upload ∈ uploads, upload.data.length ≤ maxSize)
    (correoUsuario : String) :
    ((backend.listing correoUsuario fun _ => true).map UserImage.shown).Perm
      (uploadedBy correoUsuario uploads) := by
  have own : ownDocuments correoUsuario (uploads.map Upload.document) =
      (uploads.filter fun upload =>
        upload.correoUsuario = correoUsuario).map Upload.document := by
    rw [ownDocuments, List.filter_map]
    congr 1
    apply List.filter_congr
    intro upload _
    exact email_beq upload.correoUsuario correoUsuario
  have pictures : ∀ upload ∈ uploads.filter fun upload =>
        upload.correoUsuario = correoUsuario,
      (backend.picture ∘ Upload.document) upload = some upload.row :=
    fun upload member => origin.picture_document stored distinct fits
      (List.mem_of_mem_filter member)
  have documents : (backend.documentsOf correoUsuario).Perm
      ((uploads.filter fun upload =>
        upload.correoUsuario = correoUsuario).map Upload.document) := by
    rw [← own]
    exact (origin.snapshot_perm stored distinct).filter _
  rw [Backend.listing, List.filter_true]
  have rows := (documents.filterMap backend.picture).map UserImage.shown
  rw [List.filterMap_map, List.filterMap_congr pictures,
    List.filterMap_eq_map', List.map_map] at rows
  exact rows

/-- If every account is listed as much as it has uploaded, then there are as
many documents as uploads, and the keys are distinct. -/
theorem distinct_of_listing (origin : FromUploads uploads backend)
    (listed : ∀ correoUsuario,
      ((backend.listing correoUsuario fun _ => true).map UserImage.shown).Perm
        (uploadedBy correoUsuario uploads)) :
    (uploads.map (·.fecha)).Nodup := by
  have owners : (uploads.map fun upload =>
        some (FieldValue.string upload.correoUsuario)).Subperm
      ((snapshotOf backend.files).map fun document =>
        document.data.lookup "email") := by
    apply List.subperm_ext_iff.mpr
    intro owner member
    obtain ⟨upload, _, rfl⟩ := List.mem_map.mp member
    have uploaded : (uploadedBy upload.correoUsuario uploads).length =
        (uploads.map fun upload =>
          some (FieldValue.string upload.correoUsuario)).count
            (some (.string upload.correoUsuario)) := by
      rw [uploadedBy, List.length_map, List.count, List.countP_map,
        List.countP_eq_length_filter]
      congr 1
      apply List.filter_congr
      intro other _
      exact (email_beq other.correoUsuario upload.correoUsuario).symm
    have documents : (backend.documentsOf upload.correoUsuario).length =
        ((snapshotOf backend.files).map fun document =>
          document.data.lookup "email").count
            (some (.string upload.correoUsuario)) := by
      rw [Backend.documentsOf, ownDocuments, List.count, List.countP_map,
        List.countP_eq_length_filter]
      rfl
    rw [← uploaded, ← documents, ← (listed upload.correoUsuario).length_eq,
      List.length_map, Backend.listing, List.filter_true]
    exact List.length_filterMap_le _ _
  have enough := owners.length_le
  have keys : backend.files.keys.Subperm (uploads.map (·.fecha)) := by
    apply List.subperm_of_subset backend.files.keys_nodup
    intro documentID member
    obtain ⟨fields, isStored⟩ := Option.isSome_iff_exists.mp
      (AList.lookup_isSome.mpr member)
    obtain ⟨upload, uploaded, key, _⟩ := origin.files _ _ isStored
    exact List.mem_map.mpr ⟨upload, uploaded, key⟩
  have shown := (documentIDs_sublist backend.files).length_le
  simp only [List.length_map] at shown enough
  have samePerm := keys.perm_of_length_le (by
    rw [List.length_map]
    exact enough.trans shown)
  exact samePerm.nodup_iff.mp backend.files.keys_nodup

end FromUploads

/-! ## Uploads in flight -/

/-- What a request of an upload carries is what the upload has captured; the
other requests read. -/
def RequestSends (uploads : List Upload) : Request → Prop
  | .getDocuments _ => True
  | .getData _ _ => True
  | .putData path data correoUsuario nombre fecha =>
      path = imagePath fecha ∧ ∃ segment : IsSegment fecha,
        { correoUsuario := correoUsuario, nombre := nombre, fecha := fecha,
          data := data, segment := segment } ∈ uploads
  | .setData documentID fields _ =>
      ∃ upload ∈ uploads, upload.fecha = documentID ∧ upload.fields = fields
  | .deleteDocument _ => False
  | .deleteObject _ => False

/-- A call of an upload, or one that reads; a write has not failed. -/
structure Sends (uploads : List Upload) (call : Call) : Prop where
  request : RequestSends uploads call.request
  granted : call.request.reads = false → call.answer ≠ none →
    call.answer = some .done

/-- The call sends the blob of the key. -/
inductive Sending (fecha : String) (call : Call) : Prop where
  | put {data : Data} {correoUsuario nombre : String}
      (isPut : call.request =
        .putData (imagePath fecha) data correoUsuario nombre fecha)
      (unanswered : call.answer = none)

/-- The call has sent the blob of the key and goes on to write its document. -/
inductive Recording (fecha : String) (call : Call) : Prop where
  | put {path correoUsuario nombre : String} {data : Data}
      (isPut : call.request = .putData path data correoUsuario nombre fecha)
      (answered : call.answer = some .done)
  | set {fields : Fields} {completion : Option String}
      (isSet : call.request = .setData fecha fields completion)
      (unanswered : call.answer = none)

theorem RequestSends.mono {uploads later : List Upload}
    (grows : uploads ⊆ later) {request : Request}
    (sends : RequestSends uploads request) : RequestSends later request := by
  cases request with
  | putData path data correoUsuario nombre fecha =>
      obtain ⟨pathEq, segment, member⟩ := sends
      exact ⟨pathEq, segment, grows member⟩
  | setData documentID fields completion =>
      obtain ⟨upload, member, ofKey⟩ := sends
      exact ⟨upload, grows member, ofKey⟩
  | _ => exact sends

theorem Sends.mono {uploads later : List Upload} (grows : uploads ⊆ later)
    {call : Call} (sends : Sends uploads call) : Sends later call where
  request := sends.request.mono grows
  granted := sends.granted

/-- Completing a call that is about to write the document writes it. -/
theorem Recording.goesOn {fecha : String} {controller : FirebaseController}
    {call : Call} {response : Response} {outcome : Outcome}
    (recording : Recording fecha call) (answered : call.answer = some response)
    (completes : Completes controller call.request response outcome) :
    ∃ request ∈ outcome.requests, Recording fecha (Call.fresh request) := by
  cases recording with
  | put isPut isDone =>
      cases answered.symm.trans isDone
      rw [isPut] at completes
      cases completes
      exact ⟨_, List.mem_cons_self, .set rfl rfl⟩
  | set isSet unanswered =>
      rw [unanswered] at answered
      cases answered

theorem FromUploads.mono {uploads later : List Upload}
    (grows : uploads ⊆ later) {backend : Backend}
    (origin : FromUploads uploads backend) : FromUploads later backend where
  files := by
    intro documentID fields stored
    obtain ⟨upload, member, ofKey⟩ := origin.files documentID fields stored
    exact ⟨upload, grows member, ofKey⟩
  images := by
    intro path data stored
    obtain ⟨upload, member, ofKey⟩ := origin.images path data stored
    exact ⟨upload, grows member, ofKey⟩

/-- Serving uploads removes nothing from the stores. -/
theorem Backend.Serves.keeps {backend after : Backend} {writes : List Request}
    {request : Request} {verdict : Verdict} {response : Response}
    {uploads : List Upload}
    (serves : backend.Serves writes request verdict after response)
    (sends : RequestSends uploads request) :
    (∀ path ∈ backend.images, path ∈ after.images) ∧
      ∀ documentID ∈ backend.files, documentID ∈ after.files := by
  cases serves with
  | put =>
      exact ⟨fun path member => (AList.mem_insert _).mpr (.inr member),
        fun _ member => member⟩
  | set =>
      exact ⟨fun _ member => member,
        fun documentID member => (AList.mem_insert _).mpr (.inr member)⟩
  | deleteDocument => exact sends.elim
  | deleteObject => exact sends.elim
  | _ => exact ⟨fun _ member => member, fun _ member => member⟩

/-- Serving uploads stores what they carry. -/
theorem FromUploads.serve {backend after : Backend} {writes : List Request}
    {request : Request} {verdict : Verdict} {response : Response}
    {uploads : List Upload} (origin : FromUploads uploads backend)
    (serves : backend.Serves writes request verdict after response)
    (sends : RequestSends uploads request) : FromUploads uploads after := by
  cases serves with
  | put =>
      rename_i path correoUsuario nombre fecha data visible
      refine ⟨origin.files, ?_⟩
      intro other bytes stored
      by_cases same : other = path
      · subst same
        rw [AList.lookup_insert] at stored
        cases stored
        obtain ⟨pathEq, _, member⟩ := sends
        exact ⟨_, member, pathEq.symm, rfl⟩
      · rw [AList.lookup_insert_ne same] at stored
        exact origin.images other bytes stored
  | set =>
      rename_i documentID fields completion visible
      have segment : IsSegment documentID := by
        obtain ⟨upload, _, rfl, _⟩ := sends
        exact upload.segment
      rw [Firestore.documentName_eq segment]
      refine ⟨?_, origin.images⟩
      intro other otherFields stored
      by_cases same : other = documentID
      · subst same
        rw [AList.lookup_insert] at stored
        cases stored
        exact sends
      · rw [AList.lookup_insert_ne same] at stored
        exact origin.files other otherFields stored
  | deleteDocument => exact sends.elim
  | deleteObject => exact sends.elim
  | _ => exact origin

namespace World

variable {Client : Type}

/-- How far the uploads of a key have come. -/
inductive Stage (world : World Client) (fecha : String) : Prop where
  | sending (inFlight : SomeCall (Sending fecha) world)
  | recording (blob : imagePath fecha ∈ world.server.images)
      (inFlight : SomeCall (Recording fecha) world)
  | stored (stored : Stored world.server fecha)

namespace Stage

variable [DecidableEq Client] {world : World Client} {fecha : String}

theorem act {client : Client} {event : AppLPS.Event} {device : Device}
    (stage : Stage world fecha) (own : event.isAnswer = false)
    (taken : Device.machine.next (world.clients client) event = some device) :
    Stage (world.moved client world.server device) fecha := by
  cases stage with
  | sending inFlight =>
      apply Stage.sending
      apply inFlight.act own taken
      intro controller call response outcome sending answered _
      obtain ⟨_, unanswered⟩ := sending
      rw [unanswered] at answered
      cases answered
  | recording blob inFlight =>
      apply Stage.recording
      · exact blob
      · apply inFlight.act own taken
        intro controller call response outcome recording
        exact recording.goesOn
  | stored stored => exact .stored stored

theorem serve {client : Client} {ticket visible : Nat} {call : Call}
    {backend : Backend} {response : Response} {device : Device}
    {uploads : List Upload} (stage : Stage world fecha)
    (sends : RequestSends uploads call.request)
    (found : (world.clients client).pending.find? ticket = some call)
    (unanswered : call.answer = none)
    (accepts : call.request.Accepts response = true)
    (serves : world.server.Serves
      (unservedWrites (world.clients client).pending.values) call.request
      (.granted visible) backend response)
    (deviceEq : device =
      { world.clients client with
        pending := (world.clients client).pending.update ticket fun call =>
          call.respond response }) :
    Stage (world.moved client backend device) fecha := by
  have ⟨keepsBlobs, keepsDocuments⟩ := serves.keeps sends
  have answered := Call.respond_answer accepts
  have requestEq := call.respond_request response
  cases stage with
  | sending inFlight =>
      rcases SomeCall.serve found deviceEq inFlight with later | sending
      · exact .sending later
      · obtain ⟨isPut, _⟩ := sending
        rw [isPut] at serves requestEq
        cases serves with
        | put =>
            apply Stage.recording
            · exact (AList.mem_insert _).mpr (.inl rfl)
            · exact someCall_served found deviceEq (.put requestEq answered)
  | recording blob inFlight =>
      have blobAfter := keepsBlobs _ blob
      rcases SomeCall.serve found deviceEq inFlight with later | recording
      · exact .recording blobAfter later
      · cases recording with
        | put isPut isAnswered =>
            rw [unanswered] at isAnswered
            cases isAnswered
        | set isSet =>
            rw [isSet] at serves sends
            obtain ⟨upload, _, rfl, _⟩ := sends
            cases serves with
            | set =>
                rw [Firestore.documentName_eq upload.segment]
                exact .stored ⟨blobAfter, (AList.mem_insert _).mpr (.inl rfl)⟩
  | stored stored =>
      exact .stored ⟨keepsBlobs _ stored.blob, keepsDocuments _ stored.document⟩

omit [DecidableEq Client] in
/-- At rest every started upload is stored. -/
theorem stored_of_quiescent (stage : Stage world fecha)
    (quiescent : world.Quiescent) : Stored world.server fecha := by
  cases stage with
  | sending inFlight => exact absurd inFlight (not_someCall quiescent)
  | recording blob inFlight => exact absurd inFlight (not_someCall quiescent)
  | stored stored => exact stored

end Stage

/-! ## The invariant -/

/-- The event is no edit, no delete and no error of the backend. -/
def uploadsOnly : Event Client → Bool
  | .act _ (.saveEdit _) => false
  | .act _ (.onDelete _) => false
  | .serve _ (_, .refused _) => false
  | _ => true

/-- All that is stored or in flight is that of a started upload, and every
started upload is in one of its stages. -/
structure UploadsInvariant (observed : World Client × History Client) :
    Prop where
  origin : FromUploads observed.2.uploads observed.1.server
  calls : observed.1.AllCalls (Sends observed.2.uploads)
  stages : ∀ upload ∈ observed.2.uploads, Stage observed.1 upload.fecha

namespace UploadsInvariant

theorem start (persisted : Client → Option FIRUser) :
    UploadsInvariant (start persisted ∅, {}) where
  origin := ⟨by simp [World.start], by simp [World.start]⟩
  calls := fun _ => Pool.all_empty _
  stages := nofun

/-- What a device issues belongs to an upload. -/
private theorem requestSends_of_issues
    {observed : World Client × History Client} {after : World Client}
    {client : Client} {event : AppLPS.Event} {request : Request}
    (invariant : UploadsInvariant observed)
    (only : uploadsOnly (.act client event) = true)
    (issues : Device.Issues (observed.1.clients client) event request) :
    RequestSends
      (record observed.1 (.act client event) after observed.2).uploads
      request := by
  have grows := uploads_subset_record observed.1 (.act client event) after
    observed.2
  cases issues with
  | query => trivial
  | download => trivial
  | delete => cases only
  | edit => cases only
  | upload encoded =>
      refine ⟨rfl, DateFormatter.isSegment_string _, ?_⟩
      simp only [record, Device.uploadOf, encoded, Option.map_some,
        Option.toList_some, List.mem_append, List.mem_singleton, or_true]
  | store found isPut answered =>
      have sends := ((invariant.calls client).of_find? found).request
      rw [isPut] at sends
      obtain ⟨_, _, member⟩ := sends
      exact ⟨_, grows member, rfl, rfl⟩
  | deleteItem found isDelete answered =>
      have sends := ((invariant.calls client).of_find? found).request
      rw [isDelete] at sends
      exact sends.elim

/-- A write that is granted is done. -/
private theorem done_of_serves {backend after : Backend}
    {writes : List Request} {request : Request} {visible : Nat}
    {response : Response} {uploads : List Upload}
    (serves : backend.Serves writes request (.granted visible) after response)
    (sends : RequestSends uploads request) (isWrite : request.reads = false) :
    response = .done := by
  cases serves with
  | put => rfl
  | set => rfl
  | deleteDocument => rfl
  | deleteObject => rfl
  | deleteObjectFailed => exact sends.elim
  | documents => cases isWrite
  | data => cases isWrite
  | dataFailed => cases isWrite

/-- A started upload has its blob on the way. -/
private theorem sending_of_uploadOf {device after : Device}
    {event : AppLPS.Event} {upload : Upload}
    (taken : Device.machine.next device event = some after)
    (started : device.uploadOf event = some upload) :
    ∃ call ∈ after.pending.values, Sending upload.fecha call := by
  cases event with
  | save imageGeneral nombreImagen now =>
      obtain ⟨data, encoded, rfl⟩ := Option.map_eq_some_iff.mp started
      cases Device.acts_of_next taken with
      | quiet _ _ _ isQuiet => cases isQuiet
      | save =>
          refine ⟨Call.fresh (.putData
            (imagePath (DateFormatter.string now)) data
            (sessionEmailOrNone device.controller) nombreImagen
            (DateFormatter.string now)), ?_, .put rfl rfl⟩
          simp [FirebaseController.uploadStorage, encoded]
  | _ => cases started

variable [DecidableEq Client] {observed : World Client × History Client}
  {after : World Client} {event : Event Client}

private theorem calls_next (invariant : UploadsInvariant observed)
    (only : uploadsOnly event = true)
    (taken : machine.next observed.1 event = some after) :
    after.AllCalls
      (Sends (record observed.1 event after observed.2).uploads) := by
  have grows := uploads_subset_record observed.1 event after observed.2
  apply calls_of_next
    (fun client => (invariant.calls client).mono fun _ sends => sends.mono grows)
    _ _ taken
  · intro client own request isAct issues
    subst isAct
    exact ⟨invariant.requestSends_of_issues only issues, by simp⟩
  · intro client ticket verdict call backend response isServe found accepts
      serves _ sends
    subst isServe
    constructor
    · rw [Call.respond_request]
      exact sends.request
    · intro isWrite _
      rw [Call.respond_request] at isWrite
      rw [Call.respond_answer accepts]
      cases verdict with
      | refused description => cases only
      | granted visible => rw [done_of_serves serves sends.request isWrite]

private theorem stages_next (invariant : UploadsInvariant observed)
    (only : uploadsOnly event = true)
    (taken : machine.next observed.1 event = some after) :
    ∀ upload ∈ (record observed.1 event after observed.2).uploads,
      Stage after upload.fecha := by
  intro upload member
  cases acts_of_next taken with
  | act own clientStep =>
      rename_i client event device
      rcases List.mem_append.mp member with old | new
      · exact (invariant.stages upload old).act own clientStep
      · obtain ⟨call, isPending, sending⟩ :=
          sending_of_uploadOf clientStep (Option.mem_toList.mp new)
        apply Stage.sending
        refine ⟨client, call, ?_, sending⟩
        rw [Network.moved_clients_self]
        exact isPending
  | serve found unanswered accepts serves deviceEq =>
      rename_i client ticket verdict call backend response device
      cases verdict with
      | refused description => cases only
      | granted visible =>
          have sends := ((invariant.calls client).of_find? found).request
          exact (invariant.stages upload member).serve sends found unanswered
            accepts serves deviceEq

private theorem origin_next (invariant : UploadsInvariant observed)
    (taken : machine.next observed.1 event = some after) :
    FromUploads (record observed.1 event after observed.2).uploads
      after.server := by
  have grows := uploads_subset_record observed.1 event after observed.2
  apply FromUploads.mono grows
  cases acts_of_next taken with
  | act => exact invariant.origin
  | serve found unanswered accepts serves deviceEq =>
      exact invariant.origin.serve serves
        ((invariant.calls _).of_find? found).request

/-- Every step that is no edit, no delete and no error keeps the invariant. -/
theorem next {after : World Client × History Client}
    (invariant : UploadsInvariant observed) (only : uploadsOnly event = true)
    (taken : World.observed.next observed event = some after) :
    UploadsInvariant after := by
  obtain ⟨reached, stepped, rfl⟩ := Machine.exists_of_observe_next taken
  exact ⟨origin_next invariant stepped, calls_next invariant only stepped,
    stages_next invariant only stepped⟩

end UploadsInvariant

/-! ## The readings of the clocks -/

/-- The clock reading of an upload that the event starts. -/
def reading : Event Client → Option WallClock
  | .act _ (.save imageGeneral _ now) =>
      if imageGeneral.jpegData.isSome then some now else none
  | _ => none

/-- The clock readings of all uploads that the events start, in order. -/
def readings (events : List (Event Client)) : List WallClock :=
  events.filterMap reading

private theorem fechas_of_next {before after : World Client}
    {event : Event Client} {history : History Client} :
    (record before event after history).uploads.map (·.fecha) =
      history.uploads.map (·.fecha) ++
        ((reading event).map DateFormatter.string).toList := by
  cases event with
  | act client own =>
      simp only [record, List.map_append]
      congr 1
      cases own with
      | save imageGeneral nombreImagen now =>
          cases encoded : imageGeneral.jpegData <;>
            simp [Device.uploadOf, reading, encoded]
      | _ => rfl
  | serve client query =>
      obtain ⟨ticket, verdict⟩ := query
      cases verdict <;> simp [record, reading]

variable [DecidableEq Client]

/-- The keys of a run are its formatted clock readings. -/
theorem fechas_of_exec {observed after : World Client × History Client}
    {events : List (Event Client)}
    (run : World.observed.exec observed events = some after) :
    after.2.uploads.map (·.fecha) =
      observed.2.uploads.map (·.fecha) ++
        (readings events).map DateFormatter.string := by
  induction events generalizing observed with
  | nil =>
      cases run
      simp [readings]
  | cons event events inductionHypothesis =>
      obtain ⟨middle, taken, rest⟩ := Option.bind_eq_some_iff.mp run
      obtain ⟨reached, _, rfl⟩ := Machine.exists_of_observe_next taken
      rw [inductionHypothesis rest, fechas_of_next, List.append_assoc]
      congr 1
      cases starts : reading event <;> simp [readings, starts]

/-! ## The refreshes of stored uploads -/

/-- On a device with nothing pending, in a world with these stores, a refresh of
the account that runs alone and is granted everything can always be brought to
its end, and then shows the given names and bytes. -/
def RefreshesShow (Client : Type) [DecidableEq Client] (backend : Backend)
    (correoUsuario : String) (expected : List (String × Data)) : Prop :=
  ∀ (world started : World Client) (client : Client) (ticket : Nat)
    (events : List (Event Client)),
    world.server = backend → (world.clients client).pending.values = [] →
    (world.clients client).accountOf ticket = some correoUsuario →
    machine.next world (.act client (.runTask ticket)) = some started →
    machine.Guarded (RefreshStep client fun _ => true) started events →
    machine.Always (fun visited =>
      CanFinish client (fun _ => true) visited ∧
        ((visited.clients client).pending.values = [] →
          ((visited.clients client).controller.refImagenesUsuario.map
            UserImage.shown).Perm expected)) started events

/-- The refreshes show what is listed. -/
theorem refreshesShow_iff [Nonempty Client] {backend : Backend}
    {correoUsuario : String} {expected : List (String × Data)}
    (strings : ∀ document ∈ snapshotOf backend.files, HasStrings document) :
    RefreshesShow Client backend correoUsuario expected ↔
      ((backend.listing correoUsuario fun _ => true).map
        UserImage.shown).Perm expected := by
  constructor
  · intro shows
    obtain ⟨client⟩ := ‹Nonempty Client›
    let world : World Client :=
      { clients := fun _ =>
          { tasks := Pool.empty.submit (.afterUpload correoUsuario) }
        server := backend }
    obtain ⟨device, clientStep⟩ : ∃ device,
        Device.machine.next (world.clients client) (.runTask 0) =
          some device := ⟨_, rfl⟩
    have begins : machine.next world (.act client (.runTask 0)) =
        some (world.moved client backend device) := next_act rfl clientStep
    have runs : RefreshRuns client backend correoUsuario (fun _ => true)
        (world.moved client backend device) :=
      RefreshRuns.of_runTask rfl rfl begins
    obtain ⟨events, finished, alone, run, nothing⟩ := runs.canFinish strings
    have ended := (shows world _ client 0 events rfl rfl rfl begins alone).last
      run
    have finishedRuns := (refreshRuns_of_guarded rfl strings rfl begins
      alone).last run
    exact ((finishedRuns.phase.lists.wholly nothing).map _).symm.trans
      (ended.2 nothing)
  · intro listed world started client ticket events sameStores nothing account
      begins alone
    subst sameStores
    apply (refreshRuns_of_guarded nothing strings account begins alone).mono
    intro visited runs
    refine ⟨runs.canFinish strings, fun atRest => ?_⟩
    exact ((runs.phase.lists.wholly atRest).map _).trans listed

/-! ## Runs of uploads -/

theorem hasStrings_of_origin {uploads : List Upload} {backend : Backend}
    (origin : FromUploads uploads backend) :
    ∀ document ∈ snapshotOf backend.files, HasStrings document := by
  intro document member
  obtain ⟨documentID, data⟩ := document
  obtain ⟨upload, _, _, rfl⟩ :=
    origin.files _ _ (mem_snapshotOf.mp member).1
  exact hasStrings_record documentID upload.correoUsuario upload.nombre
    upload.fecha

/-- In every run from empty stores of uploads and refreshes, by any users on any
devices, in which no request fails and every image fits: once nothing is pending,
every account is shown exactly what it has uploaded if and only if no two of the
uploads have read the same second from their clocks. -/
theorem uploads_isolated_iff (persisted : Client → Option FIRUser)
    {events : List (Event Client)} {after : World Client × History Client}
    (run : World.observed.exec (start persisted ∅, {}) events = some after)
    (only : ∀ event ∈ events, uploadsOnly event = true)
    (fits : ∀ upload ∈ after.2.uploads, upload.data.length ≤ maxSize)
    (quiescent : after.1.Quiescent) :
    (∀ correoUsuario, RefreshesShow Client after.1.server correoUsuario
        (uploadedBy correoUsuario after.2.uploads)) ↔
      (readings events).Nodup := by
  have guarded : World.observed.Guarded
      (fun _ event => uploadsOnly event = true) (start persisted ∅, {}) events :=
    Machine.guarded_of_forall (fun event member _ => only event member) _
  have invariant := (Machine.always_of_guarded
    (fun _ _ _ invariant only taken => UploadsInvariant.next invariant only taken)
    (UploadsInvariant.start persisted) guarded).last run
  have stored : ∀ upload ∈ after.2.uploads,
      Stored after.1.server upload.fecha :=
    fun upload member =>
      (invariant.stages upload member).stored_of_quiescent quiescent
  have strings := hasStrings_of_origin invariant.origin
  have keys : (readings events).Nodup ↔
      (after.2.uploads.map (·.fecha)).Nodup := by
    rw [fechas_of_exec run]
    exact (List.nodup_map_iff DateFormatter.string_injective).symm
  rw [keys]
  by_cases someClient : Nonempty Client
  · simp only [refreshesShow_iff strings]
    constructor
    · exact invariant.origin.distinct_of_listing
    · intro distinct correoUsuario
      exact invariant.origin.listing_perm stored distinct fits correoUsuario
  · -- Without clients nothing has happened.
    have noEvents : events = [] := by
      cases events with
      | nil => rfl
      | cons event events =>
          cases event with
          | act client => exact absurd ⟨client⟩ someClient
          | serve client => exact absurd ⟨client⟩ someClient
    subst noEvents
    cases run
    exact iff_of_true
      (fun _ _ _ client => absurd ⟨client⟩ someClient) List.nodup_nil

/-- Two users save one picture each; their requests interleave. -/
def bothSave (now later : WallClock) : List (Event Bool) :=
  arrives false "A" "ana@lps.es" ++ arrives true "B" "luz@lps.es" ++
    [.act false (.save ⟨some [1], some [1]⟩ "playa" now),
      .act true (.save ⟨some [2], some [2]⟩ "mar" later),
      .serve false (0, .granted 0), .serve true (0, .granted 0),
      .act true (.callback 0), .serve true (1, .granted 0),
      .act true (.callback 1), .act false (.callback 0),
      .serve false (1, .granted 0), .act false (.callback 1)]

/-- What both runs have in common at their end. -/
private theorem bothSave_ended {after : World Bool × History Bool}
    (ended : ((after.1.clients false).pending.values.length,
      (after.1.clients true).pending.values.length,
      after.2.uploads.map (·.data)) = (0, 0, [[1], [2]])) :
    after.1.Quiescent ∧
      ∀ upload ∈ after.2.uploads, upload.data.length ≤ maxSize := by
  simp only [Prod.mk.injEq] at ended
  obtain ⟨atRest, otherAtRest, bytes⟩ := ended
  constructor
  · intro client
    apply List.eq_nil_of_length_eq_zero
    cases client with
    | false => exact atRest
    | true => exact otherAtRest
  · intro upload member
    have sent : upload.data ∈ after.2.uploads.map (·.data) :=
      List.mem_map_of_mem member
    rw [bytes] at sent
    simp only [List.mem_cons, List.not_mem_nil, or_false] at sent
    rcases sent with isOne | isTwo
    · rw [isOne]
      decide
    · rw [isTwo]
      decide

/-- `uploads_isolated_iff` at two uploads one second apart. -/
theorem uploads_isolated_two_users :
    ∃ after : World Bool × History Bool,
      World.observed.exec (start (fun _ => none) ∅, {})
        (bothSave noon afterNoon) = some after ∧
      ∀ correoUsuario, RefreshesShow Bool after.1.server correoUsuario
        (uploadedBy correoUsuario after.2.uploads) := by
  have ends : (World.observed.exec (start (fun _ => none) ∅, {})
        (bothSave noon afterNoon)).map (fun after =>
          ((after.1.clients false).pending.values.length,
            (after.1.clients true).pending.values.length,
            after.2.uploads.map (·.data))) =
      some (0, 0, [[1], [2]]) := by
    decide +kernel
  obtain ⟨after, run, ended⟩ := Option.map_eq_some_iff.mp ends
  have ⟨quiescent, fits⟩ := bothSave_ended ended
  exact ⟨after, run,
    (uploads_isolated_iff _ run (by decide) fits quiescent).mpr (by decide)⟩

/-- Two users who save in the same second: the blob of the one is overwritten by
that of the other, and the document the other way round. -/
theorem sameSecond_mixes_uploads :
    ∃ after : World Bool × History Bool,
      World.observed.exec (start (fun _ => none) ∅, {}) (bothSave noon noon) =
        some after ∧
      (∀ event ∈ bothSave noon noon, uploadsOnly event = true) ∧
      (∀ upload ∈ after.2.uploads, upload.data.length ≤ maxSize) ∧
      after.1.Quiescent ∧
      ¬ RefreshesShow Bool after.1.server "ana@lps.es"
        (uploadedBy "ana@lps.es" after.2.uploads) := by
  have ends : (World.observed.exec (start (fun _ => none) ∅, {})
        (bothSave noon noon)).map (fun after =>
          ((after.1.clients false).pending.values.length,
            (after.1.clients true).pending.values.length,
            after.2.uploads.map (·.data))) =
      some (0, 0, [[1], [2]]) := by
    decide +kernel
  obtain ⟨after, run, ended⟩ := Option.map_eq_some_iff.mp ends
  have ⟨quiescent, fits⟩ := bothSave_ended ended
  have refreshes : ∀ after ∈ World.observed.exec (start (fun _ => none) ∅, {})
        (bothSave noon noon),
      (after.1.clients false).accountOf 1 = some "ana@lps.es" ∧
      uploadedBy "ana@lps.es" after.2.uploads = [("playa", [1])] ∧
      ((machine.next after.1 (.act false (.runTask 1))).bind fun started =>
        machine.exec started
          (completes false 2 ++ completes false 3)).isSome = true ∧
      ∀ started ∈ machine.next after.1 (.act false (.runTask 1)),
        machine.Guarded (RefreshStep false fun _ => true) started
          (completes false 2 ++ completes false 3) ∧
        ∀ finished ∈ machine.exec started
            (completes false 2 ++ completes false 3),
          (finished.clients false).pending.values.length = 0 ∧
          (finished.clients false).controller.refImagenesUsuario.map
            UserImage.shown = [("playa", [2])] := by
    decide +kernel
  obtain ⟨account, expected, isSome, outcome⟩ := refreshes after run
  refine ⟨after, run, by decide, fits, quiescent, fun shows => ?_⟩
  obtain ⟨finished, finishes⟩ := Option.isSome_iff_exists.mp isSome
  obtain ⟨started, begins, refreshRun⟩ := Option.bind_eq_some_iff.mp finishes
  obtain ⟨alone, ends⟩ := outcome started begins
  obtain ⟨nothing, rows⟩ := ends finished refreshRun
  have always := shows after.1 started false 1 _ rfl (quiescent false) account
    begins alone
  have shown := (always.last refreshRun).2 (List.eq_nil_of_length_eq_zero nothing)
  rw [rows, expected] at shown
  exact absurd shown (by decide)

end World

end AppLPS
