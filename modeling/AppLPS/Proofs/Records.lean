/-
Module: AppLPS.Proofs.Records
Purpose: Stored records stay well formed and keep their owner: whatever the app
  writes, has in flight or shows goes back to a started upload of its key.
Trusted boundary: none
Main exports: Owned, IsRecord, CallSound, RecordsInvariant,
  RecordsInvariant.next, records_well_formed
-/
import AppLPS.Proofs.DeviceTraps
import AppLPS.Proofs.WorldSteps

namespace AppLPS

/-! ## Views of the stores -/

theorem mem_snapshotOf {files : Collection}
    {document : QueryDocumentSnapshot} :
    document ∈ snapshotOf files ↔
      files.lookup document.documentID = some document.data ∧
        '/' ∉ document.documentID.toList := by
  rw [← Option.mem_def, AList.mem_lookup_iff, snapshotOf, List.mem_map]
  simp only [List.mem_filter, decide_eq_true_eq]
  constructor
  · intro isEntry
    obtain ⟨entry, member, rfl⟩ := isEntry
    exact member
  · intro member
    exact ⟨_, member, rfl⟩

theorem documentIDs_sublist (files : Collection) :
    ((snapshotOf files).map (·.documentID)).Sublist files.keys := by
  rw [snapshotOf, List.map_map]
  exact List.filter_sublist.map _

/-- No name is shown twice. -/
theorem nodup_documentIDs (files : Collection) :
    ((snapshotOf files).map (·.documentID)).Nodup :=
  (documentIDs_sublist files).nodup files.keys_nodup

/-- What a client sees is stored, or is one of its own unserved writes. -/
theorem lookup_localView {files : Collection} {writes : List Request}
    {documentID : String} {fields : Fields}
    (found : (localView files writes).lookup documentID = some fields) :
    files.lookup documentID = some fields ∨
      ∃ documentPath completion,
        Firestore.documentName documentPath = documentID ∧
          .setData documentPath fields completion ∈ writes := by
  induction writes generalizing files with
  | nil => exact .inl found
  | cons write writes inductionHypothesis =>
      rcases inductionHypothesis found with
        stored | ⟨documentPath, completion, named, later⟩
      · cases write with
        | setData other otherFields completion =>
            by_cases same : documentID = Firestore.documentName other
            · subst same
              simp only [Request.write, AList.lookup_insert,
                Option.some.injEq] at stored
              subst stored
              exact .inr ⟨other, completion, rfl, List.mem_cons_self⟩
            · rw [Request.write, AList.lookup_insert_ne same] at stored
              exact .inl stored
        | deleteDocument userImage =>
            by_cases same : documentID =
                Firestore.documentName userImage.date
            · subst same
              rw [Request.write, AList.lookup_erase] at stored
              cases stored
            · rw [Request.write, AList.lookup_erase_ne same] at stored
              exact .inl stored
        | _ => exact .inl stored
      · exact .inr
          ⟨documentPath, completion, named, List.mem_cons_of_mem _ later⟩

theorem mem_unservedWrites {calls : List Call} {request : Request}
    (member : request ∈ unservedWrites calls) :
    ∃ call ∈ calls, call.request = request ∧ call.answer = none := by
  obtain ⟨call, kept, requestEq⟩ := List.mem_map.mp member
  obtain ⟨isPending, isWrite⟩ := List.mem_filter.mp kept
  simp only [Bool.and_eq_true, Option.isNone_iff_eq_none] at isWrite
  exact ⟨call, isPending, requestEq, isWrite.1⟩

/-! ## Records and their owners -/

/-- The account has started an upload under the key. -/
def Owned (uploads : List Upload) (fecha correoUsuario : String) : Prop :=
  ∃ upload ∈ uploads,
    upload.fecha = fecha ∧ upload.correoUsuario = correoUsuario

theorem Owned.isSegment {uploads : List Upload} {fecha correoUsuario : String}
    (owned : Owned uploads fecha correoUsuario) : IsSegment fecha := by
  obtain ⟨upload, _, rfl, _⟩ := owned
  exact upload.segment

/-- A record as the app writes it: three strings, the date being the document
id, and the email that of an upload of this key. -/
structure IsRecord (uploads : List Upload) (documentID : String)
    (fields : Fields) : Prop where
  name : ∃ name, fields.lookup "name" = some (.string name)
  date : fields.lookup "date" = some (.string documentID)
  owner : ∃ email, fields.lookup "email" = some (.string email) ∧
    Owned uploads documentID email

theorem IsRecord.isSegment {uploads : List Upload} {documentID : String}
    {fields : Fields} (isRecord : IsRecord uploads documentID fields) :
    IsSegment documentID := by
  obtain ⟨_, _, owned⟩ := isRecord.owner
  exact owned.isSegment

/-- What a request writes is a record, and what a download captured is one. -/
def RequestSound (uploads : List Upload) : Request → Prop
  | .getData path document =>
      path = imagePath document.documentID ∧
        IsRecord uploads document.documentID document.data
  | .putData path _ correoUsuario _ fecha =>
      path = imagePath fecha ∧ Owned uploads fecha correoUsuario
  | .setData documentID fields _ => IsRecord uploads documentID fields
  | _ => True

/-- A call whose request is sound and whose snapshot, if any, holds records. -/
structure CallSound (uploads : List Upload) (call : Call) : Prop where
  request : RequestSound uploads call.request
  snapshot : ∀ snapshot, call.answer = some (.documents snapshot) →
    ∀ document ∈ snapshot,
      IsRecord uploads document.documentID document.data

section Monotone

variable {uploads later : List Upload} (grows : uploads ⊆ later)

include grows

theorem Owned.mono {fecha correoUsuario : String}
    (owned : Owned uploads fecha correoUsuario) :
    Owned later fecha correoUsuario := by
  obtain ⟨upload, member, ofKey⟩ := owned
  exact ⟨upload, grows member, ofKey⟩

theorem IsRecord.mono {documentID : String} {fields : Fields}
    (isRecord : IsRecord uploads documentID fields) :
    IsRecord later documentID fields where
  name := isRecord.name
  date := isRecord.date
  owner := by
    obtain ⟨email, found, owned⟩ := isRecord.owner
    exact ⟨email, found, owned.mono grows⟩

theorem RequestSound.mono {request : Request}
    (sound : RequestSound uploads request) : RequestSound later request := by
  cases request with
  | getData path document => exact ⟨sound.1, sound.2.mono grows⟩
  | putData path data correoUsuario nombre fecha =>
      exact ⟨sound.1, sound.2.mono grows⟩
  | setData documentID fields completion => exact IsRecord.mono grows sound
  | _ => trivial

theorem CallSound.mono {call : Call} (sound : CallSound uploads call) :
    CallSound later call where
  request := sound.request.mono grows
  snapshot := fun snapshot answered document member =>
    (sound.snapshot snapshot answered document member).mono grows

end Monotone

theorem isRecord_record {uploads : List Upload} {correoUsuario fecha : String}
    (nombre : String) (owned : Owned uploads fecha correoUsuario) :
    IsRecord uploads fecha (.record correoUsuario nombre fecha) where
  name := ⟨nombre, rfl⟩
  date := rfl
  owner := ⟨correoUsuario, rfl, owned⟩

/-- The download that a refresh starts for a record is sound. -/
theorem requestSound_download {uploads : List Upload}
    {document : QueryDocumentSnapshot}
    (isRecord : IsRecord uploads document.documentID document.data) :
    RequestSound uploads (download document) := by
  refine ⟨?_, isRecord⟩
  rw [Fields.interpolated_of_string isRecord.date]

/-- The row of a record shows its id as its date, and its owner. -/
theorem Describes.of_record {uploads : List Upload}
    {document : QueryDocumentSnapshot} {image : UserImage}
    (describes : Describes document image)
    (isRecord : IsRecord uploads document.documentID document.data) :
    image.date = document.documentID ∧ Owned uploads image.date image.email := by
  have date : image.date = document.documentID := by
    simpa using describes.date.symm.trans isRecord.date
  obtain ⟨email, found, owned⟩ := isRecord.owner
  cases describes.email.symm.trans found
  rw [date]
  exact ⟨rfl, owned⟩

/-! ## The invariant -/

namespace World

variable {Client : Type}

theorem uploads_subset_record (before : World Client) (event : Event Client)
    (after : World Client) (history : History Client) :
    history.uploads ⊆ (record before event after history).uploads := by
  unfold record
  split
  · exact List.subset_append_left _ _
  · exact List.Subset.refl _
  · exact List.Subset.refl _

/-- All that is stored, in flight or held goes back to a started upload. -/
structure RecordsInvariant (observed : World Client × History Client) :
    Prop where
  files : ∀ documentID fields,
    observed.1.server.files.lookup documentID = some fields →
      IsRecord observed.2.uploads documentID fields
  calls : observed.1.AllCalls (CallSound observed.2.uploads)
  held : observed.1.AllHeld fun _ image =>
    Owned observed.2.uploads image.date image.email

namespace RecordsInvariant

theorem start (persisted : Client → Option FIRUser) (images : Bucket) :
    RecordsInvariant (start persisted images, {}) where
  files := by
    intro documentID fields found
    simp [World.start] at found
  calls := fun _ => Pool.all_empty _
  held := fun _ _ member => by simp [World.start, Device.launch, Device.held] at member

/-- What a device issues is sound. -/
theorem requestSound_of_issues {observed : World Client × History Client}
    {after : World Client} {client : Client} {event : AppLPS.Event}
    {request : Request} (invariant : RecordsInvariant observed)
    (issues : Device.Issues (observed.1.clients client) event request) :
    RequestSound
      (record observed.1 (.act client event) after observed.2).uploads
      request := by
  have grows := uploads_subset_record observed.1 (.act client event) after
    observed.2
  cases issues with
  | query => trivial
  | delete => trivial
  | edit editing =>
      rename_i image nombreImagen
      have owned := invariant.held client image
        (Device.mem_held_of_editing editing)
      exact isRecord_record nombreImagen (owned.mono grows)
  | upload encoded =>
      rename_i imageGeneral nombreImagen now data
      refine ⟨rfl,
        { correoUsuario :=
            sessionEmailOrNone (observed.1.clients client).controller
          nombre := nombreImagen
          fecha := DateFormatter.string now
          data := data
          segment := DateFormatter.isSegment_string now }, ?_, rfl, rfl⟩
      simp only [record, Device.uploadOf, encoded, Option.map_some,
        Option.toList_some, List.mem_append, List.mem_singleton, or_true]
  | download found isQuery answered own =>
      have sound := (invariant.calls client).of_find? found
      exact requestSound_download
        ((sound.snapshot _ answered _ (List.mem_of_mem_filter own)).mono grows)
  | store found isPut answered =>
      have sound := ((invariant.calls client).of_find? found).request
      rw [isPut] at sound
      exact isRecord_record _ (sound.2.mono grows)
  | deleteItem => trivial

/-- A snapshot that the backend serves holds stored documents and what its
client has still to write. -/
theorem stored_or_written {observed : World Client × History Client}
    {client : Client} {visible : Nat} {document : QueryDocumentSnapshot}
    (invariant : RecordsInvariant observed)
    (member : document ∈ snapshotOf (localView observed.1.server.files
      ((unservedWrites (observed.1.clients client).pending.values).take
        visible))) :
    observed.1.server.files.lookup document.documentID = some document.data ∨
      ∃ call ∈ (observed.1.clients client).pending.values, ∃ completion,
        call.request =
            .setData document.documentID document.data completion ∧
          call.answer = none := by
  rcases lookup_localView (mem_snapshotOf.mp member).1 with
    stored | ⟨documentPath, completion, named, isWrite⟩
  · exact .inl stored
  · obtain ⟨call, isPending, requestEq, unanswered⟩ :=
      mem_unservedWrites (List.mem_of_mem_take isWrite)
    have sound := (invariant.calls client call isPending).request
    rw [requestEq] at sound
    rw [Firestore.documentName_eq (IsRecord.isSegment sound)] at named
    rw [named] at requestEq
    exact .inr ⟨call, isPending, completion, requestEq, unanswered⟩

/-- A snapshot that the backend serves holds records. -/
theorem isRecord_of_localView {observed : World Client × History Client}
    {client : Client} {visible : Nat} {document : QueryDocumentSnapshot}
    (invariant : RecordsInvariant observed)
    (member : document ∈ snapshotOf (localView observed.1.server.files
      ((unservedWrites (observed.1.clients client).pending.values).take
        visible))) :
    IsRecord observed.2.uploads document.documentID document.data := by
  rcases invariant.stored_or_written member with
    stored | ⟨call, isPending, completion, requestEq, _⟩
  · exact invariant.files _ _ stored
  · have sound := (invariant.calls client call isPending).request
    rw [requestEq] at sound
    exact sound

variable [DecidableEq Client]

private theorem calls_next {observed : World Client × History Client}
    {after : World Client} {event : Event Client}
    (invariant : RecordsInvariant observed)
    (taken : machine.next observed.1 event = some after) :
    after.AllCalls
      (CallSound (record observed.1 event after observed.2).uploads) := by
  have grows := uploads_subset_record observed.1 event after observed.2
  refine calls_of_next
    (fun client => (invariant.calls client).mono fun _ sound => sound.mono grows)
    ?_ ?_ taken
  · intro client own request isEvent issues
    subst isEvent
    exact ⟨invariant.requestSound_of_issues issues, by simp⟩
  · intro client ticket verdict call backend response isEvent found accepts serves
      _ sound
    subst isEvent
    refine ⟨by simpa using sound.request, ?_⟩
    intro snapshot answered document member
    rw [Call.respond_answer accepts] at answered
    cases answered
    generalize call.request = request at serves
    cases serves with
    | documents => exact (invariant.isRecord_of_localView member).mono grows

private theorem held_next {observed : World Client × History Client}
    {after : World Client} {event : Event Client}
    (invariant : RecordsInvariant observed)
    (taken : machine.next observed.1 event = some after) :
    after.AllHeld fun _ image =>
      Owned (record observed.1 event after observed.2).uploads image.date
        image.email := by
  have grows := uploads_subset_record observed.1 event after observed.2
  apply held_of_next
    (fun client image member => (invariant.held client image member).mono grows)
    _ taken
  intro client ticket call path document image isEvent found isDownload _ describes
  subst isEvent
  have sound := ((invariant.calls client).of_find? found).request
  rw [isDownload] at sound
  exact (describes.of_record sound.2).2.mono grows

private theorem files_next {observed : World Client × History Client}
    {after : World Client} {event : Event Client}
    (invariant : RecordsInvariant observed)
    (taken : machine.next observed.1 event = some after) :
    ∀ documentID fields, after.server.files.lookup documentID = some fields →
      IsRecord (record observed.1 event after observed.2).uploads documentID
        fields := by
  have grows := uploads_subset_record observed.1 event after observed.2
  intro documentID fields stored
  cases acts_of_next taken with
  | act => exact (invariant.files documentID fields stored).mono grows
  | serve found unanswered accepts serves deviceEq =>
      rename_i client ticket verdict call backend response device
      have sound := ((invariant.calls client).of_find? found).request
      generalize call.request = request at serves sound
      rw [Network.moved_server] at stored
      cases serves with
      | set =>
          rename_i other otherFields completion visible
          rw [Firestore.documentName_eq (IsRecord.isSegment sound)] at stored
          by_cases same : documentID = other
          · subst same
            rw [AList.lookup_insert] at stored
            cases stored
            exact IsRecord.mono grows sound
          · rw [AList.lookup_insert_ne same] at stored
            exact (invariant.files documentID fields stored).mono grows
      | deleteDocument =>
          rename_i userImage visible
          by_cases same : documentID = Firestore.documentName userImage.date
          · subst same
            rw [AList.lookup_erase] at stored
            cases stored
          · rw [AList.lookup_erase_ne same] at stored
            exact (invariant.files documentID fields stored).mono grows
      | _ => exact (invariant.files documentID fields stored).mono grows

/-- Every step keeps the records sound. -/
theorem next {observed after : World Client × History Client}
    {event : Event Client} (invariant : RecordsInvariant observed)
    (taken : World.observed.next observed event = some after) :
    RecordsInvariant after := by
  obtain ⟨reached, stepped, rfl⟩ := Machine.exists_of_observe_next taken
  exact ⟨files_next invariant stepped, calls_next invariant stepped,
    held_next invariant stepped⟩

end RecordsInvariant

/-! ## Where the images come from -/

end World

/-- The image is the row that the completed download appended. -/
def Load.Gives {Client : Type} (load : Load Client) (image : UserImage) : Prop :=
  Describes load.document image ∧ image.data = load.bytes

/-- The request deletes a document, and its closure goes on to delete an
object. -/
structure Request.DeletesAt (request : Request) (documentID path : String) :
    Prop where
  document : ∀ files, request.write files = files.erase documentID
  object : ∀ controller response, ∃ item,
    request.complete controller response =
        .ok (FirebaseController.deleteItemStorage controller item) ∧
      item.fullPath = path

/-- The edit of the image, and its delete at any position of a list, address the
document and the blob that the download has read. -/
structure AddressesOrigin {Client : Type} (load : Load Client)
    (image : UserImage) : Prop where
  named : filesDocument load.document.documentID =
    .ok load.document.documentID
  edit : ∀ (controller : FirebaseController) correoUsuario nuevoNombre,
    (controller.updateData image correoUsuario nuevoNombre).requests =
      [.setData load.document.documentID
        (.record correoUsuario nuevoNombre image.date) none]
  delete : ∀ (controller : FirebaseController) indexSet correoUsuario outcome,
    controller.deleteData indexSet correoUsuario = .ok outcome →
    ∀ index ∈ indexSet.indices,
      controller.refImagenesUsuario[index]? = some image →
      ∃ request ∈ outcome.requests,
        request.DeletesAt load.document.documentID load.path

theorem addressesOrigin_of_eq {Client : Type} {load : Load Client}
    {image : UserImage} (date : image.date = load.document.documentID)
    (segment : IsSegment load.document.documentID)
    (path : load.path = imagePath load.document.documentID) :
    AddressesOrigin load image where
  named := Firestore.document_eq segment
  edit := by
    intro controller correoUsuario nuevoNombre
    rw [← date]
    rfl
  delete := by
    intro controller indexSet correoUsuario outcome deleted index chosen found
    obtain ⟨_, rfl⟩ := FirebaseController.deleteData_eq_ok_iff.mp deleted
    have isRow : image ∈ controller.rowsAt indexSet :=
      List.mem_filterMap.mpr ⟨index, chosen, found⟩
    refine ⟨.deleteDocument image, List.mem_map_of_mem isRow, ?_, ?_⟩
    · intro files
      rw [Request.write, date, Firestore.documentName_eq segment]
    · intro controller response
      refine ⟨imageReference image.date, rfl, ?_⟩
      rw [path, ← date]
      rfl

/-- The closure of an answered download that has data is recorded. -/
theorem Call.loadOf_eq {Client : Type} {call : Call} {path : String}
    {document : QueryDocumentSnapshot} {bytes : Data} (client : Client)
    (isDownload : call.request = .getData path document)
    (answered : call.answer = some (.data bytes)) :
    call.loadOf client = some {
      client := client
      path := path
      document := document
      bytes := bytes } := by
  rw [Call.loadOf, isDownload, answered]

/-- Only downloads are recorded. -/
theorem Call.of_loadOf {Client : Type} {call : Call} {client : Client}
    {load : Load Client} (recorded : call.loadOf client = some load) :
    call.request = .getData load.path load.document := by
  unfold Call.loadOf at recorded
  split at recorded
  · rename_i requestEq _
    cases recorded
    exact requestEq
  · cases recorded

namespace World

variable {Client : Type}

/-- Completed downloads were sound, and every image held is the row of one by
the same device. -/
structure LoadsInvariant (observed : World Client × History Client) : Prop where
  sound : ∀ load ∈ observed.2.loads,
    RequestSound observed.2.uploads (.getData load.path load.document)
  held : observed.1.AllHeld fun client image =>
    ∃ load ∈ observed.2.loads, load.client = client ∧ load.Gives image

namespace LoadsInvariant

theorem start (persisted : Client → Option FIRUser) (images : Bucket) :
    LoadsInvariant (start persisted images, {}) where
  sound := nofun
  held := fun _ _ member => by
    simp [World.start, Device.launch, Device.held] at member

theorem addressesOrigin {observed : World Client × History Client}
    (invariant : LoadsInvariant observed) {load : Load Client}
    {image : UserImage} (completed : load ∈ observed.2.loads)
    (gives : load.Gives image) : AddressesOrigin load image := by
  have ⟨path, isRecord⟩ := invariant.sound load completed
  exact addressesOrigin_of_eq (gives.1.of_record isRecord).1
    isRecord.isSegment path

variable [DecidableEq Client]

theorem next {observed after : World Client × History Client}
    {event : Event Client} (records : RecordsInvariant observed)
    (invariant : LoadsInvariant observed)
    (taken : World.observed.next observed event = some after) :
    LoadsInvariant after := by
  obtain ⟨reached, stepped, rfl⟩ := Machine.exists_of_observe_next taken
  have grows := uploads_subset_record observed.1 event reached observed.2
  constructor
  · intro load member
    apply RequestSound.mono grows _
    cases event with
    | serve client query =>
        obtain ⟨ticket, verdict⟩ := query
        cases verdict <;> exact invariant.sound load member
    | act client own =>
        rcases List.mem_append.mp member with old | new
        · exact invariant.sound load old
        · obtain ⟨ticket, rfl⟩ : ∃ ticket, own = .callback ticket := by
            cases own <;> first | exact ⟨_, rfl⟩ | cases new
          obtain ⟨call, found, recorded⟩ :=
            Option.bind_eq_some_iff.mp (Option.mem_toList.mp new)
          rw [← Call.of_loadOf recorded]
          exact ((records.calls client).of_find? found).request
  · have kept : ∀ load ∈ observed.2.loads,
        load ∈ (record observed.1 event reached observed.2).loads := by
      intro load member
      cases event with
      | serve client query =>
          obtain ⟨ticket, verdict⟩ := query
          cases verdict <;> exact member
      | act client own => exact List.mem_append_left _ member
    refine held_of_next ?_ ?_ stepped
    · intro client image member
      obtain ⟨load, completed, gives⟩ := invariant.held client image member
      exact ⟨load, kept load completed, gives⟩
    · intro client ticket call path document image isEvent found isDownload
        answered describes
      subst isEvent
      refine ⟨⟨client, path, document, image.data⟩, ?_, rfl, describes, rfl⟩
      apply List.mem_append_right
      rw [Device.loadOf, found, Option.bind_some,
        Call.loadOf_eq client isDownload answered]
      exact List.mem_singleton_self _

end LoadsInvariant

end World

/-! ## The forced casts -/

/-- A completion closure of a sound call does not trap. -/
theorem CallSound.exists_complete {uploads : List Upload} {call : Call}
    {response : Response} (sound : CallSound uploads call)
    (answered : call.answer = some response)
    (controller : FirebaseController) :
    ∃ outcome, call.request.complete controller response = .ok outcome := by
  have accepts := call.accepted response answered
  have request := sound.request
  have snapshots := sound.snapshot
  generalize call.request = completed at accepts request ⊢
  cases completed with
  | getDocuments correoUsuario =>
      cases response with
      | documents snapshot =>
          refine ⟨_, FirebaseController.documentsReceived_eq_ok.mpr ⟨?_, rfl⟩⟩
          intro document member
          obtain ⟨email, found, _⟩ :=
            (snapshots snapshot answered document member).owner
          exact ⟨email, found⟩
      | failure description => exact ⟨_, rfl⟩
      | data bytes => cases accepts
      | done => cases accepts
  | getData path document =>
      cases response with
      | data imageData =>
          obtain ⟨name, named⟩ := request.2.name
          obtain ⟨email, owned, _⟩ := request.2.owner
          exact ⟨_, FirebaseController.dataReceived_eq_ok.mpr
            ⟨name, _, email, named, request.2.date, owned, rfl⟩⟩
      | failure description => exact ⟨_, rfl⟩
      | documents snapshot => cases accepts
      | done => cases accepts
  | putData path data correoUsuario nombre fecha =>
      cases response <;> exact ⟨_, rfl⟩
  | setData documentID fields completion =>
      cases completion <;> cases response <;> exact ⟨_, rfl⟩
  | deleteDocument userImage => exact ⟨_, rfl⟩
  | deleteObject item => cases response <;> exact ⟨_, rfl⟩

/-! ## Runs -/

namespace World

variable {Client : Type} [DecidableEq Client]

/-- Every document has the three strings, and its date is its id. -/
def WellFormedFiles (files : Collection) : Prop :=
  ∀ documentID fields, files.lookup documentID = some fields →
    (∃ email, fields.lookup "email" = some (.string email)) ∧
      (∃ name, fields.lookup "name" = some (.string name)) ∧
      fields.lookup "date" = some (.string documentID)

/-- A document that is in both collections has the same email and date in
both. -/
def SameOwners (earlier later : Collection) : Prop :=
  ∀ documentID fields fields', earlier.lookup documentID = some fields →
    later.lookup documentID = some fields' →
    fields.lookup "email" = fields'.lookup "email" ∧
      fields.lookup "date" = fields'.lookup "date"

/-- With distinct keys, a key has one owner. -/
theorem owner_unique {uploads : List Upload} {fecha one two : String}
    (distinct : (uploads.map (·.fecha)).Nodup)
    (ownedOne : Owned uploads fecha one) (ownedTwo : Owned uploads fecha two) :
    one = two := by
  obtain ⟨first, firstMember, firstKey, rfl⟩ := ownedOne
  obtain ⟨second, secondMember, secondKey, rfl⟩ := ownedTwo
  rw [List.inj_on_of_nodup_map distinct firstMember secondMember
    (firstKey.trans secondKey.symm)]

theorem uploads_subset_of_exec {observed after : World Client × History Client}
    {events : List (Event Client)}
    (run : World.observed.exec observed events = some after) :
    observed.2.uploads ⊆ after.2.uploads := by
  induction events generalizing observed with
  | nil =>
      cases run
      exact List.Subset.refl _
  | cons event events inductionHypothesis =>
      obtain ⟨middle, taken, rest⟩ := Option.bind_eq_some_iff.mp run
      obtain ⟨reached, _, rfl⟩ := Machine.exists_of_observe_next taken
      exact List.Subset.trans
        (uploads_subset_record observed.1 event reached observed.2)
        (inductionHypothesis rest)

/-- Both invariants hold in every state of a run. -/
theorem records_always (persisted : Client → Option FIRUser) (images : Bucket)
    (events : List (Event Client)) :
    World.observed.Always
      (fun observed => RecordsInvariant observed ∧ LoadsInvariant observed)
      (start persisted images, {}) events :=
  Machine.always_of_preserved
    (fun _ _ _ invariant taken =>
      ⟨invariant.1.next taken, invariant.2.next invariant.1 taken⟩)
    ⟨RecordsInvariant.start persisted images,
      LoadsInvariant.start persisted images⟩ events

/-- In every run from an empty collection: the documents are well formed, no
forced cast can fail, every image held addresses the document and the blob it
was loaded from, and, if no key was used twice, no document has changed its
owner between any two states of the run. -/
theorem records_well_formed (persisted : Client → Option FIRUser)
    (images : Bucket) {earlier later : List (Event Client)}
    {before after : World Client × History Client}
    (reached : World.observed.exec (start persisted images, {}) earlier =
      some before)
    (run : World.observed.exec before later = some after) :
    WellFormedFiles after.1.server.files ∧
      (∀ event key,
        machine.step after.1 event ≠ some (.error (.forcedCast key))) ∧
      (∀ client, ∀ image ∈ (after.1.clients client).held,
        (∃ load ∈ after.2.loads, load.client = client ∧ load.Gives image) ∧
          ∀ load ∈ after.2.loads, load.Gives image →
            AddressesOrigin load image) ∧
      ((after.2.uploads.map (·.fecha)).Nodup →
        SameOwners before.1.server.files after.1.server.files) := by
  have ⟨recordsBefore, _⟩ := (records_always persisted images earlier).last
    reached
  have whole : World.observed.exec (start persisted images, {})
      (earlier ++ later) = some after := by
    rw [Machine.exec_append, reached]
    exact run
  have ⟨records, loads⟩ := (records_always persisted images
    (earlier ++ later)).last whole
  refine ⟨?_, ?_, ?_, ?_⟩
  · intro documentID fields stored
    have isRecord := records.files documentID fields stored
    obtain ⟨email, owned, _⟩ := isRecord.owner
    exact ⟨⟨email, owned⟩, isRecord.name, isRecord.date⟩
  · intro event key trapped
    obtain ⟨client, backend, taken, _, clientTrapped⟩ :=
      Network.Protocol.step_eq_error trapped
    obtain ⟨ticket, call, response, rfl, found, answered, completed⟩ :=
      Device.callback_of_forcedCast clientTrapped
    obtain ⟨outcome, succeeded⟩ :=
      ((records.calls client).of_find? found).exists_complete answered
        (after.1.clients client).controller
    rw [succeeded] at completed
    cases completed
  · intro client image member
    exact ⟨loads.held client image member, fun load completed gives =>
      loads.addressesOrigin completed gives⟩
  · intro distinct documentID fields fields' stored stored'
    have first := (recordsBefore.files documentID fields stored).mono
      (uploads_subset_of_exec run)
    have second := records.files documentID fields' stored'
    obtain ⟨email, owned, ofKey⟩ := first.owner
    obtain ⟨email', owned', ofKey'⟩ := second.owner
    rw [owned, owned', first.date, second.date,
      owner_unique distinct ofKey ofKey']
    exact ⟨rfl, rfl⟩

/-- Two uploads, and the refresh that shows both. -/
def uploadsTwo : List (Event Unit) :=
  arrives () "A" "ana@lps.es" ++ uploads () 0 "playa" [2] noon ++
    uploads () 2 "monte" [3] afterNoon ++
    .act () (.runTask 2) ::
      (completes () 4 ++ completes () 5 ++ completes () 6)

/-- One of two rows is edited and the other deleted. -/
def editsAndDeletes : List (Event Unit) :=
  [.act () .render, .act () (.openEdit 0), .act () (.saveEdit "mar"),
    .act () .closeEdit, .act () (.onDelete (.only 1))] ++
    completes () 7 ++ completes () 8 ++ completes () 9

/-- `records_well_formed` for the states before and after an edit and a
delete. -/
theorem records_well_formed_edited :
    ∃ before after : World Unit × History Unit,
      World.observed.exec (start (fun _ => none) ∅, {}) uploadsTwo =
        some before ∧
      World.observed.exec before editsAndDeletes = some after ∧
      before.1.server.files.keys =
        ["2021-11-09 12:00:01", "2021-11-09 12:00:00"] ∧
      after.1.server.files.lookup "2021-11-09 12:00:01" =
        some (.record "ana@lps.es" "mar" "2021-11-09 12:00:01") ∧
      after.1.server.files.keys = ["2021-11-09 12:00:01"] ∧
      WellFormedFiles after.1.server.files ∧
      SameOwners before.1.server.files after.1.server.files := by
  have ends :
      ((World.observed.exec (start (fun _ : Unit => none) ∅, {})
        uploadsTwo).bind fun before =>
          (World.observed.exec before editsAndDeletes).map fun after =>
            (before.1.server.files.keys,
              after.1.server.files.lookup "2021-11-09 12:00:01",
              after.1.server.files.keys, after.2.uploads.map (·.fecha))) =
        some (["2021-11-09 12:00:01", "2021-11-09 12:00:00"],
          some (.record "ana@lps.es" "mar" "2021-11-09 12:00:01"),
          ["2021-11-09 12:00:01"],
          ["2021-11-09 12:00:00", "2021-11-09 12:00:01"]) := by
    decide +kernel
  obtain ⟨before, reached, rest⟩ := Option.bind_eq_some_iff.mp ends
  obtain ⟨after, run, shown⟩ := Option.map_eq_some_iff.mp rest
  simp only [Prod.mk.injEq] at shown
  obtain ⟨keysBefore, edited, keysAfter, fechas⟩ := shown
  obtain ⟨wellFormed, _, _, owners⟩ := records_well_formed
    (fun _ : Unit => none) ∅ reached run
  refine ⟨before, after, reached, run, keysBefore, edited, keysAfter,
    wellFormed, owners ?_⟩
  rw [fechas]
  decide

end World

end AppLPS
