/-
Module: AppLPS.Proofs.Provenance
Purpose: Every picture that is stored, shown or in flight is one that a user
  saved: its bytes, its owner and its date are those of one upload, and its name
  is that of the upload or of an edit.  So the screens never fail to decode one.
Trusted boundary: none
Main exports: Saved, World.journal, Genuine, GenuineRequest, GenuineCall,
  World.pictures_genuine, World.pictures_drawn
-/
import AppLPS.Proofs.DataFlow

namespace AppLPS

/-! ## What users have saved -/

inductive Saved where
  | upload (upload : Upload)
  | edit (edit : Edit)
deriving DecidableEq

def Saved.upload? : Saved → Option Upload
  | .upload started => some started
  | .edit _ => none

/-- The uploads of a journal. -/
def uploadsIn (journal : List Saved) : List Upload :=
  journal.filterMap Saved.upload?

theorem mem_uploadsIn {journal : List Saved} {upload : Upload} :
    upload ∈ uploadsIn journal ↔ .upload upload ∈ journal := by
  rw [uploadsIn, List.mem_filterMap]
  constructor
  · intro found
    obtain ⟨saved, member, isUpload⟩ := found
    cases saved with
    | upload other =>
        cases isUpload
        exact member
    | edit edit => cases isUpload
  · intro member
    exact ⟨.upload upload, member, rfl⟩

/-- The name is the one the upload was saved with, or was given to its key by
an edit. -/
def NamedBy (journal : List Saved) (upload : Upload) (name : String) : Prop :=
  upload.nombre = name ∨
    ∃ edit, .edit edit ∈ journal ∧ edit.image.date = upload.fecha ∧
      edit.nuevoNombre = name

/-- The picture is one upload, under a name that was given to it. -/
def Genuine (journal : List Saved) (image : UserImage) : Prop :=
  ∃ upload ∈ uploadsIn journal,
    upload.fecha = image.date ∧ upload.correoUsuario = image.email ∧
      upload.data = image.data ∧ NamedBy journal upload image.name

/-- The document is the record of some upload of its id. -/
def DocumentOf (journal : List Saved) (documentID : String) (fields : Fields) :
    Prop :=
  ∃ upload ∈ uploadsIn journal, upload.fecha = documentID ∧
    ∃ name, NamedBy journal upload name ∧
      fields = .record upload.correoUsuario name documentID

/-- The bytes are those of some upload of their path. -/
def BlobOf (journal : List Saved) (path : String) (bytes : Data) : Prop :=
  ∃ upload ∈ uploadsIn journal,
    imagePath upload.fecha = path ∧ upload.data = bytes

theorem DocumentOf.isSegment {journal : List Saved} {documentID : String}
    {fields : Fields} (document : DocumentOf journal documentID fields) :
    IsSegment documentID := by
  obtain ⟨upload, _, rfl, _⟩ := document
  exact upload.segment

/-- What the request captured is a picture or the document of one. -/
def GenuineRequest (journal : List Saved) : Request → Prop
  | .getDocuments _ => True
  | .getData path document =>
      path = imagePath document.documentID ∧
        DocumentOf journal document.documentID document.data
  | .putData path data correoUsuario nombre fecha =>
      path = imagePath fecha ∧
        Genuine journal ⟨nombre, fecha, correoUsuario, data⟩
  | .setData documentID fields _ => DocumentOf journal documentID fields
  | .deleteDocument userImage => Genuine journal userImage
  | .deleteObject item => ∃ userImage, Genuine journal userImage ∧
      item = imageReference userImage.date

/-- So is what it has been answered: the documents of a query, and the bytes of
a download together with the document that they were asked for. -/
structure GenuineCall (journal : List Saved) (call : Call) : Prop where
  request : GenuineRequest journal call.request
  snapshot : ∀ snapshot, call.answer = some (.documents snapshot) →
    ∀ document ∈ snapshot,
      DocumentOf journal document.documentID document.data
  bytes : ∀ path document bytes, call.request = .getData path document →
    call.answer = some (.data bytes) →
    ∃ image, Genuine journal image ∧ image.date = document.documentID ∧
      image.data = bytes ∧
      document.data = .record image.email image.name image.date

/-- A document and the bytes under its id are one upload, if no other one has
the key. -/
theorem genuine_of_parts {journal : List Saved} {image : UserImage}
    (distinct : ((uploadsIn journal).map (·.fecha)).Nodup)
    (document : DocumentOf journal image.date
      (.record image.email image.name image.date))
    (blob : BlobOf journal (imagePath image.date) image.data) :
    Genuine journal image := by
  obtain ⟨upload, member, key, name, named, fields⟩ := document
  obtain ⟨other, otherMember, path, data⟩ := blob
  rw [← key] at path
  cases List.inj_on_of_nodup_map distinct otherMember member
    ((imagePath_inj other.segment upload.segment).mp path)
  have email : upload.correoUsuario = image.email := by
    have sameEmail := congrArg (fun data : Fields => data.lookup "email") fields
    simpa using sameEmail.symm
  have sameName : name = image.name := by
    have sameNames := congrArg (fun data : Fields => data.lookup "name") fields
    simpa using sameNames.symm
  subst sameName
  exact ⟨upload, member, key, email, data, named⟩

/-- The same, with the row that they make. -/
theorem exists_genuine {journal : List Saved} {documentID : String}
    {fields : Fields} {bytes : Data}
    (distinct : ((uploadsIn journal).map (·.fecha)).Nodup)
    (document : DocumentOf journal documentID fields)
    (blob : BlobOf journal (imagePath documentID) bytes) :
    ∃ image, Genuine journal image ∧ image.date = documentID ∧
      image.data = bytes ∧
      fields = .record image.email image.name image.date := by
  obtain ⟨upload, member, key, name, named, fieldsEq⟩ := document
  refine ⟨⟨name, documentID, upload.correoUsuario, bytes⟩, ?_, rfl, rfl,
    fieldsEq⟩
  exact genuine_of_parts distinct ⟨upload, member, key, name, named, rfl⟩ blob

namespace World

/-- What a step lets a user save. -/
def saves {Client : Type} (world : World Client) : Event Client → List Saved
  | .act client event =>
      ((world.clients client).uploadOf event).toList.map .upload ++
        ((world.clients client).editOf event).toList.map .edit
  | .serve _ _ => []

variable {Client : Type} [DecidableEq Client]

/-- The world with the journal of what its users have saved. -/
def journal : Machine (World Client × List Saved) (Event Client) Trap :=
  machine.logged saves

/-! ## Everything comes from the journal -/

/-- A row whose document is that of an upload shows its owner and its key. -/
theorem document_of_row {journal : List Saved} {image : UserImage}
    (row : RowOf (DocumentOf journal) (BlobOf journal) image) :
    DocumentOf journal image.date
      (.record image.email image.name image.date) := by
  obtain ⟨document, ⟨upload, member, key, name, named, fields⟩, describes⟩ :=
    row.document
  obtain ⟨nameShown, dateShown, emailShown⟩ := describes
  rw [fields] at nameShown dateShown emailShown
  simp only [Fields.lookup_record_name, Fields.lookup_record_date,
    Fields.lookup_record_email, Option.some.injEq, FieldValue.string.injEq]
    at nameShown dateShown emailShown
  rw [← nameShown, ← dateShown, ← emailShown]
  exact ⟨upload, member, key, name, named, rfl⟩

theorem genuine_of_row {journal : List Saved} {image : UserImage}
    (distinct : ((uploadsIn journal).map (·.fecha)).Nodup)
    (row : RowOf (DocumentOf journal) (BlobOf journal) image) :
    Genuine journal image :=
  genuine_of_parts distinct (document_of_row row) row.blob

/-- A download reads the path of its document's id. -/
theorem path_of_download {journal : List Saved} {path : String}
    {document : QueryDocumentSnapshot}
    (carries : RequestCarries (DocumentOf journal) (BlobOf journal)
      (.getData path document)) :
    path = imagePath document.documentID := by
  obtain ⟨pathEq, _, _, _, _, _, fields⟩ := carries
  have dated : document.data.lookup "date" =
      some (.string document.documentID) := by
    rw [fields]
    rfl
  rw [pathEq, Fields.interpolated_of_string dated]

/-- What carries documents and bytes of the journal is genuine. -/
theorem genuineCall_of_carries {journal : List Saved} {call : Call}
    (distinct : ((uploadsIn journal).map (·.fecha)).Nodup)
    (carries : CallCarries (DocumentOf journal) (BlobOf journal) call) :
    GenuineCall journal call where
  request := by
    have request := carries.request
    generalize call.request = issued at request ⊢
    cases issued with
    | getDocuments correoUsuario => trivial
    | getData path document => exact ⟨path_of_download request, request.2⟩
    | putData path data correoUsuario nombre fecha =>
        obtain ⟨rfl, blob, document⟩ := request
        exact ⟨rfl, genuine_of_parts distinct document blob⟩
    | setData documentID fields completion => exact request
    | deleteDocument userImage => exact genuine_of_row distinct request
    | deleteObject item =>
        obtain ⟨userImage, row, itemEq⟩ := request
        exact ⟨userImage, genuine_of_row distinct row, itemEq⟩
  snapshot := carries.snapshot
  bytes := by
    intro path document bytes isDownload answered
    have blob := carries.bytes path document bytes isDownload answered
    have request := carries.request
    rw [isDownload] at request
    rw [path_of_download request] at blob
    exact exists_genuine distinct request.2 blob

omit [DecidableEq Client] in
/-- A step whose saves are in the journal feeds nothing else. -/
theorem feeds_of_journal {journal : List Saved} {world : World Client}
    {event : Event Client}
    (recorded : ∀ saved ∈ saves world event, saved ∈ journal) :
    Feeds (DocumentOf journal) (BlobOf journal) world event := by
  cases event with
  | serve client query => trivial
  | act client own =>
      constructor
      · intro upload isUpload
        have member : upload ∈ uploadsIn journal := by
          apply mem_uploadsIn.mpr
          apply recorded
          apply List.mem_append_left
          exact List.mem_map_of_mem (Option.mem_toList.mpr isUpload)
        exact ⟨⟨upload, member, rfl, upload.nombre, .inl rfl, rfl⟩,
          ⟨upload, member, rfl, rfl⟩⟩
      · intro edit isEdit row
        have member : .edit edit ∈ journal := by
          apply recorded
          apply List.mem_append_right
          exact List.mem_map_of_mem (Option.mem_toList.mpr isEdit)
        obtain ⟨upload, uploaded, key, name, _, fields⟩ := document_of_row row
        have email : upload.correoUsuario = edit.image.email := by
          have sameEmail :=
            congrArg (fun data : Fields => data.lookup "email") fields
          simpa using sameEmail.symm
        refine ⟨upload, uploaded, key, edit.nuevoNombre,
          .inr ⟨edit, member, key.symm, rfl⟩, ?_⟩
        rw [Edit.fields, email]

/-- At the end of every run from empty stores, all that is stored, in flight or
held comes from the journal. -/
theorem carried_of_exec (persisted : Client → Option FIRUser)
    {events : List (Event Client)} {after : World Client × List Saved}
    (run : journal.exec (start persisted ∅, []) events = some after) :
    Carried (DocumentOf after.2) (BlobOf after.2) after.1 := by
  have recorded := Machine.guarded_logged run
  have always : journal.Always
      (fun observed => Carried (DocumentOf after.2) (BlobOf after.2) observed.1)
      (start persisted ∅, []) events :=
    Machine.always_of_guarded
      (fun _ _ _ carried recorded taken =>
        Carried.next (fun _ _ document => document.isSegment) carried
          (feeds_of_journal recorded)
          (Machine.logged_next_eq_some.mp taken).1)
      (Carried.start persisted) recorded
  exact always.last run

/-- In every run from empty stores in which no key is used twice, every picture
that a device holds is one upload under a name that was given to it, and so is
what its requests have captured and been answered, and every document together
with the bytes stored under its id. -/
theorem pictures_genuine (persisted : Client → Option FIRUser)
    {events : List (Event Client)} {after : World Client × List Saved}
    (run : journal.exec (start persisted ∅, []) events = some after)
    (distinct : ((uploadsIn after.2).map (·.fecha)).Nodup) :
    (∀ client, ∀ image ∈ (after.1.clients client).held,
      Genuine after.2 image) ∧
      (∀ client, ∀ call ∈ (after.1.clients client).pending.values,
        GenuineCall after.2 call) ∧
      ∀ documentID fields bytes,
        after.1.server.files.lookup documentID = some fields →
        after.1.server.images.lookup (imagePath documentID) = some bytes →
        ∃ image, Genuine after.2 image ∧ image.date = documentID ∧
          image.data = bytes ∧
          fields = .record image.email image.name image.date := by
  have carried := carried_of_exec persisted run
  refine ⟨?_, ?_, ?_⟩
  · intro client image member
    exact genuine_of_row distinct (carried.held client image member)
  · intro client call member
    exact genuineCall_of_carries distinct (carried.calls client call member)
  · intro documentID fields bytes isDocument isBlob
    exact exists_genuine distinct (carried.files documentID fields isDocument)
      (carried.images _ bytes isBlob)

/-- A picture is uploaded, renamed on the edit screen, and listed again. -/
def renamesPicture : List (Event Unit) :=
  arrives () "A" "ana@lps.es" ++ uploads () 0 "playa" [2] noon ++
    refreshes () 1 2 ++
    [.act () .render, .act () (.openEdit 0), .act () (.saveEdit "mar")] ++
    completes () 4 ++ refreshes () 0 5

def renamedUpload : Upload where
  correoUsuario := "ana@lps.es"
  nombre := "playa"
  fecha := "2021-11-09 12:00:00"
  data := [2]

/-- What the witnesses read at the end of `renamesPicture`. -/
private theorem renamesPicture_ended :
    ∃ after : World Unit × List Saved,
      journal.exec (start (fun _ => none) ∅, []) renamesPicture = some after ∧
      (after.1.clients ()).controller.refImagenesUsuario =
        [⟨"mar", "2021-11-09 12:00:00", "ana@lps.es", [2]⟩] ∧
      (after.1.clients ()).main.rendered.length = 1 ∧
      uploadsIn after.2 = [renamedUpload] := by
  have ends :
      (journal.exec (start (fun _ : Unit => none) ∅, [])
        renamesPicture).map (fun after =>
          ((after.1.clients ()).controller.refImagenesUsuario,
            (after.1.clients ()).main.rendered.length, uploadsIn after.2)) =
        some ([⟨"mar", "2021-11-09 12:00:00", "ana@lps.es", [2]⟩], 1,
          [renamedUpload]) := by
    decide +kernel
  obtain ⟨after, reached, shown⟩ := Option.map_eq_some_iff.mp ends
  obtain ⟨rows, rest⟩ := Prod.mk.inj shown
  obtain ⟨rendered, uploads⟩ := Prod.mk.inj rest
  exact ⟨after, reached, rows, rendered, uploads⟩

/-- `pictures_genuine` at the renamed picture. -/
theorem pictures_genuine_renamed :
    ∃ after : World Unit × List Saved,
      journal.exec (start (fun _ => none) ∅, []) renamesPicture = some after ∧
      Genuine after.2 ⟨"mar", "2021-11-09 12:00:00", "ana@lps.es", [2]⟩ := by
  obtain ⟨after, reached, rows, _, uploads⟩ := renamesPicture_ended
  have distinct : ((uploadsIn after.2).map (·.fecha)).Nodup := by
    rw [uploads]
    exact List.nodup_singleton _
  refine ⟨after, reached, ?_⟩
  apply (pictures_genuine (fun _ => none) reached distinct).1 ()
  apply Device.mem_held_of_row
  rw [rows]
  exact List.mem_singleton_self _

/-! ## Drawing -/

/-- The `FilaView` of a row that decodes. -/
theorem filaView_body_eq_ok {Picture : Type} {decode : Data → Option Picture}
    {rows : List UserImage}
    (decodes : ∀ image ∈ rows, (decode image.data).isSome = true) :
    ∃ drawn, rows.mapM (FilaView.body decode) = .ok drawn := by
  induction rows with
  | nil => exact ⟨[], rfl⟩
  | cons image rows inductionHypothesis =>
      rw [List.forall_mem_cons] at decodes
      obtain ⟨picture, decoded⟩ := Option.isSome_iff_exists.mp decodes.1
      obtain ⟨drawn, rest⟩ := inductionHypothesis decodes.2
      have first : FilaView.body decode image =
          .ok ⟨picture, image.name, image.date⟩ := by
        simp only [FilaView.body, forcedPicture, decoded]
        rfl
      refine ⟨⟨picture, image.name, image.date⟩ :: drawn, ?_⟩
      rw [List.mapM_cons, first, rest]
      rfl

/-- In every state of every run from empty stores, whatever keys are used: if
`UIImage(data:)` decodes what the users' images were encoded to, then drawing
the rows and the edit screen of any device traps nowhere. -/
theorem pictures_drawn {Picture : Type} (decode : Data → Option Picture)
    (persisted : Client → Option FIRUser) {events : List (Event Client)}
    {after : World Client × List Saved}
    (run : journal.exec (start persisted ∅, []) events = some after)
    (decodes : ∀ upload ∈ uploadsIn after.2,
      (decode upload.data).isSome = true) (client : Client) :
    ∃ drawn, (after.1.clients client).main.drawn decode = .ok drawn := by
  have carried := carried_of_exec persisted run
  have heldDecodes : ∀ image ∈ (after.1.clients client).held,
      (decode image.data).isSome = true := by
    intro image member
    obtain ⟨upload, uploaded, _, data⟩ :=
      (carried.held client image member).blob
    rw [← data]
    exact decodes upload uploaded
  obtain ⟨rows, rowsDrawn⟩ := filaView_body_eq_ok
    fun image member => heldDecodes image (Device.mem_held_of_rendered member)
  cases editing : (after.1.clients client).main.editing with
  | none =>
      refine ⟨(rows, none), ?_⟩
      simp only [MainView.drawn, rowsDrawn, editing]
      rfl
  | some image =>
      obtain ⟨picture, decoded⟩ := Option.isSome_iff_exists.mp
        (heldDecodes image (Device.mem_held_of_editing editing))
      refine ⟨(rows, some ⟨picture, image.name⟩), ?_⟩
      simp only [MainView.drawn, rowsDrawn, editing, EditImagenView.body,
        forcedPicture, decoded]
      rfl

/-- `pictures_drawn` at the renamed picture, where only the empty file is no
picture. -/
theorem pictures_drawn_renamed :
    ∃ after : World Unit × List Saved,
      journal.exec (start (fun _ => none) ∅, []) renamesPicture = some after ∧
      (after.1.clients ()).main.rendered.length = 1 ∧
      ∃ drawn, (after.1.clients ()).main.drawn
        (fun bytes : Data => bytes.head?) = .ok drawn := by
  obtain ⟨after, reached, _, rendered, uploads⟩ := renamesPicture_ended
  refine ⟨after, reached, rendered, ?_⟩
  apply pictures_drawn (fun bytes : Data => bytes.head?) (fun _ => none) reached
  intro upload uploaded
  rw [uploads] at uploaded
  cases List.mem_singleton.mp uploaded
  rfl

end World

end AppLPS
