/-
Module: AppLPS.Proofs.DataFlow
Purpose: Where documents and bytes flow: a property of what users save is a
  property of everything that is stored, in flight or shown.
Trusted boundary: none
Main exports: Edit, Device.editOf, World.RowOf, World.Carried, World.Feeds,
  World.Carried.next
-/
import AppLPS.Proofs.UploadIsolation

namespace AppLPS

/-! ## What users save -/

/-- An edit that was sent: the image of the edit screen and its new name. -/
structure Edit where
  image : UserImage
  nuevoNombre : String
deriving DecidableEq

/-- The edit that Save sends on the edit screen. -/
def Device.editOf (device : Device) : Event → Option Edit
  | .saveEdit nombreImagen =>
      device.main.editing.map fun image =>
        { image := image
          nuevoNombre := nombreImagen }
  | _ => none

/-- The record that `updateData` writes for an edit. -/
def Edit.fields (edit : Edit) : Fields :=
  .record edit.image.email edit.nuevoNombre edit.image.date

namespace World

section Predicates

/-!
`IsDocument` and `IsBlob` are any properties of a document under its id, which is
one segment, and of the bytes under a path.
-/

variable (IsDocument : String → Fields → Prop) (IsBlob : String → Data → Prop)

/-- The row shows a document with the property, and bytes with the property
under its date. -/
structure RowOf (image : UserImage) : Prop where
  document : ∃ document, IsDocument document.documentID document.data ∧
    Describes document image
  blob : IsBlob (imagePath image.date) image.data

/-- The documents, the bytes and the rows of a request have the properties. -/
def RequestCarries : Request → Prop
  | .getDocuments _ => True
  | .getData path document =>
      path = imagePath (document.data.interpolated "date" "none") ∧
        IsDocument document.documentID document.data
  | .putData path data correoUsuario nombre fecha =>
      path = imagePath fecha ∧ IsBlob path data ∧
        IsDocument fecha (.record correoUsuario nombre fecha)
  | .setData documentID fields _ => IsDocument documentID fields
  | .deleteDocument userImage => RowOf IsDocument IsBlob userImage
  | .deleteObject item => ∃ userImage,
      RowOf IsDocument IsBlob userImage ∧
        item = imageReference userImage.date

/-- So have those of its answer. -/
structure CallCarries (call : Call) : Prop where
  request : RequestCarries IsDocument IsBlob call.request
  snapshot : ∀ snapshot, call.answer = some (.documents snapshot) →
    ∀ document ∈ snapshot, IsDocument document.documentID document.data
  bytes : ∀ path document bytes, call.request = .getData path document →
    call.answer = some (.data bytes) → IsBlob path bytes

variable {Client : Type}

/-- All documents and bytes of the world have the properties. -/
structure Carried (world : World Client) : Prop where
  files : ∀ documentID fields,
    world.server.files.lookup documentID = some fields →
      IsDocument documentID fields
  images : ∀ path bytes,
    world.server.images.lookup path = some bytes → IsBlob path bytes
  calls : world.AllCalls (CallCarries IsDocument IsBlob)
  held : world.AllHeld fun _ image => RowOf IsDocument IsBlob image

/-- What the step lets a user save has the properties; of an edited image it
may be assumed that it had them. -/
def Feeds (world : World Client) : Event Client → Prop
  | .act client event =>
      (∀ upload ∈ (world.clients client).uploadOf event,
        IsDocument upload.fecha upload.fields ∧
          IsBlob (imagePath upload.fecha) upload.data) ∧
      ∀ edit ∈ (world.clients client).editOf event,
        RowOf IsDocument IsBlob edit.image →
          IsDocument edit.image.date edit.fields
  | .serve _ _ => True

end Predicates

variable {IsDocument : String → Fields → Prop}
  {IsBlob : String → Data → Prop}

theorem callCarries_fresh {request : Request}
    (carries : RequestCarries IsDocument IsBlob request) :
    CallCarries IsDocument IsBlob (Call.fresh request) where
  request := carries
  snapshot := nofun
  bytes := nofun

namespace Carried

variable {Client : Type} {world after : World Client} {event : Event Client}

theorem start (persisted : Client → Option FIRUser) :
    Carried IsDocument IsBlob (start persisted ∅) where
  files := by
    intro documentID fields stored
    simp [World.start] at stored
  images := by
    intro path bytes stored
    simp [World.start] at stored
  calls := fun _ => Pool.all_empty _
  held := fun _ _ member => by
    simp [World.start, Device.launch, Device.held] at member

/-- What a device issues. -/
theorem request_of_issues {client : Client} {own : AppLPS.Event}
    {request : Request} (carried : Carried IsDocument IsBlob world)
    (feeds : Feeds IsDocument IsBlob world (.act client own))
    (issues : Device.Issues (world.clients client) own request) :
    RequestCarries IsDocument IsBlob request := by
  cases issues with
  | query => trivial
  | delete isRow => exact carried.held client _ (Device.mem_held_of_row isRow)
  | deleteItem found isDelete =>
      have carries := ((carried.calls client).of_find? found).request
      rw [isDelete] at carries
      exact ⟨_, carries, rfl⟩
  | edit editing =>
      rename_i image nombreImagen
      apply feeds.2 ⟨image, nombreImagen⟩
      · rw [Device.editOf, editing]
        rfl
      · exact carried.held client image (Device.mem_held_of_editing editing)
  | upload encoded =>
      rename_i imageGeneral nombreImagen now data
      have ⟨isDocument, isBlob⟩ := feeds.1
        { correoUsuario := sessionEmailOrNone (world.clients client).controller
          nombre := nombreImagen
          fecha := DateFormatter.string now
          data := data
          segment := DateFormatter.isSegment_string now }
        (by rw [Device.uploadOf, encoded]; rfl)
      exact ⟨rfl, isBlob, isDocument⟩
  | download found isQuery answered own =>
      refine ⟨rfl, ?_⟩
      exact ((carried.calls client).of_find? found).snapshot _ answered _
        (List.mem_of_mem_filter own)
  | store found isPut answered =>
      have carries := ((carried.calls client).of_find? found).request
      rw [isPut] at carries
      exact carries.2.2

section Segments

variable (segments : ∀ documentID fields, IsDocument documentID fields →
  IsSegment documentID)

include segments

/-- What a query shows. -/
theorem document_of_localView {client : Client} {visible : Nat}
    {document : QueryDocumentSnapshot}
    (carried : Carried IsDocument IsBlob world)
    (member : document ∈ snapshotOf (localView world.server.files
      ((unservedWrites (world.clients client).pending.values).take visible))) :
    IsDocument document.documentID document.data := by
  rcases lookup_localView (mem_snapshotOf.mp member).1 with
    stored | ⟨documentPath, completion, named, isWrite⟩
  · exact carried.files _ _ stored
  · obtain ⟨call, isPending, requestEq, _⟩ :=
      mem_unservedWrites (List.mem_of_mem_take isWrite)
    have carries := (carried.calls client call isPending).request
    rw [requestEq] at carries
    rw [← named, Firestore.documentName_eq (segments _ _ carries)]
    exact carries

/-- What the backend answers. -/
theorem call_of_serves {client : Client} {call : Call} {verdict : Verdict}
    {backend : Backend} {response : Response}
    (carried : Carried IsDocument IsBlob world)
    (carries : CallCarries IsDocument IsBlob call)
    (accepts : call.request.Accepts response = true)
    (serves : world.server.Serves
      (unservedWrites (world.clients client).pending.values) call.request
      verdict backend response) :
    CallCarries IsDocument IsBlob (call.respond response) := by
  have answered := Call.respond_answer accepts
  refine ⟨by simpa using carries.request, ?_, ?_⟩
  · intro snapshot isAnswer document member
    rw [answered] at isAnswer
    cases isAnswer
    generalize call.request = request at serves
    cases serves with
    | documents => exact document_of_localView segments carried member
  · intro path document bytes isDownload isAnswer
    rw [answered] at isAnswer
    cases isAnswer
    rw [Call.respond_request] at isDownload
    rw [isDownload] at serves
    cases serves with
    | data stored => exact carried.images path bytes stored

variable [DecidableEq Client]

private theorem calls_next (carried : Carried IsDocument IsBlob world)
    (feeds : Feeds IsDocument IsBlob world event)
    (taken : machine.next world event = some after) :
    after.AllCalls (CallCarries IsDocument IsBlob) := by
  refine calls_of_next carried.calls ?_ ?_ taken
  · intro client own request isEvent issues
    subst isEvent
    exact callCarries_fresh (carried.request_of_issues feeds issues)
  · intro client ticket verdict call backend response _ _ accepts serves _
      carries
    exact call_of_serves segments carried carries accepts serves

omit segments in
private theorem held_next (carried : Carried IsDocument IsBlob world)
    (taken : machine.next world event = some after) :
    after.AllHeld fun _ image => RowOf IsDocument IsBlob image := by
  refine held_of_next carried.held ?_ taken
  intro client ticket call path document image _ found isDownload answered
    describes
  have carries := (carried.calls client).of_find? found
  have request := carries.request
  rw [isDownload] at request
  obtain ⟨pathEq, isDocument⟩ := request
  rw [Fields.interpolated_of_string describes.date] at pathEq
  subst pathEq
  exact ⟨⟨document, isDocument, describes⟩,
    carries.bytes _ _ _ isDownload answered⟩

private theorem stores_next (carried : Carried IsDocument IsBlob world)
    (taken : machine.next world event = some after) :
    (∀ documentID fields, after.server.files.lookup documentID = some fields →
        IsDocument documentID fields) ∧
      ∀ path bytes, after.server.images.lookup path = some bytes →
        IsBlob path bytes := by
  cases acts_of_next taken with
  | act => exact ⟨carried.files, carried.images⟩
  | serve found unanswered accepts serves deviceEq =>
      rename_i client ticket verdict call backend response device
      have carries := ((carried.calls client).of_find? found).request
      generalize call.request = request at serves carries
      rw [Network.moved_server]
      cases serves with
      | set =>
          rename_i other otherFields completion visible
          rw [Firestore.documentName_eq (segments _ _ carries)]
          refine ⟨?_, carried.images⟩
          intro documentID fields stored
          by_cases same : documentID = other
          · subst same
            rw [AList.lookup_insert] at stored
            cases stored
            exact carries
          · rw [AList.lookup_insert_ne same] at stored
            exact carried.files documentID fields stored
      | deleteDocument =>
          rename_i userImage visible
          refine ⟨?_, carried.images⟩
          intro documentID fields stored
          by_cases same :
              documentID = Firestore.documentName userImage.date
          · subst same
            rw [AList.lookup_erase] at stored
            cases stored
          · rw [AList.lookup_erase_ne same] at stored
            exact carried.files documentID fields stored
      | put =>
          rename_i other correoUsuario nombre fecha data visible
          refine ⟨carried.files, ?_⟩
          intro path bytes stored
          by_cases same : path = other
          · subst same
            rw [AList.lookup_insert] at stored
            cases stored
            exact carries.2.1
          · rw [AList.lookup_insert_ne same] at stored
            exact carried.images path bytes stored
      | deleteObject =>
          rename_i item visible isStored
          refine ⟨carried.files, ?_⟩
          intro path bytes stored
          by_cases same : path = item.fullPath
          · subst same
            rw [AList.lookup_erase] at stored
            cases stored
          · rw [AList.lookup_erase_ne same] at stored
            exact carried.images path bytes stored
      | _ => exact ⟨carried.files, carried.images⟩

/-- One step, whatever it is: the properties can only be lost by what a user
saves. -/
theorem next (carried : Carried IsDocument IsBlob world)
    (feeds : Feeds IsDocument IsBlob world event)
    (taken : machine.next world event = some after) :
    Carried IsDocument IsBlob after where
  files := (stores_next segments carried taken).1
  images := (stores_next segments carried taken).2
  calls := calls_next segments carried feeds taken
  held := carried.held_next taken

end Segments

end Carried

end World

end AppLPS
