/-
Module: AppLPS.Proofs.StoresAgree
Purpose: When the documents and the blobs agree: exactly when no `setData`
  reaches a document id that has been deleted.
Trusted boundary: none
Main exports: StoresAgree, NoRevival, StoresInvariant, storesAgree_iff,
  edit_revives_deleted
-/
import AppLPS.Proofs.Records

namespace AppLPS

/-! ## The property -/

/-- The id under which the call writes a document. -/
def Call.sets (call : Call) : Option String :=
  match call.request with
  | .setData documentPath _ _ => some (Firestore.documentName documentPath)
  | _ => none

namespace World

variable {Client : Type}

/-- Every document has its blob, the two stores have the same keys once nothing
is pending, and no deleted document is back. -/
structure StoresAgree (observed : World Client × History Client) : Prop where
  backed : ∀ documentID ∈ observed.1.server.files,
    imagePath documentID ∈ observed.1.server.images
  sameKeys : observed.1.Quiescent → ∀ path,
    path ∈ observed.1.server.images ↔
      ∃ documentID ∈ observed.1.server.files, path = imagePath documentID
  gone : ∀ documentID ∈ observed.2.deleted,
    documentID ∉ observed.1.server.files

/-- The backend refuses nothing. -/
def NothingRefused (_ : World Client × History Client) : Event Client → Prop
  | .serve _ (_, .refused _) => False
  | _ => True

/-- No `setData` is granted for an id whose document has been deleted. -/
def NoRevival (observed : World Client × History Client) :
    Event Client → Prop
  | .serve client (ticket, .granted _) =>
      ∀ call ∈ (observed.1.clients client).pending.find? ticket,
        ∀ documentID ∈ call.sets, documentID ∉ observed.2.deleted
  | _ => True

instance NothingRefused.decidable (observed : World Client × History Client) :
    (event : Event Client) → Decidable (NothingRefused observed event)
  | .act _ _ => isTrue trivial
  | .serve _ (_, .granted _) => isTrue trivial
  | .serve _ (_, .refused _) => isFalse id

instance NoRevival.decidable (observed : World Client × History Client) :
    (event : Event Client) → Decidable (NoRevival observed event)
  | .act _ _ => isTrue trivial
  | .serve client (ticket, .granted _) =>
      inferInstanceAs (Decidable
        (∀ call ∈ (observed.1.clients client).pending.find? ticket,
          ∀ documentID ∈ call.sets, documentID ∉ observed.2.deleted))
  | .serve _ (_, .refused _) => isTrue trivial

end World

/-! ## What is in flight -/

/-- The id is one segment, and its document is deleted or its blob is there. -/
structure Backed (deleted : List String) (images : Bucket)
    (documentID : String) : Prop where
  segment : IsSegment documentID
  kept : documentID ∈ deleted ∨ imagePath documentID ∈ images

/-- What the request reads or writes is backed, and a Storage delete follows a
document delete. -/
def RequestBacked (deleted : List String) (images : Bucket) : Request → Prop
  | .getData _ document => Backed deleted images document.documentID
  | .setData documentID _ _ => Backed deleted images documentID
  | .deleteDocument userImage => IsSegment userImage.date
  | .deleteObject item => ∃ documentID ∈ deleted,
      IsSegment documentID ∧ item = imageReference documentID
  | _ => True

/-- A backed request, with an answer that has left the stores as they should
be. -/
structure CallBacked (deleted : List String) (images : Bucket) (call : Call) :
    Prop where
  request : RequestBacked deleted images call.request
  snapshot : ∀ snapshot, call.answer = some (.documents snapshot) →
    ∀ document ∈ snapshot, Backed deleted images document.documentID
  stored : ∀ path data correoUsuario nombre fecha,
    call.request = .putData path data correoUsuario nombre fecha →
    call.answer ≠ none → Backed deleted images fecha
  erased : ∀ userImage, call.request = .deleteDocument userImage →
    call.answer ≠ none → userImage.date ∈ deleted

/-- Nothing is lost but blobs of deleted documents. -/
structure KeepsBacked (deleted : List String) (images : Bucket)
    (deleted' : List String) (images' : Bucket) : Prop where
  grows : deleted ⊆ deleted'
  backed : ∀ documentID, Backed deleted images documentID →
    Backed deleted' images' documentID

section Monotone

variable {deleted deleted' : List String} {images images' : Bucket}

theorem RequestBacked.mono {request : Request}
    (keeps : KeepsBacked deleted images deleted' images')
    (backed : RequestBacked deleted images request) :
    RequestBacked deleted' images' request := by
  cases request with
  | getData path document => exact keeps.backed _ backed
  | setData documentID fields completion => exact keeps.backed _ backed
  | deleteDocument userImage => exact backed
  | deleteObject item =>
      obtain ⟨documentID, isDeleted, ofSegment⟩ := backed
      exact ⟨documentID, keeps.grows isDeleted, ofSegment⟩
  | _ => trivial

theorem CallBacked.mono {call : Call}
    (keeps : KeepsBacked deleted images deleted' images')
    (backed : CallBacked deleted images call) :
    CallBacked deleted' images' call where
  request := backed.request.mono keeps
  snapshot := fun snapshot answered document member =>
    keeps.backed _ (backed.snapshot snapshot answered document member)
  stored := fun path data correoUsuario nombre fecha isPut answered =>
    keeps.backed _
      (backed.stored path data correoUsuario nombre fecha isPut answered)
  erased := fun userImage isDelete answered =>
    keeps.grows (backed.erased userImage isDelete answered)

end Monotone

theorem callBacked_fresh {deleted : List String} {images : Bucket}
    {request : Request} (backed : RequestBacked deleted images request) :
    CallBacked deleted images (Call.fresh request) where
  request := backed
  snapshot := by simp
  stored := by simp
  erased := by simp

/-- The call goes on to give the blob of the id a document or to delete it. -/
inductive Settles (documentID : String) (call : Call) : Prop where
  | put {path correoUsuario nombre : String} {data : Data}
      (isPut :
        call.request = .putData path data correoUsuario nombre documentID)
      (answered : call.answer = some .done)
  | set {fields : Fields} {completion : Option String}
      (isSet : call.request = .setData documentID fields completion)
      (unanswered : call.answer = none)
  | deleteDocument {userImage : UserImage}
      (isDelete : call.request = .deleteDocument userImage)
      (date : userImage.date = documentID) (answered : call.answer ≠ none)
  | deleteObject
      (isDelete : call.request = .deleteObject (imageReference documentID))
      (unanswered : call.answer = none)

/-- Among the calls not yet served only writes of the document and deletes of
the blob settle an id. -/
theorem Settles.of_unanswered {documentID : String} {call : Call}
    (settles : Settles documentID call) (unanswered : call.answer = none) :
    (∃ fields completion,
        call.request = .setData documentID fields completion) ∨
      call.request = .deleteObject (imageReference documentID) := by
  cases settles with
  | put isPut answered =>
      rw [unanswered] at answered
      cases answered
  | set isSet => exact .inl ⟨_, _, isSet⟩
  | deleteDocument isDelete date answered => exact absurd unanswered answered
  | deleteObject isDelete => exact .inr isDelete

/-- Completing a call that settles the id issues another one. -/
theorem Settles.goesOn {documentID : String} {controller : FirebaseController}
    {call : Call} {response : Response} {outcome : Outcome}
    (settles : Settles documentID call) (answered : call.answer = some response)
    (completes : Completes controller call.request response outcome) :
    ∃ request ∈ outcome.requests, Settles documentID (Call.fresh request) := by
  cases settles with
  | put isPut isDone =>
      cases answered.symm.trans isDone
      rw [isPut] at completes
      cases completes
      exact ⟨_, List.mem_cons_self, .set rfl rfl⟩
  | set isSet unanswered =>
      rw [unanswered] at answered
      cases answered
  | deleteDocument isDelete date _ =>
      rw [isDelete] at completes
      cases completes
      refine ⟨_, List.mem_cons_self, .deleteObject ?_ rfl⟩
      rw [Call.fresh_request, date]
  | deleteObject isDelete unanswered =>
      rw [unanswered] at answered
      cases answered

/-! ## The invariant -/

namespace World

variable {Client : Type}

theorem record_deleted_serve {before after : World Client}
    {history : History Client} {client : Client} {ticket visible : Nat}
    {call : Call}
    (found : (before.clients client).pending.find? ticket = some call) :
    (record before (.serve client (ticket, .granted visible)) after
      history).deleted = history.deleted ++ call.deletes.toList := by
  simp only [record, found, Option.bind_some]

/-- Some call in flight settles the id. -/
def InFlight (world : World Client) (documentID : String) : Prop :=
  SomeCall (Settles documentID) world

/-- Everything that can still write or show an id is backed, and every blob
has its document or is about to get or lose it. -/
structure StoresInvariant (observed : World Client × History Client) :
    Prop where
  records : RecordsInvariant observed
  files : ∀ documentID ∈ observed.1.server.files,
    Backed observed.2.deleted observed.1.server.images documentID
  calls : observed.1.AllCalls
    (CallBacked observed.2.deleted observed.1.server.images)
  held : observed.1.AllHeld fun _ image =>
    Backed observed.2.deleted observed.1.server.images image.date
  accounted : ∀ path ∈ observed.1.server.images, ∃ documentID,
    path = imagePath documentID ∧
      (documentID ∈ observed.1.server.files ∨
        observed.1.InFlight documentID)

namespace StoresInvariant

theorem start (persisted : Client → Option FIRUser) :
    StoresInvariant (start persisted ∅, {}) where
  records := RecordsInvariant.start persisted ∅
  files := by simp [World.start]
  calls := fun _ => Pool.all_empty _
  held := fun _ _ member => by
    simp [World.start, Device.launch, Device.held] at member
  accounted := by simp [World.start]

/-- What holds of the stores once no deleted document is back. -/
theorem agree {observed : World Client × History Client}
    (invariant : StoresInvariant observed)
    (gone : ∀ documentID ∈ observed.2.deleted,
      documentID ∉ observed.1.server.files) : StoresAgree observed := by
  have backed : ∀ documentID ∈ observed.1.server.files,
      imagePath documentID ∈ observed.1.server.images := by
    intro documentID stored
    rcases (invariant.files documentID stored).kept with isDeleted | hasBlob
    · exact absurd stored (gone documentID isDeleted)
    · exact hasBlob
  refine ⟨backed, ?_, gone⟩
  intro quiescent path
  constructor
  · intro stored
    obtain ⟨documentID, pathEq, hasDocument | inFlight⟩ :=
      invariant.accounted path stored
    · exact ⟨documentID, hasDocument, pathEq⟩
    · exact absurd inFlight (not_someCall quiescent)
  · intro hasDocument
    obtain ⟨documentID, stored, rfl⟩ := hasDocument
    exact backed documentID stored

private theorem requestBacked_of_issues
    {observed : World Client × History Client} {client : Client}
    {event : AppLPS.Event} {request : Request}
    (invariant : StoresInvariant observed)
    (issues : Device.Issues (observed.1.clients client) event request) :
    RequestBacked observed.2.deleted observed.1.server.images request := by
  cases issues with
  | query => trivial
  | delete isRow =>
      exact (invariant.held client _ (Device.mem_held_of_row isRow)).segment
  | upload => trivial
  | edit editing =>
      exact invariant.held client _ (Device.mem_held_of_editing editing)
  | download found isQuery answered own =>
      have backed := (invariant.calls client).of_find? found
      exact backed.snapshot _ answered _ (List.mem_of_mem_filter own)
  | store found isPut answered =>
      have backed := (invariant.calls client).of_find? found
      exact backed.stored _ _ _ _ _ isPut (by simp [answered])
  | deleteItem found isDelete answered =>
      have backed := (invariant.calls client).of_find? found
      have segment := backed.request
      rw [isDelete] at segment
      exact ⟨_, backed.erased _ isDelete (by simp [answered]), segment, rfl⟩

/-- A snapshot that the backend serves shows only backed documents. -/
private theorem backed_of_localView {observed : World Client × History Client}
    {client : Client} {visible : Nat} {document : QueryDocumentSnapshot}
    (invariant : StoresInvariant observed)
    (member : document ∈ snapshotOf (localView observed.1.server.files
      ((unservedWrites (observed.1.clients client).pending.values).take
        visible))) :
    Backed observed.2.deleted observed.1.server.images
      document.documentID := by
  rcases invariant.records.stored_or_written member with
    stored | ⟨call, isPending, completion, requestEq, _⟩
  · apply invariant.files
    rw [← AList.lookup_isSome, stored]
    rfl
  · have backed := (invariant.calls client call isPending).request
    rw [requestEq] at backed
    exact backed

/-- The answer of the backend leaves the call backed in the stores after. -/
private theorem callBacked_of_serves
    {observed : World Client × History Client} {after : World Client}
    {client : Client} {ticket visible : Nat} {call : Call} {backend : Backend}
    {response : Response} (invariant : StoresInvariant observed)
    (keeps : KeepsBacked observed.2.deleted observed.1.server.images
      (record observed.1 (.serve client (ticket, .granted visible)) after
        observed.2).deleted after.server.images)
    (serverEq : after.server = backend)
    (found : (observed.1.clients client).pending.find? ticket = some call)
    (accepts : call.request.Accepts response = true)
    (serves : observed.1.server.Serves
      (unservedWrites (observed.1.clients client).pending.values) call.request
      (.granted visible) backend response) :
    CallBacked
      (record observed.1 (.serve client (ticket, .granted visible)) after
        observed.2).deleted after.server.images (call.respond response) where
  request := by
    rw [Call.respond_request]
    exact ((invariant.calls client).of_find? found).request.mono keeps
  snapshot := by
    intro snapshot answered document member
    rw [Call.respond_answer accepts] at answered
    cases answered
    apply keeps.backed
    generalize call.request = served at serves
    cases serves with
    | documents => exact invariant.backed_of_localView member
  stored := by
    intro path data correoUsuario nombre fecha isPut _
    rw [Call.respond_request] at isPut
    have sound := ((invariant.records.calls client).of_find? found).request
    rw [isPut] at serves sound
    cases serves with
    | put =>
        refine ⟨sound.2.isSegment, .inr ?_⟩
        rw [serverEq, sound.1]
        exact (AList.mem_insert _).mpr (.inl rfl)
  erased := by
    intro userImage isDelete _
    rw [Call.respond_request] at isDelete
    have segment := ((invariant.calls client).of_find? found).request
    rw [isDelete] at segment
    have named : call.deletes = some userImage.date := by
      rw [Call.deletes, isDelete]
      exact congrArg some (Firestore.documentName_eq segment)
    rw [record_deleted_serve found, named]
    exact List.mem_append_right _ (List.mem_singleton_self _)

variable [DecidableEq Client]

/-- A step loses no blob but those of deleted documents. -/
theorem keepsBacked {observed : World Client × History Client}
    {after : World Client} {event : Event Client}
    (invariant : StoresInvariant observed)
    (granted : NothingRefused observed event)
    (taken : machine.next observed.1 event = some after) :
    KeepsBacked observed.2.deleted observed.1.server.images
      (record observed.1 event after observed.2).deleted
      after.server.images := by
  cases acts_of_next taken with
  | act => exact ⟨List.Subset.refl _, fun _ backed => backed⟩
  | serve found unanswered accepts serves deviceEq =>
      rename_i client ticket verdict call backend response device
      have request := ((invariant.calls client).of_find? found).request
      cases verdict with
      | refused description => exact granted.elim
      | granted visible =>
          have grows : observed.2.deleted ⊆ (record observed.1
              (.serve client (ticket, .granted visible))
              (observed.1.moved client backend device) observed.2).deleted := by
            rw [record_deleted_serve found]
            exact List.subset_append_left _ _
          refine ⟨grows, ?_⟩
          intro documentID backed
          refine ⟨backed.segment, ?_⟩
          rw [Network.moved_server]
          rcases backed.kept with isDeleted | hasBlob
          · exact .inl (grows isDeleted)
          · generalize call.request = served at serves request
            cases serves with
            | put =>
                exact .inr ((AList.mem_insert _).mpr (.inr hasBlob))
            | deleteObject stored =>
                obtain ⟨other, isDeleted, segment, rfl⟩ := request
                by_cases same : documentID = other
                · subst same
                  exact .inl (grows isDeleted)
                · refine .inr (AList.mem_erase.mpr ⟨?_, hasBlob⟩)
                  exact mt (imagePath_inj backed.segment segment).mp same
            | _ => exact .inr hasBlob

private theorem files_next {observed : World Client × History Client}
    {after : World Client} {event : Event Client}
    (invariant : StoresInvariant observed)
    (granted : NothingRefused observed event)
    (taken : machine.next observed.1 event = some after) :
    ∀ documentID ∈ after.server.files,
      Backed (record observed.1 event after observed.2).deleted
        after.server.images documentID := by
  have keeps := invariant.keepsBacked granted taken
  intro documentID stored
  apply keeps.backed
  cases acts_of_next taken with
  | act => exact invariant.files documentID stored
  | serve found unanswered accepts serves deviceEq =>
      have request := ((invariant.calls _).of_find? found).request
      generalize Call.request _ = served at serves request
      rw [Network.moved_server] at stored
      cases serves with
      | set =>
          rw [Firestore.documentName_eq request.segment] at stored
          rcases (AList.mem_insert _).mp stored with rfl | old
          · exact request
          · exact invariant.files documentID old
      | deleteDocument =>
          exact invariant.files documentID (AList.mem_erase.mp stored).2
      | _ => exact invariant.files documentID stored

private theorem held_next {observed : World Client × History Client}
    {after : World Client} {event : Event Client}
    (invariant : StoresInvariant observed)
    (granted : NothingRefused observed event)
    (taken : machine.next observed.1 event = some after) :
    after.AllHeld fun _ image =>
      Backed (record observed.1 event after observed.2).deleted
        after.server.images image.date := by
  have keeps := invariant.keepsBacked granted taken
  refine held_of_next ?_ ?_ taken
  · intro client image member
    exact keeps.backed _ (invariant.held client image member)
  · intro client ticket call path document image _ found isDownload _ describes
    apply keeps.backed
    have backed := ((invariant.calls client).of_find? found).request
    have sound := ((invariant.records.calls client).of_find? found).request
    rw [isDownload] at backed sound
    rw [(describes.of_record sound.2).1]
    exact backed

private theorem calls_next {observed : World Client × History Client}
    {after : World Client} {event : Event Client}
    (invariant : StoresInvariant observed)
    (granted : NothingRefused observed event)
    (taken : machine.next observed.1 event = some after) :
    after.AllCalls (CallBacked
      (record observed.1 event after observed.2).deleted
      after.server.images) := by
  have keeps := invariant.keepsBacked granted taken
  apply calls_of_next
    (fun client => (invariant.calls client).mono fun _ backed =>
      backed.mono keeps) _ _ taken
  · intro client own request _ issues
    exact callBacked_fresh
      ((invariant.requestBacked_of_issues issues).mono keeps)
  · intro client ticket verdict call backend response isServe found accepts
      serves serverEq _
    subst isServe
    cases verdict with
    | refused description => exact granted.elim
    | granted visible =>
        exact invariant.callBacked_of_serves keeps serverEq found accepts serves

private theorem accounted_serve {observed : World Client × History Client}
    {client : Client} {ticket visible : Nat} {call : Call} {backend : Backend}
    {response : Response} {device : Device}
    (invariant : StoresInvariant observed)
    (found : (observed.1.clients client).pending.find? ticket = some call)
    (unanswered : call.answer = none)
    (accepts : call.request.Accepts response = true)
    (serves : observed.1.server.Serves
      (unservedWrites (observed.1.clients client).pending.values) call.request
      (.granted visible) backend response)
    (deviceEq : device =
      { observed.1.clients client with
        pending := (observed.1.clients client).pending.update ticket
          fun call => call.respond response }) :
    ∀ path ∈ backend.images, ∃ documentID,
      path = imagePath documentID ∧
        (documentID ∈ backend.files ∨
          InFlight (observed.1.moved client backend device) documentID) := by
  intro path stored
  have sound := ((invariant.records.calls client).of_find? found).request
  have backed := ((invariant.calls client).of_find? found).request
  have served : ∀ documentID, Settles documentID (call.respond response) →
      InFlight (observed.1.moved client backend device) documentID :=
    fun documentID => someCall_served found deviceEq
  have answered := Call.respond_answer accepts
  -- Whatever accounted for the path still does, or was the call itself.
  have before : path ∈ observed.1.server.images → ∃ documentID,
      path = imagePath documentID ∧
        (documentID ∈ observed.1.server.files ∨
          InFlight (observed.1.moved client backend device) documentID ∨
          (∃ fields completion,
            call.request = .setData documentID fields completion) ∨
          call.request = .deleteObject (imageReference documentID)) := by
    intro old
    obtain ⟨documentID, pathEq, hasDocument | inFlight⟩ :=
      invariant.accounted path old
    · exact ⟨documentID, pathEq, .inl hasDocument⟩
    · rcases SomeCall.serve found deviceEq inFlight with later | settles
      · exact ⟨documentID, pathEq, .inr (.inl later)⟩
      · exact ⟨documentID, pathEq,
          .inr (.inr (settles.of_unanswered unanswered))⟩
  have respondEq := call.respond_request response
  generalize call.request = request at serves before sound backed respondEq
  cases serves with
  | put =>
      rcases (AList.mem_insert _).mp stored with rfl | old
      · exact ⟨_, sound.1, .inr (served _ (.put respondEq answered))⟩
      · obtain ⟨documentID, pathEq, hasDocument | later | ⟨_, _, ⟨⟩⟩ | ⟨⟨⟩⟩⟩ :=
          before old
        · exact ⟨documentID, pathEq, .inl hasDocument⟩
        · exact ⟨documentID, pathEq, .inr later⟩
  | set =>
      obtain ⟨documentID, pathEq, hasDocument | later | ⟨_, _, isSet⟩ | ⟨⟨⟩⟩⟩ :=
        before stored
      · exact ⟨documentID, pathEq, .inl ((AList.mem_insert _).mpr (.inr hasDocument))⟩
      · exact ⟨documentID, pathEq, .inr later⟩
      · cases isSet
        rw [Firestore.documentName_eq (IsRecord.isSegment sound)]
        exact ⟨_, pathEq, .inl ((AList.mem_insert _).mpr (.inl rfl))⟩
  | deleteDocument =>
      rename_i userImage
      rw [Firestore.documentName_eq backed]
      obtain ⟨documentID, pathEq, hasDocument | later | ⟨_, _, ⟨⟩⟩ | ⟨⟨⟩⟩⟩ :=
        before stored
      · by_cases same : documentID = userImage.date
        · exact ⟨documentID, pathEq, .inr (served _
            (.deleteDocument respondEq same.symm (by simp [answered])))⟩
        · exact ⟨documentID, pathEq,
            .inl (AList.mem_erase.mpr ⟨same, hasDocument⟩)⟩
      · exact ⟨documentID, pathEq, .inr later⟩
  | deleteObject =>
      obtain ⟨ne, old⟩ := AList.mem_erase.mp stored
      obtain ⟨documentID, pathEq, hasDocument | later | ⟨_, _, ⟨⟩⟩ | isDelete⟩ :=
        before old
      · exact ⟨documentID, pathEq, .inl hasDocument⟩
      · exact ⟨documentID, pathEq, .inr later⟩
      · cases isDelete
        exact absurd pathEq ne
  | deleteObjectFailed gone =>
      obtain ⟨documentID, pathEq, hasDocument | later | ⟨_, _, ⟨⟩⟩ | isDelete⟩ :=
        before stored
      · exact ⟨documentID, pathEq, .inl hasDocument⟩
      · exact ⟨documentID, pathEq, .inr later⟩
      · cases isDelete
        rw [pathEq] at stored
        exact absurd stored gone
  | _ =>
      obtain ⟨documentID, pathEq, hasDocument | later | ⟨_, _, ⟨⟩⟩ | ⟨⟨⟩⟩⟩ :=
        before stored
      · exact ⟨documentID, pathEq, .inl hasDocument⟩
      · exact ⟨documentID, pathEq, .inr later⟩

private theorem accounted_next {observed : World Client × History Client}
    {after : World Client} {event : Event Client}
    (invariant : StoresInvariant observed)
    (granted : NothingRefused observed event)
    (taken : machine.next observed.1 event = some after) :
    ∀ path ∈ after.server.images, ∃ documentID,
      path = imagePath documentID ∧
        (documentID ∈ after.server.files ∨ InFlight after documentID) := by
  cases acts_of_next taken with
  | act own clientStep =>
      intro path stored
      obtain ⟨documentID, pathEq, hasDocument | inFlight⟩ :=
        invariant.accounted path stored
      · exact ⟨documentID, pathEq, .inl hasDocument⟩
      · exact ⟨documentID, pathEq, .inr (SomeCall.act inFlight own clientStep
          fun _ _ _ _ settles => settles.goesOn)⟩
  | serve found unanswered accepts serves deviceEq =>
      rename_i client ticket verdict call backend response device
      cases verdict with
      | refused description => exact granted.elim
      | granted visible =>
          exact accounted_serve invariant found unanswered accepts serves
            deviceEq

/-- Every step whose request is not refused keeps the invariant. -/
theorem next {observed after : World Client × History Client}
    {event : Event Client} (invariant : StoresInvariant observed)
    (granted : NothingRefused observed event)
    (taken : World.observed.next observed event = some after) :
    StoresInvariant after := by
  have records := invariant.records.next taken
  obtain ⟨reached, stepped, rfl⟩ := Machine.exists_of_observe_next taken
  exact ⟨records, files_next invariant granted stepped,
    calls_next invariant granted stepped, held_next invariant granted stepped,
    accounted_next invariant granted stepped⟩

end StoresInvariant

/-! ## Steps and runs -/

variable [DecidableEq Client]

/-- One step brings no deleted document back exactly when it grants no
`setData` for a deleted id. -/
private theorem gone_next {observed : World Client × History Client}
    {after : World Client} {event : Event Client}
    (gone : ∀ documentID ∈ observed.2.deleted,
      documentID ∉ observed.1.server.files)
    (granted : NothingRefused observed event)
    (taken : machine.next observed.1 event = some after) :
    (∀ documentID ∈ (record observed.1 event after observed.2).deleted,
        documentID ∉ after.server.files) ↔ NoRevival observed event := by
  cases acts_of_next taken with
  | act => exact iff_of_true gone trivial
  | serve found unanswered accepts serves deviceEq =>
      rename_i client ticket verdict call backend response device
      cases verdict with
      | refused description => exact granted.elim
      | granted visible =>
          have noRevival :
              NoRevival observed (.serve client (ticket, .granted visible)) ↔
                ∀ documentID ∈ call.sets,
                  documentID ∉ observed.2.deleted := by
            simp [NoRevival, found]
          rw [noRevival, record_deleted_serve found, Network.moved_server,
            Call.deletes, Call.sets]
          generalize call.request = request at serves
          cases serves with
          | set =>
              simp only [Option.toList_none, List.append_nil,
                AList.mem_insert, not_or]
              constructor
              · intro goneAfter other isSet isDeleted
                cases isSet
                exact (goneAfter _ isDeleted).1 rfl
              · intro condition other isDeleted
                refine ⟨?_, gone other isDeleted⟩
                rintro rfl
                exact condition _ rfl isDeleted
          | deleteDocument =>
              apply iff_of_true
              · intro documentID isDeleted stored
                have ⟨ne, old⟩ := AList.mem_erase.mp stored
                rcases List.mem_append.mp isDeleted with before | here
                · exact gone documentID before old
                · exact ne (List.mem_singleton.mp here)
              · nofun
          | _ => exact iff_of_true (by simpa using gone) nofun

/-- In every run in which nothing is refused, the stores agree in every state
exactly when no `setData` is granted for a deleted id. -/
theorem storesAgree_iff (persisted : Client → Option FIRUser)
    (events : List (Event Client))
    (granted : World.observed.Guarded NothingRefused
      (start persisted ∅, {}) events) :
    World.observed.Always StoresAgree (start persisted ∅, {}) events ↔
      World.observed.Guarded NoRevival (start persisted ∅, {}) events := by
  have invariant := StoresInvariant.start persisted
  have startAgrees : StoresAgree (start persisted ∅, {}) :=
    invariant.agree nofun
  apply Machine.always_iff_guarded StoresInvariant
    (fun _ _ _ invariant granted taken => invariant.next granted taken) _
    invariant startAgrees granted
  intro observed event after invariant granted agree taken
  have invariantAfter := invariant.next granted taken
  obtain ⟨reached, stepped, rfl⟩ := Machine.exists_of_observe_next taken
  rw [← gone_next agree.gone granted stepped]
  exact ⟨fun agreeAfter => agreeAfter.gone, fun gone => invariantAfter.agree gone⟩

/-- `storesAgree_iff` at an upload, a refresh and a delete. -/
theorem storesAgree_deleted_upload :
    World.observed.Always StoresAgree (start (fun _ : Unit => none) ∅, {})
      (arrives () "A" "ana@lps.es" ++ uploads () 0 "playa" [2] noon ++
        refreshes () 1 2 ++
        [.act () .render, .act () (.onDelete (.first 1))] ++
        completes () 4 ++ completes () 5) :=
  (storesAgree_iff _ _ (by decide +kernel)).mpr (by decide +kernel)

/-- Two devices of one account: on one the picture is deleted while the edit of
its name that the other has sent is on its way. -/
def editDuringDelete : List (Event Bool) :=
  arrives false "A" "ana@lps.es" ++ uploads false 0 "playa" [2] noon ++
    refreshes false 1 2 ++ arrives true "A" "ana@lps.es" ++
    refreshes true 0 0 ++
    [.act false .render, .act true .render, .act true (.openEdit 0),
      .act true (.saveEdit "mar"), .act false (.onDelete (.first 1)),
      .serve false (4, .granted 0), .serve true (2, .granted 0),
      .act false (.callback 4)] ++
    completes false 5 ++ [.act true (.callback 2)]

/-- The edit brings the deleted document back, and its blob is gone. -/
theorem edit_revives_deleted :
    ¬ World.observed.Always StoresAgree (start (fun _ : Bool => none) ∅, {})
        editDuringDelete := by
  intro always
  have ends :
      (World.observed.exec (start (fun _ : Bool => none) ∅, {})
        editDuringDelete).map (fun after =>
          (after.1.server.files.keys, after.1.server.images.keys)) =
        some (["2021-11-09 12:00:00"], []) := by
    decide +kernel
  obtain ⟨after, reached, stored⟩ := Option.map_eq_some_iff.mp ends
  obtain ⟨documents, blobs⟩ := Prod.mk.inj stored
  have hasBlob := (always.last reached).backed "2021-11-09 12:00:00" (by
    rw [AList.mem_keys, documents]
    exact List.mem_singleton_self _)
  rw [AList.mem_keys, blobs] at hasBlob
  cases hasBlob

end World

end AppLPS
