/-
Module: AppLPS.Proofs.FailedDelete
Purpose: When a failed delete leaves its image intact: exactly when no delete
  that succeeds reaches what has to stay, be it the blob of the image itself or
  what another date of the list also names.
Trusted boundary: none
Main exports: Request.Avoids, World.DeleteStep, DeletesRight, Spares, Fate,
  World.DeleteRuns, World.deletesRight_iff
-/
import AppLPS.Proofs.WorldSteps

namespace AppLPS

/-! ## The property -/

/-- The stores have the same document, if the date names one, and the same blob
for the image. -/
structure SameImage (before after : Backend) (image : UserImage) : Prop where
  document : ∀ name, filesDocument image.date = .ok name →
    after.files.lookup name = before.files.lookup name
  blob : after.images.lookup (imagePath image.date) =
    before.images.lookup (imagePath image.date)

/-- What deleting the selected images of a list does to the stores, if the
deletes succeed and fail after the pattern. -/
structure DeletesRight (images selected : List UserImage)
    (succeeds : Request → Bool) (before after : Backend) : Prop where
  failed : ∀ image ∈ selected, succeeds (.deleteDocument image) = false →
    SameImage before after image
  document : ∀ image ∈ selected, succeeds (.deleteDocument image) = true →
    ∀ name, filesDocument image.date = .ok name → name ∉ after.files
  blob : ∀ image ∈ selected, succeeds (.deleteDocument image) = true →
    succeeds (.deleteObject (imageReference image.date)) = true →
    imagePath image.date ∉ after.images
  others : ∀ image ∈ images, image ∉ selected → SameImage before after image

/-- The delete of the image succeeds and removes the document of this name. -/
def RemovesDocument (succeeds : Request → Bool) (name : String)
    (image : UserImage) : Prop :=
  Firestore.documentName image.date = name ∧
    succeeds (.deleteDocument image) = true

/-- The Storage delete of the image succeeds and removes the blob at this
path. -/
def RemovesBlob (succeeds : Request → Bool) (path : String)
    (image : UserImage) : Prop :=
  imagePath image.date = path ∧
    succeeds (.deleteObject (imageReference image.date)) = true

/-- The deletes of the selected images spare the stored document and the stored
blob of the image. -/
structure Spares (selected : List UserImage) (succeeds : Request → Bool)
    (before : Backend) (image : UserImage) : Prop where
  document : ∀ name, filesDocument image.date = .ok name →
    name ∈ before.files →
    ∀ other ∈ selected, ¬ RemovesDocument succeeds name other
  blob : imagePath image.date ∈ before.images →
    ∀ other ∈ selected, ¬ RemovesBlob succeeds (imagePath image.date) other

/-- The event swipes rows away. -/
def Event.isOnDelete : Event → Bool
  | .onDelete _ => true
  | _ => false

namespace Request

/-- The request deletes a document or a blob. -/
def deletesItem : Request → Bool
  | .deleteDocument _ => true
  | .deleteObject _ => true
  | _ => false

/-- The request writes no document and no blob of the images. -/
def Avoids (images : List UserImage) : Request → Prop
  | .putData path _ _ _ _ => ∀ image ∈ images, path ≠ imagePath image.date
  | .setData documentPath _ _ => ∀ image ∈ images,
      filesDocument image.date ≠ .ok (Firestore.documentName documentPath)
  | .deleteDocument userImage => ∀ image ∈ images,
      filesDocument image.date ≠ .ok (Firestore.documentName userImage.date)
  | .deleteObject item => ∀ image ∈ images,
      item.fullPath ≠ imagePath image.date
  | _ => True

instance Avoids.decidable (images : List UserImage) :
    (request : Request) → Decidable (Avoids images request)
  | .getDocuments _ => isTrue trivial
  | .getData _ _ => isTrue trivial
  | .putData path _ _ _ _ =>
      inferInstanceAs (Decidable (∀ image ∈ images, path ≠ imagePath image.date))
  | .setData documentPath _ _ =>
      inferInstanceAs (Decidable (∀ image ∈ images,
        filesDocument image.date ≠ .ok (Firestore.documentName documentPath)))
  | .deleteDocument userImage =>
      inferInstanceAs (Decidable (∀ image ∈ images,
        filesDocument image.date ≠
          .ok (Firestore.documentName userImage.date)))
  | .deleteObject item =>
      inferInstanceAs (Decidable (∀ image ∈ images,
        item.fullPath ≠ imagePath image.date))

end Request

/-! ## Serving deletes -/

theorem lookup_erase_if {Value : Type} (store : AList fun _ : String => Value)
    (key other : String) :
    (store.erase key).lookup other =
      if other = key then none else store.lookup other := by
  split
  · rename_i same
    rw [same]
    exact AList.lookup_erase key store
  · rename_i ne
    exact AList.lookup_erase_ne ne

namespace Backend.Serves

variable {backend after : Backend} {writes : List Request} {verdict : Verdict}
  {response : Response}

/-- A request that avoids the images, or is refused, leaves them alone. -/
theorem sameImage {request : Request} {images : List UserImage}
    (serves : backend.Serves writes request verdict after response)
    (harmless : verdict.isGranted = false ∨ request.Avoids images)
    {image : UserImage} (member : image ∈ images) :
    SameImage backend after image := by
  cases serves with
  | put =>
      rcases harmless with refused | avoids
      · cases refused
      · refine ⟨fun _ _ => rfl, ?_⟩
        exact AList.lookup_insert_ne (Ne.symm (avoids image member))
  | set =>
      rcases harmless with refused | avoids
      · cases refused
      · refine ⟨?_, rfl⟩
        rintro name named
        apply AList.lookup_insert_ne
        rintro rfl
        exact avoids image member named
  | deleteDocument =>
      rcases harmless with refused | avoids
      · cases refused
      · refine ⟨?_, rfl⟩
        rintro name named
        apply AList.lookup_erase_ne
        rintro rfl
        exact avoids image member named
  | deleteObject =>
      rcases harmless with refused | avoids
      · cases refused
      · refine ⟨fun _ _ => rfl, ?_⟩
        exact AList.lookup_erase_ne (Ne.symm (avoids image member))
  | _ => exact ⟨fun _ _ => rfl, rfl⟩

/-- A document delete removes its document if it is granted, and touches
nothing else. -/
theorem lookup_deleteDocument {userImage : UserImage}
    (serves : backend.Serves writes (.deleteDocument userImage) verdict after
      response) :
    after.images = backend.images ∧
      ∀ name, after.files.lookup name =
        if name = Firestore.documentName userImage.date ∧
            verdict.isGranted = true then none
        else backend.files.lookup name := by
  cases serves with
  | refused =>
      refine ⟨rfl, fun name => ?_⟩
      rw [if_neg (fun both => by cases both.2)]
  | deleteDocument =>
      refine ⟨rfl, fun name => ?_⟩
      simp only [lookup_erase_if, Verdict.isGranted, and_true]

/-- A Storage delete removes its blob if it is granted, and touches nothing
else. -/
theorem lookup_deleteObject {item : StorageReference}
    (serves : backend.Serves writes (.deleteObject item) verdict after
      response) :
    after.files = backend.files ∧
      ∀ path, after.images.lookup path =
        if path = item.fullPath ∧ verdict.isGranted = true then none
        else backend.images.lookup path := by
  cases serves with
  | refused =>
      refine ⟨rfl, fun path => ?_⟩
      rw [if_neg (fun both => by cases both.2)]
  | deleteObject =>
      refine ⟨rfl, fun path => ?_⟩
      simp only [lookup_erase_if, Verdict.isGranted, and_true]
  | deleteObjectFailed gone =>
      refine ⟨rfl, fun path => ?_⟩
      split
      · rename_i both
        rw [both.1]
        exact AList.lookup_eq_none.mpr gone
      · rfl

end Backend.Serves

/-! ## Deletes in flight -/

/-- A delete in flight is one of the selected images. -/
def Call.DeletesOnly (selected : List UserImage) (call : Call) : Prop :=
  match call.request with
  | .deleteDocument userImage => userImage ∈ selected
  | .deleteObject item => ∃ image ∈ selected, item = imageReference image.date
  | _ => True

theorem Call.deletesOnly_of_other {selected : List UserImage} {call : Call}
    (isOther : call.request.deletesItem = false) :
    call.DeletesOnly selected := by
  unfold Call.DeletesOnly
  split
  · rename_i requestEq
    rw [requestEq] at isOther
    cases isOther
  · rename_i requestEq
    rw [requestEq] at isOther
    cases isOther
  · trivial

/-- The gesture issues one document delete for each selected row. -/
theorem Device.pending_onDelete {device after : Device} {indexSet : IndexSet}
    (taken : Device.machine.next device (.onDelete indexSet) = some after) :
    after.pending = device.pending.submitAll
      (((device.controller.rowsAt indexSet).map
        Request.deleteDocument).map Call.fresh) := by
  cases Device.acts_of_next taken with
  | quiet _ _ _ isQuiet => cases isQuiet
  | onDelete signedIn imagesAt afterEq =>
      rw [afterEq, (FirebaseController.imagesAt_eq_ok_iff.mp imagesAt).2]
      rfl

/-- The call is about to delete the document of the image. -/
inductive AsksDocument (image : UserImage) (call : Call) : Prop where
  | document (isDelete : call.request = .deleteDocument image)
      (unanswered : call.answer = none)

/-- The call is about to delete the blob of the image, or its closure will. -/
inductive AsksBlob (image : UserImage) (call : Call) : Prop where
  | document (isDelete : call.request = .deleteDocument image)
  | object (isDelete : call.request = .deleteObject (imageReference image.date))
      (unanswered : call.answer = none)

theorem AsksBlob.deletesItem {image : UserImage} {call : Call}
    (asks : AsksBlob image call) : call.request.deletesItem = true := by
  cases asks with
  | document isDelete =>
      rw [isDelete]
      rfl
  | object isDelete =>
      rw [isDelete]
      rfl

theorem AsksDocument.asksBlob {image : UserImage} {call : Call}
    (asks : AsksDocument image call) : AsksBlob image call := by
  obtain ⟨isDelete, _⟩ := asks
  exact .document isDelete

/-- The closure of the document delete deletes the blob, whatever its answer. -/
theorem AsksBlob.goesOn {image : UserImage} {controller : FirebaseController}
    {call : Call} {response : Response} {outcome : Outcome}
    (asks : AsksBlob image call) (answered : call.answer = some response)
    (completes : Completes controller call.request response outcome) :
    ∃ request ∈ outcome.requests, AsksBlob image (Call.fresh request) := by
  cases asks with
  | document isDelete =>
      rw [isDelete] at completes
      cases completes
      exact ⟨_, List.mem_cons_self, .object rfl rfl⟩
  | object isDelete unanswered =>
      rw [unanswered] at answered
      cases answered

/-! ## The fate of a stored value -/

/-- What has become of a stored value: the delete of a selected image has
removed it, or it is as it was and every selected image whose delete will remove
it still asks for that. -/
inductive Fate {Value : Type} (selected : List UserImage)
    (removes asks : UserImage → Prop) (was now : Option Value) : Prop where
  | removed {image : UserImage} (isSelected : image ∈ selected)
      (isRemoved : removes image) (gone : now = none)
  | kept (same : now = was)
      (asked : ∀ image ∈ selected, removes image → asks image)

namespace Fate

variable {Value : Type} {selected : List UserImage}
  {removes asks later : UserImage → Prop} {was now : Option Value}

theorem mono (fate : Fate selected removes asks was now)
    (goesOn : ∀ image ∈ selected, removes image → asks image → later image) :
    Fate selected removes later was now := by
  cases fate with
  | removed isSelected isRemoved gone => exact .removed isSelected isRemoved gone
  | kept same asked =>
      refine .kept same ?_
      intro image isSelected isRemoved
      exact goesOn image isSelected isRemoved
        (asked image isSelected isRemoved)

/-- Once nobody asks any more, the value is as it was exactly when there was
none or no selected image removes it. -/
theorem eq_iff (fate : Fate selected removes asks was now)
    (finished : ∀ image, ¬ asks image) :
    now = was ↔ (was.isSome = true → ∀ image ∈ selected, ¬ removes image) := by
  cases fate with
  | removed isSelected isRemoved gone =>
      constructor
      · intro same isStored
        rw [← same, gone] at isStored
        cases isStored
      · intro spared
        cases was with
        | none => exact gone
        | some value => exact absurd isRemoved (spared rfl _ isSelected)
  | kept same asked =>
      refine ⟨?_, fun _ => same⟩
      intro _ _ image isSelected isRemoved
      exact finished image (asked image isSelected isRemoved)

/-- Once nobody asks any more, what a selected image removes is gone. -/
theorem eq_none (fate : Fate selected removes asks was now)
    (finished : ∀ image, ¬ asks image) {image : UserImage}
    (isSelected : image ∈ selected) (isRemoved : removes image) :
    now = none := by
  cases fate with
  | removed _ _ gone => exact gone
  | kept _ asked =>
      exact absurd (asked image isSelected isRemoved) (finished image)

end Fate

namespace World

variable {Client : Type} [DecidableEq Client]

/-- Nothing but the deletes of one gesture touches the images: its device
deletes nothing else, its deletes are granted after the pattern, and all other
requests avoid the images or are refused. -/
def DeleteStep (client : Client) (succeeds : Request → Bool)
    (images : List UserImage) (world : World Client) : Event Client → Prop
  | .act mover event => mover = client → event.isOnDelete = false
  | .serve mover (ticket, verdict) =>
      ∀ call ∈ (world.clients mover).pending.find? ticket,
        if mover = client ∧ call.request.deletesItem = true then
          verdict.isGranted = succeeds call.request
        else verdict.isGranted = false ∨ call.request.Avoids images

instance DeleteStep.decidable (client : Client) (succeeds : Request → Bool)
    (images : List UserImage) (world : World Client) :
    (event : Event Client) →
      Decidable (DeleteStep client succeeds images world event)
  | .act mover event =>
      inferInstanceAs (Decidable (mover = client → event.isOnDelete = false))
  | .serve mover (ticket, verdict) =>
      inferInstanceAs (Decidable
        (∀ call ∈ (world.clients mover).pending.find? ticket,
          if mover = client ∧ call.request.deletesItem = true then
            verdict.isGranted = succeeds call.request
          else verdict.isGranted = false ∨ call.request.Avoids images))

/-- The listed images between the stores before the gesture and those after
it. -/
structure DeleteRuns (client : Client) (images selected : List UserImage)
    (succeeds : Request → Bool) (before : Backend) (world : World Client) :
    Prop where
  calls : (world.clients client).pending.All (Call.DeletesOnly selected)
  documents : ∀ image ∈ images, ∀ name, filesDocument image.date = .ok name →
    Fate selected (RemovesDocument succeeds name)
      (fun other => HasCall (AsksDocument other) (world.clients client))
      (before.files.lookup name) (world.server.files.lookup name)
  blobs : ∀ image ∈ images,
    Fate selected (RemovesBlob succeeds (imagePath image.date))
      (fun other => HasCall (AsksBlob other) (world.clients client))
      (before.images.lookup (imagePath image.date))
      (world.server.images.lookup (imagePath image.date))

namespace DeleteRuns

variable {client mover : Client} {images selected : List UserImage}
  {succeeds : Request → Bool} {before : Backend} {world : World Client}

/-- A device that moves by itself. -/
theorem act {event : AppLPS.Event} {device : Device}
    (runs : DeleteRuns client images selected succeeds before world)
    (alone : DeleteStep client succeeds images world (.act mover event))
    (own : event.isAnswer = false)
    (taken : Device.machine.next (world.clients mover) event = some device) :
    DeleteRuns client images selected succeeds before
      (world.moved mover world.server device) where
  calls := by
    by_cases here : client = mover
    · subst here
      rw [Network.moved_clients_self]
      apply Device.all_of_next runs.calls _ _ taken
      · intro request issues
        cases issues with
        | delete => cases alone rfl
        | deleteItem found isDelete answered =>
            have only := runs.calls.of_find? found
            rw [Call.DeletesOnly, isDelete] at only
            exact ⟨_, only, rfl⟩
        | _ => trivial
      · intro ticket response call isAnswer
        subst isAnswer
        cases own
    · rw [Network.moved_clients_of_ne _ _ _ here]
      exact runs.calls
  documents := by
    intro image member name named
    refine (runs.documents image member name named).mono ?_
    intro other _ _ asks
    refine asks.act own taken ?_
    intro controller call response outcome asksDocument answered _
    obtain ⟨_, unanswered⟩ := asksDocument
    rw [unanswered] at answered
    cases answered
  blobs := by
    intro image member
    refine (runs.blobs image member).mono ?_
    intro other _ _ asks
    refine asks.act own taken ?_
    intro controller call response outcome asksBlob
    exact asksBlob.goesOn

section Serve

variable {ticket : Nat} {verdict : Verdict} {call : Call} {backend : Backend}
  {response : Response} {device : Device}

/-- Serving a call changes none of the calls' requests. -/
private theorem calls_serve
    (runs : DeleteRuns client images selected succeeds before world)
    (found : (world.clients mover).pending.find? ticket = some call)
    (deviceEq : device =
      { world.clients mover with
        pending := (world.clients mover).pending.update ticket fun call =>
          call.respond response }) :
    ((world.moved mover backend device).clients client).pending.All
      (Call.DeletesOnly selected) := by
  by_cases here : client = mover
  · subst here
    rw [Network.moved_clients_self, deviceEq]
    apply runs.calls.update found
    have only := runs.calls.of_find? found
    rw [Call.DeletesOnly] at only ⊢
    rw [Call.respond_request]
    exact only
  · rw [Network.moved_clients_of_ne _ _ _ here]
    exact runs.calls

/-- Serving a call keeps the fate of a value it leaves alone, if the images that
the call asked for, and that remove the value, are asked for again. -/
private theorem fate_serve {Value : Type} {removes : UserImage → Prop}
    {asks : UserImage → Call → Prop} {was now : Option Value}
    (found : (world.clients mover).pending.find? ticket = some call)
    (deviceEq : device =
      { world.clients mover with
        pending := (world.clients mover).pending.update ticket fun call =>
          call.respond response })
    (fate : Fate selected removes
      (fun other => HasCall (asks other) (world.clients client)) was now)
    (again : ∀ other, removes other → client = mover → asks other call →
      HasCall (asks other) ((world.moved mover backend device).clients client)) :
    Fate selected removes
      (fun other => HasCall (asks other)
        ((world.moved mover backend device).clients client)) was now := by
  refine fate.mono ?_
  intro other _ isRemoved inFlight
  rcases HasCall.serve found deviceEq inFlight with later | ⟨here, asksCall⟩
  · exact later
  · exact again other isRemoved here asksCall

/-- Serving a request that avoids the images. -/
private theorem serve_other
    (runs : DeleteRuns client images selected succeeds before world)
    (found : (world.clients mover).pending.find? ticket = some call)
    (serves : world.server.Serves
      (unservedWrites (world.clients mover).pending.values) call.request
      verdict backend response)
    (deviceEq : device =
      { world.clients mover with
        pending := (world.clients mover).pending.update ticket fun call =>
          call.respond response })
    (isOther : ¬ (mover = client ∧ call.request.deletesItem = true))
    (harmless : verdict.isGranted = false ∨ call.request.Avoids images) :
    DeleteRuns client images selected succeeds before
      (world.moved mover backend device) where
  calls := runs.calls_serve found deviceEq
  documents := by
    intro image member name named
    have same := serves.sameImage harmless member
    rw [Network.moved_server, same.document name named]
    apply fate_serve found deviceEq (runs.documents image member name named)
    intro other _ here asksCall
    exact absurd ⟨here.symm, asksCall.asksBlob.deletesItem⟩ isOther
  blobs := by
    intro image member
    have same := serves.sameImage harmless member
    rw [Network.moved_server, same.blob]
    apply fate_serve found deviceEq (runs.blobs image member)
    intro other _ here asksCall
    exact absurd ⟨here.symm, asksCall.deletesItem⟩ isOther

/-- Serving the document delete of a selected image. -/
private theorem serve_deleteDocument {userImage : UserImage}
    (runs : DeleteRuns client images selected succeeds before world)
    (found : (world.clients client).pending.find? ticket = some call)
    (isDelete : call.request = .deleteDocument userImage)
    (serves : world.server.Serves
      (unservedWrites (world.clients client).pending.values)
      (.deleteDocument userImage) verdict backend response)
    (deviceEq : device =
      { world.clients client with
        pending := (world.clients client).pending.update ticket fun call =>
          call.respond response })
    (fits : verdict.isGranted = succeeds (.deleteDocument userImage)) :
    DeleteRuns client images selected succeeds before
      (world.moved client backend device) := by
  have ⟨sameBlobs, documents⟩ := serves.lookup_deleteDocument
  have isSelected := runs.calls.of_find? found
  rw [Call.DeletesOnly, isDelete] at isSelected
  refine ⟨runs.calls_serve found deviceEq, ?_, ?_⟩
  · intro image member name named
    rw [Network.moved_server, documents name, fits]
    by_cases removes : RemovesDocument succeeds name userImage
    · rw [if_pos ⟨removes.1.symm, removes.2⟩]
      exact .removed isSelected removes rfl
    · rw [if_neg fun both => removes ⟨both.1.symm, both.2⟩]
      apply fate_serve found deviceEq (runs.documents image member name named)
      intro other isRemoved _ asksCall
      obtain ⟨isOwn, _⟩ := asksCall
      cases isDelete.symm.trans isOwn
      exact absurd isRemoved removes
  · intro image member
    rw [Network.moved_server, sameBlobs]
    apply fate_serve found deviceEq (runs.blobs image member)
    intro other _ _ asksCall
    cases asksCall with
    | document isOwn =>
        exact hasCall_served found deviceEq
          (.document ((call.respond_request response).trans isOwn))
    | object isObject => cases isDelete.symm.trans isObject

/-- Serving the Storage delete of a selected image. -/
private theorem serve_deleteObject {item : StorageReference}
    (runs : DeleteRuns client images selected succeeds before world)
    (found : (world.clients client).pending.find? ticket = some call)
    (isDelete : call.request = .deleteObject item)
    (serves : world.server.Serves
      (unservedWrites (world.clients client).pending.values)
      (.deleteObject item) verdict backend response)
    (deviceEq : device =
      { world.clients client with
        pending := (world.clients client).pending.update ticket fun call =>
          call.respond response })
    (fits : verdict.isGranted = succeeds (.deleteObject item)) :
    DeleteRuns client images selected succeeds before
      (world.moved client backend device) := by
  have ⟨sameDocuments, blobs⟩ := serves.lookup_deleteObject
  have ofSelected := runs.calls.of_find? found
  rw [Call.DeletesOnly, isDelete] at ofSelected
  obtain ⟨userImage, isSelected, rfl⟩ := ofSelected
  refine ⟨runs.calls_serve found deviceEq, ?_, ?_⟩
  · intro image member name named
    rw [Network.moved_server, sameDocuments]
    apply fate_serve found deviceEq (runs.documents image member name named)
    intro other _ _ asksCall
    obtain ⟨isOwn, _⟩ := asksCall
    cases isDelete.symm.trans isOwn
  · intro image member
    rw [Network.moved_server, blobs (imagePath image.date), fits]
    by_cases removes :
        RemovesBlob succeeds (imagePath image.date) userImage
    · rw [if_pos ⟨removes.1.symm, removes.2⟩]
      exact .removed isSelected removes rfl
    · rw [if_neg fun both => removes ⟨both.1.symm, both.2⟩]
      apply fate_serve found deviceEq (runs.blobs image member)
      intro other isRemoved _ asksCall
      cases asksCall with
      | document isDocument => cases isDelete.symm.trans isDocument
      | object isOwn =>
          -- Another image with this reference has this image's path too.
          have sameItem := isDelete.symm.trans isOwn
          rw [Request.deleteObject.injEq] at sameItem
          refine absurd ⟨?_, ?_⟩ removes
          · rw [← isRemoved.1, imagePath, imagePath, sameItem]
          · rw [sameItem]
            exact isRemoved.2

end Serve

/-- Every step in which nothing else touches the images. -/
theorem next {after : World Client} {event : Event Client}
    (runs : DeleteRuns client images selected succeeds before world)
    (alone : DeleteStep client succeeds images world event)
    (taken : machine.next world event = some after) :
    DeleteRuns client images selected succeeds before after := by
  cases acts_of_next taken with
  | act own clientStep => exact runs.act alone own clientStep
  | serve found unanswered accepts serves deviceEq =>
      rename_i mover ticket verdict call backend response device
      have fits := alone call found
      by_cases isOwn : mover = client ∧ call.request.deletesItem = true
      · rw [if_pos isOwn] at fits
        obtain ⟨rfl, deletes⟩ := isOwn
        cases request : call.request with
        | deleteDocument userImage =>
            rw [request] at serves fits
            exact runs.serve_deleteDocument found request serves deviceEq fits
        | deleteObject item =>
            rw [request] at serves fits
            exact runs.serve_deleteObject found request serves deviceEq fits
        | _ =>
            rw [request] at deletes
            cases deletes
      · rw [if_neg isOwn] at fits
        exact runs.serve_other found serves deviceEq isOwn fits

/-- The gesture has just been made. -/
theorem of_onDelete {started : World Client} {indexSet : IndexSet}
    (noDeletes : ∀ call ∈ (world.clients client).pending.values,
      call.request.deletesItem = false)
    (begins : machine.next world (.act client (.onDelete indexSet)) =
      some started) :
    DeleteRuns client images
      ((world.clients client).controller.rowsAt indexSet) succeeds world.server
      started := by
  cases acts_of_next begins with
  | act own clientStep =>
      rename_i device
      have pending := Device.pending_onDelete clientStep
      have isPending : ∀ image ∈
          (world.clients client).controller.rowsAt indexSet,
          Call.fresh (.deleteDocument image) ∈ device.pending.values := by
        intro image isSelected
        rw [pending, Pool.values_submitAll]
        apply List.mem_append_right
        exact List.mem_map_of_mem (List.mem_map_of_mem isSelected)
      refine ⟨?_, ?_, ?_⟩
      · rw [Network.moved_clients_self, pending]
        apply Pool.All.submitAll
        · intro call member
          exact Call.deletesOnly_of_other (noDeletes call member)
        · intro call member
          obtain ⟨request, isIssued, rfl⟩ := List.mem_map.mp member
          obtain ⟨image, isSelected, rfl⟩ := List.mem_map.mp isIssued
          exact isSelected
      · intro image member name named
        refine .kept rfl ?_
        intro other isSelected _
        refine ⟨Call.fresh (.deleteDocument other), ?_, .document rfl rfl⟩
        rw [Network.moved_clients_self]
        exact isPending other isSelected
      · intro image member
        refine .kept rfl ?_
        intro other isSelected _
        refine ⟨Call.fresh (.deleteDocument other), ?_, .document rfl⟩
        rw [Network.moved_clients_self]
        exact isPending other isSelected

section Finished

variable (finished : ∀ call ∈ (world.clients client).pending.values,
  call.request.deletesItem = false)

include finished
omit [DecidableEq Client]

private theorem not_asksBlob (image : UserImage) :
    ¬ HasCall (AsksBlob image) (world.clients client) := by
  intro asks
  obtain ⟨call, member, asksBlob⟩ := asks
  have isOther := finished call member
  rw [asksBlob.deletesItem] at isOther
  cases isOther

private theorem not_asksDocument (image : UserImage) :
    ¬ HasCall (AsksDocument image) (world.clients client) := by
  intro asks
  obtain ⟨call, member, asksDocument⟩ := asks
  exact not_asksBlob finished image ⟨call, member, asksDocument.asksBlob⟩

variable (runs : DeleteRuns client images selected succeeds before world)

include runs

/-- Once no delete is pending, a listed image is as it was exactly when the
deletes spare it. -/
theorem sameImage_iff {image : UserImage} (member : image ∈ images) :
    SameImage before world.server image ↔
      Spares selected succeeds before image := by
  have documents := fun name named =>
    (runs.documents image member name named).eq_iff (not_asksDocument finished)
  have blob := (runs.blobs image member).eq_iff (not_asksBlob finished)
  simp only [AList.lookup_isSome] at documents blob
  constructor
  · intro same
    exact ⟨fun name named => (documents name named).mp
      (same.document name named), blob.mp same.blob⟩
  · intro spares
    exact ⟨fun name named => (documents name named).mpr
      (spares.document name named), blob.mpr spares.blob⟩

/-- Once no delete is pending, the stores are right exactly when the deletes
spare every image that has to stay. -/
theorem deletesRight_iff_spares (subset : selected ⊆ images) :
    DeletesRight images selected succeeds before world.server ↔
      ∀ image ∈ images,
        (image ∈ selected → succeeds (.deleteDocument image) = false) →
        Spares selected succeeds before image := by
  constructor
  · intro right image member stays
    apply (sameImage_iff finished runs member).mp
    by_cases isSelected : image ∈ selected
    · exact right.failed image isSelected (stays isSelected)
    · exact right.others image member isSelected
  · intro spares
    have same : ∀ image ∈ images,
        (image ∈ selected → succeeds (.deleteDocument image) = false) →
        SameImage before world.server image :=
      fun image member stays =>
        (sameImage_iff finished runs member).mpr (spares image member stays)
    refine ⟨?_, ?_, ?_, ?_⟩
    · intro image isSelected failed
      exact same image (subset isSelected) fun _ => failed
    · intro image isSelected succeeded name named
      apply AList.lookup_eq_none.mp
      exact (runs.documents image (subset isSelected) name named).eq_none
        (not_asksDocument finished) isSelected
        ⟨Firestore.documentName_of_document named, succeeded⟩
    · intro image isSelected _ succeeded
      apply AList.lookup_eq_none.mp
      exact (runs.blobs image (subset isSelected)).eq_none
        (not_asksBlob finished) isSelected ⟨rfl, succeeded⟩
    · intro image member unselected
      exact same image member fun isSelected => absurd isSelected unselected

end Finished

end DeleteRuns

end World

/-- Where every date is one segment, as every date of the app is, no image is
reached by the deletes of another one: what is lost is the blob of an image whose
document delete has failed. -/
theorem spares_iff_of_isSegment {images selected : List UserImage}
    {succeeds : Request → Bool} {before : Backend}
    (distinct : (images.map (·.date)).Nodup)
    (segments : ∀ image ∈ images, IsSegment image.date)
    (subset : selected ⊆ images) :
    (∀ image ∈ images,
        (image ∈ selected → succeeds (.deleteDocument image) = false) →
        Spares selected succeeds before image) ↔
      ∀ image ∈ selected, succeeds (.deleteDocument image) = false →
        succeeds (.deleteObject (imageReference image.date)) = true →
        imagePath image.date ∉ before.images := by
  constructor
  · intro spares image isSelected failed succeeded stored
    have spared := spares image (subset isSelected) fun _ => failed
    exact spared.blob stored image isSelected ⟨rfl, succeeded⟩
  · intro noneLost image member stays
    have isOnly : ∀ other ∈ selected, other.date = image.date →
        other = image := fun other isSelected =>
      List.inj_on_of_nodup_map distinct (subset isSelected) member
    constructor
    · rintro name named _ other isSelected ⟨sameName, succeeded⟩
      rw [filesDocument, Firestore.document_eq (segments image member)] at named
      cases named
      rw [Firestore.documentName_eq (segments other (subset isSelected))]
        at sameName
      cases isOnly other isSelected sameName
      rw [stays isSelected] at succeeded
      cases succeeded
    · rintro stored other isSelected ⟨samePath, succeeded⟩
      have sameDate := (imagePath_inj (segments other (subset isSelected))
        (segments image member)).mp samePath
      cases isOnly other isSelected sameDate
      exact noneLost image isSelected (stays isSelected) succeeded stored

namespace World

variable {Client : Type} [DecidableEq Client]

/-- For every list, every selection of its rows, every pattern of successes and
failures and every order of the answers and the closures: once no delete is
pending, the stores are right if and only if the deletes spare every listed
image that is not selected or whose own document delete fails. -/
theorem deletesRight_iff {client : Client} {succeeds : Request → Bool}
    {world started after : World Client} {indexSet : IndexSet}
    {events : List (Event Client)}
    (noDeletes : ∀ call ∈ (world.clients client).pending.values,
      call.request.deletesItem = false)
    (begins : machine.next world (.act client (.onDelete indexSet)) =
      some started)
    (alone : machine.Guarded (DeleteStep client succeeds
      (world.clients client).controller.refImagenesUsuario) started events)
    (run : machine.exec started events = some after)
    (finished : ∀ call ∈ (after.clients client).pending.values,
      call.request.deletesItem = false) :
    DeletesRight (world.clients client).controller.refImagenesUsuario
        ((world.clients client).controller.rowsAt indexSet) succeeds
        world.server after.server ↔
      ∀ image ∈ (world.clients client).controller.refImagenesUsuario,
        (image ∈ (world.clients client).controller.rowsAt indexSet →
          succeeds (.deleteDocument image) = false) →
        Spares ((world.clients client).controller.rowsAt indexSet) succeeds
          world.server image := by
  have runs := (Machine.always_of_guarded
    (fun _ _ _ runs alone taken => DeleteRuns.next runs alone taken)
    (DeleteRuns.of_onDelete noDeletes begins) alone).last run
  exact DeleteRuns.deletesRight_iff_spares finished runs fun image =>
    FirebaseController.mem_of_mem_rowsAt

/-- A user uploads two pictures and has them listed. -/
def listsTwo : List (Event Unit) :=
  arrives () "A" "ana@lps.es" ++ uploads () 0 "playa" [1] noon ++
    uploads () 2 "mar" [2] afterNoon ++
    [.act () (.runTask 1)] ++ completes () 4 ++ completes () 5 ++
    completes () 6 ++ [.act () .render]

/-- All deletes succeed but those of one image. -/
def sparing (date : String) : Request → Bool
  | .deleteDocument userImage => userImage.date != date
  | .deleteObject item => item != imageReference date
  | _ => true

/-- All deletes succeed but that of one document. -/
def sparingDocument (date : String) : Request → Bool
  | .deleteDocument userImage => userImage.date != date
  | _ => true

/-- Both rows are swiped away; the deletes of the first are refused, and its
closures run last. -/
def deletesSecond : List (Event Unit) :=
  [.serve () (8, .granted 0), .serve () (7, .refused "denied"),
    .act () (.callback 8), .act () (.callback 7),
    .serve () (10, .refused "denied"), .serve () (9, .granted 0),
    .act () (.callback 9), .act () (.callback 10)]

/-- `deletesRight_iff` at two rows, of which one cannot be deleted at all. -/
theorem deletesRight_one_refused :
    ∃ world started after : World Unit,
      machine.next world (.act () (.onDelete (.first 2))) =
        some started ∧
      machine.exec started deletesSecond = some after ∧
      DeletesRight (world.clients ()).controller.refImagenesUsuario
        ((world.clients ()).controller.rowsAt (.first 2))
        (sparing "2021-11-09 12:00:01") world.server after.server := by
  have ends : ((machine.exec (start (fun _ : Unit => none) ∅) listsTwo).bind
      fun world => (machine.next world
        (.act () (.onDelete (.first 2)))).bind fun started =>
          machine.exec started deletesSecond).isSome = true := by
    decide +kernel
  have facts : ∀ world ∈ machine.exec (start (fun _ : Unit => none) ∅) listsTwo,
      ((world.clients ()).controller.refImagenesUsuario.map (·.date)).Nodup ∧
      (∀ image ∈ (world.clients ()).controller.refImagenesUsuario,
        IsSegment image.date) ∧
      (∀ call ∈ (world.clients ()).pending.values,
        call.request.deletesItem = false) ∧
      ∀ started ∈ machine.next world (.act () (.onDelete (.first 2))),
        machine.Guarded (DeleteStep () (sparing "2021-11-09 12:00:01")
          (world.clients ()).controller.refImagenesUsuario) started
          deletesSecond ∧
        ∀ after ∈ machine.exec started deletesSecond,
          ∀ call ∈ (after.clients ()).pending.values,
            call.request.deletesItem = false := by
    decide +kernel
  obtain ⟨after, reached⟩ := Option.isSome_iff_exists.mp ends
  obtain ⟨world, listed, rest⟩ := Option.bind_eq_some_iff.mp reached
  obtain ⟨started, begins, run⟩ := Option.bind_eq_some_iff.mp rest
  obtain ⟨distinct, segments, noDeletes, later⟩ := facts world listed
  obtain ⟨alone, finished⟩ := later started begins
  refine ⟨world, started, after, begins, run,
    (deletesRight_iff noDeletes begins alone run (finished after run)).mpr ?_⟩
  apply (spares_iff_of_isSegment distinct segments fun image =>
    FirebaseController.mem_of_mem_rowsAt).mpr
  intro image _ failed succeeded
  simp only [sparing, bne_eq_false_iff_eq] at failed
  rw [failed] at succeeded
  simp [sparing] at succeeded

/-- The first row is swiped away; its document delete is refused. -/
def refusedDocument : List (Event Unit) :=
  [.serve () (7, .refused "denied"), .act () (.callback 7),
    .serve () (8, .granted 0), .act () (.callback 8)]

/-- The closure of the refused document delete deletes the blob all the same:
the document is left without it. -/
theorem failedDelete_loses_blob :
    ∃ world started after : World Unit,
      machine.exec (start (fun _ => none) ∅) listsTwo = some world ∧
      ((world.clients ()).controller.refImagenesUsuario.map (·.date)).Nodup ∧
      (∀ call ∈ (world.clients ()).pending.values,
        call.request.deletesItem = false) ∧
      machine.next world (.act () (.onDelete (.first 1))) = some started ∧
      machine.Guarded (DeleteStep () (sparingDocument "2021-11-09 12:00:01")
        (world.clients ()).controller.refImagenesUsuario) started
        refusedDocument ∧
      machine.exec started refusedDocument = some after ∧
      (∀ call ∈ (after.clients ()).pending.values,
        call.request.deletesItem = false) ∧
      ¬ DeletesRight (world.clients ()).controller.refImagenesUsuario
        ((world.clients ()).controller.rowsAt (.first 1))
        (sparingDocument "2021-11-09 12:00:01") world.server after.server := by
  have ends : ((machine.exec (start (fun _ : Unit => none) ∅) listsTwo).bind
      fun world => (machine.next world
        (.act () (.onDelete (.first 1)))).bind fun started =>
          machine.exec started refusedDocument).isSome = true := by
    decide +kernel
  have facts : ∀ world ∈ machine.exec (start (fun _ : Unit => none) ∅) listsTwo,
      ((world.clients ()).controller.refImagenesUsuario.map (·.date)).Nodup ∧
      (∀ call ∈ (world.clients ()).pending.values,
        call.request.deletesItem = false) ∧
      (world.clients ()).controller.rowsAt (.first 1) =
        [⟨"mar", "2021-11-09 12:00:01", "ana@lps.es", [2]⟩] ∧
      world.server.images.lookup "images/2021-11-09 12:00:01" = some [2] ∧
      ∀ started ∈ machine.next world (.act () (.onDelete (.first 1))),
        machine.Guarded (DeleteStep () (sparingDocument "2021-11-09 12:00:01")
          (world.clients ()).controller.refImagenesUsuario) started
          refusedDocument ∧
        ∀ after ∈ machine.exec started refusedDocument,
          (∀ call ∈ (after.clients ()).pending.values,
            call.request.deletesItem = false) ∧
          after.server.images.lookup "images/2021-11-09 12:00:01" = none := by
    decide +kernel
  obtain ⟨after, reached⟩ := Option.isSome_iff_exists.mp ends
  obtain ⟨world, listed, rest⟩ := Option.bind_eq_some_iff.mp reached
  obtain ⟨started, begins, run⟩ := Option.bind_eq_some_iff.mp rest
  obtain ⟨distinct, noDeletes, selected, blob, later⟩ := facts world listed
  obtain ⟨alone, ended⟩ := later started begins
  obtain ⟨finished, lost⟩ := ended after run
  refine ⟨world, started, after, listed, distinct, noDeletes, begins, alone, run,
    finished, ?_⟩
  intro right
  have kept := (right.failed ⟨"mar", "2021-11-09 12:00:01", "ana@lps.es", [2]⟩
    (by rw [selected]; exact List.mem_singleton_self _) rfl).blob
  have path : imagePath "2021-11-09 12:00:01" = "images/2021-11-09 12:00:01" :=
    by decide
  rw [path, blob, lost] at kept
  cases kept

end World

end AppLPS
