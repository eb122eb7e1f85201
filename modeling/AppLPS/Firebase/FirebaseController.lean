/-
Module: AppLPS.Firebase.FirebaseController
Purpose: The controller object: each of its functions and each completion
  closure as a function of the published variables, returning the requests it
  issues and the tasks it starts.
Trusted boundary: none
Main exports: FirebaseController, Outcome, FirebaseController.getUserData,
  FirebaseController.documentsReceived, FirebaseController.dataReceived,
  FirebaseController.uploadStorage, FirebaseController.uploadData,
  FirebaseController.updateData, FirebaseController.deleteData,
  Request.complete
-/
import AppLPS.Firebase.Backend

namespace AppLPS

/-- The variables of the controller that its functions and the views read. -/
structure FirebaseController where
  refImagenesUsuario : List UserImage := []
  loading : Bool := false
  empty : Bool := true
  session : Option User := none
deriving DecidableEq

/-- A started `Task { await getUserData(correoUsuario: …) }`, by where its
account comes from: the two tasks of `MainView` read the session when they run,
the one of `uploadData` captured the account of the upload. -/
inductive RefreshTask where
  | onAppear
  | onDelete
  | afterUpload (correoUsuario : String)
deriving DecidableEq, Repr

/-- What one main-queue step of the controller leaves behind. -/
structure Outcome where
  controller : FirebaseController
  requests : List Request := []
  tasks : List RefreshTask := []

namespace FirebaseController

variable (controller : FirebaseController)

/-! ## Refreshing the picture list -/

/-- `getUserData`, up to the return of its `getDocuments` call. -/
def getUserData (correoUsuario : String) : Outcome where
  controller := { controller with
    loading := true
    empty := true
    refImagenesUsuario := [] }
  requests := [.getDocuments correoUsuario]

/-- The body of the loop over the documents of the snapshot.  Equality of strings
stands for Swift's, which is equality up to canonical equivalence. -/
def visitDocument (correoUsuario : String) (outcome : Outcome)
    (document : QueryDocumentSnapshot) : Except Trap Outcome := do
  let email ← document.data.forcedString "email"
  if email = correoUsuario then
    return { outcome with
      controller := { outcome.controller with empty := false }
      requests := outcome.requests ++
        [.getData (imagePath (document.data.interpolated "date" "none"))
          document] }
  else
    return outcome

/-- The closure of `getDocuments` on a snapshot. -/
def documentsReceived (correoUsuario : String)
    (snapshot : List QueryDocumentSnapshot) : Except Trap Outcome := do
  let outcome ←
    snapshot.foldlM (visitDocument correoUsuario) { controller := controller }
  return { outcome with
    controller := { outcome.controller with loading := false } }

/-- The closure of `getDocuments` on an error. -/
def documentsFailed : Outcome where
  controller := { controller with loading := false }

/-- The closure of `getData` past its guard; on an error the guard returns. -/
def dataReceived (document : QueryDocumentSnapshot) (imageData : Data) :
    Except Trap Outcome := do
  let name ← document.data.forcedString "name"
  let date ← document.data.forcedString "date"
  let email ← document.data.forcedString "email"
  let userImage : UserImage :=
    { name := name, date := date, email := email, data := imageData }
  return { controller := { controller with
    refImagenesUsuario := controller.refImagenesUsuario ++ [userImage]
    loading := false } }

/-! ## Uploading -/

/-- `uploadData`.  Its image argument is not read. -/
def uploadData (correoUsuario nombre fecha : String) : Outcome where
  controller := { controller with loading := true }
  requests :=
    [.setData fecha (.record correoUsuario nombre fecha) (some correoUsuario)]

/-- The closure of the upload's `setData`: on success it also starts a
refresh. -/
def uploadFinished (correoUsuario : String) : Outcome where
  controller := { controller with loading := false }
  tasks := [.afterUpload correoUsuario]

def uploadFailed : Outcome where
  controller := { controller with loading := false }

/-- `uploadStorage`, with the reading of the clock that it formats. -/
def uploadStorage (image : UIImage) (correoUsuario nombre : String)
    (now : WallClock) : Outcome :=
  let fecha := DateFormatter.string now
  match image.jpegData with
  | some data =>
      { controller := controller
        requests :=
          [.putData (imagePath fecha) data correoUsuario nombre fecha] }
  | none => { controller := controller }

/-! ## Editing and deleting -/

/-- `updateData`.  Its `setData` has no completion. -/
def updateData (image : UserImage) (correoUsuario nuevoNombre : String) :
    Outcome where
  controller := controller
  requests :=
    [.setData image.date (.record correoUsuario nuevoNombre image.date) none]

/-- `self.refImagenesUsuario[index]`. -/
def imageAt (index : Nat) : Except Trap UserImage :=
  match controller.refImagenesUsuario[index]? with
  | some userImage => .ok userImage
  | none => .error (.indexOutOfRange index)

/-- `deleteData`.  Its account argument is not read. -/
def deleteData (indexSet : IndexSet) (_correoUsuario : String) :
    Except Trap Outcome := do
  let selected ← indexSet.indices.mapM controller.imageAt
  return {
    controller := controller
    requests := selected.map .deleteDocument }

/-- `deleteItemStorage`. -/
def deleteItemStorage (item : StorageReference) : Outcome where
  controller := controller
  requests := [.deleteObject item]

/-! ## Signing out -/

/-- The assignment of `signOut` after `Auth.signOut` has returned. -/
def sessionCleared : FirebaseController :=
  { controller with session := none }

/-- `session.session?.email`. -/
def sessionEmail : Option String :=
  controller.session.bind (·.email)

end FirebaseController

/-- Run the completion closure of a request on its response.  The closure of a
document delete calls `deleteItemStorage` before it looks at its error, and the
requests without a closure, or whose closure only prints, do nothing. -/
def Request.complete (controller : FirebaseController) :
    Request → Response → Except Trap Outcome
  | .getDocuments correoUsuario, .documents snapshot =>
      controller.documentsReceived correoUsuario snapshot
  | .getDocuments _, .failure _ => .ok controller.documentsFailed
  | .getData _ document, .data imageData =>
      controller.dataReceived document imageData
  | .putData _ _ correoUsuario nombre fecha, .done =>
      .ok (controller.uploadData correoUsuario nombre fecha)
  | .setData _ _ (some correoUsuario), .done =>
      .ok (controller.uploadFinished correoUsuario)
  | .setData _ _ (some _), .failure _ => .ok controller.uploadFailed
  | .deleteDocument userImage, _ =>
      .ok (controller.deleteItemStorage (imageReference userImage.date))
  | _, _ => .ok { controller := controller }

/-! ## What the closures compute -/

/-- The documents of a snapshot that belong to an account. -/
def ownDocuments (correoUsuario : String)
    (snapshot : List QueryDocumentSnapshot) : List QueryDocumentSnapshot :=
  snapshot.filter fun document =>
    document.data.lookup "email" == some (.string correoUsuario)

/-- The download that a refresh starts for a document. -/
def download (document : QueryDocumentSnapshot) : Request :=
  .getData (imagePath (document.data.interpolated "date" "none")) document

/-- Every document of the snapshot has a string under the key. -/
def AllHaveString (key : String) (snapshot : List QueryDocumentSnapshot) :
    Prop :=
  ∀ document ∈ snapshot, ∃ value,
    document.data.lookup key = some (.string value)

/-- The row shows the three fields of the document. -/
structure Describes (document : QueryDocumentSnapshot) (row : UserImage) :
    Prop where
  name : document.data.lookup "name" = some (.string row.name)
  date : document.data.lookup "date" = some (.string row.date)
  email : document.data.lookup "email" = some (.string row.email)

namespace FirebaseController

theorem visitDocument_eq_ok {correoUsuario : String}
    {outcome after : Outcome} {document : QueryDocumentSnapshot} :
    visitDocument correoUsuario outcome document = .ok after ↔
      ∃ email, document.data.lookup "email" = some (.string email) ∧
        after = if email = correoUsuario then
            { outcome with
              controller := { outcome.controller with empty := false }
              requests := outcome.requests ++ [download document] }
          else outcome := by
  unfold visitDocument
  rw [bind_eq_ok]
  apply exists_congr
  intro email
  rw [Fields.forcedString_eq_ok]
  apply and_congr_right
  intro _
  split <;> simp [pure, Except.pure, download, eq_comm]

/-- What the loop over the documents adds up to. -/
theorem foldlM_visitDocument_eq_ok {correoUsuario : String}
    {snapshot : List QueryDocumentSnapshot} {outcome after : Outcome} :
    snapshot.foldlM (visitDocument correoUsuario) outcome = .ok after ↔
      AllHaveString "email" snapshot ∧
        after = { outcome with
          controller := { outcome.controller with
            empty := outcome.controller.empty &&
              (ownDocuments correoUsuario snapshot).isEmpty }
          requests := outcome.requests ++
            (ownDocuments correoUsuario snapshot).map download } := by
  induction snapshot generalizing outcome with
  | nil => simp [AllHaveString, ownDocuments, pure, Except.pure, eq_comm]
  | cons document snapshot inductionHypothesis =>
      rw [List.foldlM_cons, bind_eq_ok]
      simp only [inductionHypothesis, visitDocument_eq_ok]
      constructor
      · intro computed
        obtain ⟨middle, ⟨email, found, rfl⟩, strings, rfl⟩ := computed
        refine ⟨?_, ?_⟩
        · intro other member
          rcases List.mem_cons.mp member with rfl | later
          · exact ⟨email, found⟩
          · exact strings other later
        · by_cases own : email = correoUsuario
          · simp [ownDocuments, found, own]
          · simp [ownDocuments, found, own]
      · intro described
        obtain ⟨strings, rfl⟩ := described
        obtain ⟨email, found⟩ := strings document List.mem_cons_self
        refine ⟨_, ⟨email, found, rfl⟩,
          fun other member => strings other (List.mem_cons_of_mem _ member), ?_⟩
        by_cases own : email = correoUsuario
        · simp [ownDocuments, found, own]
        · simp [ownDocuments, found, own]

/-- The closure of `getDocuments` returns exactly when every document has a
string `email`; it then starts one download for each document of the account
and clears `empty` if there is one. -/
theorem documentsReceived_eq_ok {controller : FirebaseController}
    {correoUsuario : String} {snapshot : List QueryDocumentSnapshot}
    {after : Outcome} :
    controller.documentsReceived correoUsuario snapshot = .ok after ↔
      AllHaveString "email" snapshot ∧
        after =
          { controller := { controller with
              loading := false
              empty := controller.empty &&
                (ownDocuments correoUsuario snapshot).isEmpty }
            requests :=
              (ownDocuments correoUsuario snapshot).map download } := by
  unfold documentsReceived
  rw [bind_eq_ok]
  simp only [foldlM_visitDocument_eq_ok, pure, Except.pure, Except.ok.injEq]
  constructor
  · intro computed
    obtain ⟨_, ⟨strings, rfl⟩, rfl⟩ := computed
    exact ⟨strings, by simp⟩
  · intro described
    obtain ⟨strings, rfl⟩ := described
    exact ⟨_, ⟨strings, rfl⟩, by simp⟩

/-- The closure of `getData` returns exactly when its document has the three
string fields, and then appends one row. -/
theorem dataReceived_eq_ok {controller : FirebaseController}
    {document : QueryDocumentSnapshot} {imageData : Data} {after : Outcome} :
    controller.dataReceived document imageData = .ok after ↔
      ∃ name date email,
        document.data.lookup "name" = some (.string name) ∧
        document.data.lookup "date" = some (.string date) ∧
        document.data.lookup "email" = some (.string email) ∧
        after = { controller := { controller with
          refImagenesUsuario := controller.refImagenesUsuario ++
            [{ name := name, date := date, email := email, data := imageData }]
          loading := false } } := by
  unfold dataReceived
  simp only [bind_eq_ok, Fields.forcedString_eq_ok, pure, Except.pure,
    Except.ok.injEq]
  constructor
  · intro computed
    obtain ⟨name, named, date, dated, email, owned, rfl⟩ := computed
    exact ⟨name, date, email, named, dated, owned, rfl⟩
  · intro described
    obtain ⟨name, date, email, named, dated, owned, rfl⟩ := described
    exact ⟨name, named, date, dated, email, owned, rfl⟩

/-- `deleteData` returns exactly when every index is in range, and then deletes
the documents of the rows at those indices. -/
theorem deleteData_eq_ok {controller : FirebaseController}
    {indexSet : IndexSet} {correoUsuario : String} {after : Outcome} :
    controller.deleteData indexSet correoUsuario = .ok after ↔
      ∃ selected, indexSet.indices.mapM controller.imageAt = .ok selected ∧
        after = {
          controller := controller
          requests := selected.map .deleteDocument } := by
  unfold deleteData
  rw [bind_eq_ok]
  simp only [pure, Except.pure, Except.ok.injEq, eq_comm]

/-- `uploadStorage` changes no published variable. -/
@[simp] theorem uploadStorage_controller (controller : FirebaseController)
    (image : UIImage) (correoUsuario nombre : String) (now : WallClock) :
    (controller.uploadStorage image correoUsuario nombre now).controller =
      controller := by
  unfold uploadStorage
  split <;> rfl

/-! ### The rows of a gesture -/

/-- The rows of the list at the positions. -/
def rowsAt (controller : FirebaseController) (indexSet : IndexSet) :
    List UserImage :=
  indexSet.indices.filterMap (controller.refImagenesUsuario[·]?)

theorem imageAt_eq_ok {controller : FirebaseController} {index : Nat}
    {image : UserImage} :
    controller.imageAt index = .ok image ↔
      controller.refImagenesUsuario[index]? = some image := by
  unfold imageAt
  split
  · rename_i found
    rw [found]
    simp
  · rename_i missing
    rw [missing]
    simp

/-- The loop over the positions returns exactly when there is a row at each of
them, and it then has read these rows. -/
theorem imagesAt_eq_ok_iff {controller : FirebaseController}
    {indices : List Nat} {selected : List UserImage} :
    indices.mapM controller.imageAt = .ok selected ↔
      (∀ index ∈ indices, index < controller.refImagenesUsuario.length) ∧
        selected =
          indices.filterMap (controller.refImagenesUsuario[·]?) := by
  induction indices generalizing selected with
  | nil => simp [pure, Except.pure, eq_comm]
  | cons index indices inductionHypothesis =>
      rw [List.mapM_cons]
      simp only [bind_eq_ok, imageAt_eq_ok, inductionHypothesis, pure,
        Except.pure, Except.ok.injEq, List.forall_mem_cons]
      constructor
      · intro read
        obtain ⟨first, firstAt, others, ⟨inRange, rfl⟩, rfl⟩ := read
        refine ⟨⟨(List.getElem?_eq_some_iff.mp firstAt).1, inRange⟩, ?_⟩
        rw [List.filterMap_cons, firstAt]
      · intro rows
        obtain ⟨⟨firstInRange, inRange⟩, rfl⟩ := rows
        have firstAt := List.getElem?_eq_getElem firstInRange
        refine ⟨_, firstAt, _, ⟨inRange, rfl⟩, ?_⟩
        rw [List.filterMap_cons, firstAt]

/-- `deleteData` returns exactly when there is a row at every position, and
then deletes the documents of these rows. -/
theorem deleteData_eq_ok_iff {controller : FirebaseController}
    {indexSet : IndexSet} {correoUsuario : String} {after : Outcome} :
    controller.deleteData indexSet correoUsuario = .ok after ↔
      (∀ index ∈ indexSet.indices,
        index < controller.refImagenesUsuario.length) ∧
        after = {
          controller := controller
          requests :=
            (controller.rowsAt indexSet).map .deleteDocument } := by
  simp only [deleteData_eq_ok, imagesAt_eq_ok_iff]
  constructor
  · intro deleted
    obtain ⟨selected, ⟨inRange, rfl⟩, rfl⟩ := deleted
    exact ⟨inRange, rfl⟩
  · intro deleted
    obtain ⟨inRange, rfl⟩ := deleted
    exact ⟨_, ⟨inRange, rfl⟩, rfl⟩

theorem mem_of_mem_rowsAt {controller : FirebaseController}
    {indexSet : IndexSet} {image : UserImage}
    (member : image ∈ controller.rowsAt indexSet) :
    image ∈ controller.refImagenesUsuario := by
  obtain ⟨index, _, found⟩ := List.mem_filterMap.mp member
  exact List.mem_of_getElem? found

end FirebaseController

end AppLPS
