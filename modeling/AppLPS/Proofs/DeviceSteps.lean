/-
Module: AppLPS.Proofs.DeviceSteps
Purpose: Say once what each step of a device can do: what a completion closure
  leaves behind, what a step does to the picture list and the requests in
  flight, and what it does to the session.
Trusted boundary: none
Main exports: Completes, completes_of_complete, Device.Acts,
  Device.acts_of_next, Device.Issues, Device.pendingActs_of_next,
  Device.SessionActs, Device.sessionActs_of_next, Device.session_of_next,
  Device.tasks_of_next
-/
import AppLPS.Device

namespace AppLPS

/-! ## Completion closures -/

/-- What the completion closure of a request does on a response. -/
inductive Completes (controller : FirebaseController) :
    Request → Response → Outcome → Prop where
  | documents {correoUsuario : String}
      {snapshot : List QueryDocumentSnapshot}
      (strings : AllHaveString "email" snapshot) :
      Completes controller (.getDocuments correoUsuario) (.documents snapshot)
        { controller := { controller with
            loading := false
            empty := controller.empty &&
              (ownDocuments correoUsuario snapshot).isEmpty }
          requests := (ownDocuments correoUsuario snapshot).map download }
  | documentsFailed {correoUsuario description : String} :
      Completes controller (.getDocuments correoUsuario) (.failure description)
        { controller := { controller with loading := false } }
  | data {path : String} {document : QueryDocumentSnapshot} {imageData : Data}
      {name date email : String}
      (named : document.data.lookup "name" = some (.string name))
      (dated : document.data.lookup "date" = some (.string date))
      (owned : document.data.lookup "email" = some (.string email)) :
      Completes controller (.getData path document) (.data imageData)
        { controller := { controller with
            refImagenesUsuario := controller.refImagenesUsuario ++
              [{ name := name, date := date, email := email,
                 data := imageData }]
            loading := false } }
  | dataFailed {path description : String}
      {document : QueryDocumentSnapshot} :
      Completes controller (.getData path document) (.failure description)
        { controller := controller }
  | put {path correoUsuario nombre fecha : String} {data : Data} :
      Completes controller (.putData path data correoUsuario nombre fecha)
        .done (controller.uploadData correoUsuario nombre fecha)
  | putFailed {path correoUsuario nombre fecha description : String}
      {data : Data} :
      Completes controller (.putData path data correoUsuario nombre fecha)
        (.failure description) { controller := controller }
  | uploaded {documentID correoUsuario : String} {fields : Fields} :
      Completes controller (.setData documentID fields (some correoUsuario))
        .done (controller.uploadFinished correoUsuario)
  | uploadFailed {documentID correoUsuario description : String}
      {fields : Fields} :
      Completes controller (.setData documentID fields (some correoUsuario))
        (.failure description) controller.uploadFailed
  | edited {documentID : String} {fields : Fields} {response : Response} :
      Completes controller (.setData documentID fields none) response
        { controller := controller }
  | deleted {userImage : UserImage} {response : Response} :
      Completes controller (.deleteDocument userImage) response
        (controller.deleteItemStorage (imageReference userImage.date))
  | itemDeleted {item : StorageReference} {response : Response} :
      Completes controller (.deleteObject item) response
        { controller := controller }

theorem completes_of_complete {controller : FirebaseController}
    {request : Request} {response : Response} {outcome : Outcome}
    (accepts : request.Accepts response = true)
    (completed : request.complete controller response = .ok outcome) :
    Completes controller request response outcome := by
  cases request with
  | getDocuments correoUsuario =>
      cases response with
      | documents snapshot =>
          obtain ⟨strings, rfl⟩ :=
            FirebaseController.documentsReceived_eq_ok.mp completed
          exact .documents strings
      | failure description =>
          cases completed
          exact .documentsFailed
      | data bytes => cases accepts
      | done => cases accepts
  | getData path document =>
      cases response with
      | data imageData =>
          obtain ⟨name, date, email, named, dated, owned, rfl⟩ :=
            FirebaseController.dataReceived_eq_ok.mp completed
          exact .data named dated owned
      | failure description =>
          cases completed
          exact .dataFailed
      | documents snapshot => cases accepts
      | done => cases accepts
  | putData path data correoUsuario nombre fecha =>
      cases response with
      | done =>
          cases completed
          exact .put
      | failure description =>
          cases completed
          exact .putFailed
      | documents snapshot => cases accepts
      | data bytes => cases accepts
  | setData documentID fields completion =>
      cases completion with
      | none =>
          cases completed
          exact .edited
      | some correoUsuario =>
          cases response with
          | done =>
              cases completed
              exact .uploaded
          | failure description =>
              cases completed
              exact .uploadFailed
          | documents snapshot => cases accepts
          | data bytes => cases accepts
  | deleteDocument userImage =>
      cases completed
      exact .deleted
  | deleteObject item =>
      cases completed
      exact .itemDeleted

/-! ## Paths of documents -/

theorem Request.reference_setData {documentPath : String} {fields : Fields}
    {completion : Option String} :
    (Request.setData documentPath fields completion).reference = .ok () ↔
      ∃ name, filesDocument documentPath = .ok name := by
  rw [Request.reference]
  cases filesDocument documentPath with
  | ok name => exact ⟨fun _ => ⟨name, rfl⟩, fun _ => rfl⟩
  | error trap =>
      constructor
      · intro referenced
        cases referenced
      · intro named
        obtain ⟨_, named⟩ := named
        cases named

theorem Request.reference_deleteDocument {userImage : UserImage} :
    (Request.deleteDocument userImage).reference = .ok () ↔
      ∃ name, filesDocument userImage.date = .ok name :=
  @Request.reference_setData userImage.date [] none

theorem Request.reference_setData_error {documentPath : String}
    {fields : Fields} {completion : Option String} {trap : Trap} :
    (Request.setData documentPath fields completion).reference =
        .error trap ↔
      filesDocument documentPath = .error trap := by
  rw [Request.reference]
  cases filesDocument documentPath with
  | ok name => simp [Except.map]
  | error raised => simp [Except.map]

theorem Request.reference_deleteDocument_error {userImage : UserImage}
    {trap : Trap} :
    (Request.deleteDocument userImage).reference = .error trap ↔
      filesDocument userImage.date = .error trap :=
  @Request.reference_setData_error userImage.date [] none trap

/-- No completion closure touches the session. -/
theorem Completes.session {controller : FirebaseController}
    {request : Request} {response : Response} {outcome : Outcome}
    (completes : Completes controller request response outcome) :
    outcome.controller.session = controller.session := by
  cases completes <;> rfl

/-- No closure sets `empty`. -/
theorem Completes.keeps_notEmpty {controller : FirebaseController}
    {request : Request} {response : Response} {outcome : Outcome}
    (completes : Completes controller request response outcome)
    (cleared : controller.empty = false) : outcome.controller.empty = false := by
  cases completes <;> simp [cleared, FirebaseController.uploadData,
    FirebaseController.uploadFinished, FirebaseController.uploadFailed,
    FirebaseController.deleteItemStorage]

/-- The requests whose closures clear `loading` without adding a row. -/
def Request.clearsLoading : Request → Bool
  | .getDocuments _ => true
  | .setData _ _ (some _) => true
  | _ => false

/-- The events that issue, answer or complete requests. -/
def Event.touchesRequests : Event → Bool
  | .runTask _ | .onDelete _ | .saveEdit _ | .save _ _ _
  | .answer _ _ | .callback _ => true
  | _ => false

/-- The events that start no operation on the pictures. -/
def Event.startsNothing : Event → Bool
  | .runTask _ | .onDelete _ | .saveEdit _ | .save _ _ _ => false
  | _ => true

/-- The events of signing in and out. -/
def Event.touchesSession : Event → Bool
  | .pressLogIn _ _ | .pressSignUp _ _ | .authResult _ _ | .mainStep
  | .appear | .pressLogOut _ => true
  | _ => false

namespace Device

/-! ## The projections of `perform` -/

@[simp] theorem perform_controller (device : Device) (outcome : Outcome) :
    (device.perform outcome).controller = outcome.controller := rfl

@[simp] theorem perform_pending (device : Device) (outcome : Outcome) :
    (device.perform outcome).pending =
      device.pending.submitAll (outcome.requests.map Call.fresh) := rfl

@[simp] theorem perform_main (device : Device) (outcome : Outcome) :
    (device.perform outcome).main = device.main := rfl

/-! ## Steps on the picture list and the requests -/

/-- The three published variables are the same. -/
structure SameGallery (before after : FirebaseController) : Prop where
  rows : after.refImagenesUsuario = before.refImagenesUsuario
  loading : after.loading = before.loading
  empty : after.empty = before.empty

/-- The images a device holds: its list, the rows it shows, and the image of
its open edit screen. -/
def held (device : Device) : List UserImage :=
  device.controller.refImagenesUsuario ++ device.main.rendered ++
    device.main.editing.toList

/-- What a step does to the published variables, the requests in flight and
the images held.  The quiet steps are those of sign-in, sign-out and
rendering. -/
inductive Acts (device : Device) : Event → Device → Prop where
  | quiet {event : Event} {after : Device}
      (gallery : SameGallery device.controller after.controller)
      (pending : after.pending = device.pending)
      (holds : ∀ image ∈ after.held, image ∈ device.held)
      (isQuiet : event.touchesRequests = false) :
      Acts device event after
  | runTask {ticket : Nat} {task : RefreshTask} {correoUsuario : String}
      (found : device.tasks.find? ticket = some task)
      (account : task.account device.controller = .ok correoUsuario) :
      Acts device (.runTask ticket)
        ({ device with tasks := device.tasks.remove ticket }.perform
          (device.controller.getUserData correoUsuario))
  | onDelete {indexSet : IndexSet} {selected : List UserImage}
      {after : Device} (signedIn : device.main.signInDone = true)
      (imagesAt :
        indexSet.indices.mapM device.controller.imageAt = .ok selected)
      (afterEq : after =
        { device.perform { controller := device.controller,
                           requests := selected.map .deleteDocument } with
          tasks := device.tasks.submit .onDelete })
      (named : ∀ image ∈ selected,
        ∃ name, filesDocument image.date = .ok name) :
      Acts device (.onDelete indexSet) after
  | saveEdit {image : UserImage} {nombreImagen : String}
      (editing : device.main.editing = some image)
      (named : ∃ name, filesDocument image.date = .ok name) :
      Acts device (.saveEdit nombreImagen)
        (device.perform
          (device.controller.updateData image image.email nombreImagen))
  | save {imageGeneral : UIImage} {nombreImagen : String} {now : WallClock}
      (signedIn : device.main.signInDone = true) :
      Acts device (.save imageGeneral nombreImagen now)
        (device.perform (device.controller.uploadStorage imageGeneral
          (sessionEmailOrNone device.controller) nombreImagen now))
  | answer {ticket : Nat} {response : Response} {call : Call}
      (found : device.pending.find? ticket = some call)
      (unanswered : call.answer = none)
      (accepts : call.request.Accepts response = true) :
      Acts device (.answer ticket response)
        { device with
          pending := device.pending.update ticket fun call =>
            call.respond response }
  | callback {ticket : Nat} {call : Call} {response : Response}
      {outcome : Outcome}
      (found : device.pending.find? ticket = some call)
      (answered : call.answer = some response)
      (completes : Completes device.controller call.request response outcome) :
      Acts device (.callback ticket)
        ({ device with pending := device.pending.remove ticket }.perform
          outcome)

theorem sameGallery_refl (controller : FirebaseController) :
    SameGallery controller controller := ⟨rfl, rfl, rfl⟩

theorem SameGallery.body_eq {before after : FirebaseController}
    (same : SameGallery before after) :
    picturesBody after = picturesBody before := by
  rw [picturesBody, picturesBody, same.loading, same.empty, same.rows]

private theorem notify_gallery (auth : Auth) (controller : FirebaseController) :
    SameGallery controller (auth.notify controller).2 := by
  rw [auth.notify_controller]
  split
  · exact ⟨rfl, rfl, rfl⟩
  · exact sameGallery_refl controller

private theorem firstCall_gallery (auth : Auth)
    (controller : FirebaseController) (index : Nat) :
    SameGallery controller (auth.firstCall controller index).2 := by
  unfold Auth.firstCall
  split
  · rename_i listener _
    simp only [Listener.invoke]
    split
    · exact ⟨rfl, rfl, rfl⟩
    · exact sameGallery_refl controller
  · exact sameGallery_refl controller

/-! ### Sign-in and the views -/

/-- The arrival of a result changes no view. -/
@[simp] theorem authResult_main (device : Device) (ticket : Nat)
    (attempt : Attempt) (result : AuthResult) :
    (device.authResult ticket attempt result).main = device.main := by
  cases result <;> rfl

/-- A block of the main queue changes no view, except that the completion of a
successful login sets the flag. -/
theorem runMainStep_main_cases (device : Device) (first : MainStep) :
    (device.runMainStep first).main = device.main ∨
      ∃ user, first = .loginDone (.ok user) ∧
        (device.runMainStep first).main =
          { device.main with signInDone := true } := by
  cases first with
  | stateDidChange => exact .inl rfl
  | firstCall listener => exact .inl rfl
  | loginDone result =>
      cases result with
      | error description => exact .inl rfl
      | ok user => exact .inr ⟨user, rfl, rfl⟩
  | signUpDone result => exact .inl rfl

/-- No block of the main queue touches the pictures. -/
private theorem runMainStep_gallery (device : Device) (first : MainStep) :
    SameGallery device.controller (device.runMainStep first).controller ∧
      (device.runMainStep first).pending = device.pending := by
  cases first with
  | stateDidChange => exact ⟨notify_gallery _ _, rfl⟩
  | firstCall listener => exact ⟨firstCall_gallery _ _ _, rfl⟩
  | loginDone result => exact ⟨sameGallery_refl _, rfl⟩
  | signUpDone result => exact ⟨sameGallery_refl _, rfl⟩

/-- A step that only moves the session, the queues or the flag is quiet. -/
private theorem acts_of_same {device after : Device} {event : Event}
    (gallery : SameGallery device.controller after.controller)
    (pending : after.pending = device.pending)
    (rendered : ∀ image ∈ after.main.rendered, image ∈ device.held)
    (editing : ∀ image ∈ after.main.editing, image ∈ device.held)
    (isQuiet : event.touchesRequests = false) :
    Acts device event after := by
  refine .quiet gallery pending ?_ isQuiet
  intro image member
  simp only [held, List.mem_append, gallery.rows, Option.mem_toList] at member
  rcases member with (row | shown) | edited
  · simp [held, row]
  · exact rendered image shown
  · exact editing image edited

theorem mem_held_of_rendered {device : Device} {image : UserImage}
    (member : image ∈ device.main.rendered) : image ∈ device.held := by
  simp [held, member]

theorem mem_held_of_editing {device : Device} {image : UserImage}
    (edited : device.main.editing = some image) : image ∈ device.held := by
  simp [held, edited]

theorem mem_held_of_row {device : Device} {image : UserImage}
    (member : image ∈ device.controller.refImagenesUsuario) :
    image ∈ device.held := by
  simp [held, member]

private theorem body_rows_subset (device : Device) :
    ∀ image ∈ (device.main.body device.controller).rows,
      image ∈ device.controller.refImagenesUsuario := by
  intro image member
  unfold MainView.body picturesBody at member
  split at member
  · split at member
    · simp [Screen.rows] at member
    · split at member
      · simp [Screen.rows] at member
      · exact member
  · simp [Screen.rows] at member

/-- What is issued raises nothing. -/
theorem issue_eq_ok {device after : Device} {outcome : Outcome} :
    device.issue outcome = .ok after ↔
      (∀ request ∈ outcome.requests, request.reference = .ok ()) ∧
        after = device.perform outcome := by
  refine bind_eq_ok.trans ?_
  rw [← forM_eq_ok]
  constructor
  · rintro ⟨_, referenced, performed⟩
    exact ⟨referenced, (Except.ok.inj performed).symm⟩
  · rintro ⟨referenced, rfl⟩
    exact ⟨(), referenced, rfl⟩

/-- What raises does so for one of the requests. -/
theorem issue_eq_error {device : Device} {outcome : Outcome} {trap : Trap}
    (raised : device.issue outcome = .error trap) :
    ∃ request ∈ outcome.requests, request.reference = .error trap := by
  rcases bind_eq_error.mp raised with here | ⟨_, _, never⟩
  · exact exists_of_forM_eq_error here
  · cases never

/-- The inversion of one step on the picture list and the requests. -/
theorem acts_of_next {device after : Device} {event : Event}
    (taken : machine.next device event = some after) :
    Acts device event after := by
  have stepped : device.step event = some (.ok after) :=
    Machine.next_eq_some.mp taken
  have shown : ∀ image ∈ device.main.rendered, image ∈ device.held :=
    fun image => mem_held_of_rendered
  have edited : ∀ image ∈ device.main.editing, image ∈ device.held :=
    fun image => mem_held_of_editing
  cases event with
  | pressLogIn email password =>
      simp only [step, Option.ite_none_left_eq_some, Option.some.injEq,
        Except.ok.injEq] at stepped
      obtain ⟨_, rfl⟩ := stepped
      exact acts_of_same (sameGallery_refl _) rfl shown edited rfl
  | pressSignUp email password =>
      simp only [step, Option.ite_none_left_eq_some, Option.some.injEq,
        Except.ok.injEq] at stepped
      obtain ⟨_, rfl⟩ := stepped
      exact acts_of_same (sameGallery_refl _) rfl shown edited rfl
  | authResult ticket result =>
      obtain ⟨attempt, _, settled⟩ := Option.bind_eq_some_iff.mp stepped
      cases settled
      cases result with
      | error description =>
          exact acts_of_same (sameGallery_refl _) rfl shown edited rfl
      | ok user =>
          exact acts_of_same (sameGallery_refl _) rfl shown edited rfl
  | mainStep =>
      simp only [step] at stepped
      split at stepped
      · cases stepped
      · rename_i first rest queueEq
        cases stepped
        obtain ⟨gallery, pending⟩ :=
          runMainStep_gallery { device with mainQueue := rest } first
        rcases runMainStep_main_cases { device with mainQueue := rest } first
          with main | ⟨_, _, main⟩
        · exact acts_of_same gallery pending (by rw [main]; exact shown)
            (by rw [main]; exact edited) rfl
        · exact acts_of_same gallery pending (by rw [main]; exact shown)
            (by rw [main]; exact edited) rfl
  | appear =>
      simp only [step, Option.ite_none_right_eq_some, Option.some.injEq,
        Except.ok.injEq] at stepped
      obtain ⟨_, rfl⟩ := stepped
      exact acts_of_same (sameGallery_refl _) rfl shown edited rfl
  | runTask ticket =>
      obtain ⟨task, found, run⟩ := Option.bind_eq_some_iff.mp stepped
      obtain ⟨correoUsuario, account, performed⟩ :=
        bind_eq_ok.mp (Option.some.inj run)
      cases performed
      exact .runTask found account
  | pressLogOut keychainFails =>
      simp only [step, Option.ite_none_right_eq_some, Option.some.injEq,
        Except.ok.injEq] at stepped
      obtain ⟨_, rfl⟩ := stepped
      unfold pressLogOut
      split
      · exact acts_of_same (sameGallery_refl _) rfl (by simp) (by simp)
          rfl
      · exact acts_of_same ⟨rfl, rfl, rfl⟩ rfl
          (by simp [enqueue]) (by simp [enqueue]) rfl
  | render =>
      cases stepped
      exact acts_of_same (sameGallery_refl _) rfl
        (fun image member =>
          mem_held_of_row (body_rows_subset device image member)) edited rfl
  | onDelete indexSet =>
      simp only [step, Option.ite_none_right_eq_some,
        Option.some.injEq] at stepped
      obtain ⟨⟨signedIn, _⟩, deletes⟩ := stepped
      obtain ⟨outcome, deleted, rest⟩ := bind_eq_ok.mp deletes
      obtain ⟨issued, issues, performed⟩ := bind_eq_ok.mp rest
      obtain ⟨selected, imagesAt, rfl⟩ :=
        FirebaseController.deleteData_eq_ok.mp deleted
      obtain ⟨referenced, rfl⟩ := issue_eq_ok.mp issues
      cases performed
      refine .onDelete signedIn imagesAt rfl fun image member => ?_
      exact Request.reference_deleteDocument.mp
        (referenced _ (List.mem_map_of_mem member))
  | openEdit row =>
      obtain ⟨image, rowEq, opened⟩ := Option.bind_eq_some_iff.mp stepped
      simp only [Option.ite_none_right_eq_some, Option.some.injEq,
        Except.ok.injEq] at opened
      obtain ⟨_, rfl⟩ := opened
      refine acts_of_same (sameGallery_refl _) rfl shown ?_ rfl
      intro other isOther
      cases isOther
      exact shown image (List.mem_of_getElem? rowEq)
  | saveEdit nombreImagen =>
      obtain ⟨image, editing, saved⟩ := Option.bind_eq_some_iff.mp stepped
      obtain ⟨referenced, rfl⟩ := issue_eq_ok.mp (Option.some.inj saved)
      exact .saveEdit editing (Request.reference_setData.mp
        (referenced _ List.mem_cons_self))
  | closeEdit =>
      cases stepped
      exact acts_of_same (sameGallery_refl _) rfl shown (by simp) rfl
  | save imageGeneral nombreImagen now =>
      simp only [step, Option.ite_none_right_eq_some, Option.some.injEq,
        Except.ok.injEq] at stepped
      obtain ⟨⟨signedIn, _⟩, rfl⟩ := stepped
      exact .save signedIn
  | answer ticket response =>
      obtain ⟨call, found, answered⟩ := Option.bind_eq_some_iff.mp stepped
      simp only [Option.ite_none_right_eq_some, Option.some.injEq,
        Except.ok.injEq, Option.isNone_iff_eq_none] at answered
      obtain ⟨⟨unanswered, accepts⟩, rfl⟩ := answered
      exact .answer found unanswered accepts
  | callback ticket =>
      obtain ⟨call, found, rest⟩ := Option.bind_eq_some_iff.mp stepped
      obtain ⟨response, answered, run⟩ := Option.bind_eq_some_iff.mp rest
      obtain ⟨outcome, completed, performed⟩ :=
        bind_eq_ok.mp (Option.some.inj run)
      cases performed
      exact .callback found answered
        (completes_of_complete (call.accepted response answered) completed)

/-- A step that starts nothing completes a request, records an answer, or is
quiet. -/
theorem quiet_of_startsNothing {device after : Device} {event : Event}
    (nothing : event.startsNothing = true)
    (taken : machine.next device event = some after) :
    (SameGallery device.controller after.controller ∧
        after.pending = device.pending) ∨
      (∃ ticket, event = .callback ticket) ∨
      ∃ ticket response, event = .answer ticket response := by
  cases acts_of_next taken with
  | quiet gallery pending _ _ => exact .inl ⟨gallery, pending⟩
  | runTask => cases nothing
  | onDelete => cases nothing
  | saveEdit => cases nothing
  | save => cases nothing
  | answer => exact .inr (.inr ⟨_, _, rfl⟩)
  | callback => exact .inr (.inl ⟨_, rfl⟩)

/-! ## Requests issued -/

/-- The account that the refresh task under a ticket reads. -/
def accountOf (device : Device) (ticket : Nat) : Option String :=
  (device.tasks.find? ticket).bind fun task =>
    (task.account device.controller).toOption

/-- The answer that the call under a ticket has received. -/
def answerTo (device : Device) (ticket : Nat) : Option Response :=
  (device.pending.find? ticket).bind (·.answer)

theorem accountOf_eq {device : Device} {ticket : Nat} {task : RefreshTask}
    {correoUsuario : String} (found : device.tasks.find? ticket = some task)
    (account : task.account device.controller = .ok correoUsuario) :
    device.accountOf ticket = some correoUsuario := by
  rw [accountOf, found, Option.bind_some, account]
  rfl

theorem answerTo_eq {device : Device} {ticket : Nat} {call : Call}
    {response : Response} (found : device.pending.find? ticket = some call)
    (answered : call.answer = some response) :
    device.answerTo ticket = some response := by
  rw [answerTo, found, Option.bind_some, answered]

/-- The requests that a step can issue, and what they come from. -/
inductive Issues (device : Device) : Event → Request → Prop where
  | query {ticket : Nat} {correoUsuario : String}
      (reads : device.accountOf ticket = some correoUsuario) :
      Issues device (.runTask ticket) (.getDocuments correoUsuario)
  | delete {indexSet : IndexSet} {userImage : UserImage}
      (isRow : userImage ∈ device.controller.refImagenesUsuario) :
      Issues device (.onDelete indexSet) (.deleteDocument userImage)
  | edit {image : UserImage} {nombreImagen : String}
      (editing : device.main.editing = some image) :
      Issues device (.saveEdit nombreImagen)
        (.setData image.date (.record image.email nombreImagen image.date) none)
  | upload {imageGeneral : UIImage} {nombreImagen : String} {now : WallClock}
      {data : Data} (encoded : imageGeneral.jpegData = some data) :
      Issues device (.save imageGeneral nombreImagen now)
        (.putData (imagePath (DateFormatter.string now)) data
          (sessionEmailOrNone device.controller) nombreImagen
          (DateFormatter.string now))
  | download {ticket : Nat} {call : Call} {correoUsuario : String}
      {snapshot : List QueryDocumentSnapshot}
      {document : QueryDocumentSnapshot}
      (found : device.pending.find? ticket = some call)
      (isQuery : call.request = .getDocuments correoUsuario)
      (answered : call.answer = some (.documents snapshot))
      (own : document ∈ ownDocuments correoUsuario snapshot) :
      Issues device (.callback ticket) (download document)
  | store {ticket : Nat} {call : Call} {path correoUsuario nombre fecha : String}
      {data : Data} (found : device.pending.find? ticket = some call)
      (isPut : call.request = .putData path data correoUsuario nombre fecha)
      (answered : call.answer = some .done) :
      Issues device (.callback ticket)
        (.setData fecha (.record correoUsuario nombre fecha)
          (some correoUsuario))
  | deleteItem {ticket : Nat} {call : Call} {userImage : UserImage}
      {response : Response} (found : device.pending.find? ticket = some call)
      (isDelete : call.request = .deleteDocument userImage)
      (answered : call.answer = some response) :
      Issues device (.callback ticket)
        (.deleteObject (imageReference userImage.date))

/-- What a step does to the requests in flight. -/
inductive PendingActs (device : Device) : Event → Pool Call → Prop where
  | issue {event : Event} {requests : List Request}
      (issues : ∀ request ∈ requests, Issues device event request) :
      PendingActs device event
        (device.pending.submitAll (requests.map Call.fresh))
  | answer {ticket : Nat} {response : Response} {call : Call}
      (found : device.pending.find? ticket = some call)
      (unanswered : call.answer = none)
      (accepts : call.request.Accepts response = true) :
      PendingActs device (.answer ticket response)
        (device.pending.update ticket fun call => call.respond response)
  | callback {ticket : Nat} {call : Call} {response : Response}
      {requests : List Request}
      (found : device.pending.find? ticket = some call)
      (answered : call.answer = some response)
      (issues : ∀ request ∈ requests,
        Issues device (.callback ticket) request) :
      PendingActs device (.callback ticket)
        ((device.pending.remove ticket).submitAll (requests.map Call.fresh))

/-- `deleteData` selects rows. -/
theorem mem_of_imagesAt {controller : FirebaseController}
    {indexSet : IndexSet} {selected : List UserImage}
    (imagesAt : indexSet.indices.mapM controller.imageAt = .ok selected)
    {image : UserImage} (member : image ∈ selected) :
    image ∈ controller.refImagenesUsuario := by
  rw [(FirebaseController.imagesAt_eq_ok_iff.mp imagesAt).2] at member
  exact FirebaseController.mem_of_mem_rowsAt member

/-- The requests that a completion closure issues. -/
theorem issues_of_completes {device : Device} {ticket : Nat} {call : Call}
    {response : Response} {outcome : Outcome}
    (found : device.pending.find? ticket = some call)
    (answered : call.answer = some response)
    (completes :
      Completes device.controller call.request response outcome) :
    ∀ request ∈ outcome.requests, Issues device (.callback ticket) request := by
  generalize requestEq : call.request = completed at completes
  cases completes with
  | documents strings =>
      intro request member
      obtain ⟨document, own, rfl⟩ := List.mem_map.mp member
      exact .download found requestEq answered own
  | put =>
      intro request member
      cases List.mem_singleton.mp member
      exact .store found requestEq answered
  | deleted =>
      intro request member
      cases List.mem_singleton.mp member
      exact .deleteItem found requestEq answered
  | documentsFailed => nofun
  | data => nofun
  | dataFailed => nofun
  | putFailed => nofun
  | uploaded => nofun
  | uploadFailed => nofun
  | edited => nofun
  | itemDeleted => nofun

/-- The inversion of one step on the requests in flight. -/
theorem pendingActs_of_next {device after : Device} {event : Event}
    (taken : machine.next device event = some after) :
    PendingActs device event after.pending := by
  cases acts_of_next taken with
  | quiet _ pending _ _ =>
      have issuesNothing : PendingActs device event
          (device.pending.submitAll (([] : List Request).map Call.fresh)) :=
        .issue nofun
      rw [pending]
      exact issuesNothing
  | runTask found account =>
      refine .issue ?_
      intro request member
      cases List.mem_singleton.mp member
      exact .query (accountOf_eq found account)
  | onDelete _ imagesAt afterEq =>
      subst afterEq
      refine .issue ?_
      intro request member
      obtain ⟨image, isSelected, rfl⟩ := List.mem_map.mp member
      exact .delete (mem_of_imagesAt imagesAt isSelected)
  | saveEdit editing =>
      refine .issue ?_
      intro request member
      cases List.mem_singleton.mp member
      exact .edit editing
  | save =>
      refine .issue ?_
      intro request member
      unfold FirebaseController.uploadStorage at member
      split at member
      · rename_i encoded
        cases List.mem_singleton.mp member
        exact .upload encoded
      · cases member
  | answer found unanswered accepts => exact .answer found unanswered accepts
  | callback found answered completes =>
      exact .callback found answered
        (issues_of_completes found answered completes)

/-- A predicate on calls holds after a step if it holds of the calls that the
step issues and of the answer that it records. -/
theorem all_of_next {holds : Call → Prop} {device after : Device}
    {event : Event} (all : device.pending.All holds)
    (issued : ∀ request, Issues device event request →
      holds (Call.fresh request))
    (answered : ∀ ticket response call, event = .answer ticket response →
      device.pending.find? ticket = some call →
      call.request.Accepts response = true → holds call →
      holds (call.respond response))
    (taken : machine.next device event = some after) :
    after.pending.All holds := by
  have fresh : ∀ requests : List Request,
      (∀ request ∈ requests, Issues device event request) →
      ∀ call ∈ requests.map Call.fresh, holds call := by
    intro requests issues call member
    obtain ⟨request, isIssued, rfl⟩ := List.mem_map.mp member
    exact issued request (issues request isIssued)
  generalize pendingEq : after.pending = pending
  have acts := pendingActs_of_next taken
  rw [pendingEq] at acts
  cases acts with
  | issue issues => exact all.submitAll (fresh _ issues)
  | answer found unanswered accepts =>
      exact all.update found
        (answered _ _ _ rfl found accepts (all.of_find? found))
  | callback found _ issues =>
      exact (all.remove _).submitAll (fresh _ issues)

/-- An image that a device holds after a step was held before, or is the row of
a download that the step completes. -/
theorem held_of_next {device after : Device} {event : Event}
    (taken : machine.next device event = some after) {image : UserImage}
    (member : image ∈ after.held) :
    image ∈ device.held ∨
      ∃ ticket call path document, event = .callback ticket ∧
        device.pending.find? ticket = some call ∧
        call.request = .getData path document ∧
        call.answer = some (.data image.data) ∧ Describes document image := by
  cases acts_of_next taken with
  | quiet _ _ holds _ => exact .inl (holds image member)
  | runTask =>
      left
      simp only [held, perform_controller, perform_main,
        FirebaseController.getUserData, List.nil_append] at member
      simp only [held, List.append_assoc, List.mem_append]
      exact .inr (List.mem_append.mp member)
  | onDelete _ _ afterEq =>
      subst afterEq
      exact .inl member
  | saveEdit => exact .inl member
  | save =>
      left
      simp only [held, perform_controller, perform_main,
        FirebaseController.uploadStorage_controller] at member
      exact member
  | answer => exact .inl member
  | callback found answered completes =>
      rename_i ticket call response outcome
      generalize requestEq : call.request = request at completes
      cases completes with
      | data named dated owned =>
          rename_i path document imageData name date email
          simp only [held, perform_controller, perform_main, List.mem_append,
            List.mem_singleton] at member
          rcases member with ((row | new) | shown) | edited
          · exact .inl (by simp [held, row])
          · subst new
            exact .inr ⟨ticket, call, path, document, rfl, found, requestEq,
              answered, named, dated, owned⟩
          · exact .inl (by simp [held, shown])
          · exact .inl (by simp only [held, List.mem_append]; exact .inr edited)
      | _ => exact .inl member

/-- A call stays in flight until its own closure runs, which leaves its requests
in its place. -/
theorem stays_of_next {device after : Device} {event : Event} {call : Call}
    (own : event.isAnswer = false)
    (taken : machine.next device event = some after)
    (member : call ∈ device.pending.values) :
    call ∈ after.pending.values ∨
      ∃ response outcome, call.answer = some response ∧
        Completes device.controller call.request response outcome ∧
        ∀ request ∈ outcome.requests,
          Call.fresh request ∈ after.pending.values := by
  cases acts_of_next taken with
  | quiet _ pending _ _ =>
      rw [pending]
      exact .inl member
  | runTask => exact .inl (by simp [member])
  | onDelete _ _ afterEq =>
      subst afterEq
      exact .inl (by simp [member])
  | saveEdit => exact .inl (by simp [member])
  | save => exact .inl (by simp [member])
  | answer => cases own
  | callback found answered completes =>
      rename_i ticket completed response outcome
      rw [perform_pending, Pool.values_submitAll]
      rcases Pool.mem_values_remove found member with kept | same
      · exact .inl (List.mem_append_left _ kept)
      · subst same
        refine .inr ⟨response, outcome, answered, completes, ?_⟩
        intro request isIssued
        exact List.mem_append_right _ (List.mem_map_of_mem isIssued)

/-- A closure that does not trap runs. -/
theorem next_callback {device : Device} {ticket : Nat} {call : Call}
    {response : Response} {outcome : Outcome}
    (found : device.pending.find? ticket = some call)
    (answered : call.answer = some response)
    (completed : call.request.complete device.controller response =
      .ok outcome) :
    machine.next device (.callback ticket) =
      some ({ device with pending := device.pending.remove ticket }.perform
        outcome) := by
  apply Machine.next_eq_some.mpr
  simp only [machine, step, found, Option.bind_eq_bind, Option.bind_some,
    answered, callback, completed]
  rfl

/-! ## Steps on the session -/

/-- What a step does to Auth, the main queue, the pending attempts, the flag
and the session. -/
inductive SessionActs (device : Device) : Event → Device → Prop where
  | other {event : Event} {after : Device}
      (auth : after.auth = device.auth)
      (mainQueue : after.mainQueue = device.mainQueue)
      (attempts : after.attempts = device.attempts)
      (signInDone : after.main.signInDone = device.main.signInDone)
      (session : after.controller.session = device.controller.session)
      (isOther : event.touchesSession = false) :
      SessionActs device event after
  | pressLogIn {email password : String}
      (signedOut : device.main.signInDone = false) :
      SessionActs device (.pressLogIn email password)
        (device.pressLogIn email password)
  | pressSignUp {email password : String}
      (signedOut : device.main.signInDone = false) :
      SessionActs device (.pressSignUp email password)
        (device.pressSignUp email password)
  | authResult {ticket : Nat} {attempt : Attempt} {result : AuthResult}
      (found : device.attempts.find? ticket = some attempt) :
      SessionActs device (.authResult ticket result)
        (device.authResult ticket attempt result)
  | mainStep {first : MainStep} {rest : List MainStep}
      (queueEq : device.mainQueue = first :: rest) :
      SessionActs device .mainStep
        ({ device with mainQueue := rest }.runMainStep first)
  | appear (signedIn : device.main.signInDone = true) :
      SessionActs device .appear device.appear
  | pressLogOut {keychainFails : Bool}
      (signedIn : device.main.signInDone = true) :
      SessionActs device (.pressLogOut keychainFails)
        (device.pressLogOut keychainFails)

/-- The inversion of one step on the session. -/
theorem sessionActs_of_next {device after : Device} {event : Event}
    (taken : machine.next device event = some after) :
    SessionActs device event after := by
  have stepped : device.step event = some (.ok after) :=
    Machine.next_eq_some.mp taken
  cases event with
  | pressLogIn email password =>
      simp only [step, Option.ite_none_left_eq_some, Option.some.injEq,
        Except.ok.injEq] at stepped
      obtain ⟨signedOut, rfl⟩ := stepped
      exact .pressLogIn (by simpa using signedOut)
  | pressSignUp email password =>
      simp only [step, Option.ite_none_left_eq_some, Option.some.injEq,
        Except.ok.injEq] at stepped
      obtain ⟨signedOut, rfl⟩ := stepped
      exact .pressSignUp (by simpa using signedOut)
  | authResult ticket result =>
      obtain ⟨attempt, found, settled⟩ := Option.bind_eq_some_iff.mp stepped
      cases settled
      exact .authResult found
  | mainStep =>
      simp only [step] at stepped
      split at stepped
      · cases stepped
      · rename_i first rest queueEq
        cases stepped
        exact .mainStep queueEq
  | appear =>
      simp only [step, Option.ite_none_right_eq_some, Option.some.injEq,
        Except.ok.injEq] at stepped
      obtain ⟨signedIn, rfl⟩ := stepped
      exact .appear signedIn
  | pressLogOut keychainFails =>
      simp only [step, Option.ite_none_right_eq_some, Option.some.injEq,
        Except.ok.injEq] at stepped
      obtain ⟨signedIn, rfl⟩ := stepped
      exact .pressLogOut signedIn
  | render =>
      cases stepped
      exact .other rfl rfl rfl rfl rfl rfl
  | openEdit row =>
      obtain ⟨image, _, opened⟩ := Option.bind_eq_some_iff.mp stepped
      simp only [Option.ite_none_right_eq_some, Option.some.injEq,
        Except.ok.injEq] at opened
      obtain ⟨_, rfl⟩ := opened
      exact .other rfl rfl rfl rfl rfl rfl
  | closeEdit =>
      cases stepped
      exact .other rfl rfl rfl rfl rfl rfl
  | runTask ticket =>
      cases acts_of_next taken with
      | runTask => exact .other rfl rfl rfl rfl rfl rfl
      | quiet _ _ _ isQuiet => cases isQuiet
  | onDelete indexSet =>
      cases acts_of_next taken with
      | onDelete _ _ afterEq =>
          subst afterEq
          exact .other rfl rfl rfl rfl rfl rfl
      | quiet _ _ _ isQuiet => cases isQuiet
  | saveEdit nombreImagen =>
      cases acts_of_next taken with
      | saveEdit => exact .other rfl rfl rfl rfl rfl rfl
      | quiet _ _ _ isQuiet => cases isQuiet
  | save imageGeneral nombreImagen now =>
      cases acts_of_next taken with
      | save =>
          refine .other rfl rfl rfl rfl ?_ rfl
          rw [perform_controller, FirebaseController.uploadStorage_controller]
      | quiet _ _ _ isQuiet => cases isQuiet
  | answer ticket response =>
      cases acts_of_next taken with
      | answer => exact .other rfl rfl rfl rfl rfl rfl
      | quiet _ _ _ isQuiet => cases isQuiet
  | callback ticket =>
      cases acts_of_next taken with
      | callback _ _ completes =>
          exact .other rfl rfl rfl rfl completes.session rfl
      | quiet _ _ _ isQuiet => cases isQuiet

/-- A step changes the current user only when an attempt succeeds or when it
signs out. -/
theorem currentUser_of_next {device after : Device} {event : Event}
    (taken : machine.next device event = some after) :
    after.auth.currentUser = device.auth.currentUser ∨
      (∃ ticket user, event = .authResult ticket (.ok user) ∧
        after.auth.currentUser = some user) ∨
      (after.auth.currentUser = none ∧ after.main.signInDone = false) := by
  cases sessionActs_of_next taken with
  | other auth => exact .inl (by rw [auth])
  | pressLogIn => exact .inl rfl
  | pressSignUp => exact .inl rfl
  | authResult found =>
      rename_i ticket attempt result
      cases result with
      | error description => exact .inl rfl
      | ok user => exact .inr (.inl ⟨ticket, user, rfl, rfl⟩)
  | mainStep queueEq =>
      rename_i first rest
      cases first with
      | stateDidChange => exact .inl rfl
      | firstCall listener =>
          exact .inl (Auth.firstCall_currentUser _ _ _)
      | loginDone result => exact .inl rfl
      | signUpDone result => exact .inl rfl
  | appear => exact .inl rfl
  | pressLogOut signedIn =>
      rename_i keychainFails
      unfold pressLogOut
      rcases device.auth.signOut_cases keychainFails with
        ⟨_, signOutEq⟩ | ⟨_, _, signOutEq⟩ | ⟨_, _, signOutEq⟩
      · rw [signOutEq]
        exact .inl rfl
      · rw [signOutEq]
        exact .inl rfl
      · rw [signOutEq]
        exact .inr (.inr ⟨rfl, rfl⟩)

/-- Only the completion of `login` sets the flag. -/
theorem signInDone_of_next {device after : Device} {event : Event}
    (taken : machine.next device event = some after)
    (signedIn : after.main.signInDone = true) :
    device.main.signInDone = true ∨
      (event = .mainStep ∧ ∃ user rest,
        device.mainQueue = .loginDone (.ok user) :: rest) := by
  cases sessionActs_of_next taken with
  | other _ _ _ same =>
      rw [same] at signedIn
      exact .inl signedIn
  | pressLogIn => exact .inl signedIn
  | pressSignUp => exact .inl signedIn
  | authResult found =>
      rw [authResult_main] at signedIn
      exact .inl signedIn
  | mainStep queueEq =>
      rename_i first rest
      rcases runMainStep_main_cases { device with mainQueue := rest } first
        with main | ⟨user, rfl, _⟩
      · rw [main] at signedIn
        exact .inl signedIn
      · exact .inr ⟨rfl, user, rest, queueEq⟩
  | appear already => exact .inl already
  | pressLogOut already => exact .inl already

/-- A delivery or a first call copies the current user into the session or
leaves it. -/
theorem runMainStep_session (device : Device) (first : MainStep) :
    (device.runMainStep first).controller.session = device.controller.session ∨
      (device.runMainStep first).controller.session =
        device.auth.currentUser.map FIRUser.toUser := by
  cases first with
  | stateDidChange =>
      simp only [runMainStep, Auth.notify_controller]
      split
      · exact .inr rfl
      · exact .inl rfl
  | firstCall listener =>
      simp only [runMainStep, Auth.firstCall]
      split
      · simp only [Listener.invoke]
        split
        · exact .inr rfl
        · exact .inl rfl
      · exact .inl rfl
  | loginDone result => exact .inl rfl
  | signUpDone result => exact .inl rfl

/-- A step leaves the session, copies the current user into it, or clears
it. -/
theorem session_of_next {device after : Device} {event : Event}
    (taken : machine.next device event = some after) :
    after.controller.session = device.controller.session ∨
      after.controller.session =
        device.auth.currentUser.map FIRUser.toUser ∨
      after.controller.session = none := by
  cases sessionActs_of_next taken with
  | other _ _ _ _ session => exact .inl session
  | pressLogIn => exact .inl rfl
  | pressSignUp => exact .inl rfl
  | authResult found =>
      rename_i result
      cases result <;> exact .inl rfl
  | mainStep queueEq =>
      rename_i first rest
      rcases runMainStep_session { device with mainQueue := rest } first with
        same | copied
      · exact .inl same
      · exact .inr (.inl copied)
  | appear => exact .inl rfl
  | pressLogOut =>
      unfold pressLogOut
      split
      · exact .inl rfl
      · exact .inr (.inr rfl)

/-- A task that is started after an upload captured the account of its
`setData`. -/
theorem tasks_of_next {device after : Device} {event : Event}
    (taken : machine.next device event = some after) {correoUsuario : String}
    (started : .afterUpload correoUsuario ∈ after.tasks.values) :
    .afterUpload correoUsuario ∈ device.tasks.values ∨
      ∃ ticket call documentID fields,
        device.pending.find? ticket = some call ∧
        call.request = .setData documentID fields (some correoUsuario) := by
  cases event with
  | runTask ticket =>
      cases acts_of_next taken with
      | quiet _ _ _ isQuiet => cases isQuiet
      | runTask found account =>
          simp only [perform, FirebaseController.getUserData,
            Pool.submitAll_nil] at started
          obtain ⟨item, member, itemEq⟩ := List.mem_map.mp started
          exact .inl (List.mem_map.mpr
            ⟨item, (Pool.mem_items_remove.mp member).1, itemEq⟩)
  | onDelete indexSet =>
      cases acts_of_next taken with
      | quiet _ _ _ isQuiet => cases isQuiet
      | onDelete _ _ afterEq =>
          subst afterEq
          rw [Pool.values_submit] at started
          rcases List.mem_append.mp started with old | new
          · exact .inl old
          · cases List.mem_singleton.mp new
  | saveEdit nombreImagen =>
      cases acts_of_next taken with
      | quiet _ _ _ isQuiet => cases isQuiet
      | saveEdit => exact .inl started
  | save imageGeneral nombreImagen now =>
      cases acts_of_next taken with
      | quiet _ _ _ isQuiet => cases isQuiet
      | save =>
          unfold FirebaseController.uploadStorage at started
          split at started <;> exact .inl started
  | answer ticket response =>
      cases acts_of_next taken with
      | quiet _ _ _ isQuiet => cases isQuiet
      | answer => exact .inl started
  | callback ticket =>
      cases acts_of_next taken with
      | quiet _ _ _ isQuiet => cases isQuiet
      | callback found answered completes =>
          rename_i call response outcome
          generalize requestEq : call.request = request at completes
          cases completes with
          | uploaded =>
              simp only [perform, FirebaseController.uploadFinished,
                Pool.values_submitAll] at started
              rcases List.mem_append.mp started with old | new
              · exact .inl old
              · cases List.mem_singleton.mp new
                exact .inr ⟨ticket, call, _, _, found, requestEq⟩
          | _ => exact .inl started
  | appear =>
      cases sessionActs_of_next taken with
      | other _ _ _ _ _ isOther => cases isOther
      | appear =>
          simp only [appear, enqueue, Pool.values_submit] at started
          rcases List.mem_append.mp started with old | new
          · exact .inl old
          · cases List.mem_singleton.mp new
  | pressLogOut keychainFails =>
      cases sessionActs_of_next taken with
      | other _ _ _ _ _ isOther => cases isOther
      | pressLogOut =>
          unfold pressLogOut at started
          split at started <;> exact .inl started
  | mainStep =>
      cases sessionActs_of_next taken with
      | other _ _ _ _ _ isOther => cases isOther
      | mainStep queueEq =>
          rename_i first rest
          cases first <;> exact .inl started
  | authResult ticket result =>
      cases sessionActs_of_next taken with
      | other _ _ _ _ _ isOther => cases isOther
      | authResult found => cases result <;> exact .inl started
  | pressLogIn email password =>
      cases sessionActs_of_next taken with
      | other _ _ _ _ _ isOther => cases isOther
      | pressLogIn => exact .inl started
  | pressSignUp email password =>
      cases sessionActs_of_next taken with
      | other _ _ _ _ _ isOther => cases isOther
      | pressSignUp => exact .inl started
  | render =>
      cases Machine.next_eq_some.mp taken
      exact .inl started
  | openEdit row =>
      obtain ⟨image, _, opened⟩ :=
        Option.bind_eq_some_iff.mp (Machine.next_eq_some.mp taken)
      simp only [Option.ite_none_right_eq_some, Option.some.injEq,
        Except.ok.injEq] at opened
      obtain ⟨_, rfl⟩ := opened
      exact .inl started
  | closeEdit =>
      cases Machine.next_eq_some.mp taken
      exact .inl started

end Device

/-! ## The clock of the scenarios -/

/-- The reading of the clock in the scenarios. -/
def noon : WallClock where
  year := 2021
  month := 11
  day := 9
  hour := 12
  minute := 0
  second := 0

/-- One second later. -/
def afterNoon : WallClock where
  year := 2021
  month := 11
  day := 9
  hour := 12
  minute := 0
  second := 1

end AppLPS
