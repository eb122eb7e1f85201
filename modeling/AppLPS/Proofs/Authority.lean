/-
Module: AppLPS.Proofs.Authority
Purpose: Pictures belong to the accounts: a device only reads the pictures of
  accounts that have signed in on it, and only such a device can change the
  document or the blob of a picture.
Trusted boundary: none
Main exports: Event.SignsIn, RequestWithin, Device.Within, Device.Within.next,
  World.reads_confined, World.changes_authorized
-/
import AppLPS.Proofs.Records

namespace AppLPS

/-!
`allowed` is any set of accounts that contains every account that signs in on
the device.  It also contains `"none"`, under which the app files pictures
while it does not know its session.
-/

/-- Only allowed accounts sign in. -/
def Event.SignsIn (allowed : String → Prop) : Event → Prop
  | .authResult _ (.ok user) => ∀ email ∈ user.email, allowed email
  | _ => True

/-- The key was uploaded by the account, and the account is allowed. -/
structure MayTouch (uploads : List Upload) (allowed : String → Prop)
    (documentID email : String) : Prop where
  owned : Owned uploads documentID email
  isAllowed : allowed email

/-- The request asks for the pictures of an allowed account, downloads one,
stores one, files one, edits one or deletes one, and so do its captures. -/
def RequestWithin (uploads : List Upload) (allowed : String → Prop) :
    Request → Prop
  | .getDocuments correoUsuario => allowed correoUsuario
  | .getData _ document => ∃ email,
      document.data.lookup "email" = some (.string email) ∧ allowed email
  | .putData path _ correoUsuario _ fecha =>
      path = imagePath fecha ∧ MayTouch uploads allowed fecha correoUsuario
  | .setData documentPath fields completion =>
      (∃ email, fields.lookup "email" = some (.string email) ∧
        MayTouch uploads allowed documentPath email) ∧
        ∀ correoUsuario ∈ completion, allowed correoUsuario
  | .deleteDocument userImage =>
      MayTouch uploads allowed userImage.date userImage.email
  | .deleteObject item => ∃ fecha email,
      item = imageReference fecha ∧ MayTouch uploads allowed fecha email

section Monotone

variable {uploads later : List Upload} {allowed : String → Prop}
  (grows : uploads ⊆ later)

include grows

theorem MayTouch.mono {documentID email : String}
    (mayTouch : MayTouch uploads allowed documentID email) :
    MayTouch later allowed documentID email :=
  ⟨mayTouch.owned.mono grows, mayTouch.isAllowed⟩

theorem RequestWithin.mono {request : Request}
    (within : RequestWithin uploads allowed request) :
    RequestWithin later allowed request := by
  cases request with
  | getDocuments correoUsuario => exact within
  | getData path document => exact within
  | putData path data correoUsuario nombre fecha =>
      exact ⟨within.1, within.2.mono grows⟩
  | setData documentID fields completion =>
      obtain ⟨⟨email, owner, mayTouch⟩, captured⟩ := within
      exact ⟨⟨email, owner, mayTouch.mono grows⟩, captured⟩
  | deleteDocument userImage => exact MayTouch.mono grows within
  | deleteObject item =>
      obtain ⟨fecha, email, itemEq, mayTouch⟩ := within
      exact ⟨fecha, email, itemEq, mayTouch.mono grows⟩

end Monotone

namespace Device

/-- The accounts that the device knows, asks for or shows are allowed. -/
structure Within (uploads : List Upload) (allowed : String → Prop)
    (device : Device) : Prop where
  current : ∀ user ∈ device.auth.currentUser, ∀ email ∈ user.email,
    allowed email
  session : ∀ email ∈ device.controller.sessionEmail, allowed email
  tasks : ∀ correoUsuario, .afterUpload correoUsuario ∈ device.tasks.values →
    allowed correoUsuario
  calls : device.pending.All fun call =>
    RequestWithin uploads allowed call.request
  held : ∀ image ∈ device.held, MayTouch uploads allowed image.date image.email

namespace Within

variable {uploads later : List Upload} {allowed : String → Prop}
  {device after : Device} {event : Event}

theorem mono (grows : uploads ⊆ later)
    (within : device.Within uploads allowed) :
    device.Within later allowed where
  current := within.current
  session := within.session
  tasks := within.tasks
  calls := within.calls.mono fun _ request => request.mono grows
  held := fun image member => (within.held image member).mono grows

theorem launch {persisted : Option FIRUser}
    (restored : ∀ user ∈ persisted, ∀ email ∈ user.email, allowed email) :
    (Device.launch persisted).Within uploads allowed where
  current := restored
  session := nofun
  tasks := nofun
  calls := Pool.all_empty _
  held := by simp [Device.launch, Device.held]

theorem sessionEmailOrNone (within : device.Within uploads allowed)
    (noneAllowed : allowed "none") :
    allowed (sessionEmailOrNone device.controller) := by
  cases known : device.controller.sessionEmail with
  | none =>
      rw [AppLPS.sessionEmailOrNone, known]
      exact noneAllowed
  | some email =>
      rw [AppLPS.sessionEmailOrNone, known]
      exact within.session email known

/-- The account that a refresh task reads is allowed. -/
theorem accountOf (within : device.Within uploads allowed)
    (noneAllowed : allowed "none") {ticket : Nat} {correoUsuario : String}
    (reads : device.accountOf ticket = some correoUsuario) :
    allowed correoUsuario := by
  obtain ⟨task, found, account⟩ := Option.bind_eq_some_iff.mp reads
  cases task with
  | onAppear =>
      simp only [RefreshTask.account, forcedSessionEmail] at account
      split at account
      · rename_i email known
        cases account
        exact within.session _ known
      · cases account
  | onDelete =>
      cases account
      exact within.sessionEmailOrNone noneAllowed
  | afterUpload captured =>
      cases account
      exact within.tasks _ (Pool.mem_values_of_find? found)

/-- What a device issues. -/
theorem request_of_issues (within : device.Within uploads allowed)
    (noneAllowed : allowed "none") (grows : uploads ⊆ later)
    (uploaded : ∀ upload ∈ device.uploadOf event, upload ∈ later)
    {request : Request} (issues : Device.Issues device event request) :
    RequestWithin later allowed request := by
  cases issues with
  | query reads => exact within.accountOf noneAllowed reads
  | delete isRow => exact (within.held _ (mem_held_of_row isRow)).mono grows
  | edit editing =>
      rename_i image nombreImagen
      have mayTouch := within.held image (mem_held_of_editing editing)
      exact ⟨⟨image.email, rfl, mayTouch.mono grows⟩, nofun⟩
  | upload encoded =>
      rename_i imageGeneral nombreImagen now data
      refine ⟨rfl, ⟨?_, within.sessionEmailOrNone noneAllowed⟩⟩
      refine ⟨
        { correoUsuario := AppLPS.sessionEmailOrNone device.controller
          nombre := nombreImagen
          fecha := DateFormatter.string now
          data := data
          segment := DateFormatter.isSegment_string now }, uploaded _ ?_,
        rfl, rfl⟩
      rw [uploadOf, encoded]
      rfl
  | download found isQuery answered own =>
      rename_i ticket call correoUsuario snapshot document
      have query := within.calls.of_find? found
      rw [isQuery] at query
      refine ⟨correoUsuario, ?_, query⟩
      simpa using (List.mem_filter.mp own).2
  | store found isPut answered =>
      have put := within.calls.of_find? found
      rw [isPut] at put
      obtain ⟨_, mayTouch⟩ := put
      refine ⟨⟨_, rfl, mayTouch.mono grows⟩, ?_⟩
      intro correoUsuario captured
      cases captured
      exact mayTouch.isAllowed
  | deleteItem found isDelete answered =>
      have delete := within.calls.of_find? found
      rw [isDelete] at delete
      exact ⟨_, _, rfl, MayTouch.mono grows delete⟩

/-- A row that is downloaded. -/
theorem row_of_download (within : device.Within uploads allowed)
    {ticket : Nat} {call : Call} {path : String}
    {document : QueryDocumentSnapshot} {image : UserImage}
    (found : device.pending.find? ticket = some call)
    (isDownload : call.request = .getData path document)
    (describes : Describes document image) : allowed image.email := by
  have download := within.calls.of_find? found
  rw [isDownload] at download
  obtain ⟨email, owned, isAllowed⟩ := download
  cases describes.email.symm.trans owned
  exact isAllowed

/-- One step of the device, of which only a sign-in can bring in an account. -/
theorem next (within : device.Within uploads allowed)
    (noneAllowed : allowed "none") (signsIn : event.SignsIn allowed)
    (grows : uploads ⊆ later)
    (uploaded : ∀ upload ∈ device.uploadOf event, upload ∈ later)
    (owned : ∀ image ∈ after.held, Owned later image.date image.email)
    (taken : machine.next device event = some after) :
    after.Within later allowed where
  current := by
    intro user isCurrent email isEmail
    rcases currentUser_of_next taken with
      same | ⟨ticket, other, rfl, signedIn⟩ | ⟨signedOut, _⟩
    · rw [same] at isCurrent
      exact within.current user isCurrent email isEmail
    · rw [signedIn] at isCurrent
      cases isCurrent
      exact signsIn email isEmail
    · rw [signedOut] at isCurrent
      cases isCurrent
  session := by
    intro email known
    obtain ⟨user, isSession, isEmail⟩ := Option.bind_eq_some_iff.mp known
    rcases session_of_next taken with same | copied | cleared
    · rw [same] at isSession
      exact within.session email
        (Option.bind_eq_some_iff.mpr ⟨user, isSession, isEmail⟩)
    · rw [copied] at isSession
      obtain ⟨account, isCurrent, rfl⟩ := Option.map_eq_some_iff.mp isSession
      exact within.current account isCurrent email isEmail
    · rw [cleared] at isSession
      cases isSession
  tasks := by
    intro correoUsuario started
    rcases tasks_of_next taken started with
      old | ⟨ticket, call, documentID, fields, found, isSet⟩
    · exact within.tasks correoUsuario old
    · have set := within.calls.of_find? found
      rw [isSet] at set
      exact set.2 correoUsuario rfl
  calls := by
    refine all_of_next (within.calls.mono fun _ request => request.mono grows)
      ?_ ?_ taken
    · intro request issues
      exact within.request_of_issues noneAllowed grows uploaded issues
    · intro ticket response call _ _ _ request
      rw [Call.respond_request]
      exact request
  held := by
    intro image member
    refine ⟨owned image member, ?_⟩
    rcases held_of_next taken member with
      old | ⟨ticket, call, path, document, _, found, isDownload, _, describes⟩
    · exact (within.held image old).isAllowed
    · exact within.row_of_download found isDownload describes

end Within

end Device

namespace World

variable {Client : Type}

/-- Only allowed accounts sign in on each device. -/
def SignsIn (allowed : Client → String → Prop) : Event Client → Prop
  | .act client event => event.SignsIn (allowed client)
  | .serve _ _ => True

/-- Every device keeps to its accounts. -/
structure AuthorityInvariant (allowed : Client → String → Prop)
    (observed : World Client × History Client) : Prop where
  records : RecordsInvariant observed
  within : ∀ client, (observed.1.clients client).Within observed.2.uploads
    (allowed client)

namespace AuthorityInvariant

variable {allowed : Client → String → Prop}

theorem start {persisted : Client → Option FIRUser} (images : Bucket)
    (restored : ∀ client, ∀ user ∈ persisted client, ∀ email ∈ user.email,
      allowed client email) :
    AuthorityInvariant allowed (start persisted images, {}) where
  records := RecordsInvariant.start persisted images
  within := fun client => Device.Within.launch (restored client)

variable [DecidableEq Client]

theorem next {observed after : World Client × History Client}
    {event : Event Client} (invariant : AuthorityInvariant allowed observed)
    (noneAllowed : ∀ client, allowed client "none")
    (signsIn : SignsIn allowed event)
    (taken : World.observed.next observed event = some after) :
    AuthorityInvariant allowed after := by
  have records := invariant.records.next taken
  refine ⟨records, ?_⟩
  obtain ⟨reached, stepped, rfl⟩ := Machine.exists_of_observe_next taken
  have grows := uploads_subset_record observed.1 event reached observed.2
  have owned := records.held
  cases acts_of_next stepped with
  | act own clientStep =>
      rename_i client event device
      apply Network.moved_clients_forall
        (fun client (device : Device) => device.Within _ (allowed client))
      · apply (invariant.within client).next (noneAllowed client) signsIn grows
          _ _ clientStep
        · intro upload isUpload
          exact List.mem_append_right _ (Option.mem_toList.mpr isUpload)
        · intro image member
          apply owned client
          rw [Network.moved_clients_self]
          exact member
      · intro other _
        exact (invariant.within other).mono grows
  | serve found unanswered accepts serves deviceEq =>
      rename_i client ticket verdict call backend response device
      apply Network.moved_clients_forall
        (fun client (device : Device) => device.Within _ (allowed client))
      · have within := (invariant.within client).mono grows
        subst deviceEq
        refine ⟨within.current, within.session, within.tasks, ?_, within.held⟩
        apply within.calls.update found
        rw [Call.respond_request]
        exact within.calls.of_find? found
      · intro other _
        exact (invariant.within other).mono grows

/-- The invariant holds at the end of every run. -/
theorem of_exec {persisted : Client → Option FIRUser} {images : Bucket}
    {events : List (Event Client)} {observed : World Client × History Client}
    (noneAllowed : ∀ client, allowed client "none")
    (restored : ∀ client, ∀ user ∈ persisted client, ∀ email ∈ user.email,
      allowed client email)
    (signsIn : ∀ event ∈ events, SignsIn allowed event)
    (run : World.observed.exec (World.start persisted images, {}) events =
      some observed) :
    AuthorityInvariant allowed observed := by
  have guarded : World.observed.Guarded (fun _ event => SignsIn allowed event)
      (World.start persisted images, {}) events :=
    Machine.guarded_of_forall (fun event member _ => signsIn event member) _
  exact (Machine.always_of_guarded
    (fun _ _ _ invariant signsIn taken =>
      invariant.next noneAllowed signsIn taken)
    (start images restored) guarded).last run

end AuthorityInvariant

variable [DecidableEq Client]

/-- In every run in which only allowed accounts sign in on a device, `"none"`
among them, that device holds only their rows, refreshes only for them, and asks
only for their documents and pictures: what it downloads, stores, files, edits
and deletes is theirs. -/
theorem reads_confined {allowed : Client → String → Prop}
    (noneAllowed : ∀ client, allowed client "none")
    {persisted : Client → Option FIRUser}
    (restored : ∀ client, ∀ user ∈ persisted client, ∀ email ∈ user.email,
      allowed client email)
    (images : Bucket) {events : List (Event Client)}
    (signsIn : ∀ event ∈ events, SignsIn allowed event)
    {observed : World Client × History Client}
    (run : World.observed.exec (start persisted images, {}) events =
      some observed) (client : Client) :
    (∀ image ∈ (observed.1.clients client).held,
        MayTouch observed.2.uploads (allowed client) image.date image.email) ∧
      (∀ correoUsuario, .afterUpload correoUsuario ∈
          (observed.1.clients client).tasks.values →
        allowed client correoUsuario) ∧
      ∀ call ∈ (observed.1.clients client).pending.values,
        RequestWithin observed.2.uploads (allowed client) call.request := by
  have within := (AuthorityInvariant.of_exec noneAllowed restored signsIn
    run).within client
  exact ⟨within.held, within.tasks, within.calls⟩

/-- A step that changes the document or the blob of a segment serves a request
of a device that may touch it. -/
theorem authorized_of_next {allowed : Client → String → Prop}
    {observed : World Client × History Client} {after : World Client}
    {event : Event Client} (invariant : AuthorityInvariant allowed observed)
    (taken : machine.next observed.1 event = some after) {documentID : String}
    (segment : IsSegment documentID)
    (changed : after.server.files.lookup documentID ≠
        observed.1.server.files.lookup documentID ∨
      after.server.images.lookup (imagePath documentID) ≠
        observed.1.server.images.lookup (imagePath documentID)) :
    ∃ client query email, event = .serve client query ∧
      MayTouch observed.2.uploads (allowed client) documentID email := by
  cases acts_of_next taken with
  | act => simp at changed
  | serve found unanswered accepts serves deviceEq =>
      rename_i client ticket verdict call backend response device
      suffices mayTouch : ∃ email,
          MayTouch observed.2.uploads (allowed client) documentID email by
        obtain ⟨email, mayTouch⟩ := mayTouch
        exact ⟨client, (ticket, verdict), email, rfl, mayTouch⟩
      have within := (invariant.within client).calls.of_find? found
      rw [Network.moved_server] at changed
      generalize call.request = request at serves within
      cases serves with
      | put =>
          rename_i path correoUsuario nombre fecha data visible
          obtain ⟨rfl, mayTouch⟩ := within
          by_cases same : documentID = fecha
          · subst same
            exact ⟨correoUsuario, mayTouch⟩
          · have otherPath : imagePath documentID ≠ imagePath fecha :=
              mt (imagePath_inj segment mayTouch.owned.isSegment).mp same
            rw [AList.lookup_insert_ne otherPath] at changed
            simp at changed
      | set =>
          rename_i other fields completion visible
          obtain ⟨⟨email, _, mayTouch⟩, _⟩ := within
          rw [Firestore.documentName_eq mayTouch.owned.isSegment] at changed
          by_cases same : documentID = other
          · subst same
            exact ⟨email, mayTouch⟩
          · rw [AList.lookup_insert_ne same] at changed
            simp at changed
      | deleteDocument =>
          rename_i userImage visible
          rw [Firestore.documentName_eq within.owned.isSegment] at changed
          by_cases same : documentID = userImage.date
          · subst same
            exact ⟨_, within⟩
          · rw [AList.lookup_erase_ne same] at changed
            simp at changed
      | deleteObject =>
          rename_i item visible stored
          obtain ⟨other, email, rfl, mayTouch⟩ := within
          by_cases same : documentID = other
          · subst same
            exact ⟨email, mayTouch⟩
          · have otherPath :
                imagePath documentID ≠ (imageReference other).fullPath :=
              mt (imagePath_inj segment mayTouch.owned.isSegment).mp same
            rw [AList.lookup_erase_ne otherPath] at changed
            simp at changed
      | _ => simp at changed

/-- In every run in which only allowed accounts sign in on each device, `"none"`
among them, and no key is used twice: a step that creates, edits or deletes the
document or the blob of a key serves a request of a device on which the owner of
the key is allowed. -/
theorem changes_authorized {allowed : Client → String → Prop}
    (noneAllowed : ∀ client, allowed client "none")
    {persisted : Client → Option FIRUser}
    (restored : ∀ client, ∀ user ∈ persisted client, ∀ email ∈ user.email,
      allowed client email)
    (images : Bucket) {events : List (Event Client)}
    (signsIn : ∀ event ∈ events, SignsIn allowed event)
    {observed : World Client × History Client}
    (run : World.observed.exec (start persisted images, {}) events =
      some observed)
    (distinct : (observed.2.uploads.map (·.fecha)).Nodup)
    {event : Event Client} {after : World Client}
    (taken : machine.next observed.1 event = some after)
    {documentID owner : String}
    (owned : Owned observed.2.uploads documentID owner)
    (changed : after.server.files.lookup documentID ≠
        observed.1.server.files.lookup documentID ∨
      after.server.images.lookup (imagePath documentID) ≠
        observed.1.server.images.lookup (imagePath documentID)) :
    ∃ client query, event = .serve client query ∧ allowed client owner := by
  obtain ⟨client, query, email, isServe, mayTouch⟩ :=
    authorized_of_next (AuthorityInvariant.of_exec noneAllowed restored signsIn
      run) taken owned.isSegment changed
  cases owner_unique distinct mayTouch.owned owned
  exact ⟨client, query, isServe, mayTouch.isAllowed⟩

/-- Ana's picture and Luis's picture are on two devices, and both refresh. -/
def twoUsers : List (Event Bool) :=
  arrives true "A" "ana@lps.es" ++ arrives false "L" "luis@lps.es" ++
    uploads true 0 "playa" [1] noon ++ uploads false 0 "faro" [2] afterNoon ++
    refreshes true 1 2 ++ refreshes false 1 2 ++
    [.act true .render, .act true (.onDelete (.only 0))]

/-- The accounts of the two devices. -/
def twoAccounts (client : Bool) (account : String) : Prop :=
  account = "none" ∨
    account = if client then "ana@lps.es" else "luis@lps.es"

private theorem twoUsers_signsIn :
    ∀ event ∈ twoUsers, SignsIn twoAccounts event := by
  simp [twoUsers, arrives, uploads, refreshes, completes, SignsIn,
    AppLPS.Event.SignsIn, twoAccounts]

/-- `reads_confined` at the device of Luis. -/
theorem reads_confined_two_users :
    ∃ observed,
      World.observed.exec (start (fun _ : Bool => none) ∅, {}) twoUsers =
        some observed ∧
      (observed.1.clients false).controller.refImagenesUsuario.map (·.email) =
        ["luis@lps.es"] ∧
      ∀ image ∈ (observed.1.clients false).held,
        twoAccounts false image.email := by
  have ends :
      (World.observed.exec (start (fun _ : Bool => none) ∅, {}) twoUsers).map
        (fun observed => (observed.1.clients false).controller
          |>.refImagenesUsuario.map (·.email)) = some ["luis@lps.es"] := by
    decide +kernel
  obtain ⟨observed, reached, rows⟩ := Option.map_eq_some_iff.mp ends
  have ⟨held, _⟩ := reads_confined (fun _ => .inl rfl) nofun ∅ twoUsers_signsIn
    reached false
  exact ⟨observed, reached, rows, fun image member =>
    (held image member).isAllowed⟩

/-- `changes_authorized` at the delete of Ana's picture. -/
theorem changes_authorized_two_users :
    ∃ observed after,
      World.observed.exec (start (fun _ : Bool => none) ∅, {}) twoUsers =
        some observed ∧
      machine.next observed.1 (.serve true (4, .granted 0)) = some after ∧
      twoAccounts true "ana@lps.es" := by
  have ends :
      (World.observed.exec (start (fun _ : Bool => none) ∅, {}) twoUsers).bind
        (fun observed =>
          (machine.next observed.1 (.serve true (4, .granted 0))).map
            fun after =>
              (observed.2.uploads.map fun upload =>
                  (upload.fecha, upload.correoUsuario),
                observed.1.server.files.keys, after.server.files.keys)) =
        some ([("2021-11-09 12:00:00", "ana@lps.es"),
            ("2021-11-09 12:00:01", "luis@lps.es")],
          ["2021-11-09 12:00:01", "2021-11-09 12:00:00"],
          ["2021-11-09 12:00:01"]) := by
    decide +kernel
  obtain ⟨observed, reached, rest⟩ := Option.bind_eq_some_iff.mp ends
  obtain ⟨after, taken, shown⟩ := Option.map_eq_some_iff.mp rest
  obtain ⟨uploads, keys⟩ := Prod.mk.inj shown
  obtain ⟨before, later⟩ := Prod.mk.inj keys
  refine ⟨observed, after, reached, taken, ?_⟩
  have distinct : (observed.2.uploads.map (·.fecha)).Nodup := by
    have fechas := congrArg (List.map Prod.fst) uploads
    rw [List.map_map] at fechas
    exact fechas ▸ (by decide)
  have owned :
      Owned observed.2.uploads "2021-11-09 12:00:00" "ana@lps.es" := by
    have isUpload : ("2021-11-09 12:00:00", "ana@lps.es") ∈
        observed.2.uploads.map fun upload =>
          (upload.fecha, upload.correoUsuario) := by
      rw [uploads]
      exact List.mem_cons_self
    obtain ⟨upload, member, same⟩ := List.mem_map.mp isUpload
    obtain ⟨key, account⟩ := Prod.mk.inj same
    exact ⟨upload, member, key, account⟩
  have changed : after.server.files.lookup "2021-11-09 12:00:00" ≠
      observed.1.server.files.lookup "2021-11-09 12:00:00" := by
    intro same
    have stored := congrArg Option.isSome same
    rw [Bool.eq_iff_iff, AList.lookup_isSome, AList.lookup_isSome,
      AList.mem_keys, AList.mem_keys, before, later] at stored
    revert stored
    decide
  obtain ⟨client, query, isServe, isAllowed⟩ :=
    changes_authorized (fun _ => .inl rfl) nofun ∅ twoUsers_signsIn reached
      distinct taken owned (.inl changed)
  cases isServe
  exact isAllowed

end World

end AppLPS
