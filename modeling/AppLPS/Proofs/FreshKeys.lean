/-
Module: AppLPS.Proofs.FreshKeys
Purpose: While the blob of an upload is still to be stored, nothing knows its
  key: no document, no row, no edit and no download, provided that no two
  uploads use one key.
Trusted boundary: none
Main exports: Call.sending?, Device.sending, World.Known, World.KeysInvariant,
  World.KeysInvariant.next
-/
import AppLPS.Proofs.Records

namespace AppLPS

/-! ## Blobs on their way -/

/-- The key of an upload whose blob the backend has not served. -/
def Call.sending? (call : Call) : Option String :=
  match call.request, call.answer with
  | .putData _ _ _ _ fecha, none => some fecha
  | _, _ => none

theorem Call.sending?_of_answered {call : Call}
    (answered : call.answer ≠ none) : call.sending? = none := by
  unfold sending?
  split
  · rename_i unanswered
    exact absurd unanswered answered
  · rfl

theorem Call.sending?_eq_some {call : Call} {fecha : String} :
    call.sending? = some fecha ↔ call.answer = none ∧
      ∃ path data correoUsuario nombre,
        call.request = .putData path data correoUsuario nombre fecha := by
  unfold sending?
  split
  · rename_i isPut unanswered
    simp [isPut, unanswered]
  · rename_i other
    simp only [reduceCtorEq, false_iff, not_and, not_exists]
    intro unanswered path data correoUsuario nombre isPut
    exact other _ _ _ _ _ isPut unanswered

namespace Device

/-- The keys whose blobs are on their way. -/
def sending (device : Device) : List String :=
  device.pending.yields Call.sending?

/-- Requests other than those of `uploadStorage` send no blob. -/
theorem sending_perform {device : Device} {outcome : Outcome}
    (noBlob : ∀ request ∈ outcome.requests,
      (Call.fresh request).sending? = none) :
    (device.perform outcome).sending = device.sending := by
  have nothing : (outcome.requests.map Call.fresh).filterMap Call.sending? =
      [] := by
    apply List.filterMap_eq_nil_iff.mpr
    intro call member
    obtain ⟨request, isIssued, rfl⟩ := List.mem_map.mp member
    exact noBlob request isIssued
  rw [sending, perform_pending, Pool.yields_submitAll, nothing,
    List.append_nil, sending]

/-- The closures issue no blob. -/
private theorem no_blob_of_completes {controller : FirebaseController}
    {request : Request} {response : Response} {outcome : Outcome}
    (completes : Completes controller request response outcome) :
    ∀ issued ∈ outcome.requests, (Call.fresh issued).sending? = none := by
  intro issued member
  cases completes with
  | documents =>
      obtain ⟨document, _, rfl⟩ := List.mem_map.mp member
      rfl
  | put =>
      cases List.mem_singleton.mp member
      rfl
  | deleted =>
      cases List.mem_singleton.mp member
      rfl
  | _ => cases member

/-- A step of a device sends at most the blob of the upload that it starts. -/
theorem sending_of_next {device after : Device} {event : Event}
    (own : event.isAnswer = false)
    (taken : machine.next device event = some after) :
    after.sending.Subperm
      (device.sending ++ (device.uploadOf event).toList.map (·.fecha)) := by
  have kept : device.sending.Subperm
      (device.sending ++ (device.uploadOf event).toList.map (·.fecha)) :=
    (List.sublist_append_left _ _).subperm
  cases acts_of_next taken with
  | quiet _ pending _ _ =>
      rw [sending, pending]
      exact kept
  | runTask =>
      rw [sending_perform]
      · exact kept
      · intro request member
        cases List.mem_singleton.mp member
        rfl
  | onDelete _ _ afterEq =>
      have same := congrArg (fun after : Device => after.sending) afterEq
      rw [same]
      apply List.Subperm.trans _ kept
      apply List.Perm.subperm
      apply List.Perm.of_eq
      apply sending_perform
      intro request member
      obtain ⟨image, _, rfl⟩ := List.mem_map.mp member
      rfl
  | saveEdit =>
      rw [sending_perform]
      · exact kept
      · intro request member
        cases List.mem_singleton.mp member
        rfl
  | @save imageGeneral nombreImagen now _ =>
      cases encoded : imageGeneral.jpegData with
      | none =>
          rw [sending_perform]
          · exact kept
          · simp [FirebaseController.uploadStorage, encoded]
      | some data =>
          rw [sending, perform_pending, Pool.yields_submitAll]
          simp only [FirebaseController.uploadStorage, uploadOf, encoded]
          exact List.Subperm.refl _
  | answer => cases own
  | callback found answered completes =>
      rw [sending_perform (no_blob_of_completes completes)]
      refine List.Subperm.trans ?_ kept
      exact ((List.sublist_append_right _ _).subperm).trans
        (Pool.yields_remove_perm Call.sending? found).symm.subperm

/-- A request that is served is no longer on its way. -/
theorem sending_served {device : Device} {ticket : Nat} {call : Call}
    {response : Response} (found : device.pending.find? ticket = some call)
    (accepts : call.request.Accepts response = true) :
    device.sending.Perm (call.sending?.toList ++
      { device with
        pending := device.pending.update ticket fun call =>
          call.respond response }.sending) := by
  have answered : (call.respond response).sending? = none :=
    Call.sending?_of_answered (by simp [Call.respond_answer accepts])
  have updated := Pool.yields_update_perm Call.sending? found
    fun call => call.respond response
  rw [answered, Option.toList_none, List.nil_append] at updated
  exact (Pool.yields_remove_perm Call.sending? found).trans
    (updated.symm.append_left _)

end Device

/-! ## What is known -/

/-- What a request reads or edits is known. -/
def RequestKnown (known : String → Prop) : Request → Prop
  | .getData _ document => known document.documentID
  | .setData documentID _ _ => known documentID
  | _ => True

/-- So are the documents it has been answered, and the key of a blob it has
stored. -/
structure CallKnown (known : String → Prop) (call : Call) : Prop where
  request : RequestKnown known call.request
  snapshot : ∀ snapshot, call.answer = some (.documents snapshot) →
    ∀ document ∈ snapshot, known document.documentID
  stored : ∀ path data correoUsuario nombre fecha,
    call.request = .putData path data correoUsuario nombre fecha →
    call.answer = some .done → known fecha

theorem CallKnown.mono {known later : String → Prop} {call : Call}
    (grows : ∀ key, known key → later key) (callKnown : CallKnown known call) :
    CallKnown later call where
  request := by
    have request := callKnown.request
    generalize call.request = issued at request ⊢
    cases issued with
    | getData path document => exact grows _ request
    | setData documentID fields completion => exact grows _ request
    | _ => trivial
  snapshot := fun snapshot answered document member =>
    grows _ (callKnown.snapshot snapshot answered document member)
  stored := fun path data correoUsuario nombre fecha isPut answered =>
    grows _ (callKnown.stored path data correoUsuario nombre fecha isPut answered)

namespace World

variable {Client : Type}

/-- No two uploads use one key. -/
def DistinctKeys (observed : World Client × History Client) : Prop :=
  (observed.2.uploads.map (·.fecha)).Nodup

/-- The key was uploaded and its blob is no longer on its way. -/
structure Known (observed : World Client × History Client) (key : String) :
    Prop where
  uploaded : key ∈ observed.2.uploads.map (·.fecha)
  arrived : ∀ client, key ∉ (observed.1.clients client).sending

/-- No two blobs on their way have one key, and everything that is stored, in
flight or held is under a known key. -/
structure KeysInvariant (observed : World Client × History Client) : Prop where
  records : RecordsInvariant observed
  nodup : ∀ client, (observed.1.clients client).sending.Nodup
  disjoint : ∀ one two, one ≠ two →
    List.Disjoint (observed.1.clients one).sending
      (observed.1.clients two).sending
  files : ∀ documentID ∈ observed.1.server.files, Known observed documentID
  calls : observed.1.AllCalls (CallKnown (Known observed))
  held : observed.1.AllHeld fun _ image => Known observed image.date

theorem uploads_record (before : World Client) (event : Event Client)
    (after : World Client) (history : History Client) :
    (record before event after history).uploads =
      history.uploads ++ match event with
        | .act client own => ((before.clients client).uploadOf own).toList
        | .serve _ _ => [] := by
  unfold record
  split <;> simp

/-- Keys that are distinct at the end of a step were so before. -/
theorem DistinctKeys.before [DecidableEq Client]
    {observed after : World Client × History Client} {event : Event Client}
    (taken : World.observed.next observed event = some after)
    (distinct : DistinctKeys after) : DistinctKeys observed := by
  obtain ⟨reached, _, rfl⟩ := Machine.exists_of_observe_next taken
  rw [DistinctKeys, uploads_record, List.map_append] at distinct
  exact (List.nodup_append.mp distinct).1

/-- A blob on its way was uploaded. -/
theorem RecordsInvariant.uploaded_of_sending
    {observed : World Client × History Client}
    (records : RecordsInvariant observed) {client : Client} {key : String}
    (isSending : key ∈ (observed.1.clients client).sending) :
    key ∈ observed.2.uploads.map (·.fecha) := by
  obtain ⟨call, member, sends⟩ := List.mem_filterMap.mp isSending
  obtain ⟨_, path, data, correoUsuario, nombre, isPut⟩ :=
    Call.sending?_eq_some.mp sends
  have request := (records.calls client call member).request
  rw [isPut] at request
  obtain ⟨upload, uploaded, rfl, _⟩ := request.2
  exact List.mem_map_of_mem uploaded

namespace KeysInvariant

theorem start (persisted : Client → Option FIRUser) (images : Bucket) :
    KeysInvariant (start persisted images, {}) where
  records := RecordsInvariant.start persisted images
  nodup := fun _ => List.nodup_nil
  disjoint := fun _ _ _ => List.disjoint_nil_left _
  files := by simp [World.start]
  calls := fun _ => Pool.all_empty _
  held := fun _ _ member => by
    simp [World.start, Device.launch, Device.held] at member

variable {observed : World Client × History Client}

/-- What a device issues is known. -/
private theorem requestKnown_of_issues (invariant : KeysInvariant observed)
    {client : Client} {own : AppLPS.Event} {request : Request}
    (issues : Device.Issues (observed.1.clients client) own request) :
    RequestKnown (Known observed) request := by
  cases issues with
  | query => trivial
  | delete => trivial
  | upload => trivial
  | deleteItem => trivial
  | edit editing =>
      exact invariant.held client _ (Device.mem_held_of_editing editing)
  | download found isQuery answered own =>
      exact ((invariant.calls client).of_find? found).snapshot _ answered _
        (List.mem_of_mem_filter own)
  | store found isPut answered =>
      exact ((invariant.calls client).of_find? found).stored _ _ _ _ _ isPut
        answered

/-- What a query shows is known. -/
private theorem known_of_localView (invariant : KeysInvariant observed)
    {client : Client} {visible : Nat} {document : QueryDocumentSnapshot}
    (member : document ∈ snapshotOf (localView observed.1.server.files
      ((unservedWrites (observed.1.clients client).pending.values).take
        visible))) :
    Known observed document.documentID := by
  rcases invariant.records.stored_or_written member with
    stored | ⟨call, isPending, completion, requestEq, _⟩
  · apply invariant.files
    rw [← AList.lookup_isSome, stored]
    rfl
  · have request := (invariant.calls client call isPending).request
    rw [requestEq] at request
    exact request

variable [DecidableEq Client] {after : World Client × History Client}
  {event : Event Client}

/-- What is known stays known. -/
private theorem known_next
    (taken : World.observed.next observed event = some after)
    (distinct : DistinctKeys after) {key : String}
    (known : Known observed key) : Known after key := by
  obtain ⟨reached, stepped, rfl⟩ := Machine.exists_of_observe_next taken
  constructor
  · simp only [uploads_record, List.map_append]
    exact List.mem_append_left _ known.uploaded
  · cases acts_of_next stepped with
    | act own clientStep =>
        rename_i client own' device
        apply Network.moved_clients_forall
          (fun _ (device : Device) => key ∉ device.sending) _
          fun other _ => known.arrived other
        intro isSending
        rcases List.mem_append.mp
          ((Device.sending_of_next own clientStep).subset isSending) with
          old | new
        · exact known.arrived client old
        · rw [DistinctKeys, uploads_record, List.map_append] at distinct
          exact (List.nodup_append.mp distinct).2.2 key known.uploaded key new
            rfl
    | serve found unanswered accepts serves deviceEq =>
        rename_i client ticket verdict call backend response device
        apply Network.moved_clients_forall
          (fun _ (device : Device) => key ∉ device.sending) _
          fun other _ => known.arrived other
        intro isSending
        subst deviceEq
        apply known.arrived client
        apply (Device.sending_served found accepts).mem_iff.mpr
        exact List.mem_append_right _ isSending

/-- The key of a blob that has been served is known. -/
private theorem known_of_put (invariant : KeysInvariant observed)
    {client : Client} {ticket : Nat} {verdict : Verdict} {call : Call}
    (taken : World.observed.next observed (.serve client (ticket, verdict)) =
      some after)
    (found : (observed.1.clients client).pending.find? ticket = some call)
    {path correoUsuario nombre fecha : String} {data : Data}
    (isPut : call.request = .putData path data correoUsuario nombre fecha) :
    Known after fecha := by
  obtain ⟨reached, stepped, rfl⟩ := Machine.exists_of_observe_next taken
  cases acts_of_next stepped with
  | serve foundAgain unanswered accepts serves deviceEq =>
      rename_i served backend response device
      cases found.symm.trans foundAgain
      have sends : call.sending? = some fecha :=
        Call.sending?_eq_some.mpr
          ⟨unanswered, path, data, correoUsuario, nombre, isPut⟩
      have split := Device.sending_served found accepts
      rw [← deviceEq, sends] at split
      have isSending : fecha ∈ (observed.1.clients client).sending :=
        split.mem_iff.mpr List.mem_cons_self
      constructor
      · rw [uploads_record, List.append_nil]
        exact invariant.records.uploaded_of_sending isSending
      · apply Network.moved_clients_forall
          (fun _ (device : Device) => fecha ∉ device.sending)
        · exact (List.nodup_cons.mp
            (split.nodup_iff.mp (invariant.nodup client))).1
        · intro other isOther elsewhere
          exact invariant.disjoint other client isOther elsewhere isSending

private theorem calls_next (invariant : KeysInvariant observed)
    (taken : World.observed.next observed event = some after)
    (distinct : DistinctKeys after) :
    after.1.AllCalls (CallKnown (Known after)) := by
  have grows : ∀ key, Known observed key → Known after key :=
    fun _ known => known_next taken distinct known
  refine calls_of_next
    (fun client => (invariant.calls client).mono fun _ known =>
      known.mono grows) ?_ ?_ (Machine.observe_next_eq_some.mp taken).1
  · intro client own request _ issues
    exact CallKnown.mono grows
      ⟨invariant.requestKnown_of_issues issues, nofun, nofun⟩
  · intro client ticket verdict call backend response isEvent found accepts
      serves _ callKnown
    subst isEvent
    refine ⟨?_, ?_, ?_⟩
    · rw [Call.respond_request]
      exact callKnown.request
    · intro snapshot isAnswer document member
      rw [Call.respond_answer accepts] at isAnswer
      cases isAnswer
      generalize call.request = request at serves
      cases serves with
      | documents => exact grows _ (invariant.known_of_localView member)
    · intro path data correoUsuario nombre fecha isPut _
      rw [Call.respond_request] at isPut
      exact invariant.known_of_put taken found isPut

private theorem files_next (invariant : KeysInvariant observed)
    (taken : World.observed.next observed event = some after)
    (distinct : DistinctKeys after) :
    ∀ documentID ∈ after.1.server.files, Known after documentID := by
  intro documentID stored
  apply known_next taken distinct
  obtain ⟨reached, stepped, rfl⟩ := Machine.exists_of_observe_next taken
  cases acts_of_next stepped with
  | act => exact invariant.files documentID stored
  | serve found unanswered accepts serves deviceEq =>
      rename_i client ticket verdict call backend response device
      have request := ((invariant.calls client).of_find? found).request
      have sound := ((invariant.records.calls client).of_find? found).request
      generalize call.request = served at serves request sound
      rw [Network.moved_server] at stored
      cases serves with
      | set =>
          rw [Firestore.documentName_eq (IsRecord.isSegment sound)] at stored
          rcases (AList.mem_insert _).mp stored with rfl | old
          · exact request
          · exact invariant.files documentID old
      | deleteDocument =>
          exact invariant.files documentID (AList.mem_erase.mp stored).2
      | _ => exact invariant.files documentID stored

/-- A device has no two blobs of one key on their way after it has started an
upload, and no other device has one of its new key. -/
private theorem sending_next (invariant : KeysInvariant observed)
    (taken : World.observed.next observed event = some after)
    (distinct : DistinctKeys after) :
    (∀ client, (after.1.clients client).sending.Nodup) ∧
      ∀ one two, one ≠ two →
        List.Disjoint (after.1.clients one).sending
          (after.1.clients two).sending := by
  obtain ⟨reached, stepped, rfl⟩ := Machine.exists_of_observe_next taken
  -- Whatever the step, one device now sends some of its keys and perhaps new
  -- ones, which nobody has uploaded before.
  obtain ⟨client, backend, device, fresh, rfl, isFresh, sends⟩ :
      ∃ client backend device fresh,
        reached = observed.1.moved client backend device ∧
        (fresh.Nodup ∧ ∀ key ∈ fresh,
          key ∉ observed.2.uploads.map (·.fecha)) ∧
        device.sending.Subperm
          ((observed.1.clients client).sending ++ fresh) := by
    cases acts_of_next stepped with
    | act own clientStep =>
        rename_i client own' device
        refine ⟨client, _, device, _, rfl, ?_,
          Device.sending_of_next own clientStep⟩
        rw [DistinctKeys, uploads_record, List.map_append] at distinct
        have ⟨_, nodup, apart⟩ := List.nodup_append.mp distinct
        exact ⟨nodup, fun key new old => apart key old key new rfl⟩
    | serve found unanswered accepts serves deviceEq =>
        rename_i client ticket verdict call backend response device
        refine ⟨client, backend, device, [], rfl, by simp, ?_⟩
        rw [deviceEq, List.append_nil]
        exact ((List.sublist_append_right _ _).subperm).trans
          (Device.sending_served found accepts).symm.subperm
  have old : ∀ other, ∀ key ∈ (observed.1.clients other).sending,
      key ∉ fresh := fun other key isSending isNew =>
    isFresh.2 key isNew (invariant.records.uploaded_of_sending isSending)
  have nodup : device.sending.Nodup := by
    obtain ⟨kept, perm, sublist⟩ := sends
    apply perm.nodup_iff.mp
    apply sublist.nodup
    exact List.nodup_append'.mpr ⟨invariant.nodup client, isFresh.1,
      fun key isSending isNew => old client key isSending isNew⟩
  have apart : ∀ other, other ≠ client →
      List.Disjoint device.sending (observed.1.clients other).sending := by
    intro other isOther key here there
    rcases List.mem_append.mp (sends.subset here) with before | new
    · exact invariant.disjoint client other (Ne.symm isOther) before there
    · exact old other key there new
  constructor
  · exact Network.moved_clients_forall
      (fun _ (device : Device) => device.sending.Nodup) nodup
      fun other _ => invariant.nodup other
  · intro one two ne
    by_cases isOne : one = client
    · subst isOne
      rw [Network.moved_clients_self,
        Network.moved_clients_of_ne _ _ _ (Ne.symm ne)]
      exact apart two (Ne.symm ne)
    · rw [Network.moved_clients_of_ne _ _ _ isOne]
      by_cases isTwo : two = client
      · subst isTwo
        rw [Network.moved_clients_self]
        exact fun key there here => apart one ne here there
      · rw [Network.moved_clients_of_ne _ _ _ isTwo]
        exact invariant.disjoint one two ne

/-- One step that uses no key twice. -/
theorem next (invariant : KeysInvariant observed)
    (taken : World.observed.next observed event = some after)
    (distinct : DistinctKeys after) : KeysInvariant after where
  records := invariant.records.next taken
  nodup := (invariant.sending_next taken distinct).1
  disjoint := (invariant.sending_next taken distinct).2
  files := invariant.files_next taken distinct
  calls := invariant.calls_next taken distinct
  held := by
    have stepped := (Machine.observe_next_eq_some.mp taken).1
    refine held_of_next ?_ ?_ stepped
    · intro client image member
      exact known_next taken distinct (invariant.held client image member)
    · intro client ticket call path document image _ found isDownload _ describes
      apply known_next taken distinct
      have known := ((invariant.calls client).of_find? found).request
      have sound := ((invariant.records.calls client).of_find? found).request
      rw [isDownload] at known sound
      rw [(describes.of_record sound.2).1]
      exact known

end KeysInvariant

end World

end AppLPS
