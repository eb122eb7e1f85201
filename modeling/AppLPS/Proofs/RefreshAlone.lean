/-
Module: AppLPS.Proofs.RefreshAlone
Purpose: A refresh that runs alone lists exactly the pictures of its account:
  what the list is for, and that the callbacks of one refresh assemble it in
  any order.
Trusted boundary: none
Main exports: rowOf, Backend.picture, Backend.listing, World.RefreshStep,
  RefreshPhase, World.refreshRuns_of_guarded, World.refresh_alone
-/
import AppLPS.Proofs.WorldSteps

namespace AppLPS

/-! ## What the list is for -/

/-- The row of a document and the bytes of its picture. -/
def rowOf (document : QueryDocumentSnapshot) (bytes : Data) :
    Option UserImage :=
  match document.data.lookup "name", document.data.lookup "date",
      document.data.lookup "email" with
  | some (.string name), some (.string date), some (.string email) =>
      some { name := name, date := date, email := email, data := bytes }
  | _, _, _ => none

theorem rowOf_eq_some {document : QueryDocumentSnapshot} {bytes : Data}
    {row : UserImage} :
    rowOf document bytes = some row ↔
      Describes document row ∧ row.data = bytes := by
  constructor
  · intro isRow
    unfold rowOf at isRow
    split at isRow
    · rename_i named dated owned
      cases isRow
      exact ⟨⟨named, dated, owned⟩, rfl⟩
    · cases isRow
  · intro isRow
    obtain ⟨describes, rfl⟩ := isRow
    rw [rowOf, describes.name, describes.date, describes.email]

namespace Backend

/-- The picture of a document that a download can fetch. -/
def picture (backend : Backend) (document : QueryDocumentSnapshot) :
    Option UserImage :=
  (backend.images.lookup
    (imagePath (document.data.interpolated "date" "none"))).bind fun bytes =>
      if bytes.length ≤ maxSize then rowOf document bytes else none

/-- The documents of an account. -/
def documentsOf (backend : Backend) (correoUsuario : String) :
    List QueryDocumentSnapshot :=
  ownDocuments correoUsuario (snapshotOf backend.files)

/-- The list an account should see: one row for each of its documents whose
download succeeds. -/
def listing (backend : Backend) (correoUsuario : String)
    (succeeds : QueryDocumentSnapshot → Bool) : List UserImage :=
  ((backend.documentsOf correoUsuario).filter succeeds).filterMap
    backend.picture

end Backend

/-- The three strings that the callbacks cast. -/
def HasStrings (document : QueryDocumentSnapshot) : Prop :=
  ∀ key ∈ ["name", "date", "email"], ∃ value,
    document.data.lookup key = some (.string value)

/-- What the app writes has its strings. -/
theorem hasStrings_record (documentID email name date : String) :
    HasStrings ⟨documentID, .record email name date⟩ := by
  intro key member
  rcases List.mem_cons.mp member with rfl | member
  · exact ⟨name, rfl⟩
  · rcases List.mem_cons.mp member with rfl | member
    · exact ⟨date, rfl⟩
    · cases List.mem_singleton.mp member
      exact ⟨email, rfl⟩

/-- A document with its strings has a row for any bytes. -/
theorem HasStrings.exists_row {document : QueryDocumentSnapshot}
    (strings : HasStrings document) (bytes : Data) :
    ∃ row, rowOf document bytes = some row := by
  obtain ⟨name, named⟩ := strings "name" (by simp)
  obtain ⟨date, dated⟩ := strings "date" (by simp)
  obtain ⟨email, owned⟩ := strings "email" (by simp)
  exact ⟨{ name := name, date := date, email := email, data := bytes },
    rowOf_eq_some.mpr ⟨⟨named, dated, owned⟩, rfl⟩⟩

/-! ## One refresh in flight -/

/-- The row that a call of the refresh will append. -/
def coming (backend : Backend) (succeeds : QueryDocumentSnapshot → Bool)
    (call : Call) : Option UserImage :=
  match call.request, call.answer with
  | .getData _ document, none =>
      if succeeds document then backend.picture document else none
  | .getData _ document, some (.data bytes) => rowOf document bytes
  | _, _ => none

/-- The verdict that the pattern gives the call: a query succeeds, and a download
is granted as the pattern says. -/
def Call.verdictFits (succeeds : QueryDocumentSnapshot → Bool) (call : Call)
    (verdict : Verdict) : Bool :=
  match call.request with
  | .getData _ document => verdict.isGranted = succeeds document
  | _ => verdict.isGranted

/-- A download of a document that has its strings. -/
def IsDownload (call : Call) : Prop :=
  ∃ document, call.request = download document ∧ HasStrings document

/-- How far the refresh has come: its query is pending and the list is as
`getUserData` has left it, or its downloads are, and the rows with those to
come are the listing. -/
inductive RefreshPhase (backend : Backend) (correoUsuario : String)
    (succeeds : QueryDocumentSnapshot → Bool) (device : Device) : Prop where
  | querying {call : Call} (values : device.pending.values = [call])
      (isQuery : call.request = .getDocuments correoUsuario)
      (answer : call.answer = none ∨
        call.answer = some (.documents (snapshotOf backend.files)))
      (rows : device.controller.refImagenesUsuario = [])
      (empty : device.controller.empty = true)
  | downloading (calls : device.pending.All IsDownload)
      (rows : (device.controller.refImagenesUsuario ++
        device.pending.yields (coming backend succeeds)).Perm
          (backend.listing correoUsuario succeeds))
      (loading : device.controller.loading = false)
      (empty : device.controller.empty =
        (backend.documentsOf correoUsuario).isEmpty)

/-- What the list of a device shows of an account: no row that is not in the
listing, and all of the listing at rest. -/
structure Lists (backend : Backend) (correoUsuario : String)
    (succeeds : QueryDocumentSnapshot → Bool) (device : Device) : Prop where
  partly : device.controller.refImagenesUsuario.Subperm
    (backend.listing correoUsuario succeeds)
  wholly : device.pending.values = [] →
    device.controller.refImagenesUsuario.Perm
      (backend.listing correoUsuario succeeds)
  loading : device.pending.values = [] → device.controller.loading = false
  empty : device.pending.values = [] →
    (device.controller.empty = true ↔ backend.documentsOf correoUsuario = [])

namespace RefreshPhase

variable {backend : Backend} {correoUsuario : String}
  {succeeds : QueryDocumentSnapshot → Bool} {device after : Device}

/-- A step that leaves the list and the requests alone keeps the phase. -/
theorem of_same (phase : RefreshPhase backend correoUsuario succeeds device)
    (gallery : Device.SameGallery device.controller after.controller)
    (pending : after.pending = device.pending) :
    RefreshPhase backend correoUsuario succeeds after := by
  cases phase with
  | querying values isQuery answer rows empty =>
      rw [← pending] at values
      rw [← gallery.rows] at rows
      rw [← gallery.empty] at empty
      exact .querying values isQuery answer rows empty
  | downloading calls rows loading empty =>
      rw [← pending] at calls
      rw [← pending, ← gallery.rows] at rows
      rw [← gallery.loading] at loading
      rw [← gallery.empty] at empty
      exact .downloading calls rows loading empty

/-- The downloads that a refresh starts will yield the listing. -/
theorem yields_downloads (backend : Backend) (correoUsuario : String)
    (succeeds : QueryDocumentSnapshot → Bool) :
    ((backend.documentsOf correoUsuario).map download |>.map
        Call.fresh).filterMap (coming backend succeeds) =
      backend.listing correoUsuario succeeds := by
  rw [Backend.listing, List.map_map, List.filterMap_map,
    List.filterMap_filter]
  rfl

/-- The query completes: its downloads are in flight. -/
private theorem documentsReceived {ticket : Nat} {call : Call}
    (strings : ∀ document ∈ backend.documentsOf correoUsuario,
      HasStrings document)
    (values : device.pending.values = [call])
    (rows : device.controller.refImagenesUsuario = [])
    (empty : device.controller.empty = true)
    (found : device.pending.find? ticket = some call) :
    RefreshPhase backend correoUsuario succeeds
      ({ device with pending := device.pending.remove ticket }.perform
        { controller := { device.controller with
            loading := false
            empty := device.controller.empty &&
              (backend.documentsOf correoUsuario).isEmpty }
          requests := (backend.documentsOf correoUsuario).map download }) := by
  have nothingElse : (device.pending.remove ticket).values = [] := by
    have lengths := Pool.length_values_remove found
    rw [values, List.length_singleton] at lengths
    exact List.eq_nil_of_length_eq_zero (by omega)
  refine .downloading ?_ ?_ rfl ?_
  · have noneBefore : (device.pending.remove ticket).All IsDownload := by
      intro other member
      rw [nothingElse] at member
      cases member
    apply noneBefore.submitAll
    intro other member
    obtain ⟨request, isDownload, rfl⟩ := List.mem_map.mp member
    obtain ⟨document, own, rfl⟩ := List.mem_map.mp isDownload
    exact ⟨document, rfl, strings document own⟩
  · rw [Device.perform_pending, Pool.yields_submitAll,
      Pool.yields_of_no_values _ nothingElse, yields_downloads,
      Device.perform_controller]
    simp [rows]
  · rw [Device.perform_controller]
    simp [empty]

/-- A completion closure keeps the phase, or moves it on. -/
theorem callback {ticket : Nat}
    (phase : RefreshPhase backend correoUsuario succeeds device)
    (strings : ∀ document ∈ backend.documentsOf correoUsuario,
      HasStrings document)
    (taken : Device.machine.next device (.callback ticket) = some after) :
    RefreshPhase backend correoUsuario succeeds after := by
  cases Device.acts_of_next taken with
  | quiet _ _ _ isQuiet => cases isQuiet
  | callback found answered completes =>
      rename_i call response outcome
      cases phase with
      | querying values isQuery answer rows empty =>
          have member := Pool.mem_values_of_find? found
          rw [values] at member
          cases List.mem_singleton.mp member
          rcases answer with unanswered | isSnapshot
          · rw [unanswered] at answered
            cases answered
          · cases isSnapshot.symm.trans answered
            rw [isQuery] at completes
            cases completes
            exact documentsReceived strings values rows empty found
      | downloading calls rows loading empty =>
          obtain ⟨document, isDownload, _⟩ := calls.of_find? found
          have split := Pool.yields_remove_perm (coming backend succeeds) found
          have step := rows.symm.trans (split.append_left _)
          rw [coming, isDownload, answered] at step
          rw [isDownload] at completes
          cases completes with
          | data named dated owned =>
              rename_i imageData name date email
              have isRow : rowOf document imageData = some
                  { name := name, date := date, email := email,
                    data := imageData } :=
                rowOf_eq_some.mpr ⟨⟨named, dated, owned⟩, rfl⟩
              refine .downloading (calls.remove ticket) ?_ rfl empty
              apply (step.trans _).symm
              simp [download, isRow]
          | dataFailed =>
              refine .downloading (calls.remove ticket) ?_ loading empty
              exact step.symm

/-- Serving a query of a device without pending writes shows the collection. -/
theorem localView_of_query {call : Call} (files : Collection)
    (isQuery : call.request = .getDocuments correoUsuario) (visible : Nat) :
    localView files ((unservedWrites [call]).take visible) = files := by
  simp [unservedWrites, isQuery, Request.isFirestoreWrite, localView]

/-- Serving a call of the refresh keeps the phase: the answer yields what was
to come. -/
theorem serve {ticket : Nat} {call : Call} {verdict : Verdict}
    {served : Backend} {response : Response}
    (phase : RefreshPhase backend correoUsuario succeeds device)
    (verdictEq : call.verdictFits succeeds verdict = true)
    (found : device.pending.find? ticket = some call)
    (unanswered : call.answer = none)
    (accepts : call.request.Accepts response = true)
    (serves : backend.Serves (unservedWrites device.pending.values)
      call.request verdict served response) :
    served = backend ∧
      RefreshPhase backend correoUsuario succeeds
        { device with
          pending := device.pending.update ticket fun call =>
            call.respond response } := by
  have answered := Call.respond_answer accepts
  have requestEq := call.respond_request response
  cases phase with
  | querying values isQuery answer rows empty =>
      have member := Pool.mem_values_of_find? found
      rw [values] at member
      cases List.mem_singleton.mp member
      rw [Call.verdictFits, isQuery] at verdictEq
      rw [isQuery, values] at serves
      cases serves with
      | refused => cases verdictEq
      | documents =>
          rename_i visible
          refine ⟨rfl, .querying ?_ (requestEq.trans isQuery) (.inr ?_) rows
            empty⟩
          · obtain ⟨before, behind, valuesEq, _, updated⟩ :=
              Pool.exists_values_split found
            rw [updated]
            rw [values] at valuesEq
            obtain ⟨rfl, rfl⟩ : before = [] ∧ behind = [] := by
              have lengths := congrArg List.length valuesEq
              simp only [List.length_append, List.length_cons,
                List.length_nil] at lengths
              exact ⟨List.eq_nil_of_length_eq_zero (by omega),
                List.eq_nil_of_length_eq_zero (by omega)⟩
            rfl
          · rw [answered, localView_of_query backend.files isQuery visible]
  | downloading calls rows loading empty =>
      obtain ⟨document, isDownload, strings⟩ := calls.of_find? found
      have same : coming backend succeeds (call.respond response) =
            coming backend succeeds call ∧ served = backend := by
        rw [Call.verdictFits, isDownload] at verdictEq
        rw [coming, coming, requestEq, answered, unanswered, isDownload]
        rw [isDownload] at serves
        simp only [download, decide_eq_true_eq] at verdictEq ⊢
        rw [← verdictEq]
        cases serves with
        | refused => exact ⟨rfl, rfl⟩
        | data stored fits =>
            simp [Verdict.isGranted, Backend.picture, stored, fits]
        | dataFailed unavailable =>
            refine ⟨?_, rfl⟩
            simp only [Verdict.isGranted, if_true, Backend.picture]
            cases stored : backend.images.lookup
              (imagePath (document.data.interpolated "date" "none")) with
            | none => rfl
            | some bytes =>
                have tooLarge := unavailable bytes stored
                simp only [Option.bind_some]
                rw [if_neg (by omega)]
      refine ⟨same.2, .downloading ?_ ?_ loading empty⟩
      · exact calls.update found ⟨document, requestEq.trans isDownload, strings⟩
      · rw [Pool.yields_update _ found same.1]
        exact rows

/-- The closure of an answered call does not trap.  It issues downloads only,
and none if it is itself one. -/
theorem exists_outcome {ticket : Nat} {call : Call} {response : Response}
    (strings : ∀ document ∈ snapshotOf backend.files, HasStrings document)
    (phase : RefreshPhase backend correoUsuario succeeds device)
    (found : device.pending.find? ticket = some call)
    (answered : call.answer = some response) :
    ∃ outcome,
      call.request.complete device.controller response = .ok outcome ∧
      (∀ request ∈ outcome.requests, IsDownload (Call.fresh request)) ∧
      (device.pending.remove ticket).All IsDownload ∧
      (IsDownload call → outcome.requests = []) := by
  cases phase with
  | querying values isQuery answer rows empty =>
      have member := Pool.mem_values_of_find? found
      rw [values] at member
      cases List.mem_singleton.mp member
      rcases answer with unanswered | isSnapshot
      · rw [unanswered] at answered
        cases answered
      · cases isSnapshot.symm.trans answered
        have emails : AllHaveString "email" (snapshotOf backend.files) :=
          fun document member => strings document member "email" (by simp)
        rw [isQuery]
        refine ⟨_, FirebaseController.documentsReceived_eq_ok.mpr
          ⟨emails, rfl⟩, ?_, ?_, ?_⟩
        · intro request isIssued
          obtain ⟨document, own, rfl⟩ := List.mem_map.mp isIssued
          exact ⟨document, rfl, strings document (List.mem_of_mem_filter own)⟩
        · intro other member
          have lengths := Pool.length_values_remove found
          rw [values, List.length_singleton] at lengths
          have noValues := List.length_pos_of_mem member
          omega
        · intro isDownload
          obtain ⟨document, requestEq, _⟩ := isDownload
          cases isQuery.symm.trans requestEq
  | downloading calls rows loading empty =>
      obtain ⟨document, isDownload, hasStrings⟩ := calls.of_find? found
      have accepts := call.accepted response answered
      rw [isDownload] at accepts ⊢
      cases response with
      | data bytes =>
          obtain ⟨row, isRow⟩ := hasStrings.exists_row bytes
          have describes := (rowOf_eq_some.mp isRow).1
          exact ⟨_, FirebaseController.dataReceived_eq_ok.mpr
            ⟨row.name, row.date, row.email, describes.name, describes.date,
              describes.email, rfl⟩, nofun, calls.remove ticket, fun _ => rfl⟩
      | failure description =>
          exact ⟨_, rfl, nofun, calls.remove ticket, fun _ => rfl⟩
      | documents snapshot => cases accepts
      | done => cases accepts

/-- In every phase the list shows what it should. -/
theorem lists (phase : RefreshPhase backend correoUsuario succeeds device) :
    Lists backend correoUsuario succeeds device := by
  cases phase with
  | querying values isQuery answer rows empty =>
      refine ⟨?_, ?_, ?_, ?_⟩
      · rw [rows]
        exact List.nil_subperm
      · intro nothing
        rw [values] at nothing
        cases nothing
      · intro nothing
        rw [values] at nothing
        cases nothing
      · intro nothing
        rw [values] at nothing
        cases nothing
  | downloading calls rows loading empty =>
      refine ⟨?_, ?_, fun _ => loading, ?_⟩
      · have shown : device.controller.refImagenesUsuario.Sublist
            (device.controller.refImagenesUsuario ++
              device.pending.yields (coming backend succeeds)) :=
          List.sublist_append_left _ _
        exact shown.subperm.trans rows.subperm
      · intro nothing
        rw [Pool.yields_of_no_values _ nothing, List.append_nil] at rows
        exact rows
      · intro _
        rw [empty, List.isEmpty_iff]

end RefreshPhase

/-! ## A refresh of the world that runs alone -/

namespace World

variable {Client : Type} [DecidableEq Client]

/-- No operation but the refresh runs: its device starts nothing, its requests
are granted after the pattern, and the requests of other devices are reads or
are refused. -/
def RefreshStep (client : Client) (succeeds : QueryDocumentSnapshot → Bool)
    (world : World Client) : Event Client → Prop
  | .act mover event => mover = client → event.startsNothing = true
  | .serve mover (ticket, verdict) =>
      ∀ call ∈ (world.clients mover).pending.find? ticket,
        if mover = client then call.verdictFits succeeds verdict = true
        else call.request.reads = true ∨ verdict.isGranted = false

instance RefreshStep.decidable (client : Client)
    (succeeds : QueryDocumentSnapshot → Bool) (world : World Client) :
    (event : Event Client) → Decidable (RefreshStep client succeeds world event)
  | .act mover event =>
      inferInstanceAs (Decidable (mover = client → event.startsNothing = true))
  | .serve mover (ticket, verdict) =>
      inferInstanceAs (Decidable
        (∀ call ∈ (world.clients mover).pending.find? ticket,
          if mover = client then call.verdictFits succeeds verdict = true
          else call.request.reads = true ∨ verdict.isGranted = false))

/-- The refresh can be continued, alone, until nothing of it is pending. -/
def CanFinish (client : Client) (succeeds : QueryDocumentSnapshot → Bool)
    (world : World Client) : Prop :=
  ∃ events finished,
    machine.Guarded (RefreshStep client succeeds) world events ∧
    machine.exec world events = some finished ∧
    (finished.clients client).pending.values = []

/-- The refresh of a device in a world with given stores. -/
structure RefreshRuns (client : Client) (backend : Backend)
    (correoUsuario : String) (succeeds : QueryDocumentSnapshot → Bool)
    (world : World Client) : Prop where
  server : world.server = backend
  phase : RefreshPhase backend correoUsuario succeeds (world.clients client)

namespace RefreshRuns

variable {client : Client} {backend : Backend} {correoUsuario : String}
  {succeeds : QueryDocumentSnapshot → Bool} {world after : World Client}

theorem next {event : Event Client}
    (strings : ∀ document ∈ backend.documentsOf correoUsuario,
      HasStrings document)
    (runs : RefreshRuns client backend correoUsuario succeeds world)
    (alone : RefreshStep client succeeds world event)
    (taken : machine.next world event = some after) :
    RefreshRuns client backend correoUsuario succeeds after := by
  cases acts_of_next taken with
  | act own clientStep =>
      rename_i mover event device
      by_cases here : mover = client
      · subst here
        refine ⟨runs.server, ?_⟩
        rw [Network.moved_clients_self]
        rcases Device.quiet_of_startsNothing (alone rfl) clientStep with
          ⟨gallery, pending⟩ | ⟨ticket, rfl⟩ | ⟨ticket, response, rfl⟩
        · exact runs.phase.of_same gallery pending
        · exact runs.phase.callback strings clientStep
        · cases own
      · refine ⟨runs.server, ?_⟩
        rw [Network.moved_clients_of_ne _ _ _ (Ne.symm here)]
        exact runs.phase
  | serve found unanswered accepts serves deviceEq =>
      rename_i mover ticket verdict call served response device
      have fits := alone call found
      by_cases here : mover = client
      · subst here
        rw [if_pos rfl] at fits
        rw [runs.server] at serves
        have ⟨sameStores, phase⟩ :=
          runs.phase.serve fits found unanswered accepts serves
        subst deviceEq
        refine ⟨sameStores, ?_⟩
        rw [Network.moved_clients_self]
        exact phase
      · rw [if_neg here] at fits
        refine ⟨(serves.eq_of_harmless fits).trans runs.server, ?_⟩
        rw [Network.moved_clients_of_ne _ _ _ (Ne.symm here)]
        exact runs.phase

/-- The refresh starts on a device with nothing pending. -/
theorem of_runTask {ticket : Nat}
    (nothing : (world.clients client).pending.values = [])
    (account : (world.clients client).accountOf ticket = some correoUsuario)
    (taken : machine.next world (.act client (.runTask ticket)) = some after) :
    RefreshRuns client world.server correoUsuario succeeds after := by
  cases acts_of_next taken with
  | act own clientStep =>
      refine ⟨rfl, ?_⟩
      rw [Network.moved_clients_self]
      cases Device.acts_of_next clientStep with
      | quiet _ _ _ isQuiet => cases isQuiet
      | runTask found reads =>
          cases account.symm.trans (Device.accountOf_eq found reads)
          have values : ((world.clients client).pending.submitAll
              [Call.fresh (.getDocuments correoUsuario)]).values =
                [Call.fresh (.getDocuments correoUsuario)] := by
            rw [Pool.values_submitAll, nothing, List.nil_append]
          exact .querying values rfl (.inl rfl) rfl rfl

/-! ### The refresh can always be brought to its end -/

/-- A verdict that fits the pattern. -/
def fittingVerdict (succeeds : QueryDocumentSnapshot → Bool) (call : Call) :
    Verdict :=
  match call.request with
  | .getData _ document =>
      if succeeds document then .granted 0 else .refused "permission denied"
  | _ => .granted 0

theorem verdictFits_fittingVerdict (succeeds : QueryDocumentSnapshot → Bool)
    (call : Call) :
    call.verdictFits succeeds (fittingVerdict succeeds call) = true := by
  unfold Call.verdictFits fittingVerdict
  cases call.request with
  | getData path document =>
      cases granted : succeeds document <;> simp [granted, Verdict.isGranted]
  | _ => rfl

/-- One answered call of the refresh is completed: only downloads are left, and
one fewer than before if the call was a download. -/
private theorem exists_completion {ticket : Nat} {call : Call}
    {response : Response}
    (strings : ∀ document ∈ snapshotOf backend.files, HasStrings document)
    (runs : RefreshRuns client backend correoUsuario succeeds world)
    (found : (world.clients client).pending.find? ticket = some call)
    (answered : call.answer = some response) :
    ∃ finished, machine.next world (.act client (.callback ticket)) =
        some finished ∧
      (finished.clients client).pending.All IsDownload ∧
      (IsDownload call → (finished.clients client).pending.values.length + 1 =
        (world.clients client).pending.values.length) := by
  obtain ⟨outcome, completed, issued, others, isLast⟩ :=
    runs.phase.exists_outcome strings found answered
  refine ⟨_, next_act rfl (Device.next_callback found answered completed),
    ?_, ?_⟩
  · rw [Network.moved_clients_self, Device.perform_pending]
    apply others.submitAll
    intro fresh member
    obtain ⟨request, isIssued, rfl⟩ := List.mem_map.mp member
    exact issued request isIssued
  · intro isDownload
    rw [Network.moved_clients_self, Device.perform_pending, isLast isDownload]
    exact Pool.length_values_remove found

/-- A call of the refresh can be brought to an answer while everything stays in
flight. -/
private theorem exists_answer {ticket : Nat} {call : Call}
    (strings : ∀ document ∈ backend.documentsOf correoUsuario,
      HasStrings document)
    (runs : RefreshRuns client backend correoUsuario succeeds world)
    (found : (world.clients client).pending.find? ticket = some call) :
    ∃ events reached answeredCall response,
      machine.Guarded (RefreshStep client succeeds) world events ∧
      machine.exec world events = some reached ∧
      RefreshRuns client backend correoUsuario succeeds reached ∧
      (reached.clients client).pending.find? ticket = some answeredCall ∧
      answeredCall.answer = some response ∧
      (IsDownload call → IsDownload answeredCall) ∧
      (reached.clients client).pending.values.length =
        (world.clients client).pending.values.length := by
  cases answer : call.answer with
  | some response =>
      exact ⟨[], world, call, response, trivial, rfl, runs, found, answer, id,
        rfl⟩
  | none =>
      have taken := next_serve (fittingVerdict succeeds call) found answer
      have accepts := Backend.accepts_serve world.server
        (unservedWrites (world.clients client).pending.values) call.request
        (fittingVerdict succeeds call)
      have alone : RefreshStep client succeeds world
          (.serve client (ticket, fittingVerdict succeeds call)) := by
        intro other otherFound
        cases found.symm.trans otherFound
        rw [if_pos rfl]
        exact verdictFits_fittingVerdict succeeds call
      refine ⟨[_], _, call.respond _, _,
        Machine.guarded_cons taken alone trivial, ?_,
        runs.next strings alone taken, ?_, Call.respond_answer accepts, ?_, ?_⟩
      · rw [Machine.exec_cons, taken]
        rfl
      · rw [Network.moved_clients_self]
        exact Pool.find?_update found _
      · intro isDownload
        obtain ⟨document, requestEq, hasStrings⟩ := isDownload
        exact ⟨document, (call.respond_request _).trans requestEq, hasStrings⟩
      · rw [Network.moved_clients_self]
        exact Pool.length_values_update _ _ _

/-- One call of the refresh can be completed. -/
private theorem exists_progress {ticket : Nat} {call : Call}
    (strings : ∀ document ∈ snapshotOf backend.files, HasStrings document)
    (runs : RefreshRuns client backend correoUsuario succeeds world)
    (found : (world.clients client).pending.find? ticket = some call) :
    ∃ events reached,
      machine.Guarded (RefreshStep client succeeds) world events ∧
      machine.exec world events = some reached ∧
      RefreshRuns client backend correoUsuario succeeds reached ∧
      (reached.clients client).pending.All IsDownload ∧
      (IsDownload call → (reached.clients client).pending.values.length + 1 =
        (world.clients client).pending.values.length) := by
  have ownStrings : ∀ document ∈ backend.documentsOf correoUsuario,
      HasStrings document :=
    fun document own => strings document (List.mem_of_mem_filter own)
  obtain ⟨events, middle, answeredCall, response, alone, run, middleRuns,
    answeredFound, answered, staysDownload, sameLength⟩ :=
    runs.exists_answer ownStrings found
  obtain ⟨reached, taken, downloads, fewer⟩ :=
    middleRuns.exists_completion strings answeredFound answered
  have quietStep : RefreshStep client succeeds middle
      (.act client (.callback ticket)) := fun _ => rfl
  refine ⟨events ++ [.act client (.callback ticket)], reached,
    alone.append run (Machine.guarded_cons taken quietStep trivial), ?_,
    middleRuns.next ownStrings quietStep taken, downloads, ?_⟩
  · rw [Machine.exec_snoc, run]
    exact taken
  · intro isDownload
    rw [← sameLength]
    exact fewer (staysDownload isDownload)

/-- What has been reached by a guarded run can finish from there. -/
private theorem canFinish_of_run {reached : World Client}
    {events : List (Event Client)}
    (alone : machine.Guarded (RefreshStep client succeeds) world events)
    (run : machine.exec world events = some reached)
    (finishes : CanFinish client succeeds reached) :
    CanFinish client succeeds world := by
  obtain ⟨rest, finished, restAlone, restRun, nothing⟩ := finishes
  refine ⟨events ++ rest, finished, alone.append run restAlone, ?_, nothing⟩
  rw [Machine.exec_append, run]
  exact restRun

private theorem exists_find {device : Device}
    (busy : device.pending.values ≠ []) :
    ∃ ticket call, device.pending.find? ticket = some call := by
  obtain ⟨call, member⟩ := List.exists_mem_of_ne_nil _ busy
  obtain ⟨item, itemMember, _⟩ := List.mem_map.mp member
  exact ⟨item.1, item.2, Pool.find?_of_mem_items itemMember⟩

/-- Downloads alone can all be completed: each completion leaves one fewer. -/
private theorem canFinish_downloads
    (strings : ∀ document ∈ snapshotOf backend.files, HasStrings document)
    (runs : RefreshRuns client backend correoUsuario succeeds world)
    (downloads : (world.clients client).pending.All IsDownload) :
    CanFinish client succeeds world := by
  generalize count : (world.clients client).pending.values.length = left
  induction left generalizing world with
  | zero =>
      exact ⟨[], world, trivial, rfl, List.eq_nil_of_length_eq_zero count⟩
  | succ left inductionHypothesis =>
      obtain ⟨ticket, call, found⟩ :=
        exists_find (List.ne_nil_of_length_eq_add_one count)
      obtain ⟨events, reached, alone, run, reachedRuns, onlyDownloads, fewer⟩ :=
        runs.exists_progress strings found
      have isFewer := fewer (downloads.of_find? found)
      apply canFinish_of_run alone run
      apply inductionHypothesis reachedRuns onlyDownloads
      omega

/-- A refresh that runs alone can always be brought to its end. -/
theorem canFinish
    (strings : ∀ document ∈ snapshotOf backend.files, HasStrings document)
    (runs : RefreshRuns client backend correoUsuario succeeds world) :
    CanFinish client succeeds world := by
  by_cases nothing : (world.clients client).pending.values = []
  · exact ⟨[], world, trivial, rfl, nothing⟩
  · obtain ⟨ticket, call, found⟩ := exists_find nothing
    obtain ⟨events, reached, alone, run, reachedRuns, downloads, _⟩ :=
      runs.exists_progress strings found
    exact canFinish_of_run alone run
      (reachedRuns.canFinish_downloads strings downloads)

end RefreshRuns

/-- The run lemma: the refresh is in one of its phases in every state of a run
in which it runs alone. -/
theorem refreshRuns_of_guarded {client : Client}
    {succeeds : QueryDocumentSnapshot → Bool} {world started : World Client}
    {ticket : Nat} {correoUsuario : String} {events : List (Event Client)}
    (nothing : (world.clients client).pending.values = [])
    (strings : ∀ document ∈ snapshotOf world.server.files, HasStrings document)
    (account : (world.clients client).accountOf ticket = some correoUsuario)
    (begins : machine.next world (.act client (.runTask ticket)) = some started)
    (alone : machine.Guarded (RefreshStep client succeeds) started events) :
    machine.Always
      (RefreshRuns client world.server correoUsuario succeeds) started
      events := by
  apply Machine.always_of_guarded _
    (RefreshRuns.of_runTask nothing account begins) alone
  intro visited event after runs quietStep taken
  apply runs.next _ quietStep taken
  intro document own
  exact strings document (List.mem_of_mem_filter own)

/-- A refresh that runs alone lists exactly the pictures of its account: one row
for each document of the account whose download succeeds, with the fields of
that document and the bytes stored under its date.  Until then the list shows
nothing else, and no row twice.  The refresh can always be brought to its
end. -/
theorem refresh_alone {client : Client}
    {succeeds : QueryDocumentSnapshot → Bool} {world started : World Client}
    {ticket : Nat} {correoUsuario : String} {events : List (Event Client)}
    (nothing : (world.clients client).pending.values = [])
    (strings : ∀ document ∈ snapshotOf world.server.files, HasStrings document)
    (account : (world.clients client).accountOf ticket = some correoUsuario)
    (begins : machine.next world (.act client (.runTask ticket)) = some started)
    (alone : machine.Guarded (RefreshStep client succeeds) started events) :
    machine.Always (fun visited =>
        Lists world.server correoUsuario succeeds (visited.clients client) ∧
        CanFinish client succeeds visited) started events := by
  have runs := refreshRuns_of_guarded nothing strings account begins alone
  apply runs.mono
  intro visited visitedRuns
  exact ⟨visitedRuns.phase.lists, visitedRuns.canFinish strings⟩

/-- Two pictures of one account and one of another. -/
def threePictures : Backend where
  files := ([⟨"1", .record "ana@lps.es" "playa" "1"⟩,
    ⟨"2", .record "luz@lps.es" "mar" "2"⟩,
    ⟨"3", .record "ana@lps.es" "sol" "3"⟩] :
      List (Sigma fun _ : String => Fields)).toAList
  images := ([⟨"images/1", [1]⟩, ⟨"images/2", [2]⟩, ⟨"images/3", [3]⟩] :
    List (Sigma fun _ : String => Data)).toAList

/-- A device that is about to refresh. -/
def aboutToRefresh : World Unit where
  clients := fun _ =>
    { tasks := Pool.empty.submit (.afterUpload "ana@lps.es") }
  server := threePictures

/-- `refresh_alone` at an account with two pictures, of which the second to be
answered cannot be downloaded. -/
theorem refresh_alone_one_refused :
    ∃ started reached : World Unit,
      machine.next aboutToRefresh (.act () (.runTask 0)) = some started ∧
      machine.exec started (completes () 0 ++
        [.serve () (2, .granted 0), .serve () (1, .refused "denied"),
          .act () (.callback 2), .act () (.callback 1)]) = some reached ∧
      (reached.clients ()).pending.values = [] ∧
      Lists threePictures "ana@lps.es" (fun document => document.documentID = "3")
        (reached.clients ()) := by
  have ends :
      (machine.next aboutToRefresh (.act () (.runTask 0))).bind (fun started =>
        (machine.exec started (completes () 0 ++
          [.serve () (2, .granted 0), .serve () (1, .refused "denied"),
            .act () (.callback 2), .act () (.callback 1)])).map fun reached =>
              (reached.clients ()).pending.values.length) = some 0 := by
    decide +kernel
  have alone : ∀ started ∈ machine.next aboutToRefresh (.act () (.runTask 0)),
      machine.Guarded
        (RefreshStep () fun document => document.documentID = "3") started
        (completes () 0 ++
          [.serve () (2, .granted 0), .serve () (1, .refused "denied"),
            .act () (.callback 2), .act () (.callback 1)]) := by
    decide +kernel
  obtain ⟨started, begins, rest⟩ := Option.bind_eq_some_iff.mp ends
  obtain ⟨reached, run, count⟩ := Option.map_eq_some_iff.mp rest
  have strings : ∀ document ∈ snapshotOf aboutToRefresh.server.files,
      HasStrings document := by
    have three : snapshotOf aboutToRefresh.server.files =
        [⟨"1", .record "ana@lps.es" "playa" "1"⟩,
          ⟨"2", .record "luz@lps.es" "mar" "2"⟩,
          ⟨"3", .record "ana@lps.es" "sol" "3"⟩] := by
      decide +kernel
    intro document member
    simp only [three, List.mem_cons, List.not_mem_nil, or_false] at member
    rcases member with rfl | rfl | rfl <;> apply hasStrings_record
  have account : (aboutToRefresh.clients ()).accountOf 0 =
      some "ana@lps.es" := rfl
  have always := refresh_alone rfl strings account begins
    (alone started begins)
  exact ⟨started, reached, begins, run, List.eq_nil_of_length_eq_zero count,
    (always.last run).1⟩

end World

end AppLPS
