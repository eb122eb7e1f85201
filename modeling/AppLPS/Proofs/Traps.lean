/-
Module: AppLPS.Proofs.Traps
Purpose: The only two ways in which the app can crash: a refresh task that
  unwraps a session nobody has written, and a delete gesture that reads past
  the end of the list.
Trusted boundary: none
Main exports: World.step_act_eq_error, World.step_eq_error_iff
-/
import AppLPS.Proofs.Records

namespace AppLPS

/-! ## Runs -/

namespace World

variable {Client : Type} [DecidableEq Client]

/-- A trap of a device is a trap of the world. -/
theorem step_act_eq_error {world : World Client} {client : Client}
    {event : AppLPS.Event} {trap : Trap} (own : event.isAnswer = false)
    (trapped : (world.clients client).step event = some (.error trap)) :
    machine.step world (.act client event) = some (.error trap) := by
  have resolved : protocol.resolve world (.act client event) =
      some (client, world.server, event) :=
    Network.Protocol.resolve_act (by simp [protocol, own])
  have clientTrapped :
      protocol.client.step (world.clients client) event =
        some (.error trap) := trapped
  simp only [machine, Network.Protocol.machine, resolved, Option.bind_some,
    clientTrapped]
  rfl

/-- In every state of every run from an empty collection, with any images
stored, a step crashes exactly when it is one of the two. -/
theorem step_eq_error_iff (persisted : Client → Option FIRUser)
    (images : Bucket) {events : List (Event Client)}
    {observed : World Client × History Client}
    (run : World.observed.exec (start persisted images, {}) events =
      some observed) (event : Event Client) (trap : Trap) :
    machine.step observed.1 event = some (.error trap) ↔
      ∃ client own, event = .act client own ∧
        (observed.1.clients client).Crashes own trap := by
  have ⟨records, _⟩ := (records_always persisted images events).last run
  constructor
  · intro trapped
    obtain ⟨client, backend, taken, resolved, clientTrapped⟩ :=
      Network.Protocol.step_eq_error trapped
    cases Device.trapCause_of_step clientTrapped with
    | crashes crash =>
        refine ⟨client, taken, ?_, crash⟩
        cases event with
        | act mover own =>
            simp only [Network.Protocol.resolve, Option.ite_none_right_eq_some,
              Option.some.injEq, Prod.mk.injEq] at resolved
            obtain ⟨_, rfl, _, rfl⟩ := resolved
            rfl
        | serve mover query =>
            obtain ⟨⟨_, _⟩, served, same⟩ :=
              Option.map_eq_some_iff.mp resolved
            cases same
            obtain ⟨call, _, servedEq⟩ := Option.map_eq_some_iff.mp served
            cases servedEq
            cases crash
    | raises holds raised =>
        -- The date of an image goes back to an upload, and is one segment.
        have segment := (records.held client _ holds).isSegment
        rw [filesDocument, Firestore.document_eq segment] at raised
        cases raised
    | completion isCallback found answered failed =>
        obtain ⟨outcome, succeeded⟩ :=
          ((records.calls client).of_find? found).exists_complete answered
            (observed.1.clients client).controller
        rw [succeeded] at failed
        cases failed
  · intro crash
    obtain ⟨client, own, rfl, crashes⟩ := crash
    apply step_act_eq_error _ crashes.step_eq
    cases crashes <;> rfl

/-- The screen appears again while its row is shown, and the refresh empties
the list. -/
def refreshesUnderRow : List (Event Unit) :=
  arrives () "A" "ana@lps.es" ++ uploads () 0 "playa" [2] noon ++
    refreshes () 1 2 ++
    [.act () .render, .act () .appear, .act () (.runTask 2)]

/-- `step_eq_error_iff` at a gesture on the row that is still shown. -/
theorem step_eq_error_refreshed :
    ∃ observed,
      World.observed.exec (start (fun _ : Unit => none) ∅, {})
        refreshesUnderRow = some observed ∧
      machine.step observed.1 (.act () (.onDelete (.only 0))) =
        some (.error (.indexOutOfRange 0)) := by
  have ends :
      (World.observed.exec (start (fun _ : Unit => none) ∅, {})
        refreshesUnderRow).map (fun observed =>
          ((observed.1.clients ()).main.signInDone,
            (observed.1.clients ()).main.rendered.length,
            (observed.1.clients ()).controller.refImagenesUsuario.length)) =
        some (true, 1, 0) := by
    decide +kernel
  obtain ⟨observed, reached, shown⟩ := Option.map_eq_some_iff.mp ends
  obtain ⟨signedIn, counts⟩ := Prod.mk.inj shown
  obtain ⟨rendered, listed⟩ := Prod.mk.inj counts
  refine ⟨observed, reached, ?_⟩
  apply (step_eq_error_iff (fun _ => none) ∅ reached _ _).mpr
  refine ⟨(), .onDelete (.only 0), rfl, .subscript signedIn ?_ ⟨?_, ?_, ?_⟩⟩
  · simp [IndexSet.only, rendered]
  · simp [IndexSet.only]
  · rw [listed]
  · intro other _ _
    exact Nat.zero_le other

end World

end AppLPS
