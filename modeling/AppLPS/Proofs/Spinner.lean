/-
Module: AppLPS.Proofs.Spinner
Purpose: The loading spinner is backed by a request in flight: one flag stands
  for any number of overlapping refreshes and uploads, and never outlives them.
Trusted boundary: none
Main exports: Request.Loads, Completes.loading, Device.SpinnerBacked,
  Device.spinner_backed
-/
import AppLPS.Proofs.DeviceSteps

namespace AppLPS

/-! ## The requests behind the spinner -/

/-- The requests whose issue goes with setting `loading`: the query of
`getUserData` and the document write of `uploadData`. -/
inductive Request.Loads : Request → Prop where
  | getUserData {correoUsuario : String} :
      Loads (.getDocuments correoUsuario)
  | uploadData {correoUsuario nombre fecha : String} :
      Loads (.setData fecha (.record correoUsuario nombre fecha)
        (some correoUsuario))

/-- Such a request clears `loading` when it completes, whatever its result. -/
theorem Request.Loads.clearsLoading {request : Request}
    (loads : request.Loads) : request.clearsLoading = true := by
  cases loads <;> rfl

/-- When `loading` is set after a completion closure, the closure has issued a
request behind the spinner, or the flag was set before and the completed
request is not one that clears it. -/
theorem Completes.loading {controller : FirebaseController}
    {request : Request} {response : Response} {outcome : Outcome}
    (completes : Completes controller request response outcome)
    (loading : outcome.controller.loading = true) :
    (∃ issued ∈ outcome.requests, issued.Loads) ∨
      (controller.loading = true ∧ request.clearsLoading = false) := by
  cases completes with
  | documents => cases loading
  | documentsFailed => cases loading
  | data => cases loading
  | uploaded => cases loading
  | uploadFailed => cases loading
  | put => exact .inl ⟨_, List.mem_singleton_self _, .uploadData⟩
  | dataFailed => exact .inr ⟨loading, rfl⟩
  | putFailed => exact .inr ⟨loading, rfl⟩
  | edited => exact .inr ⟨loading, rfl⟩
  | deleted => exact .inr ⟨loading, rfl⟩
  | itemDeleted => exact .inr ⟨loading, rfl⟩

namespace Device

/-! ## The invariant -/

/-- A request behind the spinner is in flight. -/
def LoadInFlight (device : Device) : Prop :=
  device.pending.Any fun call => call.request.Loads

/-- While `loading` is set some query of a refresh or document write of an
upload is in flight, and with nothing in flight the spinner is not shown. -/
structure SpinnerBacked (device : Device) : Prop where
  inFlight : device.controller.loading = true → device.LoadInFlight
  notShown : device.pending.values = [] →
    device.main.body device.controller ≠ .loading

/-- One step keeps a request in flight behind the flag. -/
theorem loadInFlight_of_next {device after : Device} {event : Event}
    (backed : device.controller.loading = true → device.LoadInFlight)
    (taken : machine.next device event = some after)
    (loading : after.controller.loading = true) : after.LoadInFlight := by
  cases acts_of_next taken with
  | quiet gallery pending _ _ =>
      rw [gallery.loading] at loading
      rw [LoadInFlight, pending]
      exact backed loading
  | runTask =>
      exact Pool.any_submitAll_of_mem
        (List.mem_singleton_self _) Request.Loads.getUserData
  | onDelete _ _ afterEq =>
      subst afterEq
      exact (backed loading).submitAll _
  | saveEdit => exact (backed loading).submitAll _
  | save =>
      apply Pool.Any.submitAll
      apply backed
      rw [perform_controller, FirebaseController.uploadStorage_controller]
        at loading
      exact loading
  | answer found =>
      apply (backed loading).update found
      intro loads
      rw [Call.respond_request]
      exact loads
  | callback found answered completes =>
      rcases completes.loading loading with
        ⟨request, isIssued, loads⟩ | ⟨before, keeps⟩
      · exact Pool.any_submitAll_of_mem (List.mem_map_of_mem isIssued) loads
      · apply ((backed before).remove found _).submitAll
        intro loads
        rw [loads.clearsLoading] at keeps
        cases keeps

/-- A flag that is backed by a request in flight is clear at rest, and the
screen then shows no spinner. -/
theorem SpinnerBacked.of_inFlight {device : Device}
    (backed : device.controller.loading = true → device.LoadInFlight) :
    SpinnerBacked device where
  inFlight := backed
  notShown := by
    intro nothing shown
    have loading : device.controller.loading = true := by
      unfold MainView.body picturesBody at shown
      split at shown
      · split at shown
        · assumption
        · split at shown <;> cases shown
      · cases shown
    exact Pool.not_any_of_no_values nothing (backed loading)

/-- In every state of every run the spinner is backed by the query of a refresh
or the document write of an upload that is still in flight. -/
theorem spinner_backed (persisted : Option FIRUser) (events : List Event) :
    machine.Always SpinnerBacked (launch persisted) events := by
  apply Machine.always_of_preserved
  · intro device event after backed taken
    exact .of_inFlight (loadInFlight_of_next backed.inFlight taken)
  · exact .of_inFlight nofun

end Device

end AppLPS
