/-
Module: AppLPS.Proofs.DeleteGesture
Purpose: When a delete gesture removes the pictures it points at: exactly as
  long as no refresh starts while their rows are on the screen.
Trusted boundary: none
Main exports: Request.DeletesImage, Device.DeletesPointedAt,
  Device.GesturesRight, Device.NoRefreshUnderRows, Device.gesturesRight_iff,
  Device.stale_gesture_misses
-/
import AppLPS.Proofs.LatestRefresh

namespace AppLPS

/-! ## The property -/

/-- The request deletes the document of the image, and its closure goes on to
the blob of the image, whatever the result. -/
structure Request.DeletesImage (request : Request) (image : UserImage) :
    Prop where
  document : ∀ files, request.write files =
    files.erase (Firestore.documentName image.date)
  blob : ∀ controller response, request.complete controller response =
    .ok (controller.deleteItemStorage (imageReference image.date))

/-- The rows on the screen at the positions. -/
def MainView.rowsAt (main : MainView) (indexSet : IndexSet) :
    List UserImage :=
  indexSet.indices.filterMap (main.rendered[·]?)

namespace Device

/-- `deleteData` finds a row at every position of the gesture, and asks to
delete the pictures that the screen shows there and no others. -/
def DeletesPointedAt (device : Device) (indexSet : IndexSet) : Prop :=
  ∃ outcome,
    device.controller.deleteData indexSet
        (sessionEmailOrNone device.controller) = .ok outcome ∧
      (∀ request ∈ outcome.requests,
        ∃ image ∈ device.main.rowsAt indexSet, request.DeletesImage image) ∧
      ∀ image ∈ device.main.rowsAt indexSet,
        ∃ request ∈ outcome.requests, request.DeletesImage image

/-- Every delete gesture that the screen offers is right. -/
def GesturesRight (device : Device) : Prop :=
  ∀ indexSet, (device.step (.onDelete indexSet)).isSome = true →
    device.DeletesPointedAt indexSet

/-- No refresh starts while the list on the screen has rows. -/
def NoRefreshUnderRows (device : Device) : Event → Prop
  | .runTask _ => device.main.rendered = []
  | _ => True

/-! ## Positions on the screen and in the list -/

/-- The pictures on the screen are the first ones of the list, in its order. -/
def ShowsFirst (device : Device) : Prop :=
  device.main.rendered.map (·.date) <+:
    device.controller.refImagenesUsuario.map (·.date)

/-- Rows are only on the screen while somebody is signed in. -/
def RowsSignedIn (device : Device) : Prop :=
  device.main.rendered ≠ [] → device.main.signInDone = true

theorem deletesImage_iff {row image : UserImage} :
    (Request.deleteDocument row).DeletesImage image ↔
      row.date = image.date := by
  constructor
  · intro deletes
    have completed := Except.ok.inj (deletes.blob {} .done)
    have requests := congrArg Outcome.requests completed
    simp only [FirebaseController.deleteItemStorage, List.cons.injEq,
      Request.deleteObject.injEq, and_true] at requests
    exact imageReference_injective requests
  · intro same
    constructor
    · intro files
      rw [Request.write, same]
    · intro controller response
      rw [Request.complete, same]

/-- The gestures that the screen offers are those on its rows. -/
theorem offers_iff {device : Device} {indexSet : IndexSet} :
    (device.step (.onDelete indexSet)).isSome = true ↔
      device.main.signInDone = true ∧
        ∀ index ∈ indexSet.indices, index < device.main.rendered.length := by
  simp only [step]
  split <;> simp_all

/-- Where the screen shows a picture, the list has a row of it. -/
theorem ShowsFirst.exists_row {device : Device} {index : Nat}
    {image : UserImage} (first : device.ShowsFirst)
    (shown : device.main.rendered[index]? = some image) :
    ∃ row, device.controller.refImagenesUsuario[index]? = some row ∧
      row.date = image.date := by
  obtain ⟨inRange, rfl⟩ := List.getElem?_eq_some_iff.mp shown
  have same := List.prefix_iff_getElem?.mp first index (by simpa using inRange)
  rw [List.getElem?_map, List.getElem_map, Option.map_eq_some_iff] at same
  exact same

/-- While the screen shows the first pictures of the list, every gesture is
right. -/
theorem ShowsFirst.deletesPointedAt {device : Device} {indexSet : IndexSet}
    (first : device.ShowsFirst)
    (valid : ∀ index ∈ indexSet.indices,
      index < device.main.rendered.length) :
    device.DeletesPointedAt indexSet := by
  have inRange : ∀ index ∈ indexSet.indices,
      index < device.controller.refImagenesUsuario.length := by
    intro index chosen
    have length := first.length_le
    rw [List.length_map, List.length_map] at length
    exact Nat.lt_of_lt_of_le (valid index chosen) length
  refine ⟨_, FirebaseController.deleteData_eq_ok_iff.mpr ⟨inRange, rfl⟩,
    ?_, ?_⟩
  · intro request isIssued
    obtain ⟨row, isSelected, rfl⟩ := List.mem_map.mp isIssued
    obtain ⟨index, chosen, rowAt⟩ := List.mem_filterMap.mp isSelected
    have shown := List.getElem?_eq_getElem (valid index chosen)
    obtain ⟨other, otherAt, same⟩ := first.exists_row shown
    cases rowAt.symm.trans otherAt
    exact ⟨_, List.mem_filterMap.mpr ⟨index, chosen, shown⟩,
      deletesImage_iff.mpr same⟩
  · intro image isShown
    obtain ⟨index, chosen, shown⟩ := List.mem_filterMap.mp isShown
    obtain ⟨row, rowAt, same⟩ := first.exists_row shown
    exact ⟨_, List.mem_map_of_mem (List.mem_filterMap.mpr ⟨index, chosen, rowAt⟩),
      deletesImage_iff.mpr same⟩

/-- A gesture on one row that is right finds a row of the picture. -/
theorem DeletesPointedAt.exists_row {device : Device} {index : Nat}
    {image : UserImage} (right : device.DeletesPointedAt (.only index))
    (shown : device.main.rendered[index]? = some image) :
    ∃ row, device.controller.refImagenesUsuario[index]? = some row ∧
      row.date = image.date := by
  obtain ⟨outcome, deleted, _, asked⟩ := right
  obtain ⟨_, rfl⟩ := FirebaseController.deleteData_eq_ok_iff.mp deleted
  have pointedAt : image ∈ device.main.rowsAt (.only index) :=
    List.mem_filterMap.mpr ⟨index, List.mem_singleton_self _, shown⟩
  obtain ⟨request, isIssued, deletes⟩ := asked image pointedAt
  obtain ⟨row, isSelected, rfl⟩ := List.mem_map.mp isIssued
  obtain ⟨other, chosen, rowAt⟩ := List.mem_filterMap.mp isSelected
  cases List.mem_singleton.mp chosen
  exact ⟨row, rowAt, deletesImage_iff.mp deletes⟩

/-- The gestures are right exactly while the screen shows the first pictures of
the list. -/
theorem gesturesRight_iff_showsFirst {device : Device}
    (signedIn : device.RowsSignedIn) :
    device.GesturesRight ↔ device.ShowsFirst := by
  constructor
  · intro right
    apply List.prefix_iff_getElem?.mpr
    intro index inRange
    rw [List.length_map] at inRange
    have rows : device.main.rendered ≠ [] :=
      List.ne_nil_of_length_pos (Nat.zero_lt_of_lt inRange)
    have offered : (device.step (.onDelete (.only index))).isSome = true :=
      offers_iff.mpr ⟨signedIn rows, by simpa [IndexSet.only] using inRange⟩
    obtain ⟨row, rowAt, same⟩ :=
      (right _ offered).exists_row (List.getElem?_eq_getElem inRange)
    rw [List.getElem?_map, rowAt, Option.map_some, List.getElem_map, same]
  · intro first indexSet offered
    exact first.deletesPointedAt (offers_iff.mp offered).2

/-! ## Steps -/

/-- What a step does to the rows on the screen: it leaves them, brings them up
to date with the list, or removes them. -/
inductive ShownActs (device : Device) : Event → Device → Prop where
  | kept {event : Event} {after : Device}
      (rendered : after.main.rendered = device.main.rendered)
      (signedIn : device.main.signInDone = true →
        after.main.signInDone = true) :
      ShownActs device event after
  | renders :
      ShownActs device .render
        { device with
          main := { device.main with
            rendered := (device.main.body device.controller).rows } }
  | leaves {keychainFails : Bool} {after : Device}
      (rendered : after.main.rendered = []) :
      ShownActs device (.pressLogOut keychainFails) after

theorem shownActs_of_next {device after : Device} {event : Event}
    (taken : machine.next device event = some after) :
    ShownActs device event after := by
  cases sessionActs_of_next taken with
  | pressLogIn => exact .kept rfl id
  | pressSignUp => exact .kept rfl id
  | authResult => exact .kept (by rw [authResult_main]) (by simp)
  | mainStep queueEq =>
      rename_i first rest
      rcases runMainStep_main_cases { device with mainQueue := rest } first
        with main | ⟨_, _, main⟩
      · exact .kept (by rw [main]) (by simp [main])
      · exact .kept (by rw [main]) (by simp [main])
  | appear => exact .kept rfl id
  | pressLogOut =>
      apply ShownActs.leaves
      unfold pressLogOut
      split <;> rfl
  | other _ _ _ signInDone _ isOther =>
      have signedIn : device.main.signInDone = true →
          after.main.signInDone = true := by
        rw [signInDone]
        exact id
      cases acts_of_next taken with
      | runTask => exact .kept rfl signedIn
      | onDelete _ _ afterEq =>
          subst afterEq
          exact .kept rfl signedIn
      | saveEdit => exact .kept rfl signedIn
      | save => exact .kept rfl signedIn
      | answer => exact .kept rfl signedIn
      | callback => exact .kept rfl signedIn
      | quiet _ _ _ isQuiet =>
          have stepped : device.step event = some (.ok after) :=
            Machine.next_eq_some.mp taken
          cases event with
          | render =>
              cases stepped
              exact .renders
          | openEdit row =>
              obtain ⟨image, _, opened⟩ := Option.bind_eq_some_iff.mp stepped
              simp only [Option.ite_none_right_eq_some, Option.some.injEq,
                Except.ok.injEq] at opened
              obtain ⟨_, rfl⟩ := opened
              exact .kept rfl signedIn
          | closeEdit =>
              cases stepped
              exact .kept rfl signedIn
          | _ => contradiction

/-- A completion closure only adds rows to the list. -/
theorem prefix_of_completes {controller : FirebaseController}
    {request : Request} {response : Response} {outcome : Outcome}
    (completes : Completes controller request response outcome) :
    controller.refImagenesUsuario <+:
      outcome.controller.refImagenesUsuario := by
  cases completes with
  | data => exact List.prefix_append _ _
  | _ => exact List.prefix_rfl

theorem noRefresh_of_quiet {device : Device} {event : Event}
    (isQuiet : event.touchesRequests = false) :
    device.NoRefreshUnderRows event := by
  cases event <;> trivial

/-- A step starts a refresh and clears the list, or only adds rows to it. -/
theorem rows_of_next {device after : Device} {event : Event}
    (taken : machine.next device event = some after) :
    ((∃ ticket, event = .runTask ticket) ∧
        after.controller.refImagenesUsuario = []) ∨
      (device.NoRefreshUnderRows event ∧
        device.controller.refImagenesUsuario <+:
          after.controller.refImagenesUsuario) := by
  cases acts_of_next taken with
  | runTask => exact .inl ⟨⟨_, rfl⟩, rfl⟩
  | quiet gallery _ _ isQuiet =>
      exact .inr ⟨noRefresh_of_quiet isQuiet, by rw [gallery.rows]⟩
  | onDelete _ _ afterEq =>
      subst afterEq
      exact .inr ⟨trivial, List.prefix_rfl⟩
  | saveEdit => exact .inr ⟨trivial, List.prefix_rfl⟩
  | save =>
      refine .inr ⟨trivial, ?_⟩
      rw [perform_controller, FirebaseController.uploadStorage_controller]
  | answer => exact .inr ⟨trivial, List.prefix_rfl⟩
  | callback _ _ completes =>
      exact .inr ⟨trivial, prefix_of_completes completes⟩

/-- What the screen shows after it has been brought up to date is the list, or
nothing. -/
theorem body_rows (device : Device) :
    (device.main.body device.controller).rows =
        device.controller.refImagenesUsuario ∧
          device.main.signInDone = true ∨
      (device.main.body device.controller).rows = [] := by
  unfold MainView.body picturesBody
  split
  · rename_i signedIn
    split
    · exact .inr rfl
    · split
      · exact .inr rfl
      · exact .inl ⟨rfl, signedIn⟩
  · exact .inr rfl

theorem showsFirst_of_no_rows {device : Device}
    (nothing : device.main.rendered = []) : device.ShowsFirst := by
  rw [ShowsFirst, nothing, List.map_nil]
  exact List.nil_prefix

theorem rowsSignedIn_of_next {device after : Device} {event : Event}
    (signedIn : device.RowsSignedIn)
    (taken : machine.next device event = some after) :
    after.RowsSignedIn := by
  intro rows
  cases shownActs_of_next taken with
  | kept rendered stays =>
      rw [rendered] at rows
      exact stays (signedIn rows)
  | renders =>
      rcases body_rows device with ⟨_, isSignedIn⟩ | nothing
      · exact isSignedIn
      · exact absurd nothing rows
  | leaves rendered => exact absurd rendered rows

theorem showsFirst_of_render {device after : Device}
    (taken : machine.next device .render = some after) :
    after.ShowsFirst := by
  cases Machine.next_eq_some.mp taken
  rcases body_rows device with ⟨rows, _⟩ | nothing
  · rw [ShowsFirst, rows]
  · exact showsFirst_of_no_rows nothing

/-- One step: the screen still shows the first pictures of the list exactly
when the step does not start a refresh under its rows. -/
theorem showsFirst_step {device after : Device} {event : Event}
    (first : device.ShowsFirst)
    (taken : machine.next device event = some after) :
    after.ShowsFirst ↔ device.NoRefreshUnderRows event := by
  cases shownActs_of_next taken with
  | renders => exact iff_of_true (showsFirst_of_render taken) trivial
  | leaves rendered =>
      exact iff_of_true (showsFirst_of_no_rows rendered) trivial
  | kept rendered =>
      rcases rows_of_next taken with ⟨⟨ticket, rfl⟩, cleared⟩ | ⟨spared, grows⟩
      · rw [ShowsFirst, rendered, cleared, List.map_nil, List.prefix_nil,
          List.map_eq_nil_iff]
        rfl
      · apply iff_of_true _ spared
        rw [ShowsFirst, rendered]
        exact first.trans (grows.map _)

/-! ## Runs -/

/-- From any rendering on, however the run got there and goes on: every delete
gesture in every state removes exactly the pictures it points at if and only if
no refresh starts while the list on the screen has rows. -/
theorem gesturesRight_iff (persisted : Option FIRUser)
    {earlier : List Event} {shown : Device}
    (run : machine.exec (launch persisted) (earlier ++ [.render]) = some shown)
    (later : List Event) :
    machine.Always GesturesRight shown later ↔
      machine.Guarded NoRefreshUnderRows shown later := by
  have signedIn : machine.Always RowsSignedIn (launch persisted)
      (earlier ++ [.render]) :=
    Machine.always_of_preserved
      (fun _ _ _ signedIn taken => rowsSignedIn_of_next signedIn taken)
      (fun rows => absurd rfl rows) _
  have shownSignedIn := signedIn.last run
  have first : shown.ShowsFirst := by
    rw [Machine.exec_snoc] at run
    obtain ⟨before, _, rendered⟩ := Option.bind_eq_some_iff.mp run
    exact showsFirst_of_render rendered
  have anything : machine.Guarded (fun _ _ => True) shown later :=
    Machine.guarded_of_forall (fun _ _ _ => trivial) shown
  apply Machine.always_iff_guarded RowsSignedIn _ _ shownSignedIn
    ((gesturesRight_iff_showsFirst shownSignedIn).mpr first) anything
  · intro device event after signedIn _ taken
    exact rowsSignedIn_of_next signedIn taken
  · intro device event after signedIn _ right taken
    rw [gesturesRight_iff_showsFirst (rowsSignedIn_of_next signedIn taken)]
    exact showsFirst_step ((gesturesRight_iff_showsFirst signedIn).mp right)
      taken

/-- A second document of the account. -/
def faro : QueryDocumentSnapshot where
  documentID := "2021-11-10 09:15:00"
  data := .record "ana@lps.es" "faro" "2021-11-10 09:15:00"

/-- The first refresh of two pictures, up to the row of the first one. -/
def firstRow : List Event :=
  firstRefresh ++ [.answer 0 (.documents [playa, faro]), .callback 0,
    .answer 1 (.data [1]), .callback 1]

/-- `gesturesRight_iff` where the screen shows the first row and the second one
is still to come. -/
theorem gesturesRight_first_row :
    ∃ shown, machine.exec (launch none) (firstRow ++ [.render]) = some shown ∧
      shown.main.rendered.map (·.name) = ["playa"] ∧
      machine.Always GesturesRight shown
        [.answer 2 (.data [2]), .callback 2] := by
  have run : ∃ shown,
      machine.exec (launch none) (firstRow ++ [.render]) = some shown ∧
      shown.main.rendered.map (·.name) = ["playa"] := ⟨_, rfl, rfl⟩
  obtain ⟨shown, reached, rows⟩ := run
  refine ⟨shown, reached, rows, ?_⟩
  apply (gesturesRight_iff none reached _).mpr
  exact Machine.guarded_of_forall (by simp [NoRefreshUnderRows]) shown

/-- Both rows are on the screen when the screen appears again and its refresh
starts. -/
def refreshUnderRows : List Event :=
  firstRow ++ [.answer 2 (.data [2]), .callback 2, .render, .appear, .mainStep,
    .runTask 1]

/-- The downloads of that refresh complete in the other order, and the first of
them to complete is not yet on the screen. -/
def refilledUnderRows : List Event :=
  refreshUnderRows ++ [.answer 3 (.documents [playa, faro]), .callback 3,
    .answer 5 (.data [2]), .callback 5]

/-- While the list is empty the gesture traps. -/
private theorem emptied_under_rows :
    ∃ device, machine.exec (launch none) refreshUnderRows = some device ∧
      machine.Faults device (.onDelete (.only 0)) ∧
      ¬ device.GesturesRight := by
  have run : ∃ device,
      machine.exec (launch none) refreshUnderRows = some device ∧
      device.step (.onDelete (.only 0)) =
        some (.error (.indexOutOfRange 0)) ∧
      device.controller.refImagenesUsuario = [] := ⟨_, rfl, rfl, rfl⟩
  obtain ⟨device, reached, trapped, cleared⟩ := run
  refine ⟨device, reached, ⟨_, trapped⟩, ?_⟩
  intro right
  have offered : (device.step (.onDelete (.only 0))).isSome = true :=
    Option.isSome_of_eq_some trapped
  obtain ⟨outcome, deleted, _⟩ := right _ offered
  have inRange := (FirebaseController.deleteData_eq_ok_iff.mp deleted).1 0
    (List.mem_singleton_self 0)
  rw [cleared] at inRange
  exact absurd inRange (Nat.not_lt_zero 0)

/-- While the list is being filled the gesture asks to delete the other
picture. -/
private theorem refilled_under_rows :
    ∃ device after,
      machine.exec (launch none) refilledUnderRows = some device ∧
      machine.next device (.onDelete (.only 0)) = some after ∧
      (device.main.rowsAt (.only 0)).map (·.name) = ["playa"] ∧
      after.pending.values.map (·.request) =
        [download playa,
          .deleteDocument ⟨"faro", "2021-11-10 09:15:00", "ana@lps.es", [2]⟩] ∧
      ¬ device.GesturesRight := by
  have ends : ((machine.exec (launch none) refilledUnderRows).bind fun device =>
      machine.next device (.onDelete (.only 0))).isSome = true := by
    decide +kernel
  have facts : ∀ device ∈ machine.exec (launch none) refilledUnderRows,
      (device.main.rowsAt (.only 0)).map (·.name) = ["playa"] ∧
      device.main.rendered[0]? =
        some ⟨"playa", "2021-11-09 08:05:30", "ana@lps.es", [1]⟩ ∧
      device.controller.refImagenesUsuario[0]? =
        some ⟨"faro", "2021-11-10 09:15:00", "ana@lps.es", [2]⟩ ∧
      ∀ after ∈ machine.next device (.onDelete (.only 0)),
        after.pending.values.map (·.request) =
          [download playa, .deleteDocument
            ⟨"faro", "2021-11-10 09:15:00", "ana@lps.es", [2]⟩] := by
    decide +kernel
  obtain ⟨after, ended⟩ := Option.isSome_iff_exists.mp ends
  obtain ⟨device, reached, taken⟩ := Option.bind_eq_some_iff.mp ended
  obtain ⟨pointedAt, shown, listed, asked⟩ := facts device reached
  refine ⟨device, after, reached, taken, pointedAt, asked after taken, ?_⟩
  intro right
  have offered : (device.step (.onDelete (.only 0))).isSome = true :=
    Option.isSome_of_eq_some (Machine.next_eq_some.mp taken)
  obtain ⟨row, rowAt, same⟩ := (right _ offered).exists_row shown
  cases listed.symm.trans rowAt
  exact absurd same (by decide)

/-- A gesture on the first row traps after the refresh has started, and removes
the other picture after its row has come back first. -/
theorem stale_gesture_misses :
    (∃ device, machine.exec (launch none) refreshUnderRows = some device ∧
      machine.Faults device (.onDelete (.only 0)) ∧
      ¬ device.GesturesRight) ∧
    ∃ device after,
      machine.exec (launch none) refilledUnderRows = some device ∧
      machine.next device (.onDelete (.only 0)) = some after ∧
      (device.main.rowsAt (.only 0)).map (·.name) = ["playa"] ∧
      after.pending.values.map (·.request) =
        [download playa,
          .deleteDocument ⟨"faro", "2021-11-10 09:15:00", "ana@lps.es", [2]⟩] ∧
      ¬ device.GesturesRight :=
  ⟨emptied_under_rows, refilled_under_rows⟩

end Device

end AppLPS
