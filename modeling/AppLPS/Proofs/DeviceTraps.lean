/-
Module: AppLPS.Proofs.DeviceTraps
Purpose: Say once how a step of the app can trap: a refresh task that unwraps a
  session nobody has written, a delete gesture past the end of the list, an
  image whose date names no document, and a completion closure.
Trusted boundary: none
Main exports: FirebaseController.FirstBeyond, Device.Crashes, Device.TrapCause,
  Device.trapCause_of_step, Device.callback_of_forcedCast
-/
import AppLPS.Proofs.DeviceSteps

namespace AppLPS

/-! ## Subscripts out of range -/

namespace FirebaseController

/-- The lowest position of the gesture at which the list has no row. -/
structure FirstBeyond (controller : FirebaseController) (indexSet : IndexSet)
    (index : Nat) : Prop where
  selected : index ∈ indexSet.indices
  beyond : controller.refImagenesUsuario.length ≤ index
  lowest : ∀ other ∈ indexSet.indices,
    controller.refImagenesUsuario.length ≤ other → index ≤ other

theorem imageAt_eq_error {controller : FirebaseController} {index : Nat}
    {trap : Trap} :
    controller.imageAt index = .error trap ↔
      controller.refImagenesUsuario.length ≤ index ∧
        trap = .indexOutOfRange index := by
  unfold imageAt
  split
  · rename_i found
    have inRange := (List.getElem?_eq_some_iff.mp found).1
    simp only [reduceCtorEq, false_iff, not_and]
    omega
  · rename_i missing
    rw [List.getElem?_eq_none_iff] at missing
    simp [missing, eq_comm]

/-- The loop over the positions stops at the first one without a row. -/
theorem imagesAt_eq_error_iff {controller : FirebaseController}
    {indices : List Nat} {trap : Trap} :
    indices.mapM controller.imageAt = .error trap ↔
      ∃ index,
        indices.find? (controller.refImagenesUsuario.length ≤ ·) =
          some index ∧
        trap = .indexOutOfRange index := by
  induction indices with
  | nil => simp [pure, Except.pure]
  | cons first rest inductionHypothesis =>
      rw [List.mapM_cons, bind_eq_error, imageAt_eq_error]
      simp only [bind_eq_error, imageAt_eq_ok, inductionHypothesis, pure,
        Except.pure, reduceCtorEq, and_false, exists_const, or_false]
      by_cases inRange : first < controller.refImagenesUsuario.length
      · have row := List.getElem?_eq_getElem inRange
        have notBeyond : ¬ controller.refImagenesUsuario.length ≤ first := by
          omega
        simp [row, notBeyond]
      · have beyond := Nat.le_of_not_lt inRange
        simp [beyond]

/-- The positions are visited in ascending order, so the first one without a
row is the lowest. -/
theorem firstBeyond_iff {controller : FirebaseController}
    {indexSet : IndexSet} {index : Nat} :
    indexSet.indices.find? (controller.refImagenesUsuario.length ≤ ·) =
        some index ↔
      controller.FirstBeyond indexSet index := by
  rw [List.find?_eq_some_iff_append]
  simp only [decide_eq_true_eq, Bool.not_eq_eq_eq_not, Bool.not_true,
    decide_eq_false_iff_not, Nat.not_le]
  constructor
  · intro found
    obtain ⟨beyond, before, after, split, inRange⟩ := found
    refine ⟨by simp [split], beyond, ?_⟩
    intro other member otherBeyond
    have ascending := indexSet.ascending
    rw [split] at member ascending
    rcases List.mem_append.mp member with early | late
    · have := inRange other early
      omega
    · rcases List.mem_cons.mp late with rfl | later
      · exact Nat.le_refl _
      · exact Nat.le_of_lt (List.rel_of_pairwise_cons
          (List.pairwise_append.mp ascending).2.1 later)
  · intro first
    obtain ⟨before, after, split⟩ := List.append_of_mem first.selected
    refine ⟨first.beyond, before, after, split, ?_⟩
    intro other early
    by_contra otherBeyond
    have lower := first.lowest other (by simp [split, early]) (by omega)
    have ascending := indexSet.ascending
    rw [split] at ascending
    have := (List.pairwise_append.mp ascending).2.2 other early index
      List.mem_cons_self
    omega

/-- `deleteData` traps exactly when some position has no row, at the lowest
such position, before it has asked to delete anything. -/
theorem deleteData_eq_error_iff {controller : FirebaseController}
    {indexSet : IndexSet} {correoUsuario : String} {trap : Trap} :
    controller.deleteData indexSet correoUsuario = .error trap ↔
      ∃ index, controller.FirstBeyond indexSet index ∧
        trap = .indexOutOfRange index := by
  unfold deleteData
  rw [bind_eq_error, imagesAt_eq_error_iff]
  simp only [firstBeyond_iff, pure, Except.pure, reduceCtorEq, and_false,
    exists_const, or_false]

end FirebaseController

/-! ## The steps that trap -/

namespace Device

/-- What crashes a device: the `onAppear` refresh task runs while the session
is not known, or rows are swiped away of which the list has lost one. -/
inductive Crashes (device : Device) : Event → Trap → Prop where
  | unwrap {ticket : Nat}
      (found : device.tasks.find? ticket = some .onAppear)
      (unknown : device.controller.sessionEmail = none) :
      Crashes device (.runTask ticket) .forcedUnwrap
  | subscript {indexSet : IndexSet} {index : Nat}
      (signedIn : device.main.signInDone = true)
      (shown : ∀ index ∈ indexSet.indices,
        index < device.main.rendered.length)
      (beyond : device.controller.FirstBeyond indexSet index) :
      Crashes device (.onDelete indexSet) (.indexOutOfRange index)

theorem Crashes.step_eq {device : Device} {event : Event} {trap : Trap}
    (crashes : device.Crashes event trap) :
    device.step event = some (.error trap) := by
  cases crashes with
  | unwrap found unknown =>
      simp only [step, found, Option.bind_eq_bind, Option.bind_some, runTask,
        RefreshTask.account, forcedSessionEmail, unknown]
      rfl
  | subscript signedIn shown beyond =>
      rename_i indexSet index
      have deletes : device.controller.deleteData indexSet
            (sessionEmailOrNone device.controller) =
          .error (.indexOutOfRange index) :=
        FirebaseController.deleteData_eq_error_iff.mpr ⟨index, beyond, rfl⟩
      simp only [step, if_pos (And.intro signedIn shown), onDelete, deletes]
      rfl

/-- Why a step of a device traps. -/
inductive TrapCause (device : Device) (event : Event) (trap : Trap) : Prop where
  | crashes (crash : device.Crashes event trap)
  | raises {image : UserImage} (holds : image ∈ device.held)
      (raised : filesDocument image.date = .error trap)
  | completion {ticket : Nat} {call : Call} {response : Response}
      (isCallback : event = .callback ticket)
      (found : device.pending.find? ticket = some call)
      (answered : call.answer = some response)
      (trapped : call.request.complete device.controller response =
        .error trap)

/-- The inversion of one step that traps. -/
theorem trapCause_of_step {device : Device} {event : Event} {trap : Trap}
    (trapped : device.step event = some (.error trap)) :
    device.TrapCause event trap := by
  cases event with
  | callback ticket =>
      obtain ⟨call, found, rest⟩ := Option.bind_eq_some_iff.mp trapped
      obtain ⟨response, answered, run⟩ := Option.bind_eq_some_iff.mp rest
      rcases bind_eq_error.mp (Option.some.inj run) with here | ⟨_, _, never⟩
      · exact .completion rfl found answered here
      · cases never
  | runTask ticket =>
      obtain ⟨task, found, run⟩ := Option.bind_eq_some_iff.mp trapped
      rcases bind_eq_error.mp (Option.some.inj run) with here | ⟨_, _, never⟩
      · cases task with
        | onAppear =>
            simp only [RefreshTask.account, forcedSessionEmail] at here
            split at here
            · cases here
            · rename_i unknown
              cases here
              exact .crashes (.unwrap found unknown)
        | onDelete => cases here
        | afterUpload correoUsuario => cases here
      · cases never
  | onDelete indexSet =>
      simp only [step, Option.ite_none_right_eq_some,
        Option.some.injEq] at trapped
      obtain ⟨⟨signedIn, shown⟩, run⟩ := trapped
      rcases bind_eq_error.mp run with here | ⟨outcome, deleted, rest⟩
      · obtain ⟨index, beyond, rfl⟩ :=
          FirebaseController.deleteData_eq_error_iff.mp here
        exact .crashes (.subscript signedIn shown beyond)
      · rcases bind_eq_error.mp rest with raised | ⟨_, _, never⟩
        · obtain ⟨_, rfl⟩ :=
            FirebaseController.deleteData_eq_ok_iff.mp deleted
          obtain ⟨request, isIssued, reference⟩ := issue_eq_error raised
          obtain ⟨image, isRow, rfl⟩ := List.mem_map.mp isIssued
          exact .raises
            (mem_held_of_row (FirebaseController.mem_of_mem_rowsAt isRow))
            (Request.reference_deleteDocument_error.mp reference)
        · cases never
  | authResult ticket result =>
      obtain ⟨_, _, never⟩ := Option.bind_eq_some_iff.mp trapped
      cases never
  | mainStep =>
      simp only [step] at trapped
      split at trapped <;> cases trapped
  | openEdit row =>
      obtain ⟨_, _, opened⟩ := Option.bind_eq_some_iff.mp trapped
      simp at opened
  | saveEdit nombreImagen =>
      obtain ⟨image, editing, saved⟩ := Option.bind_eq_some_iff.mp trapped
      obtain ⟨request, isIssued, reference⟩ :=
        issue_eq_error (Option.some.inj saved)
      cases List.mem_singleton.mp isIssued
      exact .raises (mem_held_of_editing editing)
        (Request.reference_setData_error.mp reference)
  | answer ticket response =>
      obtain ⟨_, _, answered⟩ := Option.bind_eq_some_iff.mp trapped
      simp at answered
  | pressLogIn email password => simp [step] at trapped
  | pressSignUp email password => simp [step] at trapped
  | appear => simp [step] at trapped
  | pressLogOut keychainFails => simp [step] at trapped
  | save imageGeneral nombreImagen now => simp [step] at trapped
  | render => cases trapped
  | closeEdit => cases trapped

/-- A forced cast fails only in a completion closure. -/
theorem callback_of_forcedCast {device : Device} {event : Event}
    {key : String}
    (trapped : device.step event = some (.error (.forcedCast key))) :
    ∃ ticket call response, event = .callback ticket ∧
      device.pending.find? ticket = some call ∧
      call.answer = some response ∧
      call.request.complete device.controller response =
        .error (.forcedCast key) := by
  cases trapCause_of_step trapped with
  | crashes crash => cases crash
  | raises holds raised =>
      obtain ⟨_, isArgument⟩ := Firestore.document_eq_error raised
      cases isArgument
  | completion isCallback found answered failed =>
      exact ⟨_, _, _, isCallback, found, answered, failed⟩

end Device

end AppLPS
