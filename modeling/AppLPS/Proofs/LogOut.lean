/-
Module: AppLPS.Proofs.LogOut
Purpose: When logging out is final: exactly when no attempt that was still
  pending succeeds before the next press of Log in or Sign up.
Trusted boundary: none
Main exports: recordLogOut, LogOutFinal, StaleSuccess, logOut_final_iff,
  lateLogin_undoes_logOut
-/
import AppLPS.Proofs.DeviceSteps

namespace AppLPS.Device

/-! ## The property -/

/-- History variable: Log out was pressed, `Auth.signOut` did not throw, and
neither Log in nor Sign up has been pressed since. -/
def recordLogOut (before : Device) (event : Event) (_after : Device)
    (loggedOut : Bool) : Bool :=
  match event with
  | .pressLogIn _ _ | .pressSignUp _ _ => false
  | .pressLogOut keychainFails =>
      !(before.auth.currentUser.isSome && keychainFails)
  | _ => loggedOut

/-- While nothing has been pressed since a Log out, the flag is false and
nobody is signed in. -/
def LogOutFinal (observed : Device × Bool) : Prop :=
  observed.2 = true →
    observed.1.main.signInDone = false ∧ observed.1.auth.currentUser = none

/-- The event is the success of an attempt: its result, which makes the user
current, or the completion of `login`, which sets the flag. -/
def StaleSuccess (device : Device) (event : Event) : Prop :=
  (∃ ticket user, event = .authResult ticket (.ok user)) ∨
    (event = .mainStep ∧
      ∃ user rest, device.mainQueue = .loginDone (.ok user) :: rest)

/-- No attempt succeeds between a Log out and the next press. -/
def NoStaleSuccess (observed : Device × Bool) (event : Event) : Prop :=
  observed.2 = true → ¬ StaleSuccess observed.1 event

/-! ## Steps -/

/-- A Log out whose `signOut` returns leaves nobody signed in. -/
theorem pressLogOut_final (device : Device) (keychainFails : Bool)
    (returned : (!(device.auth.currentUser.isSome && keychainFails)) = true) :
    (device.pressLogOut keychainFails).main.signInDone = false ∧
      (device.pressLogOut keychainFails).auth.currentUser = none := by
  unfold pressLogOut
  rcases device.auth.signOut_cases keychainFails with
    ⟨nobody, signOutEq⟩ | ⟨somebody, fails, _⟩ | ⟨_, _, signOutEq⟩
  · rw [signOutEq]
    exact ⟨rfl, nobody⟩
  · rw [fails] at returned
    exact absurd (by simpa using returned) somebody
  · rw [signOutEq]
    exact ⟨rfl, rfl⟩

/-- One step away from a Log out: it stays final exactly when the step is not
the success of a stale attempt. -/
private theorem logOutFinal_step {device after : Device} {loggedOut : Bool}
    {event : Event} (final : LogOutFinal (device, loggedOut))
    (taken : machine.next device event = some after) :
    LogOutFinal (after, recordLogOut device event after loggedOut) ↔
      NoStaleSuccess (device, loggedOut) event := by
  cases sessionActs_of_next taken with
  | other auth mainQueue attempts signInDone session isOther =>
      have unrecorded :
          recordLogOut device event after loggedOut = loggedOut := by
        cases event <;> first | rfl | cases isOther
      rw [unrecorded]
      apply iff_of_true
      · intro out
        rw [signInDone, auth]
        exact final out
      · rintro - (⟨ticket, user, rfl⟩ | ⟨rfl, -⟩) <;> cases isOther
  | pressLogIn signedOut =>
      exact iff_of_true (by simp [LogOutFinal, recordLogOut])
        (by simp [NoStaleSuccess, StaleSuccess])
  | pressSignUp signedOut =>
      exact iff_of_true (by simp [LogOutFinal, recordLogOut])
        (by simp [NoStaleSuccess, StaleSuccess])
  | authResult found =>
      rename_i ticket attempt result
      cases result with
      | error description =>
          exact iff_of_true final (by simp [NoStaleSuccess, StaleSuccess])
      | ok user =>
          simp [LogOutFinal, recordLogOut, NoStaleSuccess, StaleSuccess,
            Device.authResult, enqueue]
  | mainStep queueEq =>
      rename_i first rest
      cases first with
      | stateDidChange =>
          exact iff_of_true final
            (by simp [NoStaleSuccess, StaleSuccess, queueEq])
      | firstCall listener =>
          apply iff_of_true _
            (by simp [NoStaleSuccess, StaleSuccess, queueEq])
          simpa [LogOutFinal, recordLogOut, runMainStep] using final
      | loginDone result =>
          cases result with
          | error description =>
              exact iff_of_true final
                (by simp [NoStaleSuccess, StaleSuccess, queueEq])
          | ok user =>
              simp [LogOutFinal, recordLogOut, NoStaleSuccess, StaleSuccess,
                queueEq, runMainStep, LoginView.loginDone]
      | signUpDone result =>
          exact iff_of_true final
            (by simp [NoStaleSuccess, StaleSuccess, queueEq])
  | appear signedIn =>
      exact iff_of_true final (by simp [NoStaleSuccess, StaleSuccess])
  | pressLogOut signedIn =>
      rename_i keychainFails
      exact iff_of_true (pressLogOut_final device keychainFails)
        (by simp [NoStaleSuccess, StaleSuccess])

/-- Logging out is final in every state of a run exactly when no attempt that
was pending at a Log out succeeds before the next press. -/
theorem logOut_final_iff (persisted : Option FIRUser) (events : List Event) :
    (machine.observe recordLogOut).Always LogOutFinal
        (launch persisted, false) events ↔
      (machine.observe recordLogOut).Guarded NoStaleSuccess
        (launch persisted, false) events := by
  have assumed : (machine.observe recordLogOut).Guarded (fun _ _ => True)
      (launch persisted, false) events :=
    Machine.guarded_of_forall (fun _ _ _ => trivial) _
  apply Machine.always_iff_guarded (fun _ => True)
    (fun _ _ _ _ _ _ => trivial) _ trivial (by simp [LogOutFinal]) assumed
  intro observed event after _ _ final taken
  obtain ⟨reached, stepped, rfl⟩ := Machine.exists_of_observe_next taken
  exact logOutFinal_step final stepped

/-- Log in pressed twice; the first attempt signs in, Log out is pressed, and
the second attempt succeeds behind the login screen. -/
def lateLogin : List Event :=
  [.pressLogIn "ana@lps.es" "secreto", .pressLogIn "ana@lps.es" "secreto",
    .authResult 0 (.ok ⟨"A", some "ana@lps.es"⟩), .mainStep, .mainStep,
    .pressLogOut false, .mainStep,
    .authResult 1 (.ok ⟨"A", some "ana@lps.es"⟩), .mainStep, .mainStep]

/-- The late success signs in again although nothing was pressed after Log
out. -/
theorem lateLogin_undoes_logOut :
    ¬ (machine.observe recordLogOut).Always LogOutFinal (launch none, false)
      lateLogin := by
  intro always
  have run : ∃ device,
      (machine.observe recordLogOut).exec (launch none, false) lateLogin =
        some (device, true) ∧ device.main.signInDone = true :=
    ⟨_, rfl, rfl⟩
  obtain ⟨device, reached, signedIn⟩ := run
  have signedOut := (always.last reached rfl).1
  rw [signedIn] at signedOut
  cases signedOut

end AppLPS.Device
