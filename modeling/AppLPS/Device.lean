/-
Module: AppLPS.Device
Purpose: One running copy of the app: the controller, Auth, the views and
  everything that is queued or in flight, as a machine driven by user actions,
  framework callbacks and backend answers.
Trusted boundary: none
Main exports: MainStep, Attempt, Device, Event, Device.step, Device.machine,
  Device.launch
-/
import AppLPS.Machine.Basic
import AppLPS.Machine.Pool
import AppLPS.Views

namespace AppLPS

/-!
The main queue is first-in first-out and carries what Auth dispatches to it:
state-change deliveries, first listener calls and the completions of sign-in
and sign-up attempts.  Refresh tasks and the completions of backend requests
run at any later moment, in any order, each as one step.

A completion in two halves: `answer` is the moment the result of a request
exists, `callback` the moment its closure runs.  At this level the answers are
arbitrary; the backend that gives them is added in `AppLPS.World`.
-/

/-- A block dispatched to the main queue by Auth. -/
inductive MainStep where
  | stateDidChange
  | firstCall (listener : Nat)
  | loginDone (result : AuthResult)
  | signUpDone (result : AuthResult)
deriving Repr

/-- A pending `Auth.signIn` or `Auth.createUser`. -/
inductive Attempt where
  | signIn (email password : String)
  | createUser (email password : String)
deriving DecidableEq, Repr

structure Device where
  controller : FirebaseController := {}
  auth : Auth := {}
  mainQueue : List MainStep := []
  attempts : Pool Attempt := Pool.empty
  tasks : Pool RefreshTask := Pool.empty
  pending : Pool Call := Pool.empty
  main : MainView := {}
  login : LoginView := {}
  registro : RegistroView := {}

inductive Event where
  /-- Log in is pressed. -/
  | pressLogIn (email password : String)
  /-- Sign up is pressed. -/
  | pressSignUp (email password : String)
  /-- The result of an attempt arrives: on success the user becomes current. -/
  | authResult (ticket : Nat) (result : AuthResult)
  /-- The head of the main queue runs. -/
  | mainStep
  /-- The signed-in screen appears. -/
  | appear
  /-- A refresh task runs. -/
  | runTask (ticket : Nat)
  /-- Log out is pressed. -/
  | pressLogOut (keychainFails : Bool)
  /-- SwiftUI brings the rows up to date with the published variables. -/
  | render
  /-- Rows are swiped away. -/
  | onDelete (indexSet : IndexSet)
  /-- The edit screen of a row is opened. -/
  | openEdit (row : Nat)
  /-- Save is pressed on the edit screen. -/
  | saveEdit (nombreImagen : String)
  | closeEdit
  /-- Save is pressed on the screen of a new image. -/
  | save (imageGeneral : UIImage) (nombreImagen : String) (now : WallClock)
  /-- The result of a request arrives. -/
  | answer (ticket : Nat) (response : Response)
  /-- The completion closure of an answered request runs. -/
  | callback (ticket : Nat)

/-- The event is the answer of the backend, which no device gives itself. -/
def Event.isAnswer : Event → Bool
  | .answer _ _ => true
  | _ => false

namespace Device

/-- The app right after its start, with the account that Auth restored. -/
def launch (persisted : Option FIRUser) : Device where
  auth := { currentUser := persisted }

/-- Issue what a step of the controller leaves behind. -/
def perform (device : Device) (outcome : Outcome) : Device :=
  { device with
    controller := outcome.controller
    pending := device.pending.submitAll
      (outcome.requests.map Call.fresh)
    tasks := device.tasks.submitAll outcome.tasks }

def enqueue (device : Device) (steps : List MainStep) : Device :=
  { device with mainQueue := device.mainQueue ++ steps }

/-! ## The steps -/

/-- The Log in button, which `LoginView` shows. -/
def pressLogIn (device : Device) (email password : String) : Device :=
  { device with
    login :=
      { device.login with email := email, password := password }.login
    attempts := device.attempts.submit (.signIn email password) }

/-- The Sign up button, which `RegistroView` shows. -/
def pressSignUp (device : Device) (email password : String) : Device :=
  { device with
    registro :=
      { device.registro with email := email, password := password }.signUp
    attempts := device.attempts.submit (.createUser email password) }

/-- The main-queue block that completes an attempt. -/
def Attempt.completion (result : AuthResult) : Attempt → MainStep
  | .signIn _ _ => .loginDone result
  | .createUser _ _ => .signUpDone result

/-- `signInFlowAuthDataResultCallbackByDecoratingCallback`: a success makes the
user current and posts the state change before the completion is dispatched. -/
def authResult (device : Device) (ticket : Nat) (attempt : Attempt)
    (result : AuthResult) : Device :=
  let settled := { device with attempts := device.attempts.remove ticket }
  match result with
  | .error _ => settled.enqueue [Attempt.completion result attempt]
  | .ok user =>
      { settled with auth := { settled.auth with currentUser := some user } }.enqueue
        [.stateDidChange, Attempt.completion result attempt]

/-- One block of the main queue. -/
def runMainStep (device : Device) : MainStep → Device
  | .stateDidChange =>
      let (auth, controller) := device.auth.notify device.controller
      { device with auth := auth, controller := controller }
  | .firstCall listener =>
      let (auth, controller) :=
        device.auth.firstCall device.controller listener
      { device with auth := auth, controller := controller }
  | .loginDone result =>
      let (login, main) := device.login.loginDone device.main result
      { device with login := login, main := main }
  | .signUpDone result =>
      { device with registro := device.registro.signUpFinished result }

/-- The two `onAppear` actions of the signed-in screen: start a refresh task,
and `getUser`, which calls `listen`. -/
def appear (device : Device) : Device :=
  let registered : Auth :=
    { device.auth with listeners := device.auth.listeners ++ [⟨none⟩] }
  { device with
    tasks := device.tasks.submit .onAppear
    auth := registered }.enqueue [.firstCall device.auth.listeners.length]

/-- The Log out button: `signOut`, then the flag.  Leaving the signed-in screen
removes its rows and the screens pushed on it. -/
def pressLogOut (device : Device) (keychainFails : Bool) : Device :=
  let left := { device with main := {} }
  match device.auth.signOut keychainFails with
  | .error _ => left
  | .ok (auth, posted) =>
      { left with
        auth := auth
        controller := left.controller.sessionCleared }.enqueue
          (if posted then [.stateDidChange] else [])

/-- What a step of the controller leaves behind is issued, unless Firestore
raises for the path of a document. -/
def issue (device : Device) (outcome : Outcome) : Except Trap Device := do
  outcome.requests.forM Request.reference
  return device.perform outcome

/-- The `onDelete` action of the list. -/
def onDelete (device : Device) (indexSet : IndexSet) : Except Trap Device := do
  let outcome ← device.controller.deleteData indexSet
    (sessionEmailOrNone device.controller)
  let deleted ← device.issue outcome
  return { deleted with tasks := deleted.tasks.submit .onDelete }

/-- A refresh task runs: it reads its account and calls `getUserData`. -/
def runTask (device : Device) (ticket : Nat) (task : RefreshTask) :
    Except Trap Device := do
  let correoUsuario ← task.account device.controller
  return { device with tasks := device.tasks.remove ticket }.perform
    (device.controller.getUserData correoUsuario)

/-- The completion closure of an answered request runs. -/
def callback (device : Device) (ticket : Nat) (request : Request)
    (response : Response) : Except Trap Device := do
  let outcome ← request.complete device.controller response
  return { device with pending := device.pending.remove ticket }.perform outcome

/-- One event.  An event is disabled when the screen that offers it is not
shown, or when what it names is not there. -/
def step (device : Device) : Event → Option (Except Trap Device)
  | .pressLogIn email password =>
      if device.main.signInDone then none
      else some (.ok (device.pressLogIn email password))
  | .pressSignUp email password =>
      if device.main.signInDone then none
      else some (.ok (device.pressSignUp email password))
  | .authResult ticket result => do
      let attempt ← device.attempts.find? ticket
      some (.ok (device.authResult ticket attempt result))
  | .mainStep =>
      match device.mainQueue with
      | [] => none
      | first :: rest =>
          some (.ok ({ device with mainQueue := rest }.runMainStep first))
  | .appear =>
      if device.main.signInDone then some (.ok device.appear) else none
  | .runTask ticket => do
      let task ← device.tasks.find? ticket
      some (device.runTask ticket task)
  | .pressLogOut keychainFails =>
      if device.main.signInDone then
        some (.ok (device.pressLogOut keychainFails))
      else none
  | .render =>
      some (.ok { device with
        main := { device.main with
          rendered := (device.main.body device.controller).rows } })
  | .onDelete indexSet =>
      if device.main.signInDone ∧
          ∀ index ∈ indexSet.indices, index < device.main.rendered.length then
        some (device.onDelete indexSet)
      else none
  | .openEdit row => do
      let image ← device.main.rendered[row]?
      if device.main.signInDone then
        some (.ok { device with
          main := { device.main with editing := some image } })
      else none
  | .saveEdit nombreImagen => do
      let image ← device.main.editing
      some (device.issue
        (device.controller.updateData image image.email nombreImagen))
  | .closeEdit =>
      some (.ok { device with
        main := { device.main with editing := none } })
  | .save imageGeneral nombreImagen now =>
      if device.main.signInDone ∧ imageGeneral.pngData.isSome ∧
          nombreImagen ≠ "" then
        some (.ok (device.perform (device.controller.uploadStorage imageGeneral
          (sessionEmailOrNone device.controller) nombreImagen now)))
      else none
  | .answer ticket response => do
      let call ← device.pending.find? ticket
      if call.answer.isNone ∧ call.request.Accepts response then
        some (.ok { device with
          pending := device.pending.update ticket fun call =>
            call.respond response })
      else none
  | .callback ticket => do
      let call ← device.pending.find? ticket
      let response ← call.answer
      some (device.callback ticket call.request response)

/-- The app as a machine. -/
def machine : Machine Device Event Trap where
  step := step

end Device

end AppLPS
