/-
Module: AppLPS.Firebase.Auth
Purpose: The signed-in user of a device and the state listeners, as the
  vendored `FIRAuth.m` keeps them, and the listener that the app registers.
Trusted boundary: `notify` states how the notification centre calls the
  observers of a change: each one once, in the order of their registration
Main exports: FIRUser, Listener, Auth, Auth.signOut, Auth.notify,
  FirebaseController.stateDidChange
-/
import AppLPS.Firebase.FirebaseController

namespace AppLPS

structure FIRUser where
  uid : String
  email : Option String
deriving DecidableEq, Repr

/-- A registered state listener: the uid it saw last (`previousUserID`), or
`none` before its first invocation. -/
structure Listener where
  lastSeen : Option (Option String) := none
deriving DecidableEq, Repr

structure Auth where
  currentUser : Option FIRUser := none
  listeners : List Listener := []
deriving DecidableEq, Repr

/-- The model structure that the app builds from an account. -/
def FIRUser.toUser (user : FIRUser) : User :=
  { uid := user.uid, email := user.email }

namespace FirebaseController

/-- The block that `listen` registers: it copies the account it is given into
the session. -/
def stateDidChange (controller : FirebaseController)
    (user : Option FIRUser) : FirebaseController :=
  { controller with session := user.map FIRUser.toUser }

end FirebaseController

/-- `shouldCallListener`: a listener is called at its first invocation and
whenever the uid differs from the one it saw last. -/
def Listener.shouldCall (listener : Listener) (user : Option FIRUser) : Bool :=
  listener.lastSeen != some (user.map (·.uid))

/-- One invocation of the wrapper that `addAuthStateDidChangeListener` puts
around the block. -/
def Listener.invoke (controller : FirebaseController) (listener : Listener)
    (user : Option FIRUser) : FirebaseController × Listener :=
  (if listener.shouldCall user then controller.stateDidChange user
    else controller,
    { lastSeen := some (user.map (·.uid)) })

namespace Auth

/-- `Auth.signOut`.  It returns at once when nobody is signed in, throws when
the keychain cannot be written, and otherwise clears the current user; the
flag tells whether it posted a state change. -/
def signOut (auth : Auth) (keychainFails : Bool) : Except Unit (Auth × Bool) :=
  match auth.currentUser with
  | none => .ok (auth, false)
  | some _ =>
      if keychainFails then .error ()
      else .ok ({ auth with currentUser := none }, true)

/-- Invoke every registered listener with the current user. -/
def notifyAll (user : Option FIRUser) (controller : FirebaseController) :
    List Listener → FirebaseController × List Listener
  | [] => (controller, [])
  | listener :: listeners =>
      let (called, seen) := listener.invoke controller user
      let (after, rest) := notifyAll user called listeners
      (after, seen :: rest)

/-- The delivery of a posted state change. -/
def notify (auth : Auth) (controller : FirebaseController) :
    Auth × FirebaseController :=
  let (after, listeners) := notifyAll auth.currentUser controller auth.listeners
  ({ auth with listeners := listeners }, after)

/-- The first call of one listener, dispatched when it was registered. -/
def firstCall (auth : Auth) (controller : FirebaseController) (index : Nat) :
    Auth × FirebaseController :=
  match auth.listeners[index]? with
  | some listener =>
      let (after, seen) := listener.invoke controller auth.currentUser
      ({ auth with listeners := auth.listeners.set index seen }, after)
  | none => (auth, controller)

@[simp] theorem firstCall_currentUser (auth : Auth)
    (controller : FirebaseController) (index : Nat) :
    (auth.firstCall controller index).1.currentUser = auth.currentUser := by
  unfold firstCall
  split <;> rfl

/-- After a delivery every listener has seen the current user. -/
theorem notifyAll_listeners (user : Option FIRUser)
    (controller : FirebaseController) (listeners : List Listener) :
    (notifyAll user controller listeners).2 =
      listeners.map fun _ => { lastSeen := some (user.map (·.uid)) } := by
  induction listeners generalizing controller with
  | nil => rfl
  | cons listener listeners inductionHypothesis =>
      simp only [notifyAll, List.map_cons]
      rw [inductionHypothesis]
      rfl

/-- A delivery either leaves the session alone, when every listener had seen
the user already, or copies the user into it. -/
theorem notifyAll_controller (user : Option FIRUser)
    (controller : FirebaseController) (listeners : List Listener) :
    (notifyAll user controller listeners).1 =
      if listeners.any (·.shouldCall user) then
        controller.stateDidChange user
      else controller := by
  induction listeners generalizing controller with
  | nil => rfl
  | cons listener listeners inductionHypothesis =>
      simp only [notifyAll, inductionHypothesis, List.any_cons,
        Bool.or_eq_true]
      by_cases called : listener.shouldCall user = true
      · simp only [Listener.invoke, called, if_true, true_or]
        split <;> rfl
      · simp [Listener.invoke, called]

theorem notify_controller (auth : Auth) (controller : FirebaseController) :
    (auth.notify controller).2 =
      if auth.listeners.any (·.shouldCall auth.currentUser) then
        controller.stateDidChange auth.currentUser
      else controller :=
  notifyAll_controller auth.currentUser controller auth.listeners

theorem notify_listeners (auth : Auth) (controller : FirebaseController) :
    (auth.notify controller).1.listeners =
      auth.listeners.map fun _ =>
        { lastSeen := some (auth.currentUser.map (·.uid)) } :=
  notifyAll_listeners auth.currentUser controller auth.listeners

/-- What `signOut` can do. -/
theorem signOut_cases (auth : Auth) (keychainFails : Bool) :
    (auth.currentUser = none ∧
        auth.signOut keychainFails = .ok (auth, false)) ∨
      (auth.currentUser ≠ none ∧ keychainFails = true ∧
        auth.signOut keychainFails = .error ()) ∨
      (auth.currentUser ≠ none ∧ keychainFails = false ∧
        auth.signOut keychainFails =
          .ok ({ auth with currentUser := none }, true)) := by
  unfold signOut
  cases auth.currentUser with
  | none => simp
  | some user => cases keychainFails <;> simp

end Auth

end AppLPS
