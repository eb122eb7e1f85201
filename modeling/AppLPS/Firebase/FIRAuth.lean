/-
Module: AppLPS.Firebase.FIRAuth
Purpose: The vendored `FIRAuth.m` below the app: the current user and its copy
  in the keychain, the token that was notified last, the listeners, and what is
  dispatched to the main queue.  It refines `AccountBroadcast`, as the `Auth` of
  a device does, and is that `Auth` step by step where the two do the same.
Trusted boundary: the notification centre, as in `Firebase.Auth`, and the
  keychain, which holds what was last written to it without an error
Main exports: FIRUserObject, FIRAuth, FIRAuth.updateCurrentUser,
  FIRAuth.signInFlow, FIRAuth.signOut, FIRAuth.signOutByForce,
  FIRAuth.updateKeychainWithUser, FIRAuth.machine, FIRAuth.start, FIRAuth.auth
-/
import AppLPS.Firebase.Auth
import AppLPS.Machine.Basic

namespace AppLPS

/-!
The keychain is read by `getUser` when the app starts and written by `saveUser`;
reading and writing can fail with an error, whose description the functions below
take as their last argument, and a write that fails leaves the keychain as it was.
The listeners are those of the app, whose block writes the session.
-/

/-- A `FIRUser`.  `FIRAuth.m` compares users, and the uid strings that they
own, by address. -/
structure FIRUserObject where
  address : Nat
  uid : String
  email : Option String
  rawAccessToken : Option String
  tenantID : Option String
deriving DecidableEq, Repr

/-- What the app sees of it. -/
def FIRUserObject.account (user : FIRUserObject) : FIRUser where
  uid := user.uid
  email := user.email

/-- A block dispatched to the main queue. -/
inductive MainBlock where
  /-- The two notifications of a state change. -/
  | postNotification
  | firstCall (listener : Nat)
  | callback (result : Except String FIRUserObject)

structure FIRAuth where
  currentUser : Option FIRUserObject := none
  lastNotifiedUserToken : Option String := none
  tenantID : Option String := none
  keychain : Option FIRUserObject := none
  listeners : List Listener := []
  mainQueue : List MainBlock := []
  controller : FirebaseController := {}

namespace FIRAuth

/-- `_currentUser.rawAccessToken`, `nil` without a user. -/
def rawAccessToken (auth : FIRAuth) : Option String :=
  auth.currentUser.bind (·.rawAccessToken)

/-- `user == _currentUser`. -/
def isCurrentUser (auth : FIRAuth) (user : Option FIRUserObject) : Bool :=
  user.map (·.address) = auth.currentUser.map (·.address)

def dispatch (auth : FIRAuth) (block : MainBlock) : FIRAuth :=
  { auth with mainQueue := auth.mainQueue ++ [block] }

def possiblyPostAuthStateChangeNotification (auth : FIRAuth) : FIRAuth :=
  if auth.lastNotifiedUserToken = auth.rawAccessToken then auth
  else { auth with lastNotifiedUserToken := auth.rawAccessToken }.dispatch
    .postNotification

/-- `getUser:error:`. -/
def getUser (auth : FIRAuth) :
    Option String → Except String (Option FIRUserObject)
  | none => .ok auth.keychain
  | some error => .error error

def saveUser (auth : FIRAuth) (user : Option FIRUserObject) :
    Option String → Except String FIRAuth
  | none => .ok { auth with keychain := user }
  | some error => .error error

/-- The test on tenants that a user must pass to become current. -/
def tenantMismatch (auth : FIRAuth) : Option FIRUserObject → Bool
  | none => false
  | some user =>
      (user.tenantID.isSome || auth.tenantID.isSome) &&
        !(auth.tenantID = user.tenantID : Bool)

/-- `updateCurrentUser:byForce:savingToDisk:error:`, with its error, if any. -/
def updateCurrentUser (auth : FIRAuth) (user : Option FIRUserObject)
    (byForce savingToDisk : Bool) (keychainError : Option String) :
    FIRAuth × Option String :=
  if auth.isCurrentUser user then
    (auth.possiblyPostAuthStateChangeNotification, none)
  else if auth.tenantMismatch user then (auth, some "tenant id mismatch")
  else
    let saved :=
      if savingToDisk then auth.saveUser user keychainError else .ok auth
    match saved with
    | .ok saved =>
        ({ saved with
          currentUser := user }.possiblyPostAuthStateChangeNotification, none)
    | .error error =>
        if byForce then
          ({ auth with
            currentUser := user }.possiblyPostAuthStateChangeNotification,
            some error)
        else (auth, some error)

/-- `signInFlowAuthDataResultCallbackByDecoratingCallback:`. -/
def signInFlow (auth : FIRAuth) (result : Except String FIRUserObject)
    (keychainError : Option String) : FIRAuth :=
  match result with
  | .error error => auth.dispatch (.callback (.error error))
  | .ok user =>
      match auth.updateCurrentUser (some user) false true keychainError with
      | (after, some error) => after.dispatch (.callback (.error error))
      | (after, none) => after.dispatch (.callback (.ok user))

def signOut (auth : FIRAuth) (keychainError : Option String) :
    FIRAuth × Option String :=
  match auth.currentUser with
  | none => (auth, none)
  | some _ => auth.updateCurrentUser none false true keychainError

/-- `signOutByForceWithUserID:error:` with the uid string of a user. -/
def signOutByForce (auth : FIRAuth) (address : Nat)
    (keychainError : Option String) : FIRAuth :=
  if auth.currentUser.map (·.address) = some address then
    (auth.updateCurrentUser none true true keychainError).1
  else auth

/-- `updateKeychainWithUser:error:`. -/
def updateKeychainWithUser (auth : FIRAuth) (user : FIRUserObject)
    (keychainError : Option String) : FIRAuth :=
  if auth.isCurrentUser (some user) then
    match auth.saveUser user keychainError with
    | .ok saved => saved.possiblyPostAuthStateChangeNotification
    | .error _ => auth
  else auth

/-- A user receives a new access token and updates the keychain. -/
def tokenRefreshed (auth : FIRAuth) (address : Nat) (token : String)
    (keychainError : Option String) : FIRAuth :=
  match auth.currentUser with
  | none => auth
  | some user =>
      if user.address = address then
        let refreshed := { user with rawAccessToken := some token }
        { auth with currentUser := some refreshed }.updateKeychainWithUser
          refreshed keychainError
      else auth

/-- `addAuthStateDidChangeListener:`. -/
def addAuthStateDidChangeListener (auth : FIRAuth) : FIRAuth :=
  let registered : FIRAuth :=
    { auth with listeners := auth.listeners ++ [⟨none⟩] }
  registered.dispatch (.firstCall auth.listeners.length)

/-- A block of the main queue runs. -/
def runBlock (auth : FIRAuth) : MainBlock → FIRAuth
  | .postNotification =>
      let (controller, listeners) := Auth.notifyAll
        (auth.currentUser.map (·.account)) auth.controller auth.listeners
      { auth with controller := controller, listeners := listeners }
  | .firstCall index =>
      match auth.listeners[index]? with
      | none => auth
      | some listener =>
          let (controller, seen) := listener.invoke auth.controller
            (auth.currentUser.map (·.account))
          { auth with
            controller := controller
            listeners := auth.listeners.set index seen }
  | .callback _ => auth

/-- Initialization with what the keychain holds.  If it cannot be read nobody is
current, and it still holds what it held. -/
def start (keychain : Option FIRUserObject) (keychainError : Option String) :
    FIRAuth :=
  let stored : FIRAuth := { keychain := keychain }
  match stored.getUser keychainError with
  | .ok user =>
      let loaded : FIRAuth :=
        { stored with tenantID := user.bind (·.tenantID) }
      { (loaded.updateCurrentUser user false false none).1 with
        lastNotifiedUserToken := user.bind (·.rawAccessToken) }
  | .error _ => stored

inductive Event where
  /-- The result of a sign-in or sign-up attempt arrives. -/
  | attemptFinished (result : Except String FIRUserObject)
      (keychainError : Option String)
  /-- `FirebaseController.signOut`. -/
  | signOut (keychainError : Option String)
  /-- The backend has told a user that its token is not valid any more. -/
  | tokenRevoked (address : Nat) (keychainError : Option String)
  | tokenRefreshed (address : Nat) (token : String)
      (keychainError : Option String)
  /-- `FirebaseController.listen`. -/
  | listen
  /-- The first block of the main queue runs. -/
  | mainStep

def step (auth : FIRAuth) : Event → Option (Except Empty FIRAuth)
  | .attemptFinished result keychainError =>
      some (.ok (auth.signInFlow result keychainError))
  | .signOut keychainError =>
      match auth.signOut keychainError with
      | (after, some _) => some (.ok after)
      | (after, none) => some (.ok { after with
          controller := after.controller.sessionCleared })
  | .tokenRevoked address keychainError =>
      some (.ok (auth.signOutByForce address keychainError))
  | .tokenRefreshed address token keychainError =>
      some (.ok (auth.tokenRefreshed address token keychainError))
  | .listen => some (.ok auth.addAuthStateDidChangeListener)
  | .mainStep =>
      match auth.mainQueue with
      | [] => none
      | block :: rest => some (.ok ({ auth with mainQueue := rest }.runBlock block))

def machine : Machine FIRAuth Event Empty where
  step := step

/-- What the `Auth` of a device keeps of it. -/
def auth (auth : FIRAuth) : Auth where
  currentUser := auth.currentUser.map (·.account)
  listeners := auth.listeners

end FIRAuth

end AppLPS
