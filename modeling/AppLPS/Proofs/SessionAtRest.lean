/-
Module: AppLPS.Proofs.SessionAtRest
Purpose: The session of a device follows the current user: once Auth has nothing
  left to deliver, every listener has seen the account that is current, and the
  session is that account or has been cleared.
Trusted boundary: none
Main exports: MainStep.notice?, Device.broadcast, Device.refines_broadcast,
  Device.session_at_rest
-/
import AppLPS.Machine.Broadcast
import AppLPS.Machine.Simulation
import AppLPS.Proofs.DeviceSteps

namespace AppLPS

/-- The listener's block shows the account that it is given. -/
abbrev AccountBroadcast :=
  Broadcast (Option FIRUser) (Option String) (Option User)

/-- Accounts are told apart by their uid. -/
def uidOf (user : Option FIRUser) : Option String := user.map (·.uid)

/-- The broadcast of the current account into the session. -/
def accountBroadcast : Machine AccountBroadcast
    (Broadcast.Event (Option FIRUser)) Empty :=
  Broadcast.machine uidOf (Option.map FIRUser.toUser) none

/-- With nothing queued, every listener has seen the current account, and the
session has its uid or there is none. -/
theorem AccountBroadcast.at_rest {broadcast : AccountBroadcast}
    (informed : broadcast.Informed uidOf (Option.map FIRUser.toUser) none)
    (empty : broadcast.queue = []) :
    (∀ seen ∈ broadcast.observers, seen = some (uidOf broadcast.current)) ∧
      ∀ session, broadcast.shown = some session →
        ∃ user, broadcast.current = some user ∧ session.uid = user.uid := by
  obtain ⟨allSeen, shown⟩ := informed.at_rest empty
  refine ⟨allSeen, ?_⟩
  intro session isSession
  rcases shown with blank | ⟨value, isShown, sameUid⟩
  · cases isSession.symm.trans blank
  · obtain ⟨user, rfl, rfl⟩ :=
      Option.map_eq_some_iff.mp (isShown.symm.trans isSession)
    obtain ⟨current, isCurrent, uid⟩ := Option.map_eq_some_iff.mp sameUid.symm
    exact ⟨current, isCurrent, uid.symm⟩

/-- Without listeners and without a session nobody has missed anything. -/
theorem AccountBroadcast.informed_start {broadcast : AccountBroadcast}
    (observers : broadcast.observers = []) (shown : broadcast.shown = none) :
    broadcast.Informed uidOf (Option.map FIRUser.toUser) none := by
  refine ⟨?_, .inl shown⟩
  intro observer seen isSeen
  rw [observers] at isSeen
  cases isSeen

/-- The notice that a block of the main queue delivers. -/
def MainStep.notice? : MainStep → Option Notice
  | .stateDidChange => some .all
  | .firstCall listener => some (.first listener)
  | .loginDone _ | .signUpDone _ => none

namespace MainStep

@[simp] theorem notice?_stateDidChange :
    stateDidChange.notice? = some .all := rfl

@[simp] theorem notice?_firstCall (listener : Nat) :
    (firstCall listener).notice? = some (.first listener) := rfl

@[simp] theorem notice?_loginDone (result : AuthResult) :
    (loginDone result).notice? = none := rfl

@[simp] theorem notice?_signUpDone (result : AuthResult) :
    (signUpDone result).notice? = none := rfl

@[simp] theorem notice?_completion (result : AuthResult) (attempt : Attempt) :
    (Device.Attempt.completion result attempt).notice? = none := by
  cases attempt <;> rfl

end MainStep

theorem Listener.shouldCall_eq (listener : Listener) (user : Option FIRUser) :
    listener.shouldCall user =
      decide (listener.lastSeen ≠ some (uidOf user)) := by
  rw [Bool.eq_iff_iff, decide_eq_true_iff]
  simp [shouldCall, uidOf]

/-- Notifying all listeners is delivering one notice to all. -/
theorem Auth.notifyAll_tell (user : Option FIRUser)
    (controller : FirebaseController) (listeners : List Listener)
    (queue : List Notice) :
    Broadcast.tell uidOf (Option.map FIRUser.toUser)
        { current := user
          observers := listeners.map (·.lastSeen)
          queue := queue
          shown := controller.session } .all =
      { current := user
        observers := (notifyAll user controller listeners).2.map (·.lastSeen)
        queue := queue
        shown := (notifyAll user controller listeners).1.session } := by
  have called : (listeners.map (·.lastSeen)).any
      (fun seen => seen ≠ some (uidOf user)) =
        listeners.any (·.shouldCall user) := by
    rw [List.any_map]
    congr 1
    funext listener
    exact (listener.shouldCall_eq user).symm
  rw [notifyAll_listeners, notifyAll_controller]
  simp only [Broadcast.tell, called]
  congr 1
  · rw [List.map_map, List.map_map]
    rfl
  · split <;> rfl

/-- The first call of a listener is the first notice of its observer. -/
theorem Listener.invoke_tell {user : Option FIRUser}
    {controller : FirebaseController} {listeners : List Listener} {index : Nat}
    {listener : Listener} (registered : listeners[index]? = some listener)
    (queue : List Notice) :
    Broadcast.tell uidOf (Option.map FIRUser.toUser)
        { current := user
          observers := listeners.map (·.lastSeen)
          queue := queue
          shown := controller.session } (.first index) =
      { current := user
        observers := (listeners.set index
          (listener.invoke controller user).2).map (·.lastSeen)
        queue := queue
        shown := (listener.invoke controller user).1.session } := by
  simp only [Broadcast.tell, List.getElem?_map, registered, Option.map_some,
    invoke, List.map_set]
  congr 1
  rw [listener.shouldCall_eq]
  by_cases called : listener.lastSeen = some (uidOf user)
  · simp [called]
  · simp [called, FirebaseController.stateDidChange]

/-- The first call of a listener that is not registered does nothing. -/
theorem tell_unregistered {broadcast : AccountBroadcast}
    {listeners : List Listener} {index : Nat}
    (observers : broadcast.observers = listeners.map (·.lastSeen))
    (missing : listeners[index]? = none) :
    broadcast.tell uidOf (Option.map FIRUser.toUser) (.first index) =
      broadcast := by
  simp only [Broadcast.tell, observers, List.getElem?_map, missing,
    Option.map_none]

namespace Device

/-- What a device keeps of the broadcast. -/
def broadcast (device : Device) : AccountBroadcast where
  current := device.auth.currentUser
  observers := device.auth.listeners.map (·.lastSeen)
  queue := device.mainQueue.filterMap MainStep.notice?
  shown := device.controller.session

/-- The first notice of the queue is delivered. -/
private theorem next_deliver {device : Device} {first : MainStep}
    {rest : List MainStep} {notice : Notice}
    (queueEq : device.mainQueue = first :: rest)
    (isNotice : first.notice? = some notice) :
    accountBroadcast.next device.broadcast .deliver =
      some (Broadcast.tell uidOf (Option.map FIRUser.toUser)
        { device.broadcast with queue := rest.filterMap MainStep.notice? }
        notice) := by
  apply Broadcast.next_deliver
  simp only [broadcast, queueEq, List.filterMap_cons, isNotice]

/-- A block of the main queue delivers its notice, if it is one. -/
private theorem runMainStep_refines {device : Device} {first : MainStep}
    {rest : List MainStep} (queueEq : device.mainQueue = first :: rest) :
    ∃ taken, accountBroadcast.exec device.broadcast taken =
      some ({ device with mainQueue := rest }.runMainStep first).broadcast := by
  cases first with
  | stateDidChange =>
      refine ⟨[.deliver], ?_⟩
      rw [Machine.exec_cons, next_deliver queueEq rfl]
      exact congrArg some (Auth.notifyAll_tell device.auth.currentUser
        device.controller device.auth.listeners _)
  | firstCall index =>
      refine ⟨[.deliver], ?_⟩
      rw [Machine.exec_cons, next_deliver queueEq rfl]
      apply congrArg some
      cases registered : device.auth.listeners[index]? with
      | none =>
          rw [tell_unregistered rfl registered]
          simp only [broadcast, runMainStep, Auth.firstCall, registered]
      | some listener =>
          refine (Listener.invoke_tell registered _).trans ?_
          simp only [broadcast, runMainStep, Auth.firstCall, registered]
  | loginDone result =>
      refine ⟨[], ?_⟩
      simp [broadcast, runMainStep, queueEq, List.filterMap_cons]
  | signUpDone result =>
      refine ⟨[], ?_⟩
      simp [broadcast, runMainStep, queueEq, List.filterMap_cons]

/-- A device refines the broadcast of its account. -/
theorem refines_broadcast :
    machine.Refines accountBroadcast broadcast (fun _ => True)
      (fun _ _ => True) where
  preserved := fun _ _ _ _ _ _ => trivial
  simulates := by
    intro device event after _ _ taken
    cases sessionActs_of_next taken with
    | other auth mainQueue attempts signInDone session isOther =>
        refine ⟨[], ?_⟩
        simp only [broadcast, auth, mainQueue, session]
        rfl
    | pressLogIn => exact ⟨[], rfl⟩
    | pressSignUp => exact ⟨[], rfl⟩
    | @authResult ticket attempt result found =>
        cases result with
        | error description =>
            refine ⟨[], ?_⟩
            simp [broadcast, authResult, enqueue]
        | ok user =>
            refine ⟨[.set (some user)], ?_⟩
            simp [broadcast, authResult, enqueue, accountBroadcast,
              Broadcast.enqueue]
    | appear signedIn =>
        refine ⟨[.observe], ?_⟩
        simp [broadcast, appear, enqueue, accountBroadcast, Broadcast.enqueue]
    | mainStep queueEq => exact runMainStep_refines queueEq
    | @pressLogOut keychainFails signedIn =>
        rcases device.auth.signOut_cases keychainFails with
          ⟨_, signedOut⟩ | ⟨_, _, fails⟩ | ⟨_, _, posted⟩
        · refine ⟨[.clear], ?_⟩
          simp [broadcast, pressLogOut, signedOut, enqueue, accountBroadcast,
            FirebaseController.sessionCleared]
        · refine ⟨[], ?_⟩
          simp [broadcast, pressLogOut, fails]
        · refine ⟨[.set none, .clear], ?_⟩
          simp [broadcast, pressLogOut, posted, enqueue, accountBroadcast,
            Broadcast.enqueue, FirebaseController.sessionCleared]

/-- In every run of a device, with any number of attempts, log outs and
listeners: when Auth has nothing left to deliver, every listener has seen the
current account, and the session has its uid or there is none. -/
theorem session_at_rest (persisted : Option FIRUser) {events : List Event}
    {device : Device} (run : machine.exec (launch persisted) events = some device)
    (delivered : ∀ block ∈ device.mainQueue, block.notice? = none) :
    (∀ listener ∈ device.auth.listeners,
        listener.lastSeen = some (uidOf device.auth.currentUser)) ∧
      ∀ session, device.controller.session = some session →
        ∃ user, device.auth.currentUser = some user ∧
          session.uid = user.uid := by
  obtain ⟨changes, replayed⟩ := refines_broadcast.exists_exec trivial
    (Machine.guarded_of_forall (fun _ _ _ => trivial) _) run
  have informed : (launch persisted).broadcast.Informed uidOf
      (Option.map FIRUser.toUser) none :=
    AccountBroadcast.informed_start rfl rfl
  obtain ⟨allSeen, session⟩ := AccountBroadcast.at_rest
    (informed.of_exec replayed) (List.filterMap_eq_nil_iff.mpr delivered)
  exact ⟨fun listener member => allSeen _ (List.mem_map_of_mem member), session⟩

/-- One user signs in, and while the notices of this are still queued the app
is left and another one signs in. -/
def switchesAccounts : List Event :=
  [.pressLogIn "ana@lps.es" "secreto",
    .authResult 0 (.ok ⟨"A", some "ana@lps.es"⟩), .mainStep, .mainStep, .appear,
    .mainStep, .appear, .pressLogOut false, .mainStep,
    .pressLogIn "luis@lps.es" "secreto",
    .authResult 1 (.ok ⟨"L", some "luis@lps.es"⟩), .mainStep, .mainStep,
    .mainStep]

/-- `session_at_rest` after a change of account. -/
theorem session_at_rest_switched :
    ∃ device, machine.exec (launch none) switchesAccounts = some device ∧
      device.controller.session = some ⟨"L", some "luis@lps.es"⟩ ∧
      ∃ user, device.auth.currentUser = some user ∧ "L" = user.uid := by
  have ends :
      (machine.exec (launch none) switchesAccounts).map (fun device =>
        (device.controller.session,
          decide (∀ block ∈ device.mainQueue, block.notice? = none))) =
        some (some ⟨"L", some "luis@lps.es"⟩, true) := by
    decide +kernel
  obtain ⟨device, run, shown⟩ := Option.map_eq_some_iff.mp ends
  obtain ⟨session, delivered⟩ := Prod.mk.inj shown
  exact ⟨device, run, session, (session_at_rest none run
    (of_decide_eq_true delivered)).2 _ session⟩

end Device

end AppLPS
