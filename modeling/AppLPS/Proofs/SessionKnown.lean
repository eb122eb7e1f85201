/-
Module: AppLPS.Proofs.SessionKnown
Purpose: When the signed-in screen knows who is signed in: the listeners, the
  main queue and the session agree once a listener has had its first call.
Trusted boundary: none
Main exports: pendingAttempts, SessionRun, SignOutDelivered, readEmail,
  ReadAfterFirstCall, SessionInvariant, session_known,
  session_unknown_before_first_call
-/
import AppLPS.Proofs.DeviceSteps

namespace AppLPS

/-- The block completes an attempt. -/
def MainStep.completes : MainStep → Bool
  | .loginDone _ | .signUpDone _ => true
  | _ => false

@[simp] theorem MainStep.completes_stateDidChange :
    MainStep.stateDidChange.completes = false := rfl

@[simp] theorem MainStep.completes_firstCall (listener : Nat) :
    (MainStep.firstCall listener).completes = false := rfl

namespace Device

/-! ## The runs -/

/-- The attempts that are pending; one is pending until its completion has
run. -/
def pendingAttempts (device : Device) : Nat :=
  device.attempts.values.length + device.mainQueue.countP MainStep.completes

/-- At most one attempt is pending at a time, `Auth.signOut` does not throw,
and every account has the email that `emailOf` gives for its uid. -/
def SessionRun (emailOf : String → String) (device : Device) : Event → Prop
  | .pressLogIn _ _ | .pressSignUp _ _ => pendingAttempts device = 0
  | .pressLogOut keychainFails =>
      (device.auth.currentUser.isSome && keychainFails) = false
  | .authResult _ (.ok user) => user.email = some (emailOf user.uid)
  | _ => True

/-- No account signs in again before the listeners that saw it last have been
told that it signed out. -/
def SignOutDelivered (device : Device) : Event → Prop
  | .authResult _ (.ok user) =>
      .stateDidChange ∈ device.mainQueue →
        ∀ listener ∈ device.auth.listeners,
          listener.lastSeen ≠ some (some user.uid)
  | _ => True

/-- The email that a step of the signed-in screen reads from the session: its
two refresh tasks, its delete handler, and Save of a new image. -/
def readEmail (device : Device) : Event → Option (Except Trap String)
  | .runTask ticket =>
      match device.tasks.find? ticket with
      | some (.afterUpload _) | none => none
      | some task => some (task.account device.controller)
  | .onDelete _ | .save _ _ _ =>
      some (.ok (sessionEmailOrNone device.controller))
  | _ => none

/-- The signed-in screen is up and some listener has had its first call. -/
def ReadAfterFirstCall (device : Device) : Prop :=
  device.main.signInDone = true ∧
    ∃ listener ∈ device.auth.listeners, listener.lastSeen.isSome = true

/-! ## The invariant -/

/-- What ties the session to the current user.  A listener that has seen the
current user has copied it into the session; a listener that has seen anybody
has seen the current user, unless a delivery is still waiting; and while the
signed-in screen is up, or about to come up, nothing is waiting that could
change the user. -/
structure SessionInvariant (emailOf : String → String) (device : Device) :
    Prop where
  atMostOne : pendingAttempts device ≤ 1
  seen : .stateDidChange ∉ device.mainQueue →
    ∀ listener ∈ device.auth.listeners, ∀ uid,
      listener.lastSeen = some uid →
        uid = device.auth.currentUser.map (·.uid)
  copied : ∀ listener ∈ device.auth.listeners,
    listener.lastSeen = some (device.auth.currentUser.map (·.uid)) →
      device.controller.session =
        device.auth.currentUser.map FIRUser.toUser
  accounts : ∀ user, device.auth.currentUser = some user →
    user.email = some (emailOf user.uid)
  signedIn : device.main.signInDone = true →
    device.auth.currentUser ≠ none ∧
      .stateDidChange ∉ device.mainQueue ∧ pendingAttempts device = 0
  signingIn : ∀ earlier user later,
    device.mainQueue = earlier ++ .loginDone (.ok user) :: later →
      device.auth.currentUser ≠ none ∧ .stateDidChange ∉ later

namespace SessionInvariant

variable {emailOf : String → String} {device : Device}

theorem launch {persisted : Option FIRUser}
    (accounts : ∀ user, persisted = some user →
      user.email = some (emailOf user.uid)) :
    SessionInvariant emailOf (Device.launch persisted) where
  atMostOne := Nat.zero_le 1
  seen := by simp [Device.launch]
  copied := by simp [Device.launch]
  accounts := accounts
  signedIn := by simp [Device.launch]
  signingIn := by simp [Device.launch]

/-- The invariant reads only the session's own part of the device. -/
theorem of_same {after : Device}
    (invariant : SessionInvariant emailOf device)
    (auth : after.auth = device.auth)
    (mainQueue : after.mainQueue = device.mainQueue)
    (attempts : after.attempts = device.attempts)
    (signInDone : after.main.signInDone = device.main.signInDone)
    (session : after.controller.session = device.controller.session) :
    SessionInvariant emailOf after := by
  have pending : pendingAttempts after = pendingAttempts device := by
    rw [pendingAttempts, attempts, mainQueue, pendingAttempts]
  constructor
  · rw [pending]
    exact invariant.atMostOne
  · rw [mainQueue, auth]
    exact invariant.seen
  · rw [auth, session]
    exact invariant.copied
  · rw [auth]
    exact invariant.accounts
  · rw [signInDone, auth, mainQueue, pending]
    exact invariant.signedIn
  · rw [auth, mainQueue]
    exact invariant.signingIn

/-- No login completion is queued when nothing is pending. -/
private theorem no_completion (idle : pendingAttempts device = 0)
    {step : MainStep} (member : step ∈ device.mainQueue) :
    step.completes = false := by
  have none : device.mainQueue.countP MainStep.completes = 0 := by
    unfold pendingAttempts at idle
    omega
  simpa using List.countP_eq_zero.mp none step member

/-- Pressing a button of the login screens adds one attempt. -/
theorem press {after : Device} {attempt : Attempt}
    (invariant : SessionInvariant emailOf device)
    (idle : pendingAttempts device = 0)
    (signedOut : device.main.signInDone = false)
    (auth : after.auth = device.auth)
    (mainQueue : after.mainQueue = device.mainQueue)
    (attempts : after.attempts = device.attempts.submit attempt)
    (main : after.main = device.main)
    (controller : after.controller = device.controller) :
    SessionInvariant emailOf after := by
  have pending : pendingAttempts after = pendingAttempts device + 1 := by
    rw [pendingAttempts, attempts, mainQueue, pendingAttempts,
      Pool.values_submit, List.length_append, List.length_singleton]
    omega
  constructor
  · omega
  · rw [mainQueue, auth]
    exact invariant.seen
  · rw [auth, controller]
    exact invariant.copied
  · rw [auth]
    exact invariant.accounts
  · intro signedIn
    rw [main, signedOut] at signedIn
    cases signedIn
  · rw [auth, mainQueue]
    exact invariant.signingIn

/-- Splitting off the last element of a queue at a login completion. -/
private theorem last_of_append_singleton {queue earlier later : List MainStep}
    {last step : MainStep}
    (splitEq : queue ++ [last] = earlier ++ step :: later)
    (notInQueue : step ∉ queue) : later = [] ∧ last = step := by
  rcases List.append_eq_append_iff.mp splitEq with
    ⟨middle, earlierEq, lastEq⟩ | ⟨middle, queueEq, restEq⟩
  · cases middle with
    | nil =>
        simp only [List.nil_append, List.cons.injEq] at lastEq
        exact ⟨lastEq.2.symm, lastEq.1⟩
    | cons head middle => simp at lastEq
  · cases middle with
    | nil =>
        simp only [List.nil_append, List.cons.injEq] at restEq
        exact ⟨restEq.2, restEq.1.symm⟩
    | cons head middle =>
        simp only [List.cons_append, List.cons.injEq] at restEq
        apply absurd _ notInQueue
        rw [queueEq, restEq.1]
        simp

private theorem completes_completion (result : AuthResult)
    (attempt : Attempt) :
    (Attempt.completion result attempt).completes = true := by
  cases attempt <;> rfl

/-- The attempt whose result arrives was the only one pending. -/
private theorem alone {ticket : Nat} {attempt : Attempt}
    (invariant : SessionInvariant emailOf device)
    (found : device.attempts.find? ticket = some attempt) :
    (device.attempts.remove ticket).values.length = 0 ∧
      device.mainQueue.countP MainStep.completes = 0 ∧
      device.main.signInDone = false := by
  have removed := Pool.length_values_remove found
  have atMostOne := invariant.atMostOne
  unfold pendingAttempts at atMostOne
  refine ⟨by omega, by omega, ?_⟩
  cases signInDone : device.main.signInDone with
  | false => rfl
  | true =>
      have idle := (invariant.signedIn signInDone).2.2
      unfold pendingAttempts at idle
      omega

private theorem not_mem_of_countP_zero {queue : List MainStep}
    (none : queue.countP MainStep.completes = 0) (result : AuthResult) :
    .loginDone result ∉ queue := by
  intro member
  have := List.countP_eq_zero.mp none _ member
  simp [MainStep.completes] at this

theorem authFailed {ticket : Nat} {attempt : Attempt} {description : String}
    (invariant : SessionInvariant emailOf device)
    (found : device.attempts.find? ticket = some attempt) :
    SessionInvariant emailOf
      (device.authResult ticket attempt (.error description)) := by
  obtain ⟨noAttempts, noCompletions, signedOut⟩ := alone invariant found
  have noLogin := not_mem_of_countP_zero noCompletions
  constructor
  · simp [pendingAttempts, authResult, enqueue, noAttempts, noCompletions,
      List.countP_append, completes_completion]
  · intro delivered
    apply invariant.seen
    intro member
    exact delivered (by simp [authResult, enqueue, member])
  · exact invariant.copied
  · exact invariant.accounts
  · intro signedIn
    change device.main.signInDone = true at signedIn
    rw [signedOut] at signedIn
    cases signedIn
  · intro earlier user later queueEq
    obtain ⟨_, lastEq⟩ := last_of_append_singleton queueEq (noLogin _)
    cases attempt <;> cases lastEq

theorem authSucceeded {ticket : Nat} {attempt : Attempt} {user : FIRUser}
    (invariant : SessionInvariant emailOf device)
    (found : device.attempts.find? ticket = some attempt)
    (account : user.email = some (emailOf user.uid))
    (delivered : SignOutDelivered device (.authResult ticket (.ok user))) :
    SessionInvariant emailOf
      (device.authResult ticket attempt (.ok user)) := by
  obtain ⟨noAttempts, noCompletions, signedOut⟩ := alone invariant found
  have noLogin := not_mem_of_countP_zero noCompletions
  constructor
  · simp [pendingAttempts, authResult, enqueue, noAttempts, noCompletions,
      List.countP_append, completes_completion]
  · intro waiting
    simp [authResult, enqueue] at waiting
  · intro listener member sees
    have waitsNot : .stateDidChange ∉ device.mainQueue :=
      fun waits => delivered waits listener member sees
    -- The listener saw the old user, who then has the new user's uid.
    have old := invariant.seen waitsNot listener member _ sees
    have copied := invariant.copied listener member (by rw [sees, old])
    rw [show (device.authResult ticket attempt (.ok user)).controller =
      device.controller from rfl, copied]
    simp only [authResult, enqueue, Option.map_some] at old ⊢
    cases current : device.auth.currentUser with
    | none =>
        rw [current] at old
        cases old
    | some previous =>
        rw [current, Option.map_some, Option.some.injEq] at old
        have previousAccount := invariant.accounts previous current
        rw [Option.map_some, FIRUser.toUser, FIRUser.toUser, previousAccount,
          account, old]
  · intro current currentEq
    cases currentEq
    exact account
  · intro signedIn
    change device.main.signInDone = true at signedIn
    rw [signedOut] at signedIn
    cases signedIn
  · intro earlier other later queueEq
    refine ⟨by simp [authResult, enqueue], ?_⟩
    have queueEq' : (device.mainQueue ++ [.stateDidChange]) ++
        [Attempt.completion (.ok user) attempt] =
          earlier ++ .loginDone (.ok other) :: later := by
      simpa [authResult, enqueue] using queueEq
    obtain ⟨laterNil, _⟩ := last_of_append_singleton queueEq' (by
      simp [noLogin])
    simp [laterNil]

/-- The rest of the queue after its head is still well ordered. -/
private theorem signingIn_tail {first : MainStep} {rest : List MainStep}
    (invariant : SessionInvariant emailOf device)
    (queueEq : device.mainQueue = first :: rest)
    {earlier later : List MainStep} {user : FIRUser}
    (restEq : rest = earlier ++ .loginDone (.ok user) :: later) :
    device.auth.currentUser ≠ none ∧ .stateDidChange ∉ later :=
  invariant.signingIn (first :: earlier) user later (by
    rw [queueEq, restEq, List.cons_append])

private theorem pending_tail {first : MainStep} {rest : List MainStep}
    (queueEq : device.mainQueue = first :: rest) :
    device.attempts.values.length + rest.countP MainStep.completes +
      (if first.completes then 1 else 0) = pendingAttempts device := by
  rw [pendingAttempts, queueEq, List.countP_cons]
  omega

theorem notified {rest : List MainStep}
    (invariant : SessionInvariant emailOf device)
    (queueEq : device.mainQueue = .stateDidChange :: rest) :
    SessionInvariant emailOf
      ({ device with mainQueue := rest }.runMainStep .stateDidChange) := by
  have pending := pending_tail queueEq
  have atMostOne := invariant.atMostOne
  constructor
  · simp only [MainStep.completes] at pending
    simp only [pendingAttempts, runMainStep]
    omega
  · intro _ listener member uid sees
    simp only [runMainStep, Auth.notify_listeners, List.mem_map] at member
    obtain ⟨_, _, rfl⟩ := member
    exact (Option.some.inj sees).symm
  · intro listener member _
    simp only [runMainStep, Auth.notify_listeners, List.mem_map] at member
    obtain ⟨old, oldMember, _⟩ := member
    simp only [runMainStep, Auth.notify_controller]
    split
    · rfl
    · -- Nobody was called, so this listener had seen the user before.
      rename_i noneCalled
      simp only [List.any_eq_true, not_exists, not_and] at noneCalled
      have quiet := noneCalled old oldMember
      apply invariant.copied old oldMember
      simpa [Listener.shouldCall] using quiet
  · exact invariant.accounts
  · intro signedIn
    have idle := (invariant.signedIn signedIn).2.1
    rw [queueEq] at idle
    simp at idle
  · intro earlier user later restEq
    exact signingIn_tail invariant queueEq restEq

theorem firstCalled {rest : List MainStep} {index : Nat}
    (invariant : SessionInvariant emailOf device)
    (queueEq : device.mainQueue = .firstCall index :: rest) :
    SessionInvariant emailOf
      ({ device with mainQueue := rest }.runMainStep (.firstCall index)) := by
  have pending := pending_tail queueEq
  have atMostOne := invariant.atMostOne
  have waits : .stateDidChange ∈ device.mainQueue ↔
      .stateDidChange ∈ rest := by
    rw [queueEq]
    simp
  -- The listeners afterwards: the called one has seen the current user.
  have listeners : ∀ listener ∈ (device.auth.firstCall device.controller
      index).1.listeners, listener ∈ device.auth.listeners ∨
        listener.lastSeen =
          some (device.auth.currentUser.map (·.uid)) := by
    intro listener member
    unfold Auth.firstCall at member
    split at member
    · rcases List.mem_or_eq_of_mem_set member with old | new
      · exact Or.inl old
      · rw [new]
        exact Or.inr rfl
    · exact Or.inl member
  constructor
  · simp only [MainStep.completes] at pending
    simp only [pendingAttempts, runMainStep]
    omega
  · intro delivered listener member uid sees
    simp only [runMainStep, Auth.firstCall_currentUser] at delivered ⊢
    rcases listeners listener member with old | new
    · exact invariant.seen (fun waiting => delivered (waits.mp waiting))
        listener old uid sees
    · rw [new] at sees
      exact (Option.some.inj sees).symm
  · intro listener member sees
    simp only [runMainStep, Auth.firstCall_currentUser] at member sees ⊢
    unfold Auth.firstCall at member ⊢
    split
    · rename_i called calledEq
      rw [calledEq] at member
      simp only [Listener.invoke]
      split
      · rfl
      · rename_i notCalled
        apply invariant.copied called (List.mem_of_getElem? calledEq)
        simpa [Listener.shouldCall] using notCalled
    · rename_i missing
      rw [missing] at member
      exact invariant.copied listener member sees
  · intro user currentEq
    simp only [runMainStep, Auth.firstCall_currentUser] at currentEq
    exact invariant.accounts user currentEq
  · intro signedIn
    obtain ⟨somebody, delivered, idle⟩ := invariant.signedIn signedIn
    simp only [runMainStep, Auth.firstCall_currentUser]
    refine ⟨somebody, fun waiting => delivered (waits.mpr waiting), ?_⟩
    simp only [MainStep.completes] at pending
    simp only [pendingAttempts]
    omega
  · intro earlier user later restEq
    simp only [runMainStep, Auth.firstCall_currentUser]
    exact signingIn_tail invariant queueEq restEq

theorem loginDone {rest : List MainStep} {result : AuthResult}
    (invariant : SessionInvariant emailOf device)
    (queueEq : device.mainQueue = .loginDone result :: rest) :
    SessionInvariant emailOf
      ({ device with mainQueue := rest }.runMainStep (.loginDone result)) := by
  have pending := pending_tail queueEq
  have atMostOne := invariant.atMostOne
  simp only [MainStep.completes, if_true] at pending
  have idle : device.attempts.values.length +
      rest.countP MainStep.completes = 0 := by omega
  have signedOut : device.main.signInDone = false := by
    cases signInDone : device.main.signInDone with
    | false => rfl
    | true =>
        have := (invariant.signedIn signInDone).2.2
        omega
  constructor
  · simp only [pendingAttempts, runMainStep]
    omega
  · intro delivered
    simp only [runMainStep] at delivered ⊢
    exact invariant.seen (by
      rw [queueEq]
      simpa using delivered)
  · exact invariant.copied
  · exact invariant.accounts
  · intro signedIn
    cases result with
    | error description =>
        change device.main.signInDone = true at signedIn
        rw [signedOut] at signedIn
        cases signedIn
    | ok user =>
        obtain ⟨somebody, delivered⟩ := invariant.signingIn [] user rest queueEq
        exact ⟨somebody, delivered, idle⟩
  · intro earlier user later restEq
    exact signingIn_tail invariant queueEq restEq

theorem signUpDone {rest : List MainStep} {result : AuthResult}
    (invariant : SessionInvariant emailOf device)
    (queueEq : device.mainQueue = .signUpDone result :: rest) :
    SessionInvariant emailOf
      ({ device with mainQueue := rest }.runMainStep (.signUpDone result)) := by
  have pending := pending_tail queueEq
  have atMostOne := invariant.atMostOne
  simp only [MainStep.completes, if_true] at pending
  constructor
  · simp only [pendingAttempts, runMainStep]
    omega
  · intro delivered
    simp only [runMainStep] at delivered ⊢
    exact invariant.seen (by
      rw [queueEq]
      simpa using delivered)
  · exact invariant.copied
  · exact invariant.accounts
  · intro signedIn
    have := (invariant.signedIn signedIn).2.2
    omega
  · intro earlier user later restEq
    exact signingIn_tail invariant queueEq restEq

theorem appeared (invariant : SessionInvariant emailOf device)
    (signedIn : device.main.signInDone = true) :
    SessionInvariant emailOf device.appear := by
  obtain ⟨somebody, delivered, idle⟩ := invariant.signedIn signedIn
  have pending : pendingAttempts device.appear = pendingAttempts device := by
    simp [pendingAttempts, appear, enqueue, List.countP_append]
  constructor
  · rw [pending]
    exact invariant.atMostOne
  · intro _ listener member uid sees
    rcases List.mem_append.mp member with old | new
    · exact invariant.seen delivered listener old uid sees
    · cases List.mem_singleton.mp new
      cases sees
  · intro listener member sees
    rcases List.mem_append.mp member with old | new
    · exact invariant.copied listener old sees
    · cases List.mem_singleton.mp new
      cases sees
  · exact invariant.accounts
  · intro _
    refine ⟨somebody, ?_, by rw [pending]; exact idle⟩
    simpa [appear, enqueue] using delivered
  · intro earlier user later queueEq
    have member : .loginDone (.ok user) ∈ device.appear.mainQueue := by
      rw [queueEq]
      simp
    have queued : .loginDone (.ok user) ∈ device.mainQueue := by
      simpa [appear, enqueue] using member
    cases no_completion idle queued

theorem loggedOut {keychainFails : Bool}
    (invariant : SessionInvariant emailOf device)
    (signedIn : device.main.signInDone = true)
    (returns : (device.auth.currentUser.isSome && keychainFails) = false) :
    SessionInvariant emailOf (device.pressLogOut keychainFails) := by
  obtain ⟨somebody, delivered, idle⟩ := invariant.signedIn signedIn
  have noLogin : ∀ result, .loginDone result ∉ device.mainQueue := by
    intro result member
    cases no_completion idle member
  rcases device.auth.signOut_cases keychainFails with
    ⟨nobody, _⟩ | ⟨_, fails, _⟩ | ⟨_, _, signOutEq⟩
  · exact absurd nobody somebody
  · rw [fails, Bool.and_true] at returns
    exact absurd (by simpa using returns) somebody
  · have afterEq : device.pressLogOut keychainFails =
        { device with
          main := {}
          auth := { device.auth with currentUser := none }
          controller := device.controller.sessionCleared
          mainQueue := device.mainQueue ++ [.stateDidChange] } := by
      rw [pressLogOut, signOutEq]
      rfl
    rw [afterEq]
    constructor
    · unfold pendingAttempts at idle
      simp [pendingAttempts, List.countP_append]
      omega
    · intro waiting
      simp at waiting
    · intro _ _ _
      rfl
    · intro user currentEq
      cases currentEq
    · intro stillSignedIn
      cases stillSignedIn
    · intro earlier user later queueEq
      obtain ⟨_, lastEq⟩ := last_of_append_singleton queueEq (noLogin _)
      cases lastEq

/-- Every step of such a run keeps the invariant. -/
theorem next {after : Device} {event : Event}
    (invariant : SessionInvariant emailOf device)
    (runs : SessionRun emailOf device event)
    (delivered : SignOutDelivered device event)
    (taken : machine.next device event = some after) :
    SessionInvariant emailOf after := by
  cases sessionActs_of_next taken with
  | other auth mainQueue attempts signInDone session _ =>
      exact invariant.of_same auth mainQueue attempts signInDone session
  | pressLogIn signedOut =>
      exact invariant.press runs signedOut rfl rfl rfl rfl rfl
  | pressSignUp signedOut =>
      exact invariant.press runs signedOut rfl rfl rfl rfl rfl
  | authResult found =>
      rename_i ticket attempt result
      cases result with
      | error description => exact invariant.authFailed found
      | ok user => exact invariant.authSucceeded found runs delivered
  | mainStep queueEq =>
      rename_i first rest
      cases first with
      | stateDidChange => exact invariant.notified queueEq
      | firstCall listener => exact invariant.firstCalled queueEq
      | loginDone result => exact invariant.loginDone queueEq
      | signUpDone result => exact invariant.signUpDone queueEq
  | appear signedIn => exact invariant.appeared signedIn
  | pressLogOut signedIn => exact invariant.loggedOut signedIn runs

/-- On the signed-in screen, once some listener has been called, the session is
the current user. -/
theorem session_eq (invariant : SessionInvariant emailOf device)
    (signedIn : device.main.signInDone = true) {listener : Listener}
    (registered : listener ∈ device.auth.listeners)
    (called : listener.lastSeen.isSome = true) :
    ∃ user, device.auth.currentUser = some user ∧
      user.email = some (emailOf user.uid) ∧
      device.controller.session = some user.toUser := by
  obtain ⟨somebody, delivered, _⟩ := invariant.signedIn signedIn
  obtain ⟨uid, sees⟩ := Option.isSome_iff_exists.mp called
  have seen := invariant.seen delivered listener registered uid sees
  have copied := invariant.copied listener registered (by rw [sees, seen])
  obtain ⟨user, current⟩ := Option.ne_none_iff_exists'.mp somebody
  exact ⟨user, current, invariant.accounts user current, by
    rw [copied, current, Option.map_some]⟩

end SessionInvariant

/-! ## Reading the session -/

/-- A session that is the current user gives that user's email to every
reader. -/
theorem readEmail_eq {device : Device} {user : FIRUser} {email : String}
    (session : device.controller.session = some user.toUser)
    (account : user.email = some email) {event : Event}
    {result : Except Trap String}
    (read : device.readEmail event = some result) : result = .ok email := by
  have known : device.controller.sessionEmail = some email := by
    rw [FirebaseController.sessionEmail, session, Option.bind_some]
    exact account
  have orNone : sessionEmailOrNone device.controller = email := by
    rw [sessionEmailOrNone, known, Option.getD_some]
  cases event with
  | runTask ticket =>
      simp only [readEmail] at read
      split at read
      · cases read
      · cases read
      · rename_i task notUpload _
        cases read
        cases task with
        | onAppear =>
            simp only [RefreshTask.account, forcedSessionEmail, known]
        | onDelete => rw [RefreshTask.account, orNone]
        | afterUpload correoUsuario => exact absurd rfl (notUpload _)
  | onDelete indexSet =>
      cases read
      rw [orNone]
  | save image nombre now =>
      cases read
      rw [orNone]
  | _ => cases read

/-- In every run in which no account signs in again before the listeners have
been told of its sign-out, each read of the session that comes after a first
listener call, while the signed-in screen is up, gives the email of the current
user. -/
theorem session_known (emailOf : String → String)
    {persisted : Option FIRUser} {events : List Event} {device : Device}
    {event : Event} {result : Except Trap String}
    (accounts : ∀ user, persisted = some user →
      user.email = some (emailOf user.uid))
    (run : machine.exec (launch persisted) events = some device)
    (guarded : machine.Guarded
      (fun visited step => SessionRun emailOf visited step ∧
        SignOutDelivered visited step) (launch persisted) events)
    (read : device.readEmail event = some result)
    (afterFirstCall : device.ReadAfterFirstCall) :
    ∃ user email, device.auth.currentUser = some user ∧
      user.email = some email ∧
      device.controller.session = some user.toUser ∧ result = .ok email := by
  have always : machine.Always (SessionInvariant emailOf) (launch persisted)
      events :=
    Machine.always_of_guarded
      (fun _ _ _ invariant condition taken =>
        invariant.next condition.1 condition.2 taken)
      (SessionInvariant.launch accounts) guarded
  obtain ⟨signedIn, listener, registered, called⟩ := afterFirstCall
  obtain ⟨user, current, account, session⟩ :=
    (always.last run).session_eq signedIn registered called
  exact ⟨user, emailOf user.uid, current, account, session,
    readEmail_eq session account read⟩

/-- A first sign-in, up to the appearance of the signed-in screen. -/
def firstAppearance : List Event :=
  [.pressLogIn "ana@lps.es" "secreto",
    .authResult 0 (.ok ⟨"A", some "ana@lps.es"⟩), .mainStep, .mainStep,
    .appear]

/-- `session_known` at the refresh task of a first sign-in that runs after the
listener's first call. -/
theorem session_known_after_first_call :
    ∃ device, machine.exec (launch none) (firstAppearance ++ [.mainStep]) =
        some device ∧
      ∃ user email, device.auth.currentUser = some user ∧
        user.email = some email ∧
        device.controller.session = some user.toUser ∧
        forcedSessionEmail device.controller = .ok email := by
  have run : ∃ device, machine.exec (launch none)
        (firstAppearance ++ [.mainStep]) = some device ∧
      device.readEmail (.runTask 0) =
        some (forcedSessionEmail device.controller) ∧
      device.ReadAfterFirstCall :=
    ⟨_, rfl, rfl, rfl, ⟨some (some "A")⟩, List.mem_singleton.mpr rfl, rfl⟩
  obtain ⟨device, reached, read, afterFirstCall⟩ := run
  refine ⟨device, reached, session_known (fun _ => "ana@lps.es")
    (by simp) reached ?_ read afterFirstCall⟩
  refine Machine.guarded_cons rfl ⟨rfl, trivial⟩ ?_
  refine Machine.guarded_cons rfl ⟨rfl, by simp [SignOutDelivered, pressLogIn, launch]⟩ ?_
  refine Machine.guarded_cons rfl ⟨trivial, trivial⟩ ?_
  refine Machine.guarded_cons rfl ⟨trivial, trivial⟩ ?_
  refine Machine.guarded_cons rfl ⟨trivial, trivial⟩ ?_
  exact Machine.guarded_cons rfl ⟨trivial, trivial⟩ trivial

/-- Without the condition the screen does not know: the refresh task of the
first appearance traps when it runs before the listener's first call, a task
that outlives a Log out traps too, and Save in the meantime reads "none". -/
theorem session_unknown_before_first_call :
    (∃ device, machine.exec (launch none) firstAppearance = some device ∧
      machine.Faults device (.runTask 0)) ∧
    (∃ device, machine.exec (launch none)
        (firstAppearance ++ [.mainStep, .pressLogOut false]) = some device ∧
      machine.Faults device (.runTask 0)) ∧
    (∃ device, machine.exec (launch none) firstAppearance = some device ∧
      ∀ image nombre now,
        device.readEmail (.save image nombre now) = some (.ok "none")) :=
  ⟨⟨_, rfl, .forcedUnwrap, rfl⟩, ⟨_, rfl, .forcedUnwrap, rfl⟩,
    ⟨_, rfl, fun _ _ _ => rfl⟩⟩

end Device

end AppLPS
