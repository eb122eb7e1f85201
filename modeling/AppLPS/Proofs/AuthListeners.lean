/-
Module: AppLPS.Proofs.AuthListeners
Purpose: What the vendored Auth promises below the app: no listener misses the
  last change of account, although changes are told apart by tokens and
  listeners by uids, and the keychain holds the account that is signed in.
Trusted boundary: none
Main exports: FIRAuth.Updates, FIRAuth.Acts, FIRAuth.acts_of_next,
  FIRAuth.Tokens, FIRAuth.refines_broadcast, FIRAuth.runBlock_auth,
  FIRAuth.signOut_auth, FIRAuth.signInFlow_auth, FIRAuth.listeners_at_rest,
  FIRAuth.restores_iff
-/
import AppLPS.Firebase.FIRAuth
import AppLPS.Proofs.SessionAtRest

namespace AppLPS

/-- The notice that a block of the main queue delivers. -/
def MainBlock.notice? : MainBlock → Option Notice
  | .postNotification => some .all
  | .firstCall listener => some (.first listener)
  | .callback _ => none

namespace MainBlock

@[simp] theorem notice?_postNotification :
    postNotification.notice? = some .all := rfl

@[simp] theorem notice?_firstCall (listener : Nat) :
    (firstCall listener).notice? = some (.first listener) := rfl

@[simp] theorem notice?_callback (result : Except String FIRUserObject) :
    (callback result).notice? = none := rfl

end MainBlock

namespace FIRAuth

variable {auth after : FIRAuth}

/-! ## What an update can do -/

@[simp] theorem post_currentUser (auth : FIRAuth) :
    auth.possiblyPostAuthStateChangeNotification.currentUser =
      auth.currentUser := by
  unfold possiblyPostAuthStateChangeNotification
  split <;> rfl

@[simp] theorem post_keychain (auth : FIRAuth) :
    auth.possiblyPostAuthStateChangeNotification.keychain =
      auth.keychain := by
  unfold possiblyPostAuthStateChangeNotification
  split <;> rfl

@[simp] theorem post_lastNotifiedUserToken (auth : FIRAuth) :
    auth.possiblyPostAuthStateChangeNotification.lastNotifiedUserToken =
      auth.rawAccessToken := by
  unfold possiblyPostAuthStateChangeNotification
  split
  · rename_i same
    exact same
  · rfl

/-- The ways in which `updateCurrentUser` can go. -/
inductive Updates (auth : FIRAuth) (user : Option FIRUserObject)
    (byForce savingToDisk : Bool) (keychainError : Option String) :
    FIRAuth × Option String → Prop where
  | same (isCurrent : auth.isCurrentUser user = true) :
      Updates auth user byForce savingToDisk keychainError
        (auth.possiblyPostAuthStateChangeNotification, none)
  | rejected (error : String) (isUser : user ≠ none ∨ byForce = false) :
      Updates auth user byForce savingToDisk keychainError (auth, some error)
  | saved (savesToDisk : savingToDisk = true) (saves : keychainError = none) :
      Updates auth user byForce savingToDisk keychainError
        ({ auth with
          keychain := user
          currentUser := user }.possiblyPostAuthStateChangeNotification, none)
  | loaded (savesNot : savingToDisk = false) :
      Updates auth user byForce savingToDisk keychainError
        ({ auth with
          currentUser := user }.possiblyPostAuthStateChangeNotification, none)
  | forced (error : String) (isForced : byForce = true)
      (fails : keychainError = some error)
      (isOther : auth.isCurrentUser user = false) :
      Updates auth user byForce savingToDisk keychainError
        ({ auth with
          currentUser := user }.possiblyPostAuthStateChangeNotification,
          some error)

theorem updates_of_update (auth : FIRAuth) (user : Option FIRUserObject)
    (byForce savingToDisk : Bool) (keychainError : Option String) :
    Updates auth user byForce savingToDisk keychainError
      (auth.updateCurrentUser user byForce savingToDisk keychainError) := by
  unfold updateCurrentUser
  by_cases isCurrent : auth.isCurrentUser user = true
  · rw [if_pos isCurrent]
    exact .same isCurrent
  · rw [if_neg isCurrent]
    by_cases mismatch : auth.tenantMismatch user = true
    · rw [if_pos mismatch]
      refine .rejected _ (.inl ?_)
      rintro rfl
      cases mismatch
    · rw [if_neg mismatch]
      cases savingToDisk with
      | false => exact .loaded rfl
      | true =>
          cases keychainError with
          | none => exact .saved rfl rfl
          | some error =>
              cases byForce with
              | false => exact .rejected _ (.inr rfl)
              | true =>
                  exact .forced error rfl rfl (Bool.eq_false_iff.mpr isCurrent)

/-- What a step of Auth can do. -/
inductive Acts (auth : FIRAuth) : Event → FIRAuth → Prop where
  | attemptFailed {error : String} {keychainError : Option String} :
      Acts auth (.attemptFinished (.error error) keychainError)
        (auth.dispatch (.callback (.error error)))
  | signedIn {user : FIRUserObject} {keychainError error : Option String}
      {middle : FIRAuth} {result : Except String FIRUserObject}
      (updates : Updates auth (some user) false true keychainError
        (middle, error)) :
      Acts auth (.attemptFinished (.ok user) keychainError)
        (middle.dispatch (.callback result))
  | nobodySignedIn {keychainError : Option String}
      (signedOut : auth.currentUser = none) :
      Acts auth (.signOut keychainError)
        { auth with controller := auth.controller.sessionCleared }
  | signedOut {keychainError : Option String} {middle : FIRAuth}
      (updates : Updates auth none false true keychainError (middle, none)) :
      Acts auth (.signOut keychainError)
        { middle with controller := middle.controller.sessionCleared }
  | signOutFailed {keychainError : Option String} {error : String}
      {after : FIRAuth}
      (updates : Updates auth none false true keychainError
        (after, some error)) :
      Acts auth (.signOut keychainError) after
  | revoked {address : Nat} {keychainError error : Option String}
      {after : FIRAuth}
      (own : auth.currentUser.map (·.address) = some address)
      (updates : Updates auth none true true keychainError (after, error)) :
      Acts auth (.tokenRevoked address keychainError) after
  | notRevoked {address : Nat} {keychainError : Option String}
      (other : auth.currentUser.map (·.address) ≠ some address) :
      Acts auth (.tokenRevoked address keychainError) auth
  | refreshed {user : FIRUserObject} {token : String}
      (isCurrent : auth.currentUser = some user) :
      Acts auth (.tokenRefreshed user.address token none)
        ({ auth with
          currentUser := some { user with rawAccessToken := some token }
          keychain := some { user with
            rawAccessToken :=
              some token } }.possiblyPostAuthStateChangeNotification)
  | refreshedUnsaved {user : FIRUserObject} {token error : String}
      (isCurrent : auth.currentUser = some user) :
      Acts auth (.tokenRefreshed user.address token (some error))
        { auth with
          currentUser := some { user with rawAccessToken := some token } }
  | notRefreshed {address : Nat} {token : String}
      {keychainError : Option String} :
      Acts auth (.tokenRefreshed address token keychainError) auth
  | listen : Acts auth .listen auth.addAuthStateDidChangeListener
  | mainStep {block : MainBlock} {rest : List MainBlock}
      (queueEq : auth.mainQueue = block :: rest) :
      Acts auth .mainStep ({ auth with mainQueue := rest }.runBlock block)

/-- A completed attempt. -/
private theorem acts_signedIn (auth : FIRAuth) (user : FIRUserObject)
    (keychainError : Option String) :
    Acts auth (.attemptFinished (.ok user) keychainError)
      (auth.signInFlow (.ok user) keychainError) := by
  have updates := updates_of_update auth (some user) false true keychainError
  cases updated :
      auth.updateCurrentUser (some user) false true keychainError with
  | mk middle error =>
      rw [updated] at updates
      simp only [signInFlow, updated]
      cases error with
      | none => exact .signedIn updates
      | some error => exact .signedIn updates

/-- `FirebaseController.signOut`. -/
private theorem acts_signOut {keychainError : Option String}
    (stepped : auth.step (.signOut keychainError) = some (.ok after)) :
    Acts auth (.signOut keychainError) after := by
  cases isCurrent : auth.currentUser with
  | none =>
      rw [step, signOut, isCurrent] at stepped
      cases stepped
      exact .nobodySignedIn isCurrent
  | some user =>
      have updates := updates_of_update auth none false true keychainError
      cases updated : auth.updateCurrentUser none false true keychainError with
      | mk middle error =>
          rw [updated] at updates
          simp only [step, signOut, isCurrent, updated] at stepped
          cases error with
          | none =>
              cases stepped
              exact .signedOut updates
          | some error =>
              cases stepped
              exact .signOutFailed updates

/-- A user receives a token. -/
private theorem acts_tokenRefreshed (auth : FIRAuth) (address : Nat)
    (token : String) (keychainError : Option String) :
    Acts auth (.tokenRefreshed address token keychainError)
      (auth.tokenRefreshed address token keychainError) := by
  unfold tokenRefreshed
  cases isCurrent : auth.currentUser with
  | none => exact .notRefreshed
  | some user =>
      by_cases own : user.address = address
      · subst own
        simp only [if_true, updateKeychainWithUser, isCurrentUser,
          Option.map_some, decide_true]
        cases keychainError with
        | none => exact .refreshed isCurrent
        | some error => exact .refreshedUnsaved isCurrent
      · simp only [if_neg own]
        exact .notRefreshed

/-- The inversion of one step of Auth. -/
theorem acts_of_next {event : Event}
    (taken : machine.next auth event = some after) : Acts auth event after := by
  have stepped : auth.step event = some (.ok after) :=
    Machine.next_eq_some.mp taken
  cases event with
  | attemptFinished result keychainError =>
      cases stepped
      cases result with
      | error error => exact .attemptFailed
      | ok user => exact acts_signedIn auth user keychainError
  | signOut keychainError => exact acts_signOut stepped
  | tokenRevoked address keychainError =>
      cases stepped
      unfold signOutByForce
      split
      · rename_i own
        exact .revoked own
          (updates_of_update auth none true true keychainError)
      · rename_i other
        exact .notRevoked other
  | tokenRefreshed address token keychainError =>
      cases stepped
      exact acts_tokenRefreshed auth address token keychainError
  | listen =>
      cases stepped
      exact .listen
  | mainStep =>
      simp only [step] at stepped
      split at stepped
      · cases stepped
      · rename_i block rest queueEq
        cases stepped
        exact .mainStep queueEq

/-! ## Tokens and uids -/

/-- The token of the current user and the token notified last belong to the
current uid. -/
structure Tokens (owner : String → String) (auth : FIRAuth) : Prop where
  current : auth.rawAccessToken.map owner = auth.currentUser.map (·.uid)
  notified : auth.lastNotifiedUserToken.map owner =
    auth.currentUser.map (·.uid)

/-- The token of a user belongs to its uid. -/
def HasToken (owner : String → String) (user : FIRUserObject) : Prop :=
  user.rawAccessToken.map owner = some user.uid

/-- The backend gives out tokens of the account that they are for. -/
def TokensBelong (owner : String → String) (auth : FIRAuth) : Event → Prop
  | .attemptFinished (.ok user) _ => HasToken owner user
  | .tokenRefreshed address token _ =>
      ∀ user ∈ auth.currentUser, user.address = address →
        owner token = user.uid
  | _ => True

variable {owner : String → String}

/-- Whoever becomes current, tokens belong to uids afterwards. -/
theorem tokens_post
    (current : auth.rawAccessToken.map owner = auth.currentUser.map (·.uid)) :
    Tokens owner auth.possiblyPostAuthStateChangeNotification where
  current := by
    rw [rawAccessToken, post_currentUser]
    exact current
  notified := by
    rw [post_lastNotifiedUserToken, post_currentUser]
    exact current

/-! ## The broadcast of the account -/

/-- What Auth keeps of the broadcast. -/
def broadcast (auth : FIRAuth) : AccountBroadcast where
  current := auth.currentUser.map (·.account)
  observers := auth.listeners.map (·.lastSeen)
  queue := auth.mainQueue.filterMap MainBlock.notice?
  shown := auth.controller.session

/-- Some run of the broadcast leads from one state of Auth to another. -/
def Leads (auth after : FIRAuth) : Prop :=
  ∃ taken, accountBroadcast.exec auth.broadcast taken = some after.broadcast

theorem Leads.refl (same : after.broadcast = auth.broadcast) :
    Leads auth after :=
  ⟨[], congrArg some same.symm⟩

theorem Leads.trans {middle : FIRAuth} (first : Leads auth middle)
    (second : Leads middle after) : Leads auth after := by
  obtain ⟨earlier, firstRun⟩ := first
  obtain ⟨later, secondRun⟩ := second
  refine ⟨earlier ++ later, ?_⟩
  rw [Machine.exec_append, firstRun]
  exact secondRun

theorem leads_of_next (event : Broadcast.Event (Option FIRUser))
    (taken : accountBroadcast.next auth.broadcast event =
      some after.broadcast) : Leads auth after := by
  refine ⟨[event], ?_⟩
  rw [Machine.exec_cons, taken]
  rfl

/-- Posting queues a notice or does nothing. -/
theorem leads_post (auth : FIRAuth) :
    Leads auth auth.possiblyPostAuthStateChangeNotification := by
  unfold possiblyPostAuthStateChangeNotification
  split
  · exact .refl rfl
  · apply leads_of_next .post
    simp [broadcast, dispatch, accountBroadcast, Broadcast.enqueue]

/-- Another account is posted: only the uid of the account before can have the
token that was notified last. -/
theorem leads_become {keychain user : Option FIRUserObject}
    (tokens : Tokens owner auth)
    (current : (user.bind (·.rawAccessToken)).map owner =
      user.map (·.uid)) :
    Leads auth ({ auth with
      keychain := keychain
      currentUser := user }.possiblyPostAuthStateChangeNotification) := by
  unfold possiblyPostAuthStateChangeNotification
  split
  · rename_i notified
    have sameUid : uidOf (user.map (·.account)) =
        uidOf auth.broadcast.current := by
      have uids : user.map (·.uid) = auth.currentUser.map (·.uid) := by
        rw [← current, ← tokens.notified]
        exact congrArg (Option.map owner) notified.symm
      simpa [uidOf, broadcast, Function.comp_def, FIRUserObject.account]
        using uids
    exact leads_of_next _ (Broadcast.next_amend sameUid)
  · apply leads_of_next (.set (user.map (·.account)))
    simp [broadcast, dispatch, accountBroadcast, Broadcast.enqueue]

/-- The contract of an update with a user that has its token. -/
theorem Updates.spec {user : Option FIRUserObject} {byForce savingToDisk : Bool}
    {keychainError error : Option String}
    (updates : Updates auth user byForce savingToDisk keychainError
      (after, error))
    (tokens : Tokens owner auth) (hasToken : ∀ one ∈ user, HasToken owner one) :
    Tokens owner after ∧ Leads auth after := by
  have current : (user.bind (·.rawAccessToken)).map owner =
      user.map (·.uid) := by
    cases user with
    | none => rfl
    | some one => exact hasToken one rfl
  cases updates with
  | same => exact ⟨tokens_post tokens.current, leads_post auth⟩
  | rejected => exact ⟨tokens, .refl rfl⟩
  | saved => exact ⟨tokens_post current, leads_become tokens current⟩
  | loaded => exact ⟨tokens_post current, leads_become tokens current⟩
  | forced => exact ⟨tokens_post current, leads_become tokens current⟩

/-- What a completion dispatches is no notice. -/
theorem leads_callback {middle : FIRAuth} (leads : Leads auth middle)
    (result : Except String FIRUserObject) :
    Leads auth (middle.dispatch (.callback result)) := by
  apply leads.trans
  apply Leads.refl
  simp [broadcast, dispatch]

theorem Tokens.of_same (tokens : Tokens owner auth)
    (currentUser : after.currentUser = auth.currentUser)
    (notified : after.lastNotifiedUserToken = auth.lastNotifiedUserToken) :
    Tokens owner after where
  current := by
    rw [rawAccessToken, currentUser]
    exact tokens.current
  notified := by
    rw [notified, currentUser]
    exact tokens.notified

/-- A block of the main queue delivers its notice, if it is one. -/
private theorem runBlock_spec (tokens : Tokens owner auth) {block : MainBlock}
    {rest : List MainBlock} (queueEq : auth.mainQueue = block :: rest) :
    Tokens owner ({ auth with mainQueue := rest }.runBlock block) ∧
      Leads auth ({ auth with mainQueue := rest }.runBlock block) := by
  have delivers : ∀ notice, block.notice? = some notice →
      accountBroadcast.next auth.broadcast .deliver =
        some (Broadcast.tell uidOf (Option.map FIRUser.toUser)
          { auth.broadcast with
            queue := rest.filterMap MainBlock.notice? } notice) := by
    intro notice isNotice
    apply Broadcast.next_deliver
    simp only [broadcast, queueEq, List.filterMap_cons, isNotice]
  cases block with
  | postNotification =>
      refine ⟨tokens.of_same rfl rfl, leads_of_next .deliver ?_⟩
      rw [delivers .all rfl]
      exact congrArg some (Auth.notifyAll_tell auth.broadcast.current
        auth.controller auth.listeners _)
  | firstCall index =>
      simp only [runBlock]
      cases registered : auth.listeners[index]? with
      | none =>
          refine ⟨tokens.of_same rfl rfl, leads_of_next .deliver ?_⟩
          rw [delivers (.first index) rfl, tell_unregistered rfl registered]
          rfl
      | some listener =>
          refine ⟨tokens.of_same rfl rfl, leads_of_next .deliver ?_⟩
          rw [delivers (.first index) rfl]
          exact congrArg some (Listener.invoke_tell registered _)
  | callback result =>
      refine ⟨tokens.of_same rfl rfl, .refl ?_⟩
      simp [broadcast, runBlock, queueEq, List.filterMap_cons]

/-- One step of Auth. -/
theorem next_spec {event : Event} (tokens : Tokens owner auth)
    (belongs : TokensBelong owner auth event)
    (taken : machine.next auth event = some after) :
    Tokens owner after ∧ Leads auth after := by
  cases acts_of_next taken with
  | attemptFailed =>
      exact ⟨tokens.of_same rfl rfl, leads_callback (.refl rfl) _⟩
  | @signedIn user _ _ _ _ updates =>
      have hasToken : HasToken owner user := belongs
      obtain ⟨tokensAfter, leads⟩ :=
        updates.spec tokens (by simpa using hasToken)
      exact ⟨tokensAfter.of_same rfl rfl, leads_callback leads _⟩
  | nobodySignedIn =>
      exact ⟨tokens.of_same rfl rfl, leads_of_next .clear rfl⟩
  | signedOut updates =>
      obtain ⟨tokensAfter, leads⟩ := updates.spec tokens (by simp)
      exact ⟨tokensAfter.of_same rfl rfl,
        leads.trans (leads_of_next .clear rfl)⟩
  | signOutFailed updates => exact updates.spec tokens (by simp)
  | revoked _ updates => exact updates.spec tokens (by simp)
  | notRevoked => exact ⟨tokens, .refl rfl⟩
  | @refreshed user token isCurrent =>
      have uid := belongs user isCurrent rfl
      refine ⟨tokens_post (by simpa [rawAccessToken] using uid), ?_⟩
      refine Leads.trans (Leads.refl ?_) (leads_post _)
      simp [broadcast, isCurrent, FIRUserObject.account]
  | @refreshedUnsaved user token error isCurrent =>
      have uid := belongs user isCurrent rfl
      have notified := tokens.notified
      rw [isCurrent] at notified
      refine ⟨⟨by simpa [rawAccessToken] using uid, notified⟩, Leads.refl ?_⟩
      simp [broadcast, isCurrent, FIRUserObject.account]
  | notRefreshed => exact ⟨tokens, .refl rfl⟩
  | listen =>
      refine ⟨tokens.of_same rfl rfl, leads_of_next .observe ?_⟩
      simp [broadcast, addAuthStateDidChangeListener, dispatch,
        accountBroadcast, Broadcast.enqueue]
  | mainStep queueEq => exact runBlock_spec tokens queueEq

/-- Auth refines the broadcast of its account. -/
theorem refines_broadcast (owner : String → String) :
    machine.Refines accountBroadcast broadcast (Tokens owner)
      (TokensBelong owner) where
  preserved := fun _ _ _ tokens belongs taken =>
    (next_spec tokens belongs taken).1
  simulates := fun _ _ _ tokens belongs taken =>
    (next_spec tokens belongs taken).2

/-! ## Initialization -/

@[simp] theorem post_listeners (auth : FIRAuth) :
    auth.possiblyPostAuthStateChangeNotification.listeners =
      auth.listeners := by
  unfold possiblyPostAuthStateChangeNotification
  split <;> rfl

@[simp] theorem post_controller (auth : FIRAuth) :
    auth.possiblyPostAuthStateChangeNotification.controller =
      auth.controller := by
  unfold possiblyPostAuthStateChangeNotification
  split <;> rfl

/-- The user that is loaded when the app starts. -/
def loaded (keychain : Option FIRUserObject) :
    Option String → Option FIRUserObject
  | none => keychain
  | some _ => none

/-- The loaded user becomes current: its own tenant is expected. -/
theorem start_spec (keychain : Option FIRUserObject)
    (keychainError : Option String) :
    (start keychain keychainError).currentUser =
        loaded keychain keychainError ∧
      (start keychain keychainError).keychain = keychain ∧
      (start keychain keychainError).lastNotifiedUserToken =
        (loaded keychain keychainError).bind (·.rawAccessToken) ∧
      (start keychain keychainError).listeners = [] ∧
      (start keychain keychainError).controller = {} := by
  cases keychainError with
  | some error => exact ⟨rfl, rfl, rfl, rfl, rfl⟩
  | none =>
      cases keychain with
      | none => exact ⟨rfl, rfl, rfl, rfl, rfl⟩
      | some user =>
          simp [start, getUser, loaded, updateCurrentUser, isCurrentUser,
            tenantMismatch]

theorem Tokens.start {keychain : Option FIRUserObject}
    (keychainError : Option String)
    (stored : ∀ user ∈ keychain, HasToken owner user) :
    Tokens owner (start keychain keychainError) := by
  obtain ⟨currentUser, _, notified, _⟩ := start_spec keychain keychainError
  have belongs : ((loaded keychain keychainError).bind
      (·.rawAccessToken)).map owner =
        (loaded keychain keychainError).map (·.uid) := by
    cases keychainError with
    | some error => rfl
    | none =>
        cases keychain with
        | none => rfl
        | some user => exact stored user rfl
  constructor
  · rw [rawAccessToken, currentUser]
    exact belongs
  · rw [notified, currentUser]
    exact belongs

/-! ## The `Auth` of a device -/

/-- Blocks of the main queue call listeners as those of a device do. -/
theorem runBlock_auth (auth : FIRAuth) (index : Nat) :
    ((auth.runBlock .postNotification).auth,
        (auth.runBlock .postNotification).controller) =
      auth.auth.notify auth.controller ∧
    ((auth.runBlock (.firstCall index)).auth,
        (auth.runBlock (.firstCall index)).controller) =
      auth.auth.firstCall auth.controller index := by
  refine ⟨rfl, ?_⟩
  simp only [runBlock, Auth.firstCall, FIRAuth.auth]
  cases registered : auth.listeners[index]? with
  | none => rfl
  | some listener => rfl

/-- A sign-out that fails changes nothing, and one that succeeds does to the
account and posts what it does on a device. -/
theorem signOut_auth (tokens : Tokens owner auth)
    (keychainError : Option String) :
    match auth.auth.signOut keychainError.isSome with
    | .error _ => auth.signOut keychainError = (auth, keychainError)
    | .ok (signedOut, posted) =>
        ∃ after, auth.signOut keychainError = (after, none) ∧
          after.auth = signedOut ∧
          after.mainQueue = auth.mainQueue ++
            if posted then [.postNotification] else [] := by
  cases isCurrent : auth.currentUser with
  | none =>
      simp only [Auth.signOut, FIRAuth.auth, isCurrent, Option.map_none]
      refine ⟨auth, by simp only [signOut, isCurrent], ?_, by simp⟩
      simp [isCurrent]
  | some user =>
      -- The token notified last is the one of the user that goes.
      have notified : auth.lastNotifiedUserToken ≠ none := by
        intro noToken
        have belongs := tokens.notified
        rw [noToken, isCurrent] at belongs
        cases belongs
      cases keychainError with
      | some error =>
          simp [Auth.signOut, FIRAuth.auth, isCurrent, signOut,
            updateCurrentUser, isCurrentUser, tenantMismatch, saveUser]
      | none =>
          simp [Auth.signOut, FIRAuth.auth, isCurrent, signOut,
            updateCurrentUser, isCurrentUser, tenantMismatch, saveUser,
            possiblyPostAuthStateChangeNotification, rawAccessToken, notified,
            dispatch]

/-- A user of the tenant that signs in becomes the current account. -/
theorem signInFlow_auth {user : FIRUserObject}
    (isOther : auth.isCurrentUser (some user) = false)
    (ofTenant : auth.tenantMismatch (some user) = false) :
    (auth.signInFlow (.ok user) none).auth =
      { auth.auth with currentUser := some user.account } := by
  simp [signInFlow, updateCurrentUser, isOther, ofTenant, saveUser,
    FIRAuth.auth, dispatch]

/-- In every run of Auth with tokens that belong to their accounts, whatever
attempts, sign-outs, revoked and refreshed tokens there are and whichever reads
and writes of the keychain fail: when nothing is left to deliver, every listener
has seen the current account, and the session has its uid or there is none. -/
theorem listeners_at_rest (owner : String → String)
    {keychain : Option FIRUserObject} (keychainError : Option String)
    (stored : ∀ user ∈ keychain, HasToken owner user) {events : List Event}
    (belong : machine.Guarded (TokensBelong owner)
      (start keychain keychainError) events)
    {auth : FIRAuth}
    (run : machine.exec (start keychain keychainError) events = some auth)
    (delivered : ∀ block ∈ auth.mainQueue, block.notice? = none) :
    (∀ listener ∈ auth.listeners,
        listener.lastSeen = some (auth.currentUser.map (·.uid))) ∧
      ∀ session, auth.controller.session = some session →
        ∃ user, auth.currentUser = some user ∧ session.uid = user.uid := by
  obtain ⟨_, _, _, listeners, controller⟩ := start_spec keychain keychainError
  have informed : (start keychain keychainError).broadcast.Informed uidOf
      (Option.map FIRUser.toUser) none :=
    AccountBroadcast.informed_start (by simp [broadcast, listeners])
      (by simp [broadcast, controller])
  obtain ⟨taken, replayed⟩ :=
    (refines_broadcast owner).exists_exec (.start keychainError stored) belong
      run
  obtain ⟨allSeen, session⟩ := AccountBroadcast.at_rest
    (informed.of_exec replayed) (List.filterMap_eq_nil_iff.mpr delivered)
  constructor
  · intro listener member
    have seen := allSeen _ (List.mem_map_of_mem member)
    simpa [broadcast, uidOf, Function.comp_def, FIRUserObject.account]
      using seen
  · intro shown isShown
    obtain ⟨account, isCurrent, uid⟩ := session shown isShown
    obtain ⟨user, isUser, rfl⟩ := Option.map_eq_some_iff.mp isCurrent
    exact ⟨user, isUser, uid⟩

/-- Ana signs in, her token is refreshed and then revoked, and Luis signs in. -/
def changesAccounts : List Event :=
  [.attemptFinished (.ok ⟨1, "A", some "ana@lps.es", some "a1", none⟩) none,
    .mainStep, .mainStep, .listen, .mainStep, .tokenRefreshed 1 "a2" none,
    .tokenRevoked 1 none, .mainStep,
    .attemptFinished (.ok ⟨2, "L", some "luis@lps.es", some "l1", none⟩) none,
    .mainStep, .mainStep, .mainStep]

/-- Whose tokens these are. -/
def ownerOf (token : String) : String := if token = "l1" then "L" else "A"

instance TokensBelong.decidable (owner : String → String) (auth : FIRAuth) :
    (event : Event) → Decidable (TokensBelong owner auth event)
  | .attemptFinished (.ok user) _ =>
      inferInstanceAs (Decidable
        (user.rawAccessToken.map owner = some user.uid))
  | .tokenRefreshed address token _ =>
      inferInstanceAs (Decidable (∀ user ∈ auth.currentUser,
        user.address = address → owner token = user.uid))
  | .attemptFinished (.error _) _ | .signOut _ | .tokenRevoked _ _ | .listen
  | .mainStep => inferInstanceAs (Decidable True)

/-- `listeners_at_rest` after these changes. -/
theorem listeners_at_rest_changed :
    ∃ auth, machine.exec (start none none) changesAccounts = some auth ∧
      auth.controller.session = some ⟨"L", some "luis@lps.es"⟩ ∧
      ∀ listener ∈ auth.listeners,
        listener.lastSeen = some (auth.currentUser.map (·.uid)) := by
  have ends :
      (machine.exec (start none none) changesAccounts).map (fun auth =>
        (auth.controller.session,
          decide (∀ block ∈ auth.mainQueue, block.notice? = none))) =
        some (some ⟨"L", some "luis@lps.es"⟩, true) := by
    decide +kernel
  obtain ⟨auth, run, shown⟩ := Option.map_eq_some_iff.mp ends
  obtain ⟨session, delivered⟩ := Prod.mk.inj shown
  exact ⟨auth, run, session, (listeners_at_rest ownerOf none (by simp)
    (by decide +kernel) run (of_decide_eq_true delivered)).1⟩

/-! ## The keychain -/

/-- An app that is started again, and can read the keychain, has the same
account. -/
def Restores (auth : FIRAuth) : Prop :=
  (start auth.keychain none).currentUser.map (·.account) =
    auth.currentUser.map (·.account)

/-- A user that is signed out by force is removed from the keychain. -/
def RevokedSaved (auth : FIRAuth) : Event → Prop
  | .tokenRevoked address keychainError =>
      auth.currentUser.map (·.address) = some address → keychainError = none
  | _ => True

theorem restores_iff_keychain :
    Restores auth ↔
      auth.keychain.map (·.account) = auth.currentUser.map (·.account) := by
  rw [Restores, (start_spec auth.keychain none).1, loaded]

theorem Restores.of_same (restores : Restores auth)
    (currentUser : after.currentUser = auth.currentUser)
    (keychain : after.keychain = auth.keychain) : Restores after := by
  rw [restores_iff_keychain] at restores ⊢
  rw [currentUser, keychain]
  exact restores

theorem restores_of_saved {user : Option FIRUserObject}
    (currentUser : after.currentUser = user) (keychain : after.keychain = user) :
    Restores after := by
  rw [restores_iff_keychain, currentUser, keychain]

/-- An update that is not forced is saved before it takes effect. -/
theorem Updates.restores {user : Option FIRUserObject}
    {keychainError error : Option String}
    (updates : Updates auth user false true keychainError (after, error))
    (before : Restores auth) : Restores after := by
  cases updates with
  | same => exact before.of_same (post_currentUser _) (post_keychain _)
  | rejected => exact before
  | saved => exact restores_of_saved (post_currentUser _) (post_keychain _)
  | loaded savesNot => cases savesNot
  | forced _ isForced => cases isForced

/-- A forced sign-out takes effect even if it cannot be saved. -/
theorem Updates.restores_iff_saved {keychainError error : Option String}
    (updates : Updates auth none true true keychainError (after, error))
    (before : Restores auth) (signedIn : auth.currentUser ≠ none) :
    Restores after ↔ keychainError = none := by
  cases updates with
  | same isCurrent =>
      rw [isCurrentUser, decide_eq_true_iff] at isCurrent
      exact absurd (Option.map_eq_none_iff.mp isCurrent.symm) signedIn
  | rejected _ isUser =>
      rcases isUser with isUser | notForced
      · exact absurd rfl isUser
      · cases notForced
  | saved _ saves =>
      exact iff_of_true
        (restores_of_saved (post_currentUser _) (post_keychain _)) saves
  | loaded savesNot => cases savesNot
  | forced error _ fails =>
      -- The user is gone and its copy is not.
      refine iff_of_false ?_ (by simp [fails])
      rw [restores_iff_keychain] at before ⊢
      rw [post_keychain, post_currentUser]
      intro emptied
      have noUser := before.symm.trans emptied
      simp only [Option.map_none, Option.map_eq_none_iff] at noUser
      exact signedIn noUser

/-- A step keeps what a restart would restore, unless a forced sign-out is not
saved. -/
theorem restores_of_next_iff {event : Event} (before : Restores auth)
    (taken : machine.next auth event = some after) :
    Restores after ↔ RevokedSaved auth event := by
  cases acts_of_next taken with
  | revoked own updates =>
      have signedIn : auth.currentUser ≠ none := by
        intro noUser
        rw [noUser] at own
        cases own
      rw [updates.restores_iff_saved before signedIn]
      exact ⟨fun saves _ => saves, fun saved => saved own⟩
  | notRevoked other => exact iff_of_true before fun own => absurd own other
  | attemptFailed => exact iff_of_true (before.of_same rfl rfl) trivial
  | signedIn updates =>
      exact iff_of_true ((updates.restores before).of_same rfl rfl) trivial
  | nobodySignedIn => exact iff_of_true (before.of_same rfl rfl) trivial
  | signedOut updates =>
      exact iff_of_true ((updates.restores before).of_same rfl rfl) trivial
  | signOutFailed updates => exact iff_of_true (updates.restores before) trivial
  | refreshed =>
      exact iff_of_true
        (restores_of_saved (post_currentUser _) (post_keychain _)) trivial
  | refreshedUnsaved isCurrent =>
      refine iff_of_true ?_ trivial
      rw [restores_iff_keychain] at before ⊢
      rw [before, isCurrent]
      rfl
  | notRefreshed => exact iff_of_true before trivial
  | listen => exact iff_of_true (before.of_same rfl rfl) trivial
  | @mainStep block rest queueEq =>
      refine iff_of_true ?_ trivial
      cases block with
      | postNotification => exact before.of_same rfl rfl
      | callback result => exact before.of_same rfl rfl
      | firstCall index =>
          simp only [runBlock]
          split
          · exact before.of_same rfl rfl
          · exact before.of_same rfl rfl

/-- What is not loaded would be restored. -/
theorem restores_start_iff {keychain : Option FIRUserObject}
    {keychainError : Option String} :
    Restores (start keychain keychainError) ↔
      keychainError = none ∨ keychain = none := by
  obtain ⟨currentUser, stored, _⟩ := start_spec keychain keychainError
  rw [restores_iff_keychain, currentUser, stored]
  cases keychainError with
  | none => exact iff_of_true rfl (.inl rfl)
  | some error => simp [loaded]

/-- In every run of Auth the keychain would restore the current account in
every state, exactly when it could be read at the start, or was empty, and every
user that is signed out by force could be removed from it. -/
theorem restores_iff (keychain : Option FIRUserObject)
    (keychainError : Option String) (events : List Event) :
    machine.Always Restores (start keychain keychainError) events ↔
      (keychainError = none ∨ keychain = none) ∧
        machine.Guarded RevokedSaved (start keychain keychainError) events := by
  have noAssumption : machine.Guarded (fun _ _ => True)
      (start keychain keychainError) events :=
    Machine.guarded_of_forall (fun _ _ _ => trivial) _
  have later := fun restores : Restores (start keychain keychainError) =>
    Machine.always_iff_guarded (fun _ => True)
      (fun _ _ _ _ _ _ => trivial)
      (fun _ _ _ _ _ restores taken => restores_of_next_iff restores taken)
      trivial restores noAssumption
  constructor
  · intro always
    exact ⟨restores_start_iff.mp always.head, (later always.head).mp always⟩
  · intro saved
    exact (later (restores_start_iff.mpr saved.1)).mpr saved.2

end FIRAuth

end AppLPS
