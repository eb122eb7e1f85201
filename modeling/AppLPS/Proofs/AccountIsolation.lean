/-
Module: AppLPS.Proofs.AccountIsolation
Purpose: When the picture list shows only the pictures of the signed-in
  account: as long as no account signs in over the rows or the requests of
  another, and refreshes read the account that is signed in.
Trusted boundary: none
Main exports: Isolated, OnlyOf, IsolatingStep, isolated_of_guarded,
  lateDownload_crosses_accounts
-/
import AppLPS.Proofs.LatestRefresh

namespace AppLPS.Device

/-! ## The property -/

/-- Every row that the screen shows carries the email of the current user. -/
def Isolated (device : Device) : Prop :=
  ∀ rows, device.main.body device.controller = .pictures rows →
    ∀ row ∈ rows, ∃ user, device.auth.currentUser = some user ∧
      user.email = some row.email

/-- What the request reads for the list belongs to the account. -/
def ReadsFor (account : Option String) : Request → Prop
  | .getDocuments correoUsuario => account = some correoUsuario
  | .getData _ document => ∃ email, account = some email ∧
      document.data.lookup "email" = some (.string email)
  | _ => True

/-- The list and the queries and downloads in flight are all of one
account. -/
structure OnlyOf (account : Option String) (device : Device) : Prop where
  rows : ∀ row ∈ device.controller.refImagenesUsuario,
    account = some row.email
  reads : device.pending.All fun call => ReadsFor account call.request

/-- An account signs in only when the list and the requests in flight are
already its own, a refresh task that runs while somebody is signed in reads
that account, and the completion of `login` runs while somebody is signed
in. -/
def IsolatingStep (device : Device) (event : Event) : Prop :=
  (∀ ticket user, event = .authResult ticket (.ok user) →
    OnlyOf user.email device) ∧
  (∀ ticket correoUsuario user, event = .runTask ticket →
    device.accountOf ticket = some correoUsuario →
    device.auth.currentUser = some user → user.email = some correoUsuario) ∧
  (∀ user rest, event = .mainStep →
    device.mainQueue = .loginDone (.ok user) :: rest →
    device.auth.currentUser ≠ none)

/-! ## One account -/

/-- A download of a document of the account reads for it. -/
private theorem readsFor_download {correoUsuario : String}
    {snapshot : List QueryDocumentSnapshot} {document : QueryDocumentSnapshot}
    {account : Option String} (isAccount : account = some correoUsuario)
    (own : document ∈ ownDocuments correoUsuario snapshot) :
    ReadsFor account (download document) := by
  have email := (List.mem_filter.mp own).2
  exact ⟨correoUsuario, isAccount, by simpa using email⟩

/-- A device that only deals with one account goes on doing so, unless a
refresh task reads another. -/
theorem OnlyOf.next {account : Option String} {device after : Device}
    {event : Event} (only : OnlyOf account device)
    (task : ∀ ticket correoUsuario, event = .runTask ticket →
      device.accountOf ticket = some correoUsuario →
      account = some correoUsuario)
    (taken : machine.next device event = some after) :
    OnlyOf account after where
  rows := by
    have before := only.rows
    cases acts_of_next taken with
    | quiet gallery _ _ _ =>
        rw [gallery.rows]
        exact before
    | runTask => nofun
    | onDelete _ _ afterEq =>
        subst afterEq
        exact before
    | saveEdit => exact before
    | save =>
        rw [perform_controller, FirebaseController.uploadStorage_controller]
        exact before
    | answer => exact before
    | callback found answered completes =>
        have reads := only.reads.of_find? found
        generalize Call.request _ = request at completes reads
        cases completes with
        | data named dated owned =>
            intro row member
            rcases List.mem_append.mp member with old | new
            · exact before row old
            · cases List.mem_singleton.mp new
              obtain ⟨email, isAccount, found⟩ := reads
              cases owned.symm.trans found
              exact isAccount
        | _ => exact before
  reads := by
    apply all_of_next only.reads _ _ taken
    · intro request issues
      cases issues with
      | query reads => exact task _ _ rfl reads
      | download found isQuery answered own =>
          have reads := only.reads.of_find? found
          rw [isQuery] at reads
          exact readsFor_download reads own
      | _ => trivial
    · intro ticket response call _ _ _ reads
      simpa using reads

/-! ## The invariant -/

/-- The device deals only with the signed-in account, and the signed-in screen
is up only while somebody is signed in. -/
structure IsolationInvariant (device : Device) : Prop where
  only : ∀ user, device.auth.currentUser = some user →
    OnlyOf user.email device
  signedIn : device.main.signInDone = true → device.auth.currentUser ≠ none

namespace IsolationInvariant

theorem launch (persisted : Option FIRUser) :
    IsolationInvariant (launch persisted) where
  only := fun _ _ => ⟨nofun, Pool.all_empty _⟩
  signedIn := nofun

theorem isolated {device : Device} (invariant : IsolationInvariant device) :
    Isolated device := by
  intro rows shown row member
  unfold MainView.body at shown
  split at shown
  · rename_i signedIn
    obtain ⟨user, current⟩ :=
      Option.ne_none_iff_exists'.mp (invariant.signedIn signedIn)
    refine ⟨user, current, (invariant.only user current).rows row ?_⟩
    unfold picturesBody at shown
    split at shown
    · cases shown
    · split at shown
      · cases shown
      · cases shown
        exact member
  · cases shown

theorem next {device after : Device} {event : Event}
    (invariant : IsolationInvariant device)
    (isolating : IsolatingStep device event)
    (taken : machine.next device event = some after) :
    IsolationInvariant after := by
  obtain ⟨arrives, reads, loginDone⟩ := isolating
  constructor
  · intro user current
    rcases currentUser_of_next taken with
      same | ⟨ticket, arrived, rfl, isUser⟩ | ⟨nobody, _⟩
    · rw [same] at current
      exact (invariant.only user current).next
        (fun ticket correoUsuario isTask read =>
          reads ticket correoUsuario user isTask read current) taken
    · cases isUser.symm.trans current
      exact (arrives ticket user rfl).next (by rintro _ _ ⟨⟩) taken
    · rw [nobody] at current
      cases current
  · intro signedIn nobody
    have somebody : device.auth.currentUser ≠ none := by
      rcases signInDone_of_next taken signedIn with
        already | ⟨rfl, user, rest, queueEq⟩
      · exact invariant.signedIn already
      · exact loginDone user rest rfl queueEq
    rcases currentUser_of_next taken with
      same | ⟨_, _, _, isUser⟩ | ⟨_, signedOut⟩
    · exact somebody (same.symm.trans nobody)
    · rw [isUser] at nobody
      cases nobody
    · rw [signedIn] at signedOut
      cases signedOut

end IsolationInvariant

/-! ## Runs -/

/-- In every run of isolating steps, the rows that the screen shows are those
of the current user, in every state. -/
theorem isolated_of_guarded (persisted : Option FIRUser) {events : List Event}
    (guarded : machine.Guarded IsolatingStep (launch persisted) events) :
    machine.Always Isolated (launch persisted) events := by
  have always : machine.Always IsolationInvariant (launch persisted) events :=
    Machine.always_of_guarded
      (fun _ _ _ invariant isolating taken => invariant.next isolating taken)
      (IsolationInvariant.launch persisted) guarded
  exact always.mono fun _ invariant => invariant.isolated

theorem IsolatingStep.runTask {device : Device} {ticket : Nat}
    {user : FIRUser} {correoUsuario : String}
    (current : device.auth.currentUser = some user)
    (account : device.accountOf ticket = some correoUsuario)
    (same : user.email = some correoUsuario) :
    IsolatingStep device (.runTask ticket) := by
  refine ⟨nofun, ?_, nofun⟩
  intro ticket' read user' isEvent isAccount isCurrent
  cases isEvent
  cases account.symm.trans isAccount
  cases current.symm.trans isCurrent
  exact same

/-- A document of a second account. -/
def cueva : QueryDocumentSnapshot where
  documentID := "2021-11-09 09:00:00"
  data := .record "eva@lps.es" "cueva" "2021-11-09 09:00:00"

/-- An account is shown its picture and then an empty list, and a second one logs
in and is shown its own. -/
def secondAccount : List Event :=
  firstRefresh ++
    [.answer 0 (.documents [playa]), .callback 0, .answer 1 (.data [2]),
      .callback 1, .appear, .mainStep, .runTask 1, .answer 2 (.documents []),
      .callback 2, .pressLogOut false, .mainStep,
      .pressLogIn "eva@lps.es" "clave",
      .authResult 1 (.ok ⟨"E", some "eva@lps.es"⟩), .mainStep, .mainStep,
      .appear, .mainStep, .runTask 2, .answer 3 (.documents [cueva]),
      .callback 3, .answer 4 (.data [7]), .callback 4]

/-- `isolated_of_guarded` for two accounts. -/
theorem isolated_second_account :
    (∃ device row, machine.exec (launch none) secondAccount = some device ∧
      device.main.body device.controller = .pictures [row] ∧
      row.email = "eva@lps.es") ∧
    machine.Always Isolated (launch none) secondAccount := by
  refine ⟨⟨_, _, rfl, rfl, rfl⟩, isolated_of_guarded none ?_⟩
  refine Machine.guarded_cons rfl ⟨nofun, nofun, nofun⟩ ?_
  refine Machine.guarded_cons rfl ⟨?_, nofun, nofun⟩ ?_
  · intro ticket user isEvent
    cases isEvent
    exact ⟨nofun, nofun⟩
  iterate 4 refine Machine.guarded_cons rfl ⟨nofun, nofun, nofun⟩ ?_
  refine Machine.guarded_cons rfl (.runTask rfl rfl rfl) ?_
  iterate 6 refine Machine.guarded_cons rfl ⟨nofun, nofun, nofun⟩ ?_
  refine Machine.guarded_cons rfl (.runTask rfl rfl rfl) ?_
  iterate 5 refine Machine.guarded_cons rfl ⟨nofun, nofun, nofun⟩ ?_
  -- The second sign-in finds an empty list and nothing in flight.
  refine Machine.guarded_cons rfl ⟨?_, nofun, nofun⟩ ?_
  · intro ticket user isEvent
    cases isEvent
    exact ⟨nofun, nofun⟩
  iterate 4 refine Machine.guarded_cons rfl ⟨nofun, nofun, nofun⟩ ?_
  refine Machine.guarded_cons rfl (.runTask rfl rfl rfl) ?_
  iterate 4 refine Machine.guarded_cons rfl ⟨nofun, nofun, nofun⟩ ?_
  trivial

/-- Log out while a download is in flight, log in as another account, and then
the download completes. -/
def lateDownload : List Event :=
  firstRefresh ++ [.answer 0 (.documents [playa]), .callback 0,
    .pressLogOut false, .mainStep, .pressLogIn "eva@lps.es" "clave",
    .authResult 1 (.ok ⟨"E", some "eva@lps.es"⟩), .mainStep, .mainStep,
    .answer 1 (.data [2]), .callback 1]

/-- The second account is shown a picture of the first. -/
theorem lateDownload_crosses_accounts :
    ¬ machine.Always Isolated (launch none) lateDownload := by
  intro always
  have run : ∃ device row, machine.exec (launch none) lateDownload =
        some device ∧
      device.main.body device.controller = .pictures [row] ∧
      row.email = "ana@lps.es" ∧
      device.auth.currentUser = some ⟨"E", some "eva@lps.es"⟩ :=
    ⟨_, _, rfl, rfl, rfl, rfl⟩
  obtain ⟨device, row, reached, shown, owner, current⟩ := run
  obtain ⟨user, isCurrent, account⟩ :=
    always.last reached [row] shown row List.mem_cons_self
  cases current.symm.trans isCurrent
  rw [owner] at account
  exact absurd account (by decide)

end AppLPS.Device
