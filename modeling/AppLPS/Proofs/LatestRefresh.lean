/-
Module: AppLPS.Proofs.LatestRefresh
Purpose: The history of the most recently started refresh of a device: the
  ticket of its query, the snapshot it received and the downloads it started.
Trusted boundary: none
Main exports: Refresh, Refresh.document?, recordRefresh, Tracks,
  Tracks.of_next
-/
import AppLPS.Proofs.DeviceSteps

namespace AppLPS.Device

/-!
A completion closure of the app does not say which refresh started it.  The
history variable of this file keeps what the code does not: which query is the
one of the latest `getUserData`, what it returned, and which downloads in
flight are its own.
-/

/-- A started refresh: the ticket and the account of its query and, once the
closure of the query has run, the snapshot and the ticket of the first
download. -/
structure Refresh where
  ticket : Nat
  correoUsuario : String
  snapshot : Option (List QueryDocumentSnapshot) := none
  firstDownload : Nat := 0
deriving DecidableEq

/-- The document whose download the refresh started under a ticket. -/
def Refresh.document? (refresh : Refresh) (ticket : Nat) :
    Option QueryDocumentSnapshot :=
  refresh.snapshot.bind fun snapshot =>
    if ticket < refresh.firstDownload then none
    else (ownDocuments refresh.correoUsuario snapshot)[
      ticket - refresh.firstDownload]?

/-- The refresh after the closure of a call has run: its own query leaves a
snapshot. -/
def Refresh.received (refresh : Refresh) (device : Device) (ticket : Nat) :
    Refresh :=
  match device.answerTo ticket with
  | some (.documents snapshot) =>
      if ticket = refresh.ticket then
        { refresh with
          snapshot := some snapshot
          firstDownload := device.pending.next }
      else refresh
  | _ => refresh

/-- History variable: the most recently started refresh. -/
def recordRefresh (before : Device) (event : Event) (_after : Device)
    (latest : Option Refresh) : Option Refresh :=
  match event with
  | .runTask ticket =>
      match before.accountOf ticket with
      | some correoUsuario =>
          some { ticket := before.pending.next, correoUsuario := correoUsuario }
      | none => latest
  | .callback ticket =>
      latest.map fun refresh => refresh.received before ticket
  | _ => latest

/-! ## Reading the history -/

theorem Refresh.document?_eq_some {refresh : Refresh} {ticket : Nat}
    {document : QueryDocumentSnapshot} :
    refresh.document? ticket = some document ↔
      ∃ snapshot index, refresh.snapshot = some snapshot ∧
        ticket = refresh.firstDownload + index ∧
        (ownDocuments refresh.correoUsuario snapshot)[index]? =
          some document := by
  unfold Refresh.document?
  rw [Option.bind_eq_some_iff]
  apply exists_congr
  intro snapshot
  constructor
  · intro started
    obtain ⟨received, found⟩ := started
    split at found
    · cases found
    · exact ⟨ticket - refresh.firstDownload, received, by omega, found⟩
  · intro listed
    obtain ⟨index, received, rfl, found⟩ := listed
    refine ⟨received, ?_⟩
    rw [if_neg (by omega), Nat.add_sub_cancel_left]
    exact found

/-- A download of the refresh is for a document of its snapshot. -/
theorem Refresh.exists_snapshot_of_document? {refresh : Refresh} {ticket : Nat}
    {document : QueryDocumentSnapshot}
    (started : refresh.document? ticket = some document) :
    ∃ snapshot, refresh.snapshot = some snapshot ∧
      document ∈ ownDocuments refresh.correoUsuario snapshot := by
  obtain ⟨snapshot, index, received, _, found⟩ :=
    Refresh.document?_eq_some.mp started
  exact ⟨snapshot, received, List.mem_of_getElem? found⟩

@[simp] theorem Refresh.document?_of_no_snapshot {refresh : Refresh}
    (waiting : refresh.snapshot = none) (ticket : Nat) :
    refresh.document? ticket = none := by
  rw [Refresh.document?, waiting]
  rfl

theorem recordRefresh_runTask {device after : Device} {ticket : Nat}
    {task : RefreshTask} {correoUsuario : String} {latest : Option Refresh}
    (found : device.tasks.find? ticket = some task)
    (account : task.account device.controller = .ok correoUsuario) :
    recordRefresh device (.runTask ticket) after latest =
      some { ticket := device.pending.next, correoUsuario := correoUsuario } := by
  rw [recordRefresh, accountOf_eq found account]

/-- Only refresh tasks and callbacks touch the history. -/
theorem recordRefresh_of_quiet {before after : Device} {event : Event}
    {latest : Option Refresh} (isQuiet : event.touchesRequests = false) :
    recordRefresh before event after latest = latest := by
  cases event <;> first | rfl | cases isQuiet

/-- What a callback leaves of the history: the closure of the latest query
leaves its snapshot, every other closure nothing. -/
theorem Refresh.received_cases {device : Device} {ticket : Nat} {call : Call}
    {response : Response} (refresh : Refresh)
    (found : device.pending.find? ticket = some call)
    (answered : call.answer = some response) :
    (∃ snapshot, response = .documents snapshot ∧ ticket = refresh.ticket ∧
        refresh.received device ticket =
          { refresh with
            snapshot := some snapshot
            firstDownload := device.pending.next }) ∨
      ((ticket = refresh.ticket → ∀ snapshot, response ≠ .documents snapshot) ∧
        refresh.received device ticket = refresh) := by
  have answer : device.answerTo ticket = some response := by
    rw [answerTo, found, Option.bind_some, answered]
  unfold Refresh.received
  rw [answer]
  cases response with
  | documents snapshot =>
      by_cases here : ticket = refresh.ticket
      · left
        exact ⟨snapshot, rfl, here, if_pos here⟩
      · right
        exact ⟨fun same => absurd same here, if_neg here⟩
  | _ =>
      right
      refine ⟨?_, rfl⟩
      intro _ snapshot same
      cases same

/-! ## The history tracks the requests in flight -/

/-- The tickets of the history name the requests it says they name. -/
structure Tracks (latest : Option Refresh) (pending : Pool Call) : Prop where
  issued : ∀ refresh ∈ latest, refresh.ticket < pending.next
  downloadsIssued : ∀ refresh ∈ latest, ∀ ticket document,
    refresh.document? ticket = some document → ticket < pending.next
  query : ∀ refresh ∈ latest, pending.Each fun ticket call =>
    ticket = refresh.ticket →
      call.request = .getDocuments refresh.correoUsuario
  waiting : ∀ refresh ∈ latest, pending.Each fun ticket _ =>
    ticket = refresh.ticket → refresh.snapshot = none
  downloads : ∀ refresh ∈ latest, pending.Each fun ticket call =>
    ∀ document, refresh.document? ticket = some document →
      call.request = download document

namespace Tracks

variable {latest : Option Refresh} {pending : Pool Call}

theorem none : Tracks none pending :=
  ⟨nofun, nofun, nofun, nofun, nofun⟩

theorem submitAll (tracks : Tracks latest pending) (works : List Call) :
    Tracks latest (pending.submitAll works) where
  issued := by
    intro refresh isLatest
    rw [Pool.next_submitAll]
    exact Nat.lt_add_right _ (tracks.issued refresh isLatest)
  downloadsIssued := by
    intro refresh isLatest ticket document started
    rw [Pool.next_submitAll]
    exact Nat.lt_add_right _
      (tracks.downloadsIssued refresh isLatest ticket document started)
  query := by
    intro refresh isLatest
    apply (tracks.query refresh isLatest).submitAll _
    intro index call _ ticketEq
    have issued := tracks.issued refresh isLatest
    omega
  waiting := by
    intro refresh isLatest
    apply (tracks.waiting refresh isLatest).submitAll _
    intro index call _ ticketEq
    have issued := tracks.issued refresh isLatest
    omega
  downloads := by
    intro refresh isLatest
    apply (tracks.downloads refresh isLatest).submitAll _
    intro index call _ document started
    have issued :=
      tracks.downloadsIssued refresh isLatest _ document started
    omega

theorem remove (tracks : Tracks latest pending) (ticket : Nat) :
    Tracks latest (pending.remove ticket) where
  issued := tracks.issued
  downloadsIssued := tracks.downloadsIssued
  query := fun refresh isLatest =>
    (tracks.query refresh isLatest).remove fun _ _ _ holds => holds
  waiting := fun refresh isLatest =>
    (tracks.waiting refresh isLatest).remove fun _ _ _ holds => holds
  downloads := fun refresh isLatest =>
    (tracks.downloads refresh isLatest).remove fun _ _ _ holds => holds

theorem respond (tracks : Tracks latest pending) (ticket : Nat)
    (response : Response) :
    Tracks latest
      (pending.update ticket fun call => call.respond response) where
  issued := tracks.issued
  downloadsIssued := tracks.downloadsIssued
  query := fun refresh isLatest =>
    (tracks.query refresh isLatest).update fun call _ holds => by
      simpa using holds
  waiting := fun refresh isLatest =>
    (tracks.waiting refresh isLatest).update fun _ _ holds => holds
  downloads := fun refresh isLatest =>
    (tracks.downloads refresh isLatest).update fun call _ holds => by
      simpa using holds

/-- A refresh starts. -/
theorem started (pending : Pool Call) (correoUsuario : String) :
    Tracks
      (some { ticket := pending.next, correoUsuario := correoUsuario })
      (pending.submitAll [Call.fresh (.getDocuments correoUsuario)]) where
  issued := by
    intro refresh isLatest
    cases isLatest
    rw [Pool.next_submitAll]
    exact Nat.lt_add_one _
  downloadsIssued := by
    intro refresh isLatest ticket document started
    cases isLatest
    rw [Refresh.document?_of_no_snapshot rfl] at started
    cases started
  query := by
    intro refresh isLatest
    cases isLatest
    have older : pending.Each fun ticket call => ticket = pending.next →
        call.request = .getDocuments correoUsuario :=
      fun item member isQuery =>
        absurd isQuery (Nat.ne_of_lt (pending.bounded item member))
    apply older.submitAll _
    intro index call atIndex _
    rw [List.mem_singleton.mp (List.mem_of_getElem? atIndex)]
    rfl
  waiting := by
    intro refresh isLatest _ _ _
    cases isLatest
    rfl
  downloads := by
    intro refresh isLatest item _ document started
    cases isLatest
    rw [Refresh.document?_of_no_snapshot rfl] at started
    cases started

/-- The query of the latest refresh completes: its own call is gone and its
downloads are in flight. -/
theorem received {refresh : Refresh} {snapshot : List QueryDocumentSnapshot}
    (tracks : Tracks (some refresh) pending) :
    Tracks
      (some { refresh with
        snapshot := some snapshot
        firstDownload := pending.next })
      ((pending.remove refresh.ticket).submitAll
        (((ownDocuments refresh.correoUsuario snapshot).map download).map
          Call.fresh)) where
  issued := by
    intro _ isLatest
    cases isLatest
    rw [Pool.next_submitAll]
    exact Nat.lt_add_right _ (tracks.issued refresh rfl)
  downloadsIssued := by
    intro _ isLatest ticket document started
    cases isLatest
    obtain ⟨_, index, ⟨⟩, rfl, found⟩ := Refresh.document?_eq_some.mp started
    have inRange := (List.getElem?_eq_some_iff.mp found).1
    rw [Pool.next_submitAll, List.length_map, List.length_map]
    exact Nat.add_lt_add_left inRange _
  query := by
    intro _ isLatest
    cases isLatest
    have gone : (pending.remove refresh.ticket).Each fun ticket call =>
        ticket = refresh.ticket →
          call.request = .getDocuments refresh.correoUsuario :=
      (tracks.query refresh rfl).remove fun _ _ _ holds => holds
    apply gone.submitAll _
    intro index call _ ticketEq
    have issued := tracks.issued refresh rfl
    have sameNext : (pending.remove refresh.ticket).next = pending.next := rfl
    omega
  waiting := by
    intro _ isLatest
    cases isLatest
    have gone : (pending.remove refresh.ticket).Each fun ticket _ =>
        ticket = refresh.ticket → some snapshot = Option.none :=
      (tracks.waiting refresh rfl).remove fun _ _ ne _ same => absurd same ne
    apply gone.submitAll _
    intro index call _ ticketEq
    have issued := tracks.issued refresh rfl
    have sameNext : (pending.remove refresh.ticket).next = pending.next := rfl
    omega
  downloads := by
    intro _ isLatest
    cases isLatest
    have older : (pending.remove refresh.ticket).Each fun ticket call =>
        ∀ document, Refresh.document?
          { refresh with
            snapshot := some snapshot
            firstDownload := pending.next } ticket = some document →
          call.request = download document := by
      intro item member document started
      obtain ⟨_, index, _, ticketEq, _⟩ :=
        Refresh.document?_eq_some.mp started
      have before := (pending.remove refresh.ticket).bounded item member
      have sameNext : (pending.remove refresh.ticket).next = pending.next := rfl
      simp only at ticketEq
      omega
    apply older.submitAll _
    intro index call atIndex document started
    obtain ⟨_, position, ⟨⟩, ticketEq, found⟩ :=
      Refresh.document?_eq_some.mp started
    have samePosition : index = position := by
      have sameNext : (pending.remove refresh.ticket).next = pending.next := rfl
      simp only at ticketEq
      omega
    subst samePosition
    simp only [List.map_map, List.getElem?_map, Option.map_eq_some_iff] at atIndex
    obtain ⟨other, otherFound, rfl⟩ := atIndex
    cases otherFound.symm.trans found
    rfl

/-- A closure of anything but a query leaves the history alone. -/
theorem received_eq_self {device : Device} {refresh : Refresh} {ticket : Nat}
    {call : Call} {response : Response}
    (tracks : Tracks (some refresh) device.pending)
    (found : device.pending.find? ticket = some call)
    (answered : call.answer = some response)
    (notQuery : ∀ correoUsuario, call.request ≠ .getDocuments correoUsuario) :
    refresh.received device ticket = refresh := by
  rcases refresh.received_cases found answered with
    ⟨_, _, isLatest, _⟩ | ⟨_, receivedEq⟩
  · exact absurd ((tracks.query refresh rfl).of_find? found isLatest)
      (notQuery _)
  · exact receivedEq

/-- Nothing just issued is a download of the latest refresh. -/
theorem each_submitAll {refresh : Refresh}
    {holds : QueryDocumentSnapshot → Prop}
    (tracks : Tracks (some refresh) pending)
    (each : pending.Each fun ticket _ => ∀ document,
      refresh.document? ticket = some document → holds document)
    (works : List Call) :
    (pending.submitAll works).Each fun ticket _ => ∀ document,
      refresh.document? ticket = some document → holds document := by
  apply each.submitAll _
  intro index call _ document started
  have issued := tracks.downloadsIssued refresh rfl _ document started
  omega

/-- One step of the device keeps the history on track. -/
theorem of_next {device after : Device} {event : Event}
    {latest : Option Refresh} (tracks : Tracks latest device.pending)
    (taken : machine.next device event = some after) :
    Tracks (recordRefresh device event after latest) after.pending := by
  cases acts_of_next taken with
  | quiet _ pending _ isQuiet =>
      rw [recordRefresh_of_quiet isQuiet, pending]
      exact tracks
  | runTask found account =>
      rw [recordRefresh_runTask found account]
      exact started device.pending _
  | onDelete _ _ afterEq =>
      subst afterEq
      exact tracks.submitAll _
  | saveEdit => exact tracks.submitAll _
  | save => exact tracks.submitAll _
  | answer => exact tracks.respond _ _
  | callback found answered completes =>
      rename_i ticket call response outcome
      cases latest with
      | none => exact Tracks.none
      | some refresh =>
          rw [recordRefresh, Option.map_some]
          rcases refresh.received_cases found answered with
            ⟨snapshot, rfl, rfl, receivedEq⟩ | ⟨_, receivedEq⟩
          · have isQuery := (tracks.query refresh rfl).of_find? found rfl
            rw [isQuery] at completes
            cases completes
            rw [receivedEq]
            exact tracks.received
          · rw [receivedEq]
            exact (tracks.remove _).submitAll _

end Tracks

/-- Log in, and the first appearance of the signed-in screen up to the start of
its refresh. -/
def firstRefresh : List Event :=
  [.pressLogIn "ana@lps.es" "secreto",
    .authResult 0 (.ok ⟨"A", some "ana@lps.es"⟩), .mainStep, .mainStep,
    .appear, .mainStep, .runTask 0]

/-- A document of its account. -/
def playa : QueryDocumentSnapshot where
  documentID := "2021-11-09 08:05:30"
  data := .record "ana@lps.es" "playa" "2021-11-09 08:05:30"

end AppLPS.Device
