/-
Module: AppLPS.World
Purpose: Any number of running copies of the app and the backend that they
  share, and the history of what a run has uploaded, downloaded and deleted.
Trusted boundary: none
Main exports: World, World.Event, World.machine, World.start, World.Quiescent,
  Upload, Load, History, World.record, World.observed
-/
import AppLPS.Device
import AppLPS.Machine.Network

namespace AppLPS

/-- The devices of any number of users and the backend. -/
abbrev World (Client : Type) := Network Client Device Backend

namespace World

/-- An event of a device, or the backend serving the request under a ticket. -/
abbrev Event (Client : Type) :=
  Network.Event Client AppLPS.Event (Nat × Verdict)

/-- The backend serves an unanswered request; the device sees the answer. -/
def serve (backend : Backend) (device : Device) (query : Nat × Verdict) :
    Option (Backend × AppLPS.Event) :=
  (device.pending.find? query.1).map fun call =>
    let (after, response) := backend.serve
      (unservedWrites device.pending.values) call.request query.2
    (after, .answer query.1 response)

/-- Devices run by themselves except for the answers to their requests. -/
def protocol : Network.Protocol Device Backend AppLPS.Event (Nat × Verdict)
    Trap where
  client := Device.machine
  isOwn := fun event => !event.isAnswer
  serve := serve

variable {Client : Type} [DecidableEq Client]

def machine : Machine (World Client) (Event Client) Trap := protocol.machine

/-- Freshly started apps, no documents, and a given image store. -/
def start (persisted : Client → Option FIRUser) (images : Bucket) :
    World Client where
  clients := fun client => Device.launch (persisted client)
  server := { files := ∅, images := images }

/-- No request of any device is pending. -/
def Quiescent (world : World Client) : Prop :=
  ∀ client, (world.clients client).pending.values = []

end World

/-! ## The history of a run -/

/-- A started upload: what `uploadStorage` captured.  Its key is a formatted
time, and so one segment of a path. -/
structure Upload where
  correoUsuario : String
  nombre : String
  fecha : String
  data : Data
  segment : IsSegment fecha := by decide
deriving DecidableEq

/-- A completed download: the client, the path and the document that its
closure captured, and the bytes it received. -/
structure Load (Client : Type) where
  client : Client
  path : String
  document : QueryDocumentSnapshot
  bytes : Data
deriving DecidableEq

/-- The upload that Save starts, if the image can be encoded. -/
def Device.uploadOf (device : Device) : Event → Option Upload
  | .save imageGeneral nombreImagen now =>
      imageGeneral.jpegData.map fun data =>
        { correoUsuario := sessionEmailOrNone device.controller
          nombre := nombreImagen
          fecha := DateFormatter.string now
          data := data
          segment := DateFormatter.isSegment_string now }
  | _ => none

/-- The download that the closure of the call completes. -/
def Call.loadOf {Client : Type} (call : Call) (client : Client) :
    Option (Load Client) :=
  match call.request, call.answer with
  | .getData path document, some (.data bytes) =>
      some {
        client := client
        path := path
        document := document
        bytes := bytes }
  | _, _ => none

/-- The download that an event of the device completes. -/
def Device.loadOf {Client : Type} (device : Device) (client : Client) :
    Event → Option (Load Client)
  | .callback ticket =>
      (device.pending.find? ticket).bind (·.loadOf client)
  | _ => none

/-- The id of the document that the call deletes once it is granted. -/
def Call.deletes (call : Call) : Option String :=
  match call.request with
  | .deleteDocument userImage =>
      some (Firestore.documentName userImage.date)
  | _ => none

/-- What a run has done so far: the uploads started, the downloads completed,
and the ids of the documents that the backend has deleted. -/
structure History (Client : Type) where
  uploads : List Upload := []
  loads : List (Load Client) := []
  deleted : List String := []

namespace World

variable {Client : Type}

/-- History variable of the world. -/
def record (before : World Client) (event : Event Client)
    (_after : World Client) (history : History Client) : History Client :=
  match event with
  | .act client event =>
      { history with
        uploads := history.uploads ++
          ((before.clients client).uploadOf event).toList
        loads := history.loads ++
          ((before.clients client).loadOf client event).toList }
  | .serve client (ticket, .granted _) =>
      { history with
        deleted := history.deleted ++
          (((before.clients client).pending.find? ticket).bind
            (·.deletes)).toList }
  | .serve _ (_, .refused _) => history

/-- The world with its history. -/
def observed [DecidableEq Client] :
    Machine (World Client × History Client) (Event Client) Trap :=
  machine.observe record

end World

end AppLPS
