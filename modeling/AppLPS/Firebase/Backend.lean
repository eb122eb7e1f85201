/-
Module: AppLPS.Firebase.Backend
Purpose: The shared stores: the `Files` collection of Firestore, the image
  bucket of Storage, and how the backend serves one request.
Trusted boundary: `serve`, `localView` and `snapshotOf` state how Firestore and
  Storage answer: each request reads or changes one store in one step, and a
  client's queries show its own unserved writes
Main exports: FieldValue, Fields, QueryDocumentSnapshot, Collection, Bucket,
  Request, Request.reference, Response, Call, Backend, Backend.serve
-/
import Mathlib.Data.List.AList
import AppLPS.Firebase.References

namespace AppLPS

/-! ## Documents -/

/-- A stored field.  The app only writes strings; anything else is known by
the text that string interpolation prints for it. -/
inductive FieldValue where
  | string (value : String)
  | other (description : String)
deriving DecidableEq, Repr

def FieldValue.description : FieldValue → String
  | .string value => value
  | .other description => description

/-- The dictionary of one document. -/
abbrev Fields := List (String × FieldValue)

namespace Fields

/-- `document.data()[key] as! String`. -/
def forcedString (data : Fields) (key : String) : Except Trap String :=
  match data.lookup key with
  | some (.string value) => .ok value
  | _ => .error (.forcedCast key)

/-- `"\(document.data()[key] ?? fallback)"`. -/
def interpolated (data : Fields) (key fallback : String) : String :=
  match data.lookup key with
  | some value => value.description
  | none => fallback

/-- The dictionary that both writers of the app build. -/
def record (email name date : String) : Fields :=
  [("email", .string email), ("name", .string name), ("date", .string date)]

theorem forcedString_eq_ok {data : Fields} {key value : String} :
    data.forcedString key = .ok value ↔
      data.lookup key = some (.string value) := by
  unfold forcedString
  split
  · rename_i found lookupEq
    rw [lookupEq]
    simp
  · rename_i notString
    simp only [reduceCtorEq, false_iff]
    exact notString value

theorem interpolated_of_string {data : Fields} {key fallback value : String}
    (found : data.lookup key = some (.string value)) :
    data.interpolated key fallback = value := by
  rw [interpolated, found]
  rfl

@[simp] theorem lookup_record_email (email name date : String) :
    (record email name date).lookup "email" = some (.string email) := rfl

@[simp] theorem lookup_record_name (email name date : String) :
    (record email name date).lookup "name" = some (.string name) := rfl

@[simp] theorem lookup_record_date (email name date : String) :
    (record email name date).lookup "date" = some (.string date) := rfl

end Fields

/-- One document of a query snapshot. -/
structure QueryDocumentSnapshot where
  documentID : String
  data : Fields
deriving DecidableEq, Repr

/-- The documents of `Files`, and of the collections below them, by their names
below `Files`. -/
abbrev Collection := AList fun _ : String => Fields

/-- The stored bytes by path. -/
abbrev Bucket := AList fun _ : String => Data

/-! ## Requests -/

/-- A request to Firestore or Storage together with what its completion
closure captured.  A document is addressed by the path that `document` was
called with. -/
inductive Request where
  | getDocuments (correoUsuario : String)
  | getData (path : String) (document : QueryDocumentSnapshot)
  | putData (path : String) (data : Data)
      (correoUsuario nombre fecha : String)
  | setData (documentPath : String) (fields : Fields)
      (completion : Option String)
  | deleteDocument (userImage : UserImage)
  | deleteObject (item : StorageReference)
deriving DecidableEq

/-- `document` of the collection `Files`: the name of the document that the path
names, unless it raises. -/
def filesDocument (documentPath : String) : Except Trap String :=
  Firestore.document "Files" documentPath

/-- The call of `document` for a request. -/
def Request.reference : Request → Except Trap Unit
  | .setData documentPath _ _ => (filesDocument documentPath).map fun _ => ()
  | .deleteDocument userImage => (filesDocument userImage.date).map fun _ => ()
  | _ => .ok ()

/-- What a completion closure receives. -/
inductive Response where
  | documents (snapshot : List QueryDocumentSnapshot)
  | data (bytes : Data)
  | done
  | failure (localizedDescription : String)
deriving DecidableEq

/-- The responses a request can receive. -/
def Request.Accepts : Request → Response → Bool
  | _, .failure _ => true
  | .getDocuments _, .documents _ => true
  | .getData _ _, .data _ => true
  | .putData _ _ _ _ _, .done => true
  | .setData _ _ _, .done => true
  | .deleteDocument _, .done => true
  | .deleteObject _, .done => true
  | _, _ => false

/-- A request in flight.  Its answer is there once the backend has served it,
in a form the request can receive; the call stays in flight until its completion
closure has run. -/
structure Call where
  request : Request
  answer : Option Response
  accepted : ∀ response ∈ answer, request.Accepts response = true

namespace Call

/-- A call just issued. -/
def fresh (request : Request) : Call where
  request := request
  answer := none
  accepted := by simp

/-- The call with the answer it receives. -/
def respond (call : Call) (response : Response) : Call :=
  if accepts : call.request.Accepts response = true then
    { request := call.request
      answer := some response
      accepted := by simpa using accepts }
  else call

@[simp] theorem fresh_request (request : Request) :
    (fresh request).request = request := rfl

@[simp] theorem fresh_answer (request : Request) :
    (fresh request).answer = none := rfl

@[simp] theorem respond_request (call : Call) (response : Response) :
    (call.respond response).request = call.request := by
  unfold respond
  split <;> rfl

theorem respond_answer {call : Call} {response : Response}
    (accepts : call.request.Accepts response = true) :
    (call.respond response).answer = some response := by
  rw [respond, dif_pos accepts]

end Call

/-! ## Serving one request -/

/-- The effect of a Firestore write on the collection. -/
def Request.write (files : Collection) : Request → Collection
  | .setData documentPath fields _ =>
      files.insert (Firestore.documentName documentPath) fields
  | .deleteDocument userImage =>
      files.erase (Firestore.documentName userImage.date)
  | _ => files

def Request.isFirestoreWrite : Request → Bool
  | .setData _ _ _ => true
  | .deleteDocument _ => true
  | _ => false

/-- The requests that change no store. -/
def Request.reads : Request → Bool
  | .getDocuments _ => true
  | .getData _ _ => true
  | _ => false

/-- The writes a client has issued and the backend has not served, oldest
first. -/
def unservedWrites (calls : List Call) : List Request :=
  (calls.filter fun call =>
    call.answer.isNone && call.request.isFirestoreWrite).map (·.request)

/-- Latency compensation: a client's queries see its own unserved writes on
top of the server's state. -/
def localView (files : Collection) (writes : List Request) : Collection :=
  writes.foldl Request.write files

/-- The documents of the collection itself. -/
def snapshotOf (files : Collection) : List QueryDocumentSnapshot :=
  (files.entries.filter fun entry => '/' ∉ entry.1.toList).map fun entry =>
    ⟨entry.1, entry.2⟩

/-- The size limit of `getData(maxSize: 10048576)`. -/
def maxSize : Nat := 10048576

structure Backend where
  files : Collection
  images : Bucket

/-- How the backend treats a request: it refuses it, or grants it.  A granted
query already shows the first `visible` unserved writes of its own client. -/
inductive Verdict where
  | granted (visible : Nat)
  | refused (localizedDescription : String)
deriving DecidableEq, Repr

def Verdict.isGranted : Verdict → Bool
  | .granted _ => true
  | .refused _ => false

namespace Backend

/-- Serve one request of a client whose unserved writes are given.  Every
request touches one path of one store, in one step. -/
def serve (backend : Backend) (writes : List Request) (request : Request) :
    Verdict → Backend × Response
  | .refused description => (backend, .failure description)
  | .granted visible =>
      match request with
      | .getDocuments _ =>
          (backend, .documents
            (snapshotOf (localView backend.files (writes.take visible))))
      | .getData path _ =>
          match backend.images.lookup path with
          | some bytes =>
              if bytes.length ≤ maxSize then (backend, .data bytes)
              else (backend, .failure "download size exceeded")
          | none => (backend, .failure "object not found")
      | .putData path bytes _ _ _ =>
          ({ backend with images := backend.images.insert path bytes }, .done)
      | .setData _ _ _ | .deleteDocument _ =>
          ({ backend with files := request.write backend.files }, .done)
      | .deleteObject item =>
          if item.fullPath ∈ backend.images then
            ({ backend with images := backend.images.erase item.fullPath },
              .done)
          else (backend, .failure "object not found")

/-- The backend answers in kind. -/
theorem accepts_serve (backend : Backend) (writes : List Request)
    (request : Request) (verdict : Verdict) :
    request.Accepts (backend.serve writes request verdict).2 = true := by
  cases verdict with
  | refused description => cases request <;> rfl
  | granted visible =>
      cases request with
      | getDocuments correoUsuario => rfl
      | getData path document =>
          simp only [serve]
          split
          · split <;> rfl
          · rfl
      | putData path data correoUsuario nombre fecha => rfl
      | setData documentID fields completion => rfl
      | deleteDocument userImage => rfl
      | deleteObject item =>
          simp only [serve]
          split <;> rfl

end Backend

end AppLPS
