/-
Module: AppLPS.Proofs.WorldSteps
Purpose: Say once what each step of the world can do: which device moves, what
  the backend does to its stores, and what the requests in flight and the
  images held can come from.
Trusted boundary: none
Main exports: Backend.Serves, Backend.serves_serve, World.Acts,
  World.acts_of_next, World.calls_of_next, World.held_of_next,
  World.arrives, World.uploads
-/
import AppLPS.World
import AppLPS.Proofs.DeviceSteps

namespace AppLPS

/-! ## Serving -/

namespace Backend

/-- What serving a request does to the stores, and what it answers. -/
inductive Serves (backend : Backend) (writes : List Request) :
    Request → Verdict → Backend → Response → Prop where
  | refused {request : Request} {description : String} :
      Serves backend writes request (.refused description) backend
        (.failure description)
  | documents {correoUsuario : String} {visible : Nat} :
      Serves backend writes (.getDocuments correoUsuario) (.granted visible)
        backend (.documents
          (snapshotOf (localView backend.files (writes.take visible))))
  | data {path : String} {document : QueryDocumentSnapshot} {visible : Nat}
      {bytes : Data} (stored : backend.images.lookup path = some bytes)
      (fits : bytes.length ≤ maxSize) :
      Serves backend writes (.getData path document) (.granted visible) backend
        (.data bytes)
  | dataFailed {path description : String} {document : QueryDocumentSnapshot}
      {visible : Nat}
      (unavailable : ∀ bytes, backend.images.lookup path = some bytes →
        maxSize < bytes.length) :
      Serves backend writes (.getData path document) (.granted visible) backend
        (.failure description)
  | put {path correoUsuario nombre fecha : String} {data : Data}
      {visible : Nat} :
      Serves backend writes (.putData path data correoUsuario nombre fecha)
        (.granted visible)
        { backend with images := backend.images.insert path data } .done
  | set {documentPath : String} {fields : Fields} {completion : Option String}
      {visible : Nat} :
      Serves backend writes (.setData documentPath fields completion)
        (.granted visible)
        { backend with
          files := backend.files.insert (Firestore.documentName documentPath)
            fields } .done
  | deleteDocument {userImage : UserImage} {visible : Nat} :
      Serves backend writes (.deleteDocument userImage) (.granted visible)
        { backend with
          files := backend.files.erase
            (Firestore.documentName userImage.date) } .done
  | deleteObject {item : StorageReference} {visible : Nat}
      (stored : item.fullPath ∈ backend.images) :
      Serves backend writes (.deleteObject item) (.granted visible)
        { backend with images := backend.images.erase item.fullPath } .done
  | deleteObjectFailed {item : StorageReference} {description : String}
      {visible : Nat} (gone : item.fullPath ∉ backend.images) :
      Serves backend writes (.deleteObject item) (.granted visible) backend
        (.failure description)

theorem serves_serve (backend : Backend) (writes : List Request)
    (request : Request) (verdict : Verdict) :
    backend.Serves writes request verdict
      (backend.serve writes request verdict).1
      (backend.serve writes request verdict).2 := by
  cases verdict with
  | refused description => exact .refused
  | granted visible =>
      cases request with
      | getDocuments correoUsuario => exact .documents
      | getData path document =>
          simp only [serve]
          split
          · rename_i bytes stored
            split
            · rename_i fits
              exact .data stored fits
            · rename_i tooLarge
              refine .dataFailed ?_
              intro other found
              cases stored.symm.trans found
              omega
          · rename_i missing
            refine .dataFailed ?_
            intro other found
            rw [missing] at found
            cases found
      | putData path data correoUsuario nombre fecha => exact .put
      | setData documentID fields completion => exact .set
      | deleteDocument userImage => exact .deleteDocument
      | deleteObject item =>
          simp only [serve]
          split
          · rename_i stored
            exact .deleteObject stored
          · rename_i gone
            exact .deleteObjectFailed gone

/-- A request that only reads, or is refused, leaves the stores alone. -/
theorem Serves.eq_of_harmless {backend after : Backend}
    {writes : List Request} {request : Request} {verdict : Verdict}
    {response : Response}
    (serves : backend.Serves writes request verdict after response)
    (harmless : request.reads = true ∨ verdict.isGranted = false) :
    after = backend := by
  cases serves with
  | put => rcases harmless with reads | refused <;> contradiction
  | set => rcases harmless with reads | refused <;> contradiction
  | deleteDocument => rcases harmless with reads | refused <;> contradiction
  | deleteObject => rcases harmless with reads | refused <;> contradiction
  | _ => rfl

end Backend

/-! ## One step of the world -/

namespace World

variable {Client : Type} [DecidableEq Client]

/-- What a step of the world does: a device moves by itself, or the backend
serves one of its requests. -/
inductive Acts (world : World Client) : Event Client → World Client → Prop where
  | act {client : Client} {event : AppLPS.Event} {device : Device}
      (own : event.isAnswer = false)
      (taken : Device.machine.next (world.clients client) event =
        some device) :
      Acts world (.act client event)
        (world.moved client world.server device)
  | serve {client : Client} {ticket : Nat} {verdict : Verdict} {call : Call}
      {backend : Backend} {response : Response} {device : Device}
      (found : (world.clients client).pending.find? ticket = some call)
      (unanswered : call.answer = none)
      (accepts : call.request.Accepts response = true)
      (serves : world.server.Serves
        (unservedWrites (world.clients client).pending.values) call.request
        verdict backend response)
      (deviceEq : device =
        { world.clients client with
          pending := (world.clients client).pending.update ticket fun call =>
            call.respond response }) :
      Acts world (.serve client (ticket, verdict))
        (world.moved client backend device)

/-- The inversion of one step of the world. -/
theorem acts_of_next {world after : World Client} {event : Event Client}
    (taken : machine.next world event = some after) :
    Acts world event after := by
  obtain ⟨client, server, device, state, resolved, clientStep, rfl⟩ :=
    Network.Protocol.next_eq_some.mp taken
  cases event with
  | act mover event =>
      simp only [Network.Protocol.resolve, Option.ite_none_right_eq_some,
        Option.some.injEq, Prod.mk.injEq] at resolved
      obtain ⟨own, rfl, rfl, rfl⟩ := resolved
      exact .act (by simpa [protocol] using own) clientStep
  | serve mover query =>
      obtain ⟨ticket, verdict⟩ := query
      obtain ⟨⟨_, _⟩, served, same⟩ := Option.map_eq_some_iff.mp resolved
      cases same
      obtain ⟨call, found, servedEq⟩ := Option.map_eq_some_iff.mp served
      cases servedEq
      cases Device.acts_of_next clientStep with
      | quiet _ _ _ isQuiet => cases isQuiet
      | answer foundAgain unanswered accepts =>
          cases found.symm.trans foundAgain
          exact .serve found unanswered accepts
            (Backend.serves_serve _ _ _ _) rfl

/-- A request that is served is answered in its device, whatever the verdict:
serving is always enabled on an unanswered request. -/
theorem next_serve {world : World Client} {client : Client} {ticket : Nat}
    {call : Call} (verdict : Verdict)
    (found : (world.clients client).pending.find? ticket = some call)
    (unanswered : call.answer = none) :
    machine.next world (.serve client (ticket, verdict)) =
      some (world.moved client
        (world.server.serve
          (unservedWrites (world.clients client).pending.values) call.request
          verdict).1
        { world.clients client with
          pending := (world.clients client).pending.update ticket fun served =>
            served.respond (world.server.serve
              (unservedWrites (world.clients client).pending.values)
              call.request verdict).2 }) := by
  have accepts := Backend.accepts_serve world.server
    (unservedWrites (world.clients client).pending.values) call.request verdict
  apply Network.Protocol.next_eq_some.mpr
  refine ⟨client, _,
    .answer ticket (world.server.serve
      (unservedWrites (world.clients client).pending.values) call.request
      verdict).2, _, ?_, ?_, rfl⟩
  · simp only [Network.Protocol.resolve, protocol, serve, found]
    rfl
  · apply Machine.next_eq_some.mpr
    simp only [protocol, Device.machine, Device.step, found, Option.bind_eq_bind,
      Option.bind_some, unanswered, accepts, Option.isNone_none, and_self,
      if_true]

/-- A device moves by itself. -/
theorem next_act {world : World Client} {client : Client}
    {event : AppLPS.Event} {device : Device} (own : event.isAnswer = false)
    (taken : Device.machine.next (world.clients client) event = some device) :
    machine.next world (.act client event) =
      some (world.moved client world.server device) := by
  apply Network.Protocol.next_eq_some.mpr
  refine ⟨client, world.server, event, device, ?_, taken, rfl⟩
  exact Network.Protocol.resolve_act (by simp [protocol, own])

/-! ## All requests in flight, all images held -/

/-- Every request in flight of every device satisfies the predicate. -/
def AllCalls (holds : Call → Prop) (world : World Client) : Prop :=
  ∀ client, (world.clients client).pending.All holds

/-- Every image that a device holds satisfies the predicate with its device. -/
def AllHeld (holds : Client → UserImage → Prop) (world : World Client) : Prop :=
  ∀ client, ∀ image ∈ (world.clients client).held, holds client image

/-- A predicate on calls holds after a step if it holds of the calls that the
step issues and of the answer that the backend gives. -/
theorem calls_of_next {holds : Call → Prop} {world after : World Client}
    {event : Event Client} (all : world.AllCalls holds)
    (issued : ∀ client own request, event = .act client own →
      Device.Issues (world.clients client) own request →
      holds (Call.fresh request))
    (answered : ∀ client ticket verdict call backend response,
      event = .serve client (ticket, verdict) →
      (world.clients client).pending.find? ticket = some call →
      call.request.Accepts response = true →
      world.server.Serves
        (unservedWrites (world.clients client).pending.values) call.request
        verdict backend response →
      after.server = backend → holds call → holds (call.respond response))
    (taken : machine.next world event = some after) :
    after.AllCalls holds := by
  cases acts_of_next taken with
  | act own clientStep =>
      rename_i client event device
      apply Network.moved_clients_forall (fun _ (device : Device) =>
        device.pending.All holds) _ fun other _ => all other
      apply Device.all_of_next (all client)
        (fun request issues => issued client event request rfl issues) _
        clientStep
      intro ticket response call isEvent
      subst isEvent
      cases own
  | serve found unanswered accepts serves deviceEq =>
      rename_i client ticket verdict call backend response device
      apply Network.moved_clients_forall (fun _ (device : Device) =>
        device.pending.All holds) _ fun other _ => all other
      subst deviceEq
      exact (all client).update found
        (answered client ticket verdict call backend response rfl found
          accepts serves rfl ((all client).of_find? found))

/-- A predicate on images holds after a step if it holds of the row of the
download that the step completes. -/
theorem held_of_next {holds : Client → UserImage → Prop} {world after : World Client}
    {event : Event Client} (all : world.AllHeld holds)
    (downloaded : ∀ client ticket call path document image,
      event = .act client (.callback ticket) →
      (world.clients client).pending.find? ticket = some call →
      call.request = .getData path document →
      call.answer = some (.data image.data) → Describes document image →
      holds client image)
    (taken : machine.next world event = some after) :
    after.AllHeld holds := by
  cases acts_of_next taken with
  | act own clientStep =>
      rename_i client event device
      apply Network.moved_clients_forall (fun client (device : Device) =>
        ∀ image ∈ device.held, holds client image) _ fun other _ => all other
      intro image member
      rcases Device.held_of_next clientStep member with
        old | ⟨ticket, call, path, document, rfl, found, isDownload, answered,
          describes⟩
      · exact all client image old
      · exact downloaded client ticket call path document image rfl found
          isDownload answered describes
  | serve found unanswered accepts serves deviceEq =>
      rename_i client ticket verdict call backend response device
      apply Network.moved_clients_forall (fun client (device : Device) =>
        ∀ image ∈ device.held, holds client image) _ fun other _ => all other
      subst deviceEq
      exact all client

/-! ## Some request in flight -/

/-- Some request in flight of the device satisfies the predicate. -/
def HasCall (holds : Call → Prop) (device : Device) : Prop :=
  ∃ call ∈ device.pending.values, holds call

/-- Some request in flight of some device satisfies the predicate. -/
def SomeCall (holds : Call → Prop) (world : World Client) : Prop :=
  ∃ client, HasCall holds (world.clients client)

omit [DecidableEq Client] in
theorem not_someCall {holds : Call → Prop} {world : World Client}
    (quiescent : world.Quiescent) : ¬ SomeCall holds world := by
  intro inFlight
  obtain ⟨client, any⟩ := inFlight
  exact Pool.not_any_of_no_values (quiescent client) any

/-- When a device moves by itself, every device keeps a call of this kind in
flight, if completing one issues another. -/
theorem HasCall.act {holds : Call → Prop} {world : World Client}
    {client other : Client} {event : AppLPS.Event} {device : Device}
    (inFlight : HasCall holds (world.clients other))
    (own : event.isAnswer = false)
    (taken : Device.machine.next (world.clients client) event = some device)
    (goesOn : ∀ controller call response outcome, holds call →
      call.answer = some response →
      Completes controller call.request response outcome →
      ∃ request ∈ outcome.requests, holds (Call.fresh request)) :
    HasCall holds ((world.moved client world.server device).clients other) := by
  obtain ⟨call, member, callHolds⟩ := inFlight
  by_cases same : other = client
  · subst same
    rw [Network.moved_clients_self]
    rcases Device.stays_of_next own taken member with
      kept | ⟨response, outcome, answered, completes, issued⟩
    · exact ⟨call, kept, callHolds⟩
    · obtain ⟨request, isIssued, requestLater⟩ :=
        goesOn _ call response outcome callHolds answered completes
      exact ⟨_, issued request isIssued, requestLater⟩
  · rw [Network.moved_clients_of_ne _ _ _ same]
    exact ⟨call, member, callHolds⟩

theorem SomeCall.act {holds : Call → Prop} {world : World Client}
    {client : Client} {event : AppLPS.Event} {device : Device}
    (inFlight : SomeCall holds world) (own : event.isAnswer = false)
    (taken : Device.machine.next (world.clients client) event = some device)
    (goesOn : ∀ controller call response outcome, holds call →
      call.answer = some response →
      Completes controller call.request response outcome →
      ∃ request ∈ outcome.requests, holds (Call.fresh request)) :
    SomeCall holds (world.moved client world.server device) := by
  obtain ⟨other, callInFlight⟩ := inFlight
  exact ⟨other, callInFlight.act own taken goesOn⟩

section Serve

variable {holds : Call → Prop} {world : World Client} {client : Client}
  {ticket : Nat} {call : Call} {backend : Backend} {response : Response}
  {device : Device}
  (found : (world.clients client).pending.find? ticket = some call)
  (deviceEq : device =
    { world.clients client with
      pending := (world.clients client).pending.update ticket fun call =>
        call.respond response })

include found deviceEq

/-- A call in flight stays so when another one is served. -/
theorem HasCall.serve {other : Client}
    (inFlight : HasCall holds (world.clients other)) :
    HasCall holds ((world.moved client backend device).clients other) ∨
      (other = client ∧ holds call) := by
  obtain ⟨kept, member, keptHolds⟩ := inFlight
  by_cases same : other = client
  · subst same
    rcases Pool.mem_values_update found (fun call => call.respond response)
      member with stays | rfl
    · left
      rw [Network.moved_clients_self, deviceEq]
      exact ⟨kept, stays, keptHolds⟩
    · exact .inr ⟨rfl, keptHolds⟩
  · left
    rw [Network.moved_clients_of_ne _ _ _ same]
    exact ⟨kept, member, keptHolds⟩

/-- The call that is served is in flight with its answer. -/
theorem hasCall_served (answeredHolds : holds (call.respond response)) :
    HasCall holds ((world.moved client backend device).clients client) := by
  refine ⟨call.respond response, ?_, answeredHolds⟩
  rw [Network.moved_clients_self, deviceEq]
  exact Pool.mem_values_update_self found fun call => call.respond response

theorem SomeCall.serve (inFlight : SomeCall holds world) :
    SomeCall holds (world.moved client backend device) ∨ holds call := by
  obtain ⟨other, callInFlight⟩ := inFlight
  rcases HasCall.serve found deviceEq callInFlight with later | ⟨_, served⟩
  · exact .inl ⟨other, later⟩
  · exact .inr served

theorem someCall_served (answeredHolds : holds (call.respond response)) :
    SomeCall holds (world.moved client backend device) :=
  ⟨client, hasCall_served found deviceEq answeredHolds⟩

end Serve

/-! ## Scenarios -/

omit [DecidableEq Client]

/-- A user logs in and the signed-in screen appears. -/
def arrives (client : Client) (uid email : String) : List (Event Client) :=
  [.pressLogIn email "secreto", .authResult 0 (.ok ⟨uid, some email⟩),
    .mainStep, .mainStep, .appear, .mainStep].map (.act client)

/-- A request is granted and its closure runs. -/
def completes (client : Client) (ticket : Nat) : List (Event Client) :=
  [.serve client (ticket, .granted 0), .act client (.callback ticket)]

/-- An upload runs to its end; its two requests get the tickets from the given
one on. -/
def uploads (client : Client) (ticket : Nat) (nombre : String) (data : Data)
    (now : WallClock) : List (Event Client) :=
  .act client (.save ⟨some data, some data⟩ nombre now) ::
    (completes client ticket ++ completes client (ticket + 1))

/-- A refresh of an account with one picture runs to its end. -/
def refreshes (client : Client) (task ticket : Nat) : List (Event Client) :=
  .act client (.runTask task) ::
    (completes client ticket ++ completes client (ticket + 1))

end World

end AppLPS
