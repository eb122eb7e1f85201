/-
Module: AppLPS.Machine.Network
Purpose: Any number of clients that run one machine and share one server, as a
  machine again.
Trusted boundary: none
Main exports: Network, Network.Event, Network.Protocol,
  Network.Protocol.machine, Network.Protocol.next_eq_some
-/
import Mathlib.Logic.Function.Basic
import AppLPS.Machine.Basic

/-!
A client takes some of its events by itself.  The others are the moments at
which the server serves it: the server reads and changes its own state and
decides which event the client sees.  One event of the network moves one client
and, perhaps, the server.
-/

/-- The states of all clients and of the server that they share. -/
structure Network (Client State Server : Type*) where
  clients : Client → State
  server : Server

namespace Network

variable {Client State Server Local Query Fault : Type*}

inductive Event (Client Local Query : Type*) where
  /-- A client takes an event of its own. -/
  | act (client : Client) (event : Local)
  /-- The server serves a client. -/
  | serve (client : Client) (query : Query)

/-- The network after one client, and perhaps the server, has moved. -/
def moved [DecidableEq Client] (network : Network Client State Server)
    (client : Client) (server : Server) (state : State) :
    Network Client State Server where
  clients := Function.update network.clients client state
  server := server

@[simp] theorem moved_server [DecidableEq Client]
    (network : Network Client State Server) (client : Client) (server : Server)
    (state : State) : (network.moved client server state).server = server := rfl

@[simp] theorem moved_clients_self [DecidableEq Client]
    (network : Network Client State Server) (client : Client) (server : Server)
    (state : State) :
    (network.moved client server state).clients client = state := by
  simp [moved]

theorem moved_clients_of_ne [DecidableEq Client]
    (network : Network Client State Server) {client other : Client}
    (server : Server) (state : State) (ne : other ≠ client) :
    (network.moved client server state).clients other =
      network.clients other := by
  simp [moved, ne]

/-- What holds of the client that has moved and of all the others before holds
of all clients after. -/
theorem moved_clients_forall [DecidableEq Client]
    {network : Network Client State Server} {client : Client} {server : Server}
    {state : State} (holds : Client → State → Prop)
    (here : holds client state)
    (elsewhere : ∀ other, other ≠ client → holds other (network.clients other)) :
    ∀ other, holds other ((network.moved client server state).clients other) := by
  intro other
  by_cases same : other = client
  · subst same
    rw [moved_clients_self]
    exact here
  · rw [moved_clients_of_ne network server state same]
    exact elsewhere other same

/-- The machine of the clients, the events they take by themselves, and how the
server serves one of them. -/
structure Protocol (State Server Local Query Fault : Type*) where
  client : Machine State Local Fault
  isOwn : Local → Bool
  serve : Server → State → Query → Option (Server × Local)

namespace Protocol

variable (protocol : Protocol State Server Local Query Fault)

/-- Which client an event moves, to which state of the server, by which event
of the client. -/
def resolve (network : Network Client State Server) :
    Event Client Local Query → Option (Client × Server × Local)
  | .act client event =>
      if protocol.isOwn event then some (client, network.server, event)
      else none
  | .serve client query =>
      (protocol.serve network.server (network.clients client) query).map
        fun served => (client, served.1, served.2)

/-- The whole network as a machine. -/
def machine [DecidableEq Client] :
    Machine (Network Client State Server) (Event Client Local Query) Fault where
  step := fun network event =>
    (protocol.resolve network event).bind fun (client, server, taken) =>
      (protocol.client.step (network.clients client) taken).map fun result =>
        result.map (network.moved client server)

variable {protocol}

theorem resolve_act {network : Network Client State Server} {client : Client}
    {event : Local} (own : protocol.isOwn event = true) :
    protocol.resolve network (.act client event : Event Client Local Query) =
      some (client, network.server, event) := by
  rw [resolve, if_pos own]

variable [DecidableEq Client]

/-- A step of the network that faults is a step of a client that faults. -/
theorem step_eq_error {network : Network Client State Server}
    {event : Event Client Local Query} {fault : Fault}
    (stepped : protocol.machine.step network event = some (.error fault)) :
    ∃ client server taken,
      protocol.resolve network event = some (client, server, taken) ∧
        protocol.client.step (network.clients client) taken =
          some (.error fault) := by
  obtain ⟨⟨client, server, taken⟩, resolved, rest⟩ :=
    Option.bind_eq_some_iff.mp stepped
  obtain ⟨result, clientStep, resultEq⟩ := Option.map_eq_some_iff.mp rest
  refine ⟨client, server, taken, resolved, ?_⟩
  rw [clientStep]
  cases result with
  | error other =>
      cases resultEq
      rfl
  | ok state => cases resultEq

theorem next_eq_some {network after : Network Client State Server}
    {event : Event Client Local Query} :
    protocol.machine.next network event = some after ↔
      ∃ client server taken state,
        protocol.resolve network event = some (client, server, taken) ∧
        protocol.client.next (network.clients client) taken = some state ∧
        after = network.moved client server state := by
  simp only [Machine.next_eq_some]
  constructor
  · intro stepped
    obtain ⟨⟨client, server, taken⟩, resolved, rest⟩ :=
      Option.bind_eq_some_iff.mp stepped
    obtain ⟨result, clientStep, resultEq⟩ := Option.map_eq_some_iff.mp rest
    cases result with
    | error fault => cases resultEq
    | ok state =>
        cases resultEq
        exact ⟨client, server, taken, state, resolved, clientStep, rfl⟩
  · rintro ⟨client, server, taken, state, resolved, clientStep, rfl⟩
    simp only [machine, resolved, Option.bind_some, clientStep, Option.map_some]
    rfl

/-- What the steps of a client preserve holds of all clients after a step. -/
theorem forall_clients_of_next {holds : State → Prop}
    (preserved : ∀ state event after, holds state →
      protocol.client.next state event = some after → holds after)
    {network after : Network Client State Server}
    {event : Event Client Local Query}
    (all : ∀ client, holds (network.clients client))
    (taken : protocol.machine.next network event = some after) :
    ∀ client, holds (after.clients client) := by
  obtain ⟨client, server, event, state, _, clientStep, rfl⟩ :=
    next_eq_some.mp taken
  exact moved_clients_forall (fun _ => holds)
    (preserved _ event state (all client) clientStep) fun other _ => all other

end Protocol

end Network
