/-
Module: AppLPS.Proofs.Settling
Purpose: An app that is left alone comes to rest: whatever the backend answers
  and in whatever order the queued work runs, it is finished after finitely
  many steps, unless users touch it or screens appear or are redrawn again and
  again, and then no spinner is left.
Trusted boundary: none
Main exports: Event.continues, Device.work, Device.work_of_next,
  Device.Settled, World.comes_to_rest
-/
import AppLPS.Machine.Progress
import AppLPS.Proofs.Records
import AppLPS.Proofs.Spinner

namespace AppLPS

/-! ## Work and its rank -/

/-- The events in which nobody touches a screen and no screen appears or is
redrawn: results arrive, and what is queued or answered runs. -/
def Event.continues : Event → Bool
  | .authResult _ _ | .mainStep | .runTask _ | .answer _ _ | .callback _ => true
  | _ => false

/-- How far a request is from the end of what it starts.  A `putData` is
followed by a `setData`, a refresh task, a query and downloads. -/
def Request.depth : Request → Nat
  | .getData _ _ => 1
  | .deleteObject _ => 1
  | .setData _ _ none => 1
  | .getDocuments _ => 2
  | .deleteDocument _ => 2
  | .setData _ _ (some _) => 4
  | .putData _ _ _ _ _ => 5

/-- A request counts more while it is unanswered. -/
def Call.rank (call : Call) : Nat :=
  2 * call.request.depth + if call.answer.isNone then 1 else 0

/-- A refresh task is followed by a query. -/
def RefreshTask.rank (_ : RefreshTask) : Nat := 6

namespace Device

/-- The ranks of all that is queued or in flight. -/
def work (device : Device) : Multiset Nat :=
  Multiset.replicate device.mainQueue.length 0 +
    device.attempts.load (fun _ => 1) + device.tasks.load RefreshTask.rank +
    device.pending.load Call.rank

end Device

theorem Call.rank_fresh (request : Request) :
    (Call.fresh request).rank = 2 * request.depth + 1 := rfl

theorem Call.rank_answered {call : Call} {response : Response}
    (answered : call.answer = some response) :
    call.rank = 2 * call.request.depth := by
  rw [rank, answered]
  rfl

/-- What a completion closure issues has less to go than what it completes. -/
theorem Completes.depth_lt {controller : FirebaseController}
    {request : Request} {response : Response} {outcome : Outcome}
    (completes : Completes controller request response outcome) :
    (∀ issued ∈ outcome.requests, 2 * issued.depth + 1 < 2 * request.depth) ∧
      ∀ task ∈ outcome.tasks, task.rank < 2 * request.depth := by
  cases completes with
  | documents =>
      refine ⟨?_, List.forall_mem_nil _⟩
      intro issued member
      obtain ⟨document, _, rfl⟩ := List.mem_map.mp member
      simp [download, Request.depth]
  | put =>
      refine ⟨?_, List.forall_mem_nil _⟩
      intro issued member
      cases List.mem_singleton.mp member
      simp [Request.depth]
  | uploaded =>
      refine ⟨List.forall_mem_nil _, ?_⟩
      intro task member
      cases List.mem_singleton.mp member
      simp [Request.depth, RefreshTask.rank]
  | deleted =>
      refine ⟨?_, List.forall_mem_nil _⟩
      intro issued member
      cases List.mem_singleton.mp member
      simp [Request.depth]
  | _ => exact ⟨List.forall_mem_nil _, List.forall_mem_nil _⟩

namespace Device

open Multiset (IsDershowitzMannaLT replaced_lt)

/-- No block of the main queue starts or ends other work. -/
@[simp] theorem runMainStep_work (device : Device) (first : MainStep) :
    (device.runMainStep first).work = device.work := by
  cases first <;> rfl

/-- The ranks of what a step of the controller leaves behind. -/
def outcomeRanks (outcome : Outcome) : Multiset Nat :=
  ((outcome.requests.map fun request => (Call.fresh request).rank : List Nat) :
    Multiset Nat) + (outcome.tasks.map RefreshTask.rank : List Nat)

theorem perform_work (device : Device) (outcome : Outcome) :
    (device.perform outcome).work = outcomeRanks outcome + device.work := by
  simp only [work, perform, Pool.load_submitAll, outcomeRanks, List.map_map,
    Function.comp_def, add_assoc, add_left_comm]

/-- Every step in which results arrive or queued work runs lowers the work. -/
theorem work_of_next {device after : Device} {event : Event}
    (continues : event.continues = true)
    (taken : machine.next device event = some after) :
    IsDershowitzMannaLT after.work device.work := by
  cases event with
  | authResult ticket result =>
      obtain ⟨attempt, found, settled⟩ :=
        Option.bind_eq_some_iff.mp (Machine.next_eq_some.mp taken)
      cases settled
      have before : device.work = 1 ::ₘ
          { device with attempts := device.attempts.remove ticket }.work := by
        simp only [work, Pool.load_remove _ found, Multiset.add_cons,
          Multiset.cons_add]
      have later : ∃ count, (device.authResult ticket attempt result).work =
          Multiset.replicate count 0 +
            { device with attempts := device.attempts.remove ticket }.work := by
        cases result with
        | error description =>
            exact ⟨1, by simp [work, authResult, enqueue, add_assoc,
              add_left_comm]⟩
        | ok user =>
            exact ⟨2, by simp [work, authResult, enqueue, add_assoc,
              add_left_comm]⟩
      obtain ⟨count, later⟩ := later
      rw [before, later]
      apply replaced_lt
      intro part member
      rw [Multiset.eq_of_mem_replicate member]
      exact Nat.zero_lt_one
  | mainStep =>
      have stepped := Machine.next_eq_some.mp taken
      simp only [machine, step] at stepped
      split at stepped
      · cases stepped
      · rename_i first rest queueEq
        cases stepped
        have before : device.work =
            0 ::ₘ { device with mainQueue := rest }.work := by
          simp only [work, queueEq, List.length_cons, Multiset.replicate_succ,
            Multiset.cons_add]
        rw [before, runMainStep_work, ← zero_add (work _)]
        exact replaced_lt (by simp)
  | runTask ticket =>
      cases acts_of_next taken with
      | quiet _ _ _ isQuiet => cases isQuiet
      | runTask found account =>
          rename_i task correoUsuario
          have before : device.work = task.rank ::ₘ
              { device with tasks := device.tasks.remove ticket }.work := by
            simp only [work, Pool.load_remove _ found, Multiset.add_cons,
              Multiset.cons_add]
          rw [before, perform_work]
          apply replaced_lt
          intro part member
          have query : part = (Call.fresh (.getDocuments correoUsuario)).rank := by
            simpa [outcomeRanks, FirebaseController.getUserData] using member
          rw [query, Call.rank_fresh, Request.depth, RefreshTask.rank]
          decide
  | answer ticket response =>
      cases acts_of_next taken with
      | quiet _ _ _ isQuiet => cases isQuiet
      | answer found unanswered accepts =>
          rename_i call
          have before : device.work = call.rank ::ₘ
              { device with pending := device.pending.remove ticket }.work := by
            simp only [work, Pool.load_remove _ found, Multiset.add_cons]
          have later :
              { device with
                pending := device.pending.update ticket fun call =>
                  call.respond response }.work =
              {(call.respond response).rank} +
                { device with pending := device.pending.remove ticket }.work := by
            simp only [work, Pool.load_update _ found, Multiset.add_cons,
              Multiset.singleton_add]
          rw [before, later]
          apply replaced_lt
          intro part member
          rw [Multiset.mem_singleton.mp member,
            Call.rank_answered (Call.respond_answer accepts),
            Call.respond_request, Call.rank, unanswered]
          exact Nat.lt_succ_self _
  | callback ticket =>
      cases acts_of_next taken with
      | quiet _ _ _ isQuiet => cases isQuiet
      | callback found answered completes =>
          rename_i call response outcome
          have before : device.work = call.rank ::ₘ
              { device with pending := device.pending.remove ticket }.work := by
            simp only [work, Pool.load_remove _ found, Multiset.add_cons]
          obtain ⟨requests, tasks⟩ := completes.depth_lt
          rw [before, perform_work]
          apply replaced_lt
          intro part member
          rw [Call.rank_answered answered]
          rcases Multiset.mem_add.mp member with issued | started
          · obtain ⟨request, isIssued, rfl⟩ := List.mem_map.mp issued
            exact requests request isIssued
          · obtain ⟨task, isStarted, rfl⟩ := List.mem_map.mp started
            exact tasks task isStarted
  | _ => cases continues

/-- A device that has come to rest: nothing is queued, in flight or loading, and
a task can only be left when it is one that would trap. -/
structure Settled (device : Device) : Prop where
  mainQueue : device.mainQueue = []
  attempts : device.attempts.values = []
  pending : device.pending.values = []
  tasks : ∀ task ∈ device.tasks.values,
    task = .onAppear ∧ device.controller.sessionEmail = none
  loading : device.controller.loading = false

/-! ### What is queued can run -/

theorem exists_next_mainStep {device : Device}
    (busy : device.mainQueue ≠ []) :
    ∃ after, machine.next device .mainStep = some after := by
  cases queueEq : device.mainQueue with
  | nil => exact absurd queueEq busy
  | cons first rest =>
      refine ⟨{ device with mainQueue := rest }.runMainStep first, ?_⟩
      apply Machine.next_eq_some.mpr
      simp only [machine, step, queueEq]

theorem exists_next_authResult {device : Device} {ticket : Nat}
    {attempt : Attempt} (found : device.attempts.find? ticket = some attempt)
    (result : AuthResult) :
    ∃ after, machine.next device (.authResult ticket result) = some after := by
  refine ⟨device.authResult ticket attempt result, ?_⟩
  apply Machine.next_eq_some.mpr
  simp only [machine, step, found, Option.bind_eq_bind, Option.bind_some]

/-- A task that does not trap runs. -/
theorem exists_next_runTask {device : Device} {ticket : Nat}
    {task : RefreshTask} (found : device.tasks.find? ticket = some task) :
    (∃ after, machine.next device (.runTask ticket) = some after) ∨
      (task = .onAppear ∧ device.controller.sessionEmail = none) := by
  cases account : task.account device.controller with
  | ok correoUsuario =>
      refine .inl ⟨{ device with tasks := device.tasks.remove ticket }.perform
        (device.controller.getUserData correoUsuario), ?_⟩
      apply Machine.next_eq_some.mpr
      simp only [machine, step, found, Option.bind_eq_bind, Option.bind_some,
        runTask, account]
      rfl
  | error trap =>
      cases task with
      | onAppear =>
          refine .inr ⟨rfl, ?_⟩
          simp only [RefreshTask.account, forcedSessionEmail] at account
          split at account
          · cases account
          · assumption
      | onDelete => cases account
      | afterUpload correoUsuario => cases account

end Device

/-! ## Runs -/

namespace World

variable {Client : Type} [DecidableEq Client]

/-- The events in which no screen is touched, appears or is redrawn. -/
def Continues : Event Client → Prop
  | .act _ event => event.continues = true
  | .serve _ _ => True

/-- What a run keeps and the settling of a world needs: some history in which
all records are sound, and a request behind every spinner. -/
structure Sound (world : World Client) : Prop where
  records : ∃ history, RecordsInvariant (world, history)
  spinners : ∀ client, (world.clients client).controller.loading = true →
    (world.clients client).LoadInFlight

namespace Sound

omit [DecidableEq Client] in
theorem start (persisted : Client → Option FIRUser) (images : Bucket) :
    Sound (start persisted images) where
  records := ⟨{}, RecordsInvariant.start persisted images⟩
  spinners := nofun

theorem next {world after : World Client} {event : Event Client}
    (sound : Sound world) (taken : machine.next world event = some after) :
    Sound after where
  records := by
    obtain ⟨history, records⟩ := sound.records
    exact ⟨record world event after history, records.next
      (Machine.observe_next_eq_some.mpr ⟨taken, rfl⟩)⟩
  spinners := Network.Protocol.forall_clients_of_next
    (fun _ _ _ backed taken => Device.loadInFlight_of_next backed taken)
    sound.spinners taken

/-- Where no such event leads on, every device has come to rest. -/
theorem settled {world : World Client} (sound : Sound world)
    (stuck : ∀ event, Continues event → machine.next world event = none)
    (client : Client) : (world.clients client).Settled := by
  obtain ⟨history, records⟩ := sound.records
  have idle : ∀ event, event.continues = true → event.isAnswer = false →
      ¬ ∃ device,
        Device.machine.next (world.clients client) event = some device := by
    intro event continues own goesOn
    obtain ⟨device, taken⟩ := goesOn
    have worldTaken := next_act own taken
    rw [stuck (.act client event) continues] at worldTaken
    cases worldTaken
  have pending : (world.clients client).pending.values = [] := by
    apply List.eq_nil_iff_forall_not_mem.mpr
    intro call member
    obtain ⟨ticket, found⟩ := Pool.exists_find member
    cases answered : call.answer with
    | none =>
        have worldTaken := next_serve (.granted 0) found answered
        rw [stuck (.serve client (ticket, .granted 0)) trivial] at worldTaken
        cases worldTaken
    | some response =>
        obtain ⟨outcome, completed⟩ :=
          ((records.calls client).of_find? found).exists_complete answered
            (world.clients client).controller
        exact idle (.callback ticket) rfl rfl
          ⟨_, Device.next_callback found answered completed⟩
  refine ⟨?_, ?_, pending, ?_, ?_⟩
  · by_contra busy
    exact idle .mainStep rfl rfl (Device.exists_next_mainStep busy)
  · apply List.eq_nil_iff_forall_not_mem.mpr
    intro attempt member
    obtain ⟨ticket, found⟩ := Pool.exists_find member
    exact idle (.authResult ticket (.error "")) rfl rfl
      (Device.exists_next_authResult found _)
  · intro task member
    obtain ⟨ticket, found⟩ := Pool.exists_find member
    rcases Device.exists_next_runTask found with goesOn | wouldTrap
    · exact absurd goesOn (idle (.runTask ticket) rfl rfl)
    · exact wouldTrap
  · by_contra loading
    exact Pool.not_any_of_no_values pending
      (sound.spinners client (by simpa using loading))

end Sound

/-- One step of the network lowers the work of one device. -/
theorem work_of_next [Fintype Client] {world after : World Client}
    {event : Event Client} (continues : Continues event)
    (taken : machine.next world event = some after) :
    Multiset.IsDershowitzMannaLT (after.total Device.work)
      (world.total Device.work) := by
  obtain ⟨client, server, own, device, resolved, clientStep, rfl⟩ :=
    Network.Protocol.next_eq_some.mp taken
  have ownContinues : own.continues = true := by
    cases event with
    | act mover event =>
        simp only [Network.Protocol.resolve, Option.ite_none_right_eq_some,
          Option.some.injEq, Prod.mk.injEq] at resolved
        obtain ⟨_, _, _, rfl⟩ := resolved
        exact continues
    | serve mover query =>
        obtain ⟨⟨_, _⟩, served, same⟩ := Option.map_eq_some_iff.mp resolved
        cases same
        obtain ⟨call, _, servedEq⟩ := Option.map_eq_some_iff.mp served
        cases servedEq
        rfl
  rw [Network.total_moved, Network.total_eq _ _ client]
  exact (Device.work_of_next ownContinues clientStep).add_right _

/-- Every run from an empty collection leaves the world settling. -/
theorem settles_of_exec [Fintype Client] (persisted : Client → Option FIRUser)
    (images : Bucket) {events : List (Event Client)} {world : World Client}
    (run : machine.exec (start persisted images) events = some world) :
    machine.Settles Continues
      (fun ended => ∀ client, (ended.clients client).Settled) world := by
  have sound : Sound world :=
    (Machine.always_of_preserved (fun _ _ _ sound taken => sound.next taken)
      (Sound.start persisted images) events).last run
  exact Machine.settles_of_rank Multiset.wellFounded_isDershowitzMannaLT
    (Network.total Device.work) Sound
    (fun _ _ _ sound _ taken => sound.next taken)
    (fun _ _ _ _ continues taken => work_of_next continues taken)
    (fun _ sound stuck client => sound.settled stuck client) sound

/-- From every state of every run of finitely many devices, from an empty
collection with any images stored, whatever results arrive and in whatever order
the queued work runs: every infinite run has, after each of its points, a gesture
of a user or a screen that appears or is redrawn; a state in which nothing else
can happen has every device at rest; and each state can be brought to such a one
without any of these. -/
theorem comes_to_rest [Fintype Client] (persisted : Client → Option FIRUser)
    (images : Bucket) {events : List (Event Client)} {world : World Client}
    (run : machine.exec (start persisted images) events = some world) :
    (∀ (visited : Nat → World Client) (taken : Nat → Event Client),
        visited 0 = world →
        (∀ step, machine.next (visited step) (taken step) =
          some (visited (step + 1))) →
        ∀ bound, ∃ step, bound ≤ step ∧ ¬ Continues (taken step)) ∧
      ((∀ event, Continues event → machine.next world event = none) →
        ∀ client, (world.clients client).Settled) ∧
      ∃ rest ended, (∀ event ∈ rest, Continues event) ∧
        machine.exec world rest = some ended ∧
        ∀ client, (ended.clients client).Settled := by
  have settles := settles_of_exec persisted images run
  refine ⟨?_, settles.of_stuck, settles.exists_end⟩
  intro visited taken begins goesOn bound
  subst begins
  -- What the run visits is at the end of a longer run.
  have visitedSettles : ∀ step, machine.Settles Continues
      (fun ended => ∀ client, (ended.clients client).Settled)
      (visited step) := by
    intro step
    have longer : machine.exec (start persisted images)
        (events ++ (List.range step).map taken) = some (visited step) := by
      rw [Machine.exec_append, run]
      exact Machine.exec_of_steps goesOn step
    exact settles_of_exec persisted images longer
  exact Machine.Settles.exists_external visitedSettles goesOn bound

/-- A refresh and an upload have just been started. -/
def startsBoth : List (Event Unit) :=
  arrives () "A" "ana@lps.es" ++
    [.act () (.save ⟨some [2], some [2]⟩ "playa" noon), .act () (.runTask 0)]

/-- `comes_to_rest` at a refresh and an upload. -/
theorem comes_to_rest_started :
    ∃ world,
      machine.exec (start (fun _ : Unit => none) ∅) startsBoth = some world ∧
      (world.clients ()).controller.loading = true ∧
      (world.clients ()).pending.values.length = 2 ∧
      ∃ rest ended, (∀ event ∈ rest, Continues event) ∧
        machine.exec world rest = some ended ∧
        ∀ client, (ended.clients client).Settled := by
  have ends :
      (machine.exec (start (fun _ : Unit => none) ∅) startsBoth).map
        (fun world => ((world.clients ()).controller.loading,
          (world.clients ()).pending.values.length)) = some (true, 2) := by
    decide +kernel
  obtain ⟨world, reached, shown⟩ := Option.map_eq_some_iff.mp ends
  obtain ⟨loading, inFlight⟩ := Prod.mk.inj shown
  obtain ⟨_, _, ends⟩ := comes_to_rest (fun _ => none) ∅ reached
  exact ⟨world, reached, loading, inFlight, ends⟩

end World

end AppLPS
