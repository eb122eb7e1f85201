/-
Module: AppLPS.Machine.Broadcast
Purpose: A value that changes at once and observers that are told of it later,
  through a first-in first-out queue: nobody misses the last change.
Trusted boundary: none
Main exports: Broadcast, Broadcast.machine, Broadcast.Informed,
  Broadcast.Informed.next, Broadcast.Informed.of_exec,
  Broadcast.Informed.at_rest
-/
import AppLPS.Machine.Basic

/-!
Values are told apart by a key.  An observer remembers the key that it saw last
and shows the current value when it is called with another one, so a notice
that arrives late shows what is current by then, and the notices behind it may
have nothing left to show.
-/

/-- A queued notice to all observers, or the first call of one of them. -/
inductive Notice where
  | all
  | first (observer : Nat)
deriving DecidableEq, Repr

/-- The current value, the key that each observer saw last, the queued notices,
and what the observers have shown last. -/
structure Broadcast (Value Key Shown : Type*) where
  current : Value
  observers : List (Option Key) := []
  queue : List Notice := []
  shown : Shown

namespace Broadcast

variable {Value Key Shown : Type*}

inductive Event (Value : Type*) where
  /-- The value changes, and a notice is queued. -/
  | set (value : Value)
  /-- The value changes, but not its key. -/
  | amend (value : Value)
  /-- A notice is queued although nothing has changed. -/
  | post
  /-- An observer is added; it is called for the first time later. -/
  | observe
  /-- What is shown is taken down. -/
  | clear
  /-- The first notice of the queue is delivered. -/
  | deliver

section Machine

variable [DecidableEq Key] (key : Value → Key) (display : Value → Shown)
  (blank : Shown)

/-- Deliver one notice. -/
def tell (broadcast : Broadcast Value Key Shown) :
    Notice → Broadcast Value Key Shown
  | .all =>
      { broadcast with
        observers :=
          broadcast.observers.map fun _ => some (key broadcast.current)
        shown :=
          if broadcast.observers.any (· ≠ some (key broadcast.current)) then
            display broadcast.current
          else broadcast.shown }
  | .first observer =>
      match broadcast.observers[observer]? with
      | none => broadcast
      | some seen =>
          { broadcast with
            observers := broadcast.observers.set observer
              (some (key broadcast.current))
            shown :=
              if seen ≠ some (key broadcast.current) then
                display broadcast.current
              else broadcast.shown }

def enqueue (broadcast : Broadcast Value Key Shown) (notice : Notice) :
    Broadcast Value Key Shown :=
  { broadcast with queue := broadcast.queue ++ [notice] }

def step (broadcast : Broadcast Value Key Shown) :
    Event Value → Option (Except Empty (Broadcast Value Key Shown))
  | .set value => some (.ok ({ broadcast with current := value }.enqueue .all))
  | .amend value =>
      if key value = key broadcast.current then
        some (.ok { broadcast with current := value })
      else none
  | .post => some (.ok (broadcast.enqueue .all))
  | .observe =>
      some (.ok ({ broadcast with
        observers := broadcast.observers ++ [none] }.enqueue
          (.first broadcast.observers.length)))
  | .clear => some (.ok { broadcast with shown := blank })
  | .deliver =>
      match broadcast.queue with
      | [] => none
      | notice :: queue =>
          some (.ok ({ broadcast with queue := queue }.tell key display notice))

def machine : Machine (Broadcast Value Key Shown) (Event Value) Empty where
  step := step key display blank

variable {key display blank} (broadcast : Broadcast Value Key Shown)

@[simp] theorem next_set (value : Value) :
    (machine key display blank).next broadcast (.set value) =
      some ({ broadcast with current := value }.enqueue .all) := rfl

@[simp] theorem next_post :
    (machine key display blank).next broadcast .post =
      some (broadcast.enqueue .all) := rfl

@[simp] theorem next_observe :
    (machine key display blank).next broadcast .observe =
      some ({ broadcast with
        observers := broadcast.observers ++ [none] }.enqueue
          (.first broadcast.observers.length)) := rfl

@[simp] theorem next_clear :
    (machine key display blank).next broadcast .clear =
      some { broadcast with shown := blank } := rfl

variable {broadcast}

theorem next_amend {value : Value} (same : key value = key broadcast.current) :
    (machine key display blank).next broadcast (.amend value) =
      some { broadcast with current := value } := by
  apply Machine.next_eq_some.mpr
  simp only [machine, step, if_pos same]

theorem next_deliver {notice : Notice} {queue : List Notice}
    (head : broadcast.queue = notice :: queue) :
    (machine key display blank).next broadcast .deliver =
      some ({ broadcast with queue := queue }.tell key display notice) := by
  apply Machine.next_eq_some.mpr
  simp only [machine, step, head]

end Machine

/-! ## Nobody misses the last change -/

/-- Every observer has seen the current key or is about to be called, and what
is shown is a value whose key some observer has seen. -/
structure Informed (key : Value → Key) (display : Value → Shown)
    (blank : Shown) (broadcast : Broadcast Value Key Shown) : Prop where
  coming : ∀ observer seen, broadcast.observers[observer]? = some seen →
    seen = some (key broadcast.current) ∨ .all ∈ broadcast.queue ∨
      .first observer ∈ broadcast.queue
  shown : broadcast.shown = blank ∨ ∃ value, broadcast.shown = display value ∧
    some (key value) ∈ broadcast.observers

namespace Informed

variable {key : Value → Key} {display : Value → Shown} {blank : Shown}
  {broadcast after : Broadcast Value Key Shown}

/-- With nothing queued, all observers have seen the current key and show
nothing else. -/
theorem at_rest (informed : Informed key display blank broadcast)
    (empty : broadcast.queue = []) :
    (∀ seen ∈ broadcast.observers, seen = some (key broadcast.current)) ∧
      (broadcast.shown = blank ∨
        ∃ value, broadcast.shown = display value ∧
          key value = key broadcast.current) := by
  have allSeen : ∀ seen ∈ broadcast.observers,
      seen = some (key broadcast.current) := by
    intro seen member
    obtain ⟨observer, isSeen⟩ := List.mem_iff_getElem?.mp member
    rcases informed.coming observer seen isSeen with current | queued
    · exact current
    · rw [empty] at queued
      rcases queued with isAll | isFirst
      · cases isAll
      · cases isFirst
  refine ⟨allSeen, informed.shown.imp_right ?_⟩
  intro isShown
  obtain ⟨value, shownEq, seen⟩ := isShown
  exact ⟨value, shownEq, Option.some.inj (allSeen _ seen)⟩

/-- A notice to all leaves nobody behind. -/
theorem enqueue_all
    (shown : broadcast.shown = blank ∨ ∃ value,
      broadcast.shown = display value ∧
        some (key value) ∈ broadcast.observers) :
    Informed key display blank (broadcast.enqueue .all) where
  coming := fun _ _ _ =>
    .inr (.inl (List.mem_append_right _ (List.mem_singleton_self _)))
  shown := shown

/-- A new observer waits for its first call. -/
theorem observe (informed : Informed key display blank broadcast) :
    Informed key display blank
      ({ broadcast with
        observers := broadcast.observers ++ [none] }.enqueue
          (.first broadcast.observers.length)) where
  coming := by
    intro observer seen isSeen
    rcases Nat.lt_or_ge observer broadcast.observers.length with old | new
    · simp only [enqueue, List.getElem?_append_left old] at isSeen
      rcases informed.coming observer seen isSeen with current | all | first
      · exact .inl current
      · exact .inr (.inl (List.mem_append_left _ all))
      · exact .inr (.inr (List.mem_append_left _ first))
    · have last : observer = broadcast.observers.length := by
        have inRange := (List.getElem?_eq_some_iff.mp isSeen).1
        simp only [enqueue, List.length_append, List.length_singleton]
          at inRange
        omega
      subst last
      exact .inr (.inr (List.mem_append_right _ (List.mem_singleton_self _)))
  shown := by
    refine informed.shown.imp_right ?_
    intro isShown
    obtain ⟨value, shownEq, seen⟩ := isShown
    exact ⟨value, shownEq, List.mem_append_left _ seen⟩

variable [DecidableEq Key] {queue : List Notice}

/-- After a notice to all, everybody has seen the current key. -/
theorem tell_all (informed : Informed key display blank broadcast) :
    Informed key display blank
      ({ broadcast with queue := queue }.tell key display .all) where
  coming := by
    intro observer seen isSeen
    simp only [tell, List.getElem?_map, Option.map_eq_some_iff] at isSeen
    obtain ⟨_, _, rfl⟩ := isSeen
    exact .inl rfl
  shown := by
    by_cases called :
        broadcast.observers.any (· ≠ some (key broadcast.current)) = true
    · -- Somebody is called, so there is an observer that has seen the value.
      obtain ⟨seen, member, _⟩ := List.any_eq_true.mp called
      refine .inr ⟨broadcast.current, ?_, ?_⟩
      · simp only [tell, called, if_true]
      · exact List.mem_map.mpr ⟨seen, member, rfl⟩
    · simp only [tell, if_neg called]
      refine informed.shown.imp_right ?_
      intro isShown
      obtain ⟨value, shownEq, seen⟩ := isShown
      refine ⟨value, shownEq, List.mem_map.mpr ⟨_, seen, ?_⟩⟩
      simp only [List.any_eq_true, decide_eq_true_eq, not_exists, not_and,
        not_not] at called
      exact (called _ seen).symm

/-- After its first call an observer has seen the current key. -/
theorem tell_first {first : Nat}
    (informed : Informed key display blank broadcast)
    (head : broadcast.queue = .first first :: queue) :
    Informed key display blank
      ({ broadcast with queue := queue }.tell key display (.first first)) := by
  have others : ∀ observer seen,
      broadcast.observers[observer]? = some seen → observer ≠ first →
      seen = some (key broadcast.current) ∨ .all ∈ queue ∨
        .first observer ∈ queue := by
    intro observer seen isSeen ne
    rcases informed.coming observer seen isSeen with current | all | isFirst
    · exact .inl current
    · rw [head] at all
      exact .inr (.inl (by simpa using all))
    · rw [head] at isFirst
      exact .inr (.inr (by simpa [ne] using isFirst))
  cases registered : broadcast.observers[first]? with
  | none =>
      simp only [tell, registered]
      refine ⟨?_, informed.shown⟩
      intro observer seen isSeen
      apply others observer seen isSeen
      rintro rfl
      cases registered.symm.trans isSeen
  | some seenBefore =>
      obtain ⟨inRange, seenEq⟩ := List.getElem?_eq_some_iff.mp registered
      simp only [tell, registered]
      constructor
      · intro observer seen isSeen
        by_cases same : observer = first
        · subst same
          simp only [List.getElem?_set_self inRange, Option.some.injEq]
            at isSeen
          exact .inl isSeen.symm
        · simp only [List.getElem?_set_ne (Ne.symm same)] at isSeen
          exact others observer seen isSeen same
      · by_cases called : seenBefore ≠ some (key broadcast.current)
        · refine .inr ⟨broadcast.current, if_pos called, ?_⟩
          exact List.mem_set inRange _
        · rw [not_not] at called
          rw [called] at seenEq
          simp only [called, ne_eq, not_true_eq_false, if_false]
          rw [← seenEq, List.set_getElem_self]
          exact informed.shown

theorem next {event : Event Value}
    (informed : Informed key display blank broadcast)
    (taken : (machine key display blank).next broadcast event = some after) :
    Informed key display blank after := by
  have stepped := Machine.next_eq_some.mp taken
  cases event with
  | set value =>
      cases stepped
      exact enqueue_all informed.shown
  | amend value =>
      simp only [machine, step, Option.ite_none_right_eq_some] at stepped
      obtain ⟨sameKey, stepped⟩ := stepped
      cases stepped
      refine ⟨?_, informed.shown⟩
      intro observer seen isSeen
      rw [sameKey]
      exact informed.coming observer seen isSeen
  | post =>
      cases stepped
      exact enqueue_all informed.shown
  | observe =>
      cases stepped
      exact informed.observe
  | clear =>
      cases stepped
      exact ⟨informed.coming, .inl rfl⟩
  | deliver =>
      simp only [machine, step] at stepped
      split at stepped
      · cases stepped
      · rename_i notice queue head
        cases stepped
        cases notice with
        | all => exact informed.tell_all
        | first observer => exact informed.tell_first head

theorem of_exec {events : List (Event Value)}
    (informed : Informed key display blank broadcast)
    (run : (machine key display blank).exec broadcast events = some after) :
    Informed key display blank after :=
  (Machine.always_of_preserved (fun _ _ _ informed taken => informed.next taken)
    informed events).last run

end Informed

end Broadcast
