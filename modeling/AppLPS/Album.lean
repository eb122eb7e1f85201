/-
Module: AppLPS.Album
Purpose: What the app is for, without devices, requests or stores: an album of
  pictures by key, of which a picture can be added, renamed and removed.
Trusted boundary: none
Main exports: Picture, Album, Album.Change, Album.machine,
  Album.exists_added_of_exec
-/
import Mathlib.Logic.Function.Basic
import AppLPS.Machine.Basic

namespace AppLPS

/-- A picture of the album. -/
structure Picture (Owner Name Content : Type*) where
  owner : Owner
  name : Name
  content : Content
deriving DecidableEq

/-- The pictures by key. -/
abbrev Album (Key Owner Name Content : Type*) :=
  Key → Option (Picture Owner Name Content)

namespace Album

variable {Key Owner Name Content : Type*}

def empty : Album Key Owner Name Content := fun _ => none

/-- A change of the album. -/
inductive Change (Key Owner Name Content : Type*) where
  | add (key : Key) (picture : Picture Owner Name Content)
  | rename (key : Key) (name : Name)
  | remove (key : Key)
deriving DecidableEq

/-- The key that a change is about. -/
def Change.key : Change Key Owner Name Content → Key
  | .add key _ | .rename key _ | .remove key => key

variable [DecidableEq Key]

/-- A picture is added under a free key; only a picture that is there can be
renamed or removed, and renaming leaves its owner and its content. -/
def step (album : Album Key Owner Name Content) :
    Change Key Owner Name Content →
      Option (Except Empty (Album Key Owner Name Content))
  | .add key picture =>
      match album key with
      | none => some (.ok (Function.update album key (some picture)))
      | some _ => none
  | .rename key name =>
      match album key with
      | none => none
      | some picture => some (.ok (Function.update album key
          (some { picture with name := name })))
  | .remove key =>
      match album key with
      | none => none
      | some _ => some (.ok (Function.update album key none))

def machine : Machine (Album Key Owner Name Content)
    (Change Key Owner Name Content) Empty where
  step := step

variable {album after : Album Key Owner Name Content} {key : Key}
  {picture : Picture Owner Name Content}

theorem next_add (free : album key = none) :
    machine.next album (.add key picture) =
      some (Function.update album key (some picture)) := by
  apply Machine.next_eq_some.mpr
  simp only [machine, step, free]

theorem next_rename (present : album key = some picture) (name : Name) :
    machine.next album (.rename key name) =
      some (Function.update album key (some { picture with name := name })) := by
  apply Machine.next_eq_some.mpr
  simp only [machine, step, present]

theorem next_remove (present : album key = some picture) :
    machine.next album (.remove key) =
      some (Function.update album key none) := by
  apply Machine.next_eq_some.mpr
  simp only [machine, step, present]

/-- What one change does to a key: it is about another key, or adds, renames or
removes its picture. -/
inductive Changes (album after : Album Key Owner Name Content) (key : Key) :
    Change Key Owner Name Content → Prop where
  | other {change : Change Key Owner Name Content} (ne : change.key ≠ key)
      (same : after key = album key) : Changes album after key change
  | add {picture : Picture Owner Name Content} (free : album key = none)
      (added : after key = some picture) :
      Changes album after key (.add key picture)
  | rename {picture : Picture Owner Name Content} {name : Name}
      (present : album key = some picture)
      (renamed : after key = some { picture with name := name }) :
      Changes album after key (.rename key name)
  | remove (removed : after key = none) : Changes album after key (.remove key)

theorem changes_of_next {change : Change Key Owner Name Content}
    (taken : machine.next album change = some after) (key : Key) :
    Changes album after key change := by
  have stepped := Machine.next_eq_some.mp taken
  cases change with
  | add other picture =>
      simp only [machine, step] at stepped
      split at stepped
      · rename_i free
        cases stepped
        by_cases same : other = key
        · subst same
          exact .add free (Function.update_self _ _ _)
        · exact .other same (Function.update_of_ne (Ne.symm same) _ _)
      · cases stepped
  | rename other name =>
      simp only [machine, step] at stepped
      split at stepped
      · cases stepped
      · rename_i present
        cases stepped
        by_cases same : other = key
        · subst same
          exact .rename present (Function.update_self _ _ _)
        · exact .other same (Function.update_of_ne (Ne.symm same) _ _)
  | remove other =>
      simp only [machine, step] at stepped
      split at stepped
      · cases stepped
      · cases stepped
        by_cases same : other = key
        · subst same
          exact .remove (Function.update_self _ _ _)
        · exact .other same (Function.update_of_ne (Ne.symm same) _ _)

/-- A picture that is there was added with its owner and its content, has not
been removed since, and has the name it was added with or was given since. -/
theorem exists_added_of_exec {changes : List (Change Key Owner Name Content)}
    (run : machine.exec empty changes = some album)
    (present : album key = some picture) :
    ∃ before added later, changes = before ++ .add key added :: later ∧
      .remove key ∉ later ∧ added.owner = picture.owner ∧
      added.content = picture.content ∧
      (added.name = picture.name ∨ .rename key picture.name ∈ later) := by
  induction changes using List.reverseRecOn generalizing album picture with
  | nil =>
      cases run
      cases present
  | append_singleton changes change inductionHypothesis =>
      rw [Machine.exec_snoc] at run
      obtain ⟨middle, earlier, taken⟩ := Option.bind_eq_some_iff.mp run
      cases changes_of_next taken key with
      | other ne same =>
          rw [same] at present
          obtain ⟨before, added, later, rfl, notRemoved, owner, content, name⟩ :=
            inductionHypothesis earlier present
          refine ⟨before, added, later ++ [change], by simp, ?_, owner, content,
            name.imp_right (List.mem_append_left _)⟩
          intro removed
          rcases List.mem_append.mp removed with old | new
          · exact notRemoved old
          · cases List.mem_singleton.mp new
            exact ne rfl
      | add free added =>
          cases added.symm.trans present
          exact ⟨changes, _, [], rfl, by simp, rfl, rfl, .inl rfl⟩
      | rename wasPresent renamed =>
          cases renamed.symm.trans present
          obtain ⟨before, added, later, rfl, notRemoved, owner, content, _⟩ :=
            inductionHypothesis earlier wasPresent
          refine ⟨before, added, later ++ [_], by simp, ?_, owner, content,
            .inr (List.mem_append_right _ (List.mem_singleton_self _))⟩
          intro removed
          rcases List.mem_append.mp removed with old | new
          · exact notRemoved old
          · cases List.mem_singleton.mp new
      | remove removed =>
          rw [removed] at present
          cases present

end Album

end AppLPS
