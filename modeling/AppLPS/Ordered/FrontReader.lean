/-
Module: AppLPS.Ordered.FrontReader
Purpose: Readers that take values off the front of a list, and readers that take
  exactly what a code has written.
Trusted boundary: none
Main exports: FrontReader, FrontReader.Takes, FrontReader.bind_takes, Reads
-/
import Mathlib.Data.List.Basic

/-- A reader takes a value off the front of a list, or finds none there, or
ends in a failure. -/
def FrontReader (ε γ α : Type) : Type :=
  List γ → Except ε (Option (α × List γ))

namespace FrontReader

variable {ε γ α β : Type}

protected def bind (read : FrontReader ε γ α) (next : α → FrontReader ε γ β) :
    FrontReader ε γ β := fun src =>
  match read src with
  | .error fault => .error fault
  | .ok none => .ok none
  | .ok (some (x, rest)) => next x rest

instance monad : Monad (FrontReader ε γ) where
  pure x := fun src => .ok (some (x, src))
  bind := FrontReader.bind

/-- The reader that finds nothing. -/
def fail : FrontReader ε γ α := fun _ => .ok none

/-- What has not been read yet. -/
def position : FrontReader ε γ (List γ) := fun src => .ok (some (src, src))

/-- The reader goes back to a position. -/
def restore (saved : List γ) : FrontReader ε γ Unit :=
  fun _ => .ok (some ((), saved))

/-- The reader takes a value and leaves the rest. -/
def Takes (read : FrontReader ε γ α) (src : List γ) (x : α) (rest : List γ) :
    Prop :=
  read src = .ok (some (x, rest))

variable {read : FrontReader ε γ α} {next : α → FrontReader ε γ β}
  {src rest : List γ} {x y : α} {z : β}

@[simp] theorem pure_takes :
    (pure x : FrontReader ε γ α).Takes src y rest ↔ x = y ∧ src = rest := by
  simp only [Takes, pure, Except.ok.injEq, Option.some.injEq, Prod.mk.injEq]

@[simp] theorem not_fail_takes :
    ¬(fail : FrontReader ε γ α).Takes src x rest := by
  intro taken
  cases taken

@[simp] theorem position_takes {saved : List γ} :
    (position : FrontReader ε γ (List γ)).Takes src saved rest ↔
      src = saved ∧ src = rest := by
  simp only [Takes, position, Except.ok.injEq, Option.some.injEq,
    Prod.mk.injEq]

@[simp] theorem restore_takes {saved : List γ} {done : Unit} :
    (restore saved : FrontReader ε γ Unit).Takes src done rest ↔
      saved = rest := by
  simp only [Takes, restore, Except.ok.injEq, Option.some.injEq,
    Prod.mk.injEq, true_and]

theorem bind_takes :
    (read >>= next).Takes src z rest ↔
      ∃ x middle, read.Takes src x middle ∧ (next x).Takes middle z rest := by
  change FrontReader.bind read next src = _ ↔ _
  unfold FrontReader.bind Takes
  constructor
  · intro taken
    split at taken
    · cases taken
    · cases taken
    · rename_i x middle readEq
      exact ⟨x, middle, readEq, taken⟩
  · rintro ⟨x, middle, readEq, taken⟩
    rw [readEq]
    exact taken

end FrontReader

/-- The reader takes a value exactly when what the code writes for it is at the
front. -/
def Reads {ε γ α : Type} (read : FrontReader ε γ α) (encode : α → List γ) :
    Prop :=
  ∀ src x rest, read.Takes src x rest ↔ src = encode x ++ rest
