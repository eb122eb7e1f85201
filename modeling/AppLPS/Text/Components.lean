/-
Module: AppLPS.Text.Components
Purpose: A text split at a separator, without the empty parts, and its
  standard form, in which single separators stand between the parts.
Trusted boundary: none
Main exports: components, standardized, components_of_not_mem,
  components_append, standardized_append
-/
import Mathlib.Data.List.Basic

namespace Components

variable {α : Type*} [DecidableEq α]

/-- The parts between the separators that are not empty. -/
def components (separator : α) (text : List α) : List (List α) :=
  (text.splitOn separator).filter (· ≠ [])

/-- Single separators between the parts, and none at either end. -/
def standardized (separator : α) (text : List α) : List α :=
  [separator].intercalate (components separator text)

variable {separator : α} {text rest : List α}

/-- A text without the separator is its only part. -/
theorem components_of_not_mem (plain : separator ∉ text) (ne_nil : text ≠ []) :
    components separator text = [text] := by
  rw [components, List.splitOn_eq_singleton plain,
    List.filter_cons_of_pos (by simpa using ne_nil), List.filter_nil]

/-- What comes before the first separator is the first part. -/
theorem components_append (plain : separator ∉ text) (ne_nil : text ≠ []) :
    components separator (text ++ separator :: rest) =
      text :: components separator rest := by
  rw [components, List.splitOn_append_cons_self_of_not_mem plain,
    List.filter_cons_of_pos (by simpa using ne_nil)]
  rfl

/-- Two parts with one separator between them are in standard form. -/
theorem standardized_append (plain : separator ∉ text) (ne_nil : text ≠ [])
    (plainRest : separator ∉ rest) (rest_ne_nil : rest ≠ []) :
    standardized separator (text ++ separator :: rest) =
      text ++ separator :: rest := by
  rw [standardized, components_append plain ne_nil,
    components_of_not_mem plainRest rest_ne_nil]
  simp [List.intercalate]

end Components
