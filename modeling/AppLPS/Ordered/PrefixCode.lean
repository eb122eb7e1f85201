/-
Module: AppLPS.Ordered.PrefixCode
Purpose: Codes whose words compare as what they stand for, whatever follows
  them, and how such codes are put together.
Trusted boundary: none
Main exports: Before, PrefixMonotone, PrefixMonotone.append_lt_append_iff,
  PrefixMonotone.pair, PrefixMonotone.flatMap, PrefixMonotone.terminated
-/
import Mathlib.Data.List.Lex
import Mathlib.Data.Prod.Lex

/-!
Lists are compared lexicographically, a proper prefix first.  A code whose words
are prefixes of one another compares right only at the end of a list; here two
words differ at a position that both have.
-/

variable {α β γ : Type*}

/-- The first list has the smaller entry where the two differ first. -/
inductive Before [LT γ] : List γ → List γ → Prop where
  | head {first second : γ} {xs ys : List γ} (lt : first < second) :
      Before (first :: xs) (second :: ys)
  | tail {common : γ} {xs ys : List γ} (before : Before xs ys) :
      Before (common :: xs) (common :: ys)

namespace Before

variable [LinearOrder γ] {xs ys : List γ}

/-- It stays so whatever follows. -/
theorem append (before : Before xs ys) (after later : List γ) :
    Before (xs ++ after) (ys ++ later) := by
  induction before with
  | head lt => exact .head lt
  | tail _ inductionHypothesis => exact .tail inductionHypothesis

theorem prepend (common : List γ) (before : Before xs ys) :
    Before (common ++ xs) (common ++ ys) := by
  induction common with
  | nil => exact before
  | cons _ _ inductionHypothesis => exact .tail inductionHypothesis

theorem lt (before : Before xs ys) : xs < ys := by
  induction before with
  | head lt => exact List.cons_lt_cons_iff.mpr (.inl lt)
  | tail _ inductionHypothesis =>
      exact List.cons_lt_cons_iff.mpr (.inr ⟨rfl, inductionHypothesis⟩)

end Before

/-- Smaller arguments have words that come before. -/
def PrefixMonotone [LT α] [LT γ] (encode : α → List γ) : Prop :=
  ∀ x y, x < y → Before (encode x) (encode y)

theorem append_lt_append_left_iff [LinearOrder γ] {common xs ys : List γ} :
    common ++ xs < common ++ ys ↔ xs < ys := by
  induction common with
  | nil => rfl
  | cons first common inductionHypothesis =>
      rw [List.cons_append, List.cons_append, List.cons_lt_cons_iff]
      simp only [lt_irrefl, false_or, true_and]
      exact inductionHypothesis

namespace PrefixMonotone

variable [LinearOrder α] [LinearOrder β] [LinearOrder γ] {encode : α → List γ}
  {x y : α} {after later : List γ}

/-- Lists that begin with code words compare by what the words stand for, and
then by the rest. -/
theorem append_lt_append_iff (mono : PrefixMonotone encode) :
    encode x ++ after < encode y ++ later ↔ x < y ∨ x = y ∧ after < later := by
  rcases lt_trichotomy x y with less | same | greater
  · have before := (mono x y less).append after later
    simp only [before.lt, less, true_or]
  · subst same
    simp only [lt_irrefl, false_or, true_and]
    exact append_lt_append_left_iff
  · have before := (mono y x greater).append later after
    simp only [not_lt_of_gt before.lt, not_lt_of_gt greater, greater.ne',
      false_and, or_false]

/-! ## Composition -/

/-- A common beginning. -/
theorem prepend (mono : PrefixMonotone encode) (common : List γ) :
    PrefixMonotone fun x => common ++ encode x :=
  fun x y less => (mono x y less).prepend common

/-- One word after another. -/
theorem pair {encodeSecond : β → List γ} (mono : PrefixMonotone encode)
    (monoSecond : PrefixMonotone encodeSecond) :
    PrefixMonotone fun pair : α ×ₗ β =>
      encode (ofLex pair).1 ++ encodeSecond (ofLex pair).2 := by
  intro first second less
  rcases Prod.Lex.lt_iff.mp less with firstLess | ⟨same, secondLess⟩
  · exact (mono _ _ firstLess).append _ _
  · dsimp only
    rw [same]
    exact (monoSecond _ _ secondLess).prepend _

/-- The words of a list one after another compare like the lists when what
follows the smaller one comes before every word. -/
theorem flatMap (mono : PrefixMonotone encode) {stop : List γ}
    (before : ∀ x, Before stop (encode x)) {xs ys : List α} (less : xs < ys)
    (later : List γ) :
    Before (xs.flatMap encode ++ stop) (ys.flatMap encode ++ later) := by
  induction less with
  | @nil first rest =>
      have ends := (before first).append [] (rest.flatMap encode ++ later)
      simpa only [List.flatMap_nil, List.nil_append, List.flatMap_cons,
        List.append_assoc, List.append_nil] using ends
  | cons _ inductionHypothesis =>
      simp only [List.flatMap_cons, List.append_assoc]
      exact inductionHypothesis.prepend _
  | rel firstLess =>
      simp only [List.flatMap_cons, List.append_assoc]
      exact (mono _ _ firstLess).append _ _

/-- A common end that comes before every word. -/
theorem terminated (mono : PrefixMonotone encode) (stop : List γ)
    (before : ∀ x, Before stop (encode x)) :
    PrefixMonotone fun xs : List α => xs.flatMap encode ++ stop :=
  fun _ _ less => mono.flatMap before less stop

end PrefixMonotone
