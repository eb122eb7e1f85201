/-
Module: AppLPS.Foundation
Purpose: The library values the app computes with: bytes, pictures, the local
  wall clock and its formatted readings, sets of row positions, and the ways a
  Swift program traps.
Trusted boundary: none
Main exports: Data, UIImage, WallClock, DateFormatter.string,
  DateFormatter.string_injective, IndexSet, Trap
-/
import Mathlib.Data.List.Basic
import AppLPS.Text.Decimal

namespace AppLPS

abbrev Data := List UInt8

/-- A picture, known by what its encoders make of it: `pngData()`, and
`jpegData(compressionQuality: 0.2)`; `none` when there is nothing to encode. -/
structure UIImage where
  pngData : Option Data
  jpegData : Option Data
deriving DecidableEq

/-- The positions of the rows of one gesture, in the ascending order in which
`IndexSet.forEach` visits them. -/
structure IndexSet where
  indices : List Nat
  ascending : indices.Pairwise (· < ·)

/-- The first rows. -/
def IndexSet.first (count : Nat) : IndexSet where
  indices := List.range count
  ascending := List.pairwise_lt_range

/-- One row. -/
def IndexSet.only (index : Nat) : IndexSet where
  indices := [index]
  ascending := List.pairwise_singleton _ _

/-- The runtime failures of the modelled code. -/
inductive Trap where
  | forcedCast (key : String)
  | forcedUnwrap
  | indexOutOfRange (index : Nat)
  /-- Firestore raises an exception. -/
  | invalidArgument (message : String)
deriving DecidableEq, Repr

/-- A computation that may trap gets past a bind exactly when both halves
return. -/
theorem bind_eq_ok {Result Next : Type} {computed : Except Trap Result}
    {continued : Result → Except Trap Next} {after : Next} :
    computed >>= continued = .ok after ↔
      ∃ result, computed = .ok result ∧ continued result = .ok after := by
  cases computed with
  | error trap => simp [bind, Except.bind]
  | ok result => simp [bind, Except.bind]

/-- A bind that traps traps in one of its halves. -/
theorem bind_eq_error {Result Next : Type} {computed : Except Trap Result}
    {continued : Result → Except Trap Next} {trap : Trap} :
    computed >>= continued = .error trap ↔
      computed = .error trap ∨
        ∃ result, computed = .ok result ∧ continued result = .error trap := by
  cases computed with
  | error other => simp [bind, Except.bind]
  | ok result => simp [bind, Except.bind]

/-- A loop returns exactly when it returns at every element. -/
theorem forM_eq_ok {α : Type} {items : List α} {body : α → Except Trap Unit} :
    items.forM body = .ok () ↔ ∀ item ∈ items, body item = .ok () := by
  induction items with
  | nil => exact ⟨fun _ => List.forall_mem_nil _, fun _ => rfl⟩
  | cons item items inductionHypothesis =>
      rw [List.forall_mem_cons, ← inductionHypothesis]
      refine bind_eq_ok.trans ?_
      exact ⟨fun ⟨(), first, rest⟩ => ⟨first, rest⟩,
        fun ⟨first, rest⟩ => ⟨(), first, rest⟩⟩

/-- A loop that traps traps at an element. -/
theorem exists_of_forM_eq_error {α : Type} {items : List α}
    {body : α → Except Trap Unit} {trap : Trap}
    (trapped : items.forM body = .error trap) :
    ∃ item ∈ items, body item = .error trap := by
  induction items with
  | nil => cases trapped
  | cons item items inductionHypothesis =>
      rcases bind_eq_error.mp trapped with here | ⟨_, _, rest⟩
      · exact ⟨item, List.mem_cons_self, here⟩
      · obtain ⟨later, member, trappedLater⟩ := inductionHypothesis rest
        exact ⟨later, List.mem_cons_of_mem _ member, trappedLater⟩

/-- One reading of a device's local wall clock, to the second. -/
@[ext] structure WallClock where
  year : Nat
  month : Nat
  day : Nat
  hour : Nat
  minute : Nat
  second : Nat
  month_le : month ≤ 12 := by decide
  day_le : day ≤ 31 := by decide
  hour_lt : hour < 24 := by decide
  minute_lt : minute < 60 := by decide
  second_lt : second < 60 := by decide
deriving DecidableEq

namespace DateFormatter

/-- `formater.string(from: Date())` under the format `yyyy-MM-dd HH:mm:ss`. -/
def characters (now : WallClock) : List Char :=
  Decimal.padded 4 now.year ++
    '-' :: (Decimal.padded 2 now.month ++
    '-' :: (Decimal.padded 2 now.day ++
    ' ' :: (Decimal.padded 2 now.hour ++
    ':' :: (Decimal.padded 2 now.minute ++
    ':' :: Decimal.padded 2 now.second))))

def string (now : WallClock) : String :=
  String.ofList (characters now)

example :
    string { year := 2021, month := 10, day := 31, hour := 8, minute := 5, second := 30 } =
      "2021-10-31 08:05:30" := by decide

private theorem length_two {number : Nat} (fits : number < 100) :
    (Decimal.padded 2 number).length = 2 :=
  Decimal.length_padded (by decide) fits

/-- Two-digit numerals in front of equal separators can be read off. -/
private theorem two_digits_inj {first second : Nat} {separator : Char}
    {rest rest' : List Char} (firstFits : first < 100)
    (secondFits : second < 100)
    (same : Decimal.padded 2 first ++ separator :: rest =
      Decimal.padded 2 second ++ separator :: rest') :
    first = second ∧ rest = rest' := by
  have sameLength :
      (Decimal.padded 2 first).length = (Decimal.padded 2 second).length := by
    rw [length_two firstFits, length_two secondFits]
  have ⟨sameDigits, sameRest⟩ := List.append_inj same sameLength
  exact ⟨Decimal.padded_injective 2 sameDigits, (List.cons.inj sameRest).2⟩

/-- Two readings have the same text only when they agree to the second. -/
theorem string_injective : Function.Injective string := by
  intro one two same
  have sameCharacters : characters one = characters two :=
    String.ofList_injective same
  have monthOne := one.month_le
  have monthTwo := two.month_le
  have dayOne := one.day_le
  have dayTwo := two.day_le
  have hourOne := one.hour_lt
  have hourTwo := two.hour_lt
  have minuteOne := one.minute_lt
  have minuteTwo := two.minute_lt
  have secondOne := one.second_lt
  have secondTwo := two.second_lt
  -- The year has no fixed width, but everything after it has.
  have ⟨sameYear, sameRest⟩ := List.append_inj' sameCharacters (by
    simp only [List.length_cons, List.length_append]
    rw [length_two (by omega), length_two (by omega), length_two (by omega),
      length_two (by omega), length_two (by omega), length_two (by omega),
      length_two (by omega), length_two (by omega), length_two (by omega),
      length_two (by omega)])
  have ⟨sameMonth, fromDay⟩ :=
    two_digits_inj (by omega) (by omega) (List.cons.inj sameRest).2
  have ⟨sameDay, fromHour⟩ := two_digits_inj (by omega) (by omega) fromDay
  have ⟨sameHour, fromMinute⟩ := two_digits_inj (by omega) (by omega) fromHour
  have ⟨sameMinute, sameSeconds⟩ :=
    two_digits_inj (by omega) (by omega) fromMinute
  exact WallClock.ext (Decimal.padded_injective 4 sameYear) sameMonth sameDay
    sameHour sameMinute (Decimal.padded_injective 2 sameSeconds)

end DateFormatter

end AppLPS
