/-
Module: AppLPS.Ordered.Entries
Purpose: The first entry of a map among the keys of a range, and how the first
  entries of two maps give the first entry of one laid over the other.
Trusted boundary: none
Main exports: FirstWhere, FirstWhere.narrow, earlierEntry,
  FirstWhere.overlay, firstWhere_head?, firstWhere_find?
-/
import Mathlib.Order.Compare
import Mathlib.Data.List.Sort
import Std.Data.TreeMap.Lemmas

/-!
A map is what it holds at each key, `contents : κ → Option ν`.  Readers that go
through the keys in ascending order stop at the first entry of a range, which
need not be an interval: a map with some keys left out is the map on the range
without them.
-/

variable {κ ν : Type*} [LinearOrder κ]

/-- The entry of the least key of the range at which the map holds a value. -/
inductive FirstWhere (contents : κ → Option ν) (range : κ → Prop) :
    Option (κ × ν) → Prop where
  | found {key : κ} {value : ν} (inRange : range key)
      (held : contents key = some value)
      (least : ∀ other, range other → other < key → contents other = none) :
      FirstWhere contents range (some (key, value))
  | absent (empty : ∀ key, range key → contents key = none) :
      FirstWhere contents range none

/-- The entry with the smaller key, the upper one if both are at one key. -/
def earlierEntry : Option (κ × ν) → Option (κ × ν) → Option (κ × ν)
  | none, lower => lower
  | some row, none => some row
  | some row, some below =>
      if row.1 ≤ below.1 then some row else some below

namespace FirstWhere

variable {contents other overlaid under : κ → Option ν} {range narrower : κ → Prop}
  {entry : Option (κ × ν)}

theorem inRange {row : κ × ν} (first : FirstWhere contents range entry)
    (isEntry : entry = some row) : range row.1 := by
  cases first with
  | found inRange held least =>
      cases isEntry
      exact inRange
  | absent => cases isEntry

theorem held {row : κ × ν} (first : FirstWhere contents range entry)
    (isEntry : entry = some row) : contents row.1 = some row.2 := by
  cases first with
  | found inRange held least =>
      cases isEntry
      exact held
  | absent => cases isEntry

theorem least {row : κ × ν} (first : FirstWhere contents range entry)
    (isEntry : entry = some row) {key : κ} (inRange : range key)
    (before : key < row.1) : contents key = none := by
  cases first with
  | found _ _ least =>
      cases isEntry
      exact least key inRange before
  | absent => cases isEntry

/-- Only what the map holds in the range matters. -/
theorem congr (same : ∀ key, range key → contents key = other key)
    (first : FirstWhere contents range entry) :
    FirstWhere other range entry := by
  cases first with
  | found inRange held least =>
      refine .found inRange ((same _ inRange).symm.trans held) ?_
      intro key keyInRange before
      rw [← same key keyInRange]
      exact least key keyInRange before
  | absent empty =>
      refine .absent ?_
      intro key keyInRange
      rw [← same key keyInRange]
      exact empty key keyInRange

/-- A smaller range has the same first entry if that lies in it. -/
theorem narrow (sub : ∀ key, narrower key → range key)
    (first : FirstWhere contents range entry)
    (kept : ∀ row ∈ entry, narrower row.1) :
    FirstWhere contents narrower entry := by
  cases first with
  | found inRange held least =>
      refine .found (kept _ rfl) held ?_
      intro key keyInRange
      exact least key (sub key keyInRange)
  | absent empty =>
      exact .absent fun key keyInRange => empty key (sub key keyInRange)

/-- With one map laid over another, the earlier one of their first entries is
the first entry. -/
theorem overlay {upper lower : Option (κ × ν)}
    (firstOver : FirstWhere overlaid range upper)
    (firstUnder : FirstWhere under range lower) :
    FirstWhere (fun key => (overlaid key).or (under key)) range
      (earlierEntry upper lower) := by
  cases firstOver with
  | absent overEmpty =>
      refine congr ?_ firstUnder
      intro key inRange
      rw [overEmpty key inRange, Option.none_or]
  | found inRange held least =>
      rename_i key value
      cases firstUnder with
      | absent underEmpty =>
          refine .found inRange (by rw [held, Option.some_or]) ?_
          intro other otherInRange before
          rw [least other otherInRange before, underEmpty other otherInRange]
          rfl
      | found inRange' held' least' =>
          rename_i key' value'
          by_cases earlier : key ≤ key'
          · rw [earlierEntry, if_pos earlier]
            refine .found inRange (by rw [held, Option.some_or]) ?_
            intro other otherInRange before
            rw [least other otherInRange before,
              least' other otherInRange (before.trans_le earlier)]
            rfl
          · rw [earlierEntry, if_neg earlier]
            have before : key' < key := not_le.mp earlier
            refine .found inRange' ?_ ?_
            · rw [least key' inRange' before, Option.none_or, held']
            · intro other otherInRange otherBefore
              rw [least other otherInRange (otherBefore.trans before),
                least' other otherInRange otherBefore]
              rfl

end FirstWhere

/-! ## Rows in ascending order -/

/-- The first row of an ascending list that holds the map on the range. -/
theorem firstWhere_head? {contents : κ → Option ν} {range : κ → Prop}
    {rows : List (κ × ν)}
    (ascending : rows.Pairwise fun first second => first.1 < second.1)
    (inRange : ∀ row ∈ rows, range row.1)
    (mem_iff : ∀ key, range key → ∀ value,
      (key, value) ∈ rows ↔ contents key = some value) :
    FirstWhere contents range rows.head? := by
  cases rows with
  | nil =>
      refine .absent ?_
      intro key keyInRange
      rw [Option.eq_none_iff_forall_ne_some]
      intro value held
      exact List.not_mem_nil ((mem_iff key keyInRange value).mpr held)
  | cons row rows =>
      have rowInRange := inRange row List.mem_cons_self
      refine .found rowInRange
        ((mem_iff _ rowInRange _).mp List.mem_cons_self) ?_
      intro key keyInRange before
      rw [Option.eq_none_iff_forall_ne_some]
      intro value held
      rcases List.mem_cons.mp ((mem_iff key keyInRange value).mpr held) with
        isRow | later
      · rw [← isRow] at before
        exact lt_irrefl _ before
      · exact lt_asymm before (List.rel_of_pairwise_cons ascending later)

/-- Ascending lists with the same rows are equal. -/
theorem eq_of_ascending {first second : List (κ × ν)}
    (firstAscending : first.Pairwise fun one two => one.1 < two.1)
    (secondAscending : second.Pairwise fun one two => one.1 < two.1)
    (mem_iff : ∀ row, row ∈ first ↔ row ∈ second) : first = second := by
  have irreflexive : Std.Irrefl fun one two : κ × ν => one.1 < two.1 :=
    ⟨fun row => lt_irrefl row.1⟩
  have antisymmetric : Std.Antisymm fun one two : κ × ν => one.1 < two.1 :=
    ⟨fun _ _ before after => absurd before (lt_asymm after)⟩
  exact firstAscending.eq_of_mem_iff secondAscending mem_iff

/-- Dropping the rows before a key leaves those from it on. -/
theorem dropWhile_lt_eq_filter {rows : List (κ × ν)}
    (ascending : rows.Pairwise fun first second => first.1 < second.1)
    (key : κ) :
    (rows.dropWhile fun row => decide (row.1 < key)) =
      rows.filter fun row => decide (key ≤ row.1) := by
  induction rows with
  | nil => rfl
  | cons row rows inductionHypothesis =>
      by_cases before : row.1 < key
      · rw [List.dropWhile_cons_of_pos, List.filter_cons_of_neg]
        · exact inductionHypothesis ascending.of_cons
        · simpa using before
        · exact decide_eq_true before
      · rw [List.dropWhile_cons_of_neg, eq_comm, List.filter_eq_self]
        swap
        · simpa using before
        intro later member
        rw [decide_eq_true_eq]
        rcases List.mem_cons.mp member with isRow | member
        · rw [isRow]
          exact not_lt.mp before
        · exact (not_lt.mp before).trans
            (List.rel_of_pairwise_cons ascending member).le

/-! ## Search trees -/

namespace Std.TreeMap

variable (map : Std.TreeMap κ ν)

theorem pairwise_toList :
    map.toList.Pairwise fun first second => first.1 < second.1 :=
  ordered_keys_toList.imp compare_lt_iff_lt.mp

variable {map}

theorem row_mem_toList {row : κ × ν} :
    row ∈ map.toList ↔ map[row.1]? = some row.2 :=
  mem_toList_iff_getElem?_eq_some

theorem getElem?_foldl_erase (keys : List κ) (db : Std.TreeMap κ ν) (key : κ) :
    (keys.foldl (fun db key => db.erase key) db)[key]? =
      if key ∈ keys then none else db[key]? := by
  induction keys generalizing db with
  | nil => simp
  | cons first keys inductionHypothesis =>
      rw [List.foldl_cons, inductionHypothesis, getElem?_erase]
      simp only [List.mem_cons, compare_eq_iff_eq]
      by_cases later : key ∈ keys
      · rw [if_pos later, if_pos (.inr later)]
      · simp only [later, if_false, or_false, eq_comm]

theorem getElem?_foldl_insert {rows : List (κ × ν)}
    (ascending : rows.Pairwise fun first second => first.1 < second.1)
    (db : Std.TreeMap κ ν) (key : κ) :
    (rows.foldl (fun db row => db.insert row.1 row.2) db)[key]? =
      ((rows.find? fun row => row.1 = key).map (·.2)).or db[key]? := by
  induction rows generalizing db with
  | nil => rfl
  | cons row rows inductionHypothesis =>
      rw [List.foldl_cons, inductionHypothesis ascending.of_cons,
        getElem?_insert, List.find?_cons]
      simp only [compare_eq_iff_eq]
      by_cases same : row.1 = key
      · have none_later : (rows.find? fun row => row.1 = key) = none := by
          rw [List.find?_eq_none]
          intro later member isKey
          have before := List.rel_of_pairwise_cons ascending member
          rw [same, of_decide_eq_true isKey] at before
          exact before.false
        simp only [same, none_later, decide_true, if_true, Option.map_none,
          Option.none_or, Option.map_some, Option.some_or]
      · simp only [same, if_false, decide_false]

/-- Searching the rows of a tree for a key is looking the key up. -/
theorem find?_toList (map : Std.TreeMap κ ν) (key : κ) :
    ((map.toList.find? fun row => row.1 = key).map (·.2)) = map[key]? := by
  cases found : map.toList.find? fun row => row.1 = key with
  | none =>
      rw [Option.map_none, eq_comm, Option.eq_none_iff_forall_ne_some]
      intro value held
      have member := mem_toList_iff_getElem?_eq_some.mpr held
      exact List.find?_eq_none.mp found _ member (decide_eq_true rfl)
  | some row =>
      have isKey : row.1 = key := by simpa using List.find?_some found
      have member := List.mem_of_find?_eq_some found
      rw [Option.map_some, ← isKey]
      exact (row_mem_toList.mp member).symm

end Std.TreeMap

/-- What a tree holds in a range decides its rows there. -/
theorem filter_toList_congr {first second : Std.TreeMap κ ν} {range : κ → Prop}
    [DecidablePred range]
    (same : ∀ key, range key → first[key]? = second[key]?) :
    (first.toList.filter fun row => range row.1) =
      second.toList.filter fun row => range row.1 := by
  refine eq_of_ascending (first.pairwise_toList.filter _)
    (second.pairwise_toList.filter _) ?_
  intro row
  simp only [List.mem_filter, decide_eq_true_eq]
  refine and_congr_left fun inRange => ?_
  rw [Std.TreeMap.row_mem_toList, Std.TreeMap.row_mem_toList,
    same row.1 inRange]

/-- The rows of a range that goes up to the end are its first entry and those
behind it. -/
theorem FirstWhere.filter_toList {map : Std.TreeMap κ ν} {range : κ → Prop}
    [DecidablePred range] {row : κ × ν} [DecidablePred (row.1 < ·)]
    (first : FirstWhere (fun key => map[key]?) range (some row))
    (upward : Monotone range) :
    (map.toList.filter fun other => range other.1) =
      row :: map.toList.filter fun other => row.1 < other.1 := by
  have inRange := first.inRange rfl
  have held := first.held rfl
  refine eq_of_ascending (map.pairwise_toList.filter _) ?_ ?_
  · refine List.pairwise_cons.mpr ⟨?_, map.pairwise_toList.filter _⟩
    intro other member
    exact of_decide_eq_true (List.mem_filter.mp member).2
  · intro other
    simp only [List.mem_cons, List.mem_filter, decide_eq_true_eq,
      Std.TreeMap.row_mem_toList]
    constructor
    · rintro ⟨otherHeld, otherInRange⟩
      rcases lt_trichotomy other.1 row.1 with before | same | after
      · rw [first.least rfl otherInRange before] at otherHeld
        cases otherHeld
      · rw [same] at otherHeld
        exact .inl (Prod.ext same (Option.some.inj (otherHeld.symm.trans held)))
      · exact .inr ⟨otherHeld, after⟩
    · rintro (rfl | ⟨otherHeld, after⟩)
      · exact ⟨held, inRange⟩
      · exact ⟨otherHeld, upward after.le inRange⟩

/-- A range without a first entry has no rows. -/
theorem FirstWhere.filter_toList_nil {map : Std.TreeMap κ ν} {range : κ → Prop}
    [DecidablePred range]
    (first : FirstWhere (fun key => map[key]?) range none) :
    (map.toList.filter fun other => range other.1) = [] := by
  cases first with
  | absent empty =>
      rw [List.filter_eq_nil_iff]
      intro row member inRange
      have held := Std.TreeMap.row_mem_toList.mp member
      rw [empty row.1 (of_decide_eq_true inRange)] at held
      cases held

/-- Searching the rows of a tree finds the first entry of the range. -/
theorem firstWhere_find? (map : Std.TreeMap κ ν) (range : κ → Prop)
    [DecidablePred range] :
    FirstWhere (fun key => map[key]?) range
      (map.toList.find? fun row => range row.1) := by
  rw [← List.head?_filter]
  refine firstWhere_head? (map.pairwise_toList.filter _) ?_ ?_
  · intro row member
    exact of_decide_eq_true (List.mem_filter.mp member).2
  · intro key inRange value
    rw [List.mem_filter, Std.TreeMap.row_mem_toList]
    simp only [decide_eq_true_eq, inRange, and_true]
