/-
Module: AppLPS.Proofs.StringCode
Purpose: The strings that `OrderedCode` writes: what it reads back is what it
  has written, and the written strings compare like the strings.
Trusted boundary: none
Main exports: OrderedCode.escape, OrderedCode.writeString_eq,
  OrderedCode.readString_eq_some_iff,
  OrderedCode.prefixMonotone_writeString,
  OrderedCode.strings_read_and_compare
-/
import AppLPS.Proofs.SpecialBytes

namespace AppLPS

namespace OrderedCode

/-! ## Writing -/

/-- How one byte is written. -/
def escape (c : UInt8) : List UInt8 :=
  if c = kEscape1 then [kEscape1, kNullCharacter]
  else if c = kEscape2 then [kEscape2, kFFCharacter]
  else [c]

theorem escape_of_not_special {c : UInt8} (plain : isSpecialByte c = false) :
    escape c = [c] := by
  rw [Bool.eq_false_iff, ne_eq, isSpecialByte_iff, not_or] at plain
  rw [escape, if_neg plain.1, if_neg plain.2]

theorem flatMap_escape_of_not_special {bytes : List UInt8}
    (plain : ∀ c ∈ bytes, isSpecialByte c = false) :
    bytes.flatMap escape = bytes := by
  induction bytes with
  | nil => rfl
  | cons c bytes inductionHypothesis =>
      obtain ⟨first, rest⟩ := List.forall_mem_cons.mp plain
      rw [List.flatMap_cons, escape_of_not_special first,
        inductionHypothesis rest]
      rfl

/-- What the search passes needs no escaping. -/
theorem not_special_of_mem_take {bytes : List UInt8} {c : UInt8}
    (member : c ∈ bytes.take (skipToNextSpecialByte bytes)) :
    isSpecialByte c = false := by
  rw [skipToNextSpecialByte_eq] at member
  obtain ⟨index, inTake, rfl⟩ := List.mem_iff_getElem.mp member
  rw [List.getElem_take]
  rw [List.length_take] at inTake
  exact List.not_of_lt_findIdx (lt_of_lt_of_le inTake (Nat.min_le_left _ _))

/-- The byte at which the search stops needs it. -/
theorem special_of_drop {bytes later : List UInt8} {c : UInt8}
    (rest : bytes.drop (skipToNextSpecialByte bytes) = c :: later) :
    isSpecialByte c = true := by
  rw [skipToNextSpecialByte_eq] at rest
  have inRange : bytes.findIdx isSpecialByte < bytes.length := by
    have length := congrArg List.length rest
    simp only [List.length_drop, List.length_cons] at length
    omega
  have found := List.findIdx_getElem (w := inRange)
  rw [List.drop_eq_getElem_cons inRange] at rest
  rwa [(List.cons.inj rest).1] at found

theorem encodeStringFragment_eq (s : List UInt8) :
    encodeStringFragment s = s.flatMap escape := by
  fun_induction encodeStringFragment s with
  | case1 s p rest =>
      rw [flatMap_escape_of_not_special]
      intro c member
      apply @not_special_of_mem_take s
      rwa [List.take_of_length_le (List.drop_eq_nil_iff.mp rest)]
  | case2 s p c later rest inductionHypothesis =>
      have written : escape c =
          if c = kEscape1 then [kEscape1, kNullCharacter]
          else [kEscape2, kFFCharacter] := by
        unfold escape
        split
        · rfl
        · rename_i notFirst
          rw [if_pos (((isSpecialByte_iff c).mp
            (special_of_drop rest)).resolve_left notFirst)]
      have passed : (s.take p).flatMap escape = s.take p :=
        flatMap_escape_of_not_special fun _ member =>
          not_special_of_mem_take member
      rw [inductionHypothesis, ← written]
      conv_rhs => rw [← List.take_append_drop p s, rest]
      rw [List.flatMap_append, List.flatMap_cons, List.append_assoc, passed]

theorem writeString_eq (s : List UInt8) :
    writeString s = s.flatMap escape ++ [kEscape1, kSeparator] := by
  rw [writeString, encodeStringFragment_eq]

/-! ## Order -/

theorem le_kEscape2 (c : UInt8) : c ≤ kEscape2 :=
  UInt8.le_iff_toNat_le.mpr (Nat.le_of_lt_succ c.toNat_lt)

theorem kEscape1_le (c : UInt8) : kEscape1 ≤ c :=
  UInt8.le_iff_toNat_le.mpr (Nat.zero_le _)

theorem prefixMonotone_escape : PrefixMonotone escape := by
  intro x y less
  have notLast : x ≠ kEscape2 := (less.trans_le (le_kEscape2 y)).ne
  have notFirst : y ≠ kEscape1 := ((kEscape1_le x).trans_lt less).ne'
  unfold escape
  rw [if_neg notLast, if_neg notFirst]
  -- The first byte of an escape is the byte itself.
  split
  · rename_i first
    rw [← first]
    split
    · rename_i last
      exact .head (last ▸ less)
    · exact .head less
  · split
    · rename_i last
      exact .head (last ▸ less)
    · exact .head less

/-- Written strings compare like the strings, whatever follows them. -/
theorem prefixMonotone_writeString : PrefixMonotone writeString := by
  have terminated := prefixMonotone_escape.terminated [kEscape1, kSeparator]
    (by
      intro x
      unfold escape
      split
      · exact .tail (.head (by decide))
      · split
        · exact .head (by decide)
        · rename_i notFirst notLast
          exact .head (lt_of_le_of_ne (kEscape1_le x) (Ne.symm notFirst)))
  intro x y less
  rw [writeString_eq, writeString_eq]
  exact terminated x y less

/-! ## Reading -/

/-- Reading byte by byte. -/
def readBytes : List UInt8 → Option (List UInt8 × List UInt8)
  | c :: next :: later =>
      if c = kEscape1 then
        if next = kSeparator then some ([], later)
        else if next = kNullCharacter then
          (readBytes later).map fun read => (kEscape1 :: read.1, read.2)
        else none
      else if c = kEscape2 then
        if next = kFFCharacter then
          (readBytes later).map fun read => (kEscape2 :: read.1, read.2)
        else none
      else (readBytes (next :: later)).map fun read => (c :: read.1, read.2)
  | _ => none

/-- Bytes that need no escaping are read as they are. -/
theorem readBytes_append {plain : List UInt8}
    (notSpecial : ∀ c ∈ plain, isSpecialByte c = false) (src : List UInt8) :
    readBytes (plain ++ src) =
      (readBytes src).map fun read => (plain ++ read.1, read.2) := by
  induction plain with
  | nil => simp
  | cons c plain inductionHypothesis =>
      obtain ⟨first, rest⟩ := List.forall_mem_cons.mp notSpecial
      rw [Bool.eq_false_iff, ne_eq, isSpecialByte_iff, not_or] at first
      have readRest := inductionHypothesis rest
      cases later : plain ++ src with
      | nil =>
          obtain ⟨rfl, rfl⟩ := List.append_eq_nil_iff.mp later
          rfl
      | cons next later' =>
          rw [later] at readRest
          rw [List.cons_append, later, readBytes, if_neg first.1,
            if_neg first.2, readRest, Option.map_map]
          rfl

theorem readBytes_short {src : List UInt8}
    (short : ∀ c next later, src ≠ c :: next :: later) :
    readBytes src = none := by
  unfold readBytes
  split
  · exact absurd rfl (short _ _ _)
  · rfl

/-- What the search passes is read as it is. -/
theorem readBytes_skip (src : List UInt8) :
    readBytes src =
      (readBytes (src.drop (skipToNextSpecialByte src.dropLast))).map
        fun read =>
          (src.take (skipToNextSpecialByte src.dropLast) ++ read.1, read.2) := by
  rw [← readBytes_append, List.take_append_drop]
  intro c member
  apply @not_special_of_mem_take src.dropLast
  have short : skipToNextSpecialByte src.dropLast ≤ src.dropLast.length := by
    rw [skipToNextSpecialByte_eq]
    exact List.findIdx_le_length
  rw [List.length_dropLast] at short
  rwa [List.dropLast_eq_take, List.take_take, ← List.dropLast_eq_take,
    Nat.min_eq_left short]

/-- The search stops in front of a pair that stands for one byte or the end. -/
theorem special_of_drop_dropLast {src later : List UInt8} {c next : UInt8}
    (rest : src.drop (skipToNextSpecialByte src.dropLast) =
      c :: next :: later) :
    c = kEscape1 ∨ c = kEscape2 := by
  rw [← isSpecialByte_iff]
  have inRange := congrArg List.length rest
  simp only [List.length_drop, List.length_cons] at inRange
  have dropped : src.dropLast.drop (skipToNextSpecialByte src.dropLast) =
      c :: (next :: later).take later.length := by
    rw [List.dropLast_eq_take, List.drop_take, ← List.dropLast_eq_take, rest,
      show src.length - 1 - skipToNextSpecialByte src.dropLast =
        later.length + 1 by omega, List.take_succ_cons]
  exact special_of_drop dropped

/-- The search for the next pair gives what reading byte by byte gives. -/
theorem readString_eq_readBytes (src : List UInt8) :
    readString src = readBytes src := by
  fun_induction readString src with
  | case1 src start later rest =>
      rw [readBytes_skip, rest, readBytes, if_pos rfl, if_pos rfl,
        Option.map_some, List.append_nil]
  | case2 src start later notSeparator rest inductionHypothesis =>
      rw [readBytes_skip, rest, inductionHypothesis, readBytes, if_pos rfl,
        if_neg notSeparator, if_pos rfl, Option.map_map]
      rfl
  | case3 src start next later notSeparator notNull rest =>
      rw [readBytes_skip, rest, readBytes, if_pos rfl, if_neg notSeparator,
        if_neg notNull, Option.map_none]
  | case4 src start c later notFirst rest inductionHypothesis =>
      have last := (special_of_drop_dropLast rest).resolve_left notFirst
      rw [readBytes_skip, rest, inductionHypothesis, readBytes,
        if_neg notFirst, if_pos last, if_pos rfl, Option.map_map]
      rfl
  | case5 src start c next later rest notFirst notFF =>
      have last := (special_of_drop_dropLast rest).resolve_left notFirst
      rw [readBytes_skip, rest, readBytes, if_neg notFirst, if_pos last,
        if_neg notFF, Option.map_none]
  | case6 src start short =>
      rw [readBytes_skip, readBytes_short, Option.map_none]
      intro c next later rest
      exact short c next later rest

theorem readBytes_complete (s rest : List UInt8) :
    readBytes (s.flatMap escape ++ kEscape1 :: kSeparator :: rest) =
      some (s, rest) := by
  induction s with
  | nil => simp [readBytes]
  | cons c s inductionHypothesis =>
      rw [List.flatMap_cons, List.append_assoc]
      by_cases first : c = kEscape1
      · rw [escape, if_pos first]
        simp only [List.cons_append, List.nil_append]
        rw [readBytes, if_pos rfl, if_neg (by decide), if_pos rfl,
          inductionHypothesis, first]
        rfl
      · by_cases last : c = kEscape2
        · rw [escape, if_neg first, if_pos last]
          simp only [List.cons_append, List.nil_append]
          rw [readBytes, if_neg (by decide), if_pos rfl, if_pos rfl,
            inductionHypothesis, last]
          rfl
        · rw [escape, if_neg first, if_neg last, readBytes_append,
            inductionHypothesis]
          · rfl
          · intro other member
            rw [List.mem_singleton.mp member, Bool.eq_false_iff, ne_eq,
              isSpecialByte_iff, not_or]
            exact ⟨first, last⟩

theorem readBytes_sound {src s rest : List UInt8}
    (read : readBytes src = some (s, rest)) :
    src = s.flatMap escape ++ kEscape1 :: kSeparator :: rest := by
  fun_induction readBytes src generalizing s with
  | case1 later =>
      cases read
      rfl
  | case2 later notSeparator inductionHypothesis =>
      obtain ⟨⟨inner, left⟩, readRest, isRead⟩ := Option.map_eq_some_iff.mp read
      cases isRead
      rw [inductionHypothesis readRest]
      rfl
  | case3 => cases read
  | case4 later notFirst inductionHypothesis =>
      obtain ⟨⟨inner, left⟩, readRest, isRead⟩ := Option.map_eq_some_iff.mp read
      cases isRead
      rw [inductionHypothesis readRest]
      rfl
  | case5 => cases read
  | case6 c next later notFirst notLast inductionHypothesis =>
      obtain ⟨⟨inner, left⟩, readRest, isRead⟩ := Option.map_eq_some_iff.mp read
      cases isRead
      rw [inductionHypothesis readRest, List.flatMap_cons, escape,
        if_neg notFirst, if_neg notLast]
      rfl
  | case7 => cases read

/-- `ReadString` reads exactly what `WriteString` has written. -/
theorem readString_eq_some_iff {src s rest : List UInt8} :
    readString src = some (s, rest) ↔ src = writeString s ++ rest := by
  rw [readString_eq_readBytes, writeString_eq, List.append_assoc]
  constructor
  · exact readBytes_sound
  · rintro rfl
    exact readBytes_complete s rest

/-- Whatever follows them, written strings are read back and compare like the
strings. -/
theorem strings_read_and_compare (first second after later : List UInt8) :
    (∀ src, readString src = some (first, after) ↔
      src = writeString first ++ after) ∧
    (writeString first ++ after < writeString second ++ later ↔
      first < second ∨ first = second ∧ after < later) :=
  ⟨fun _ => readString_eq_some_iff,
    prefixMonotone_writeString.append_lt_append_iff⟩

end OrderedCode

end AppLPS
