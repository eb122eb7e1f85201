/-
Module: AppLPS.Proofs.NumberCode
Purpose: The signed numbers that `OrderedCode` writes: what it reads back is
  what it has written, and the written numbers compare like the numbers.
Trusted boundary: none
Main exports: OrderedCode.prefixMonotone_writeSigned,
  OrderedCode.readSigned_eq_some_iff, OrderedCode.numbers_read_and_compare
-/
import AppLPS.Firestore.OrderedCode
import Mathlib.Tactic.IntervalCases

namespace AppLPS

namespace OrderedCode

/-! ## Numbers of 64 bits -/

theorem toInt_eq (val : Int64) :
    val.toInt =
      if val.toUInt64.toNat < 2 ^ 63 then (val.toUInt64.toNat : Int)
      else val.toUInt64.toNat - 2 ^ 64 := by
  have cond := BitVec.toInt_eq_toNat_cond val.toBitVec
  rw [Int64.toNat_toBitVec] at cond
  change val.toInt = _ at cond
  rw [cond]
  have small := val.toUInt64.toNat_lt
  split <;> split <;> omega

theorem lt_zero_iff (val : Int64) :
    val < 0 ↔ 2 ^ 63 ≤ val.toUInt64.toNat := by
  rw [Int64.lt_iff_toInt_lt, toInt_eq]
  have small := val.toUInt64.toNat_lt
  split <;> simp <;> omega

theorem toNat_not (val : Int64) :
    (~~~val).toUInt64.toNat = 2 ^ 64 - 1 - val.toUInt64.toNat := by
  rw [Int64.toUInt64_not, UInt64.toNat_not]
  rfl

theorem not_lt_zero_iff (val : Int64) : ~~~val < 0 ↔ ¬val < 0 := by
  have small := val.toUInt64.toNat_lt
  rw [lt_zero_iff, lt_zero_iff, toNat_not]
  omega

theorem magnitude_not (val : Int64) : magnitude (~~~val) = magnitude val := by
  unfold magnitude
  by_cases negative : val < 0
  · rw [if_pos negative, if_neg (by rwa [not_lt_zero_iff, not_not])]
  · rw [if_neg negative, if_pos ((not_lt_zero_iff val).mpr negative),
      Int64.not_not]

theorem signedEncodingLength_not (val : Int64) :
    signedEncodingLength (~~~val) = signedEncodingLength val := by
  rw [signedEncodingLength, magnitude_not, signedEncodingLength]

/-! ## A number and its complement are written as complements -/

/-- All bits are inverted. -/
def complement (bytes : List UInt8) : List UInt8 := bytes.map (~~~·)

theorem complement_complement (bytes : List UInt8) :
    complement (complement bytes) = bytes := by
  rw [complement, complement, List.map_map]
  exact List.map_id'' (fun byte => UInt8.not_not (a := byte)) bytes

theorem before_complement {first second : List UInt8}
    (before : Before first second) :
    Before (complement second) (complement first) := by
  induction before with
  | head lt =>
      rename_i first second xs ys
      refine .head ?_
      have small := second.toNat_lt
      rw [UInt8.lt_iff_toNat_lt] at lt ⊢
      rw [UInt8.toNat_not, UInt8.toNat_not, UInt8.size]
      omega
  | tail _ inductionHypothesis => exact .tail inductionHypothesis

theorem storeBigEndian_not (val : UInt64) :
    storeBigEndian (~~~val) = complement (storeBigEndian val) := by
  have small := val.toNat_lt
  simp only [storeBigEndian, complement, List.map_cons, List.map_nil,
    List.cons.injEq, ← UInt8.toNat_inj, UInt64.toNat_toUInt8,
    UInt64.toNat_shiftRight, UInt64.toNat_not, UInt8.toNat_not,
    UInt64.reduceToNat, Nat.shiftRight_eq_div_pow, Nat.reduceMod,
    Nat.reducePow, UInt64.size, UInt8.size]
  refine ⟨?_, ?_, ?_, ?_, ?_, ?_, ?_, ?_, trivial⟩ <;> omega

theorem xorHeader_complement (header : UInt8 × UInt8) (bytes : List UInt8) :
    xorHeader header (complement bytes) = complement (xorHeader header bytes) := by
  unfold xorHeader complement
  cases bytes with
  | nil => rfl
  | cons first bytes =>
      cases bytes with
      | nil => rfl
      | cons second bytes =>
          simp only [List.map_cons, UInt8.not_xor]

theorem writeSigned_not (val : Int64) :
    writeSignedNumIncreasing (~~~val) =
      complement (writeSignedNumIncreasing val) := by
  unfold writeSignedNumIncreasing
  rw [magnitude_not]
  split
  · simp only [complement, List.map_cons, List.map_nil, Int64.toUInt64_not,
      UInt64.toUInt8_not, UInt8.xor_not]
  · rw [signedEncodingLength_not, ← xorHeader_complement, Int64.toUInt64_not,
      storeBigEndian_not, complement, complement, List.map_drop]
    by_cases negative : val < 0
    · rw [if_pos negative, if_neg (by rwa [not_lt_zero_iff, not_not])]
      rfl
    · rw [if_neg negative, if_pos ((not_lt_zero_iff val).mpr negative)]
      rfl

theorem length_xorHeader (mask : UInt8 × UInt8) (bytes : List UInt8) :
    (xorHeader mask bytes).length = bytes.length := by
  cases bytes with
  | nil => rfl
  | cons first bytes =>
      cases bytes with
      | nil => rfl
      | cons second bytes => rfl

/-! ## Writing a number that is not negative -/

/-- The table of lengths. -/
theorem kBitsToLength_getD {bits : Nat} (small : bits < 64) :
    kBitsToLength.getD bits 0 = bits / 7 + 1 := by
  have table : ∀ bits : Fin 64,
      kBitsToLength.getD bits.val 0 = bits.val / 7 + 1 := by decide +kernel
  exact table ⟨bits, small⟩

/-- The length is the least one that has room for the number. -/
structure Length (number length : Nat) : Prop where
  pos : 1 ≤ length
  le : length ≤ 10
  room : number < 2 ^ (7 * length - 1)
  least : length = 1 ∨ 2 ^ (7 * length - 8) ≤ number

theorem magnitude_of_not_neg {val : Int64} (notNeg : ¬val < 0) :
    magnitude val = val := if_neg notNeg

theorem length_signedEncodingLength {val : Int64} (notNeg : ¬val < 0) :
    Length val.toUInt64.toNat (signedEncodingLength val) := by
  have small := (lt_zero_iff val).not.mp notNeg
  rw [signedEncodingLength, magnitude_of_not_neg notNeg]
  generalize numberEq : val.toUInt64.toNat = number at small
  by_cases zero : val.toUInt64 = 0
  · have numberZero : number = 0 := by
      rw [← numberEq, zero]
      rfl
    rw [bitLength, if_pos zero, numberZero]
    exact ⟨by decide, by decide, by decide, .inl rfl⟩
  · have positive : number ≠ 0 := by
      rw [← numberEq]
      intro isZero
      exact zero (UInt64.toNat_inj.mp isZero)
    rw [bitLength, if_neg zero, numberEq]
    have logLe : number.log2 < 63 :=
      (Nat.log2_lt positive).mpr (by omega)
    have below := Nat.lt_log2_self (n := number)
    have above := Nat.log2_self_le positive
    rw [kBitsToLength_getD (by omega)]
    refine ⟨by omega, by omega, ?_, ?_⟩
    · refine lt_of_lt_of_le below (Nat.pow_le_pow_right (by decide) ?_)
      omega
    · by_cases one : (number.log2 + 1) / 7 = 0
      · exact .inl (by omega)
      · refine .inr (le_trans (Nat.pow_le_pow_right (by decide) ?_) above)
        omega

/-- The header of a length: as many ones as it has bytes, at the top. -/
def header (length : Nat) : Nat := (2 ^ length - 1) * 2 ^ (7 * length)

/-- A code of a length stands for a number: it is the header and the number. -/
structure Codes (bytes : List UInt8) (number : Nat) : Prop where
  pos : 1 ≤ bytes.length
  le : bytes.length ≤ 10
  room : number < 2 ^ (7 * bytes.length - 1)
  small : number < 2 ^ 63
  bigEndian_eq : bigEndian bytes = header bytes.length + number

theorem bigEndian_storeBigEndian (val : UInt64) :
    bigEndian (storeBigEndian val) = val.toNat := by
  have small := val.toNat_lt
  simp only [storeBigEndian, bigEndian, UInt64.toNat_toUInt8,
    UInt64.toNat_shiftRight, List.length_cons, List.length_nil,
    Nat.shiftRight_eq_div_pow, UInt64.reduceToNat, Nat.reduceMod,
    Nat.reducePow]
  omega

/-- Ones over the bits from some bit on do not touch the bits below. -/
theorem xor_above {bit low : Nat} (small : low < 2 ^ bit) (high mask : Nat) :
    (high * 2 ^ bit + low) ^^^ (mask * 2 ^ bit) =
      (high ^^^ mask) * 2 ^ bit + low := by
  have quotient : ((high * 2 ^ bit + low) ^^^ (mask * 2 ^ bit)) / 2 ^ bit =
      high ^^^ mask := by
    rw [Nat.xor_div_two_pow, Nat.mul_div_cancel _ (Nat.two_pow_pos bit),
      Nat.mul_comm, Nat.mul_add_div (Nat.two_pow_pos bit),
      Nat.div_eq_of_lt small, Nat.add_zero]
  have remainder : ((high * 2 ^ bit + low) ^^^ (mask * 2 ^ bit)) % 2 ^ bit =
      low := by
    rw [Nat.xor_mod_two_pow, Nat.mul_mod_left, Nat.xor_zero, Nat.mul_comm,
      Nat.mul_add_mod, Nat.mod_eq_of_lt small]
  rw [← Nat.div_add_mod ((high * 2 ^ bit + low) ^^^ (mask * 2 ^ bit))
    (2 ^ bit), quotient, remainder, Nat.mul_comm]

/-- A header byte over a byte that leaves its bits free. -/
theorem xor_header {byte mask : UInt8} (bit : Nat)
    (small : byte.toNat < 2 ^ bit)
    (above : mask.toNat = mask.toNat / 2 ^ bit * 2 ^ bit) :
    (byte ^^^ mask).toNat = mask.toNat + byte.toNat := by
  have laid := xor_above small 0 (mask.toNat / 2 ^ bit)
  rw [← above, Nat.zero_mul, Nat.zero_add, Nat.zero_xor, ← above] at laid
  rw [UInt8.toNat_xor, laid]

/-- A header laid over the first two bytes is added. -/
theorem add_header {first second : UInt8} {mask : UInt8 × UInt8}
    {length : Nat} (number firstBit secondBit : Nat)
    (isHeader : (mask.1.toNat * 256 + mask.2.toNat) * 256 ^ length =
      header (length + 2))
    (firstAbove : mask.1.toNat =
      mask.1.toNat / 2 ^ firstBit * 2 ^ firstBit)
    (secondAbove : mask.2.toNat =
      mask.2.toNat / 2 ^ secondBit * 2 ^ secondBit)
    (firstSmall : first.toNat < 2 ^ firstBit)
    (secondSmall : second.toNat < 2 ^ secondBit) :
    (first ^^^ mask.1).toNat * 256 ^ (length + 1) +
        ((second ^^^ mask.2).toNat * 256 ^ length + number) =
      header (length + 2) +
        (first.toNat * 256 ^ (length + 1) +
          (second.toNat * 256 ^ length + number)) := by
  rw [xor_header firstBit firstSmall firstAbove,
    xor_header secondBit secondSmall secondAbove, ← isHeader, pow_succ]
  ring

theorem bigEndian_xorHeader {bytes : List UInt8} (two : 2 ≤ bytes.length)
    (ten : bytes.length ≤ 10)
    (room : bigEndian bytes < 2 ^ (7 * bytes.length - 1)) :
    bigEndian (xorHeader (kLengthToHeaderBits.getD bytes.length (0, 0)) bytes) =
      header bytes.length + bigEndian bytes := by
  obtain ⟨first, second, rest, rfl⟩ :
      ∃ first second rest, bytes = first :: second :: rest := by
    match bytes, two with
    | first :: second :: rest, _ => exact ⟨first, second, rest, rfl⟩
  have secondSmall := second.toNat_lt
  simp only [xorHeader, bigEndian_cons, List.length_cons] at *
  generalize rest.length = length at *
  generalize bigEndian rest = number at *
  have atMost : length ≤ 8 := by omega
  interval_cases length
  · exact add_header number 6 8 rfl rfl rfl (by omega) secondSmall
  · exact add_header number 5 8 rfl rfl rfl (by omega) secondSmall
  · exact add_header number 4 8 rfl rfl rfl (by omega) secondSmall
  · exact add_header number 3 8 rfl rfl rfl (by omega) secondSmall
  · exact add_header number 2 8 rfl rfl rfl (by omega) secondSmall
  · exact add_header number 1 8 rfl rfl rfl (by omega) secondSmall
  · exact add_header number 0 8 rfl rfl rfl (by omega) secondSmall
  · exact add_header number 0 7 rfl rfl rfl (by omega) (by omega)
  · exact add_header number 0 6 rfl rfl rfl (by omega) (by omega)

theorem lt_64_iff {val : Int64} (notNeg : ¬val < 0) :
    val < 64 ↔ val.toUInt64.toNat < 64 := by
  have small := (lt_zero_iff val).not.mp notNeg
  rw [Int64.lt_iff_toInt_lt, toInt_eq, if_pos (by omega)]
  exact Nat.cast_lt (α := Int)

/-- A number that is not negative is written as its code. -/
theorem codes_writeSigned {val : Int64} (notNeg : ¬val < 0) :
    (writeSignedNumIncreasing val).length = signedEncodingLength val ∧
      Codes (writeSignedNumIncreasing val) val.toUInt64.toNat := by
  have isLength := length_signedEncodingLength notNeg
  rw [writeSignedNumIncreasing, magnitude_of_not_neg notNeg, if_neg notNeg]
  by_cases short : val < 64
  · have small := (lt_64_iff notNeg).mp short
    have one : signedEncodingLength val = 1 := by
      rcases isLength.least with one | least
      · exact one
      · have exponent := (Nat.pow_lt_pow_iff_right (by decide)).mp
          (lt_of_le_of_lt least (show _ < 2 ^ 6 from small))
        have pos := isLength.pos
        omega
    have byteSmall : val.toUInt64.toUInt8.toNat < 2 ^ 6 := by
      rw [UInt64.toNat_toUInt8]
      exact lt_of_le_of_lt (Nat.mod_le _ _) small
    have byte : (0x80 ^^^ val.toUInt64.toUInt8).toNat =
        128 + val.toUInt64.toNat := by
      rw [UInt8.xor_comm, xor_header 6 byteSmall rfl, UInt64.toNat_toUInt8,
        Nat.mod_eq_of_lt (lt_trans small (by decide))]
      rfl
    rw [if_pos short, one]
    refine ⟨rfl, by simp, by simp, small, by omega, ?_⟩
    rw [bigEndian_cons, byte]
    simp [header]
  · have large := (lt_64_iff notNeg).not.mp short
    obtain ⟨pos, ten, room, _⟩ := isLength
    have two : 2 ≤ signedEncodingLength val := by
      by_contra less
      have one : signedEncodingLength val = 1 := by omega
      rw [one] at room
      exact large room
    rw [if_neg short]
    generalize signedEncodingLength val = len at *
    have bufLength : (0x00 :: 0x00 :: storeBigEndian val.toUInt64).length =
        10 := rfl
    have dropLength : ((0x00 :: 0x00 :: storeBigEndian val.toUInt64).drop
        (kMaxSigned64Length - len)).length = len := by
      rw [List.length_drop, bufLength, kMaxSigned64Length]
      omega
    have number : bigEndian ((0x00 :: 0x00 :: storeBigEndian val.toUInt64).drop
        (kMaxSigned64Length - len)) = val.toUInt64.toNat := by
      have wide : 2 ^ (7 * len - 1) ≤ 256 ^ len := by
        rw [show 256 = 2 ^ 8 from rfl, ← pow_mul]
        exact Nat.pow_le_pow_right (by decide) (by omega)
      rw [bigEndian_drop, dropLength, bigEndian_cons, bigEndian_cons,
        bigEndian_storeBigEndian]
      simp only [UInt8.toNat_zero, zero_mul, Nat.zero_add]
      exact Nat.mod_eq_of_lt (lt_of_lt_of_le room wide)
    have headed := bigEndian_xorHeader (by rwa [dropLength])
      (by rwa [dropLength]) (by rwa [dropLength, number])
    rw [dropLength, number] at headed
    have whole : (xorHeader (kLengthToHeaderBits.getD len (0, 0))
        ((0x00 :: 0x00 :: storeBigEndian val.toUInt64).drop
          (kMaxSigned64Length - len))).length = len := by
      rw [length_xorHeader, dropLength]
    exact ⟨whole, by rwa [whole], by rwa [whole], by rwa [whole],
      by rw [lt_zero_iff] at notNeg; omega, by rwa [whole]⟩

/-! ## The order -/

/-- A header, continued with zeros up to the longest code. -/
theorem header_scaled {length : Nat} (ten : length ≤ 10) :
    header length * 256 ^ (10 - length) + 2 ^ (80 - length) = 2 ^ 80 := by
  interval_cases length <;> rfl

/-- The room under a header ends where the next header begins. -/
theorem room_scaled {length : Nat} (one : 1 ≤ length) (ten : length ≤ 10) :
    2 ^ (7 * length - 1) * 256 ^ (10 - length) = 2 ^ (79 - length) := by
  rw [show 256 = 2 ^ 8 from rfl, ← pow_mul, ← pow_add]
  congr 1
  omega

theorem Codes.before {first second : List UInt8} {less more : Nat}
    (firstCodes : Codes first less) (secondCodes : Codes second more)
    (lengths : first.length ≤ second.length) (lt : less < more) :
    Before first second := by
  refine Before.of_interval firstCodes.le secondCodes.le ?_
  rw [firstCodes.bigEndian_eq, secondCodes.bigEndian_eq]
  rcases Nat.eq_or_lt_of_le lengths with same | shorter
  · rw [same]
    refine Nat.mul_le_mul_right _ ?_
    omega
  · have firstScaled := header_scaled firstCodes.le
    have secondScaled := header_scaled secondCodes.le
    have roomScaled := room_scaled firstCodes.pos firstCodes.le
    have next : 2 ^ (80 - second.length) ≤ 2 ^ (79 - first.length) :=
      Nat.pow_le_pow_right (by decide) (by omega)
    have twice : 2 ^ (80 - first.length) = 2 * 2 ^ (79 - first.length) := by
      rw [← pow_succ']
      congr 1
      have ten := secondCodes.le
      omega
    have within : (less + 1) * 256 ^ (10 - first.length) ≤
        2 ^ (7 * first.length - 1) * 256 ^ (10 - first.length) :=
      Nat.mul_le_mul_right _ firstCodes.room
    rw [Nat.add_assoc, Nat.add_mul]
    refine le_trans ?_ (Nat.mul_le_mul_right _ (Nat.le_add_right _ more))
    omega

/-- The longer of two lengths is needed for the larger number. -/
theorem Length.le_of_lt {less more first second : Nat}
    (firstLength : Length less first) (secondLength : Length more second)
    (lt : less < more) : first ≤ second := by
  rcases firstLength.least with one | least
  · rw [one]
    exact secondLength.pos
  · have exponents := (Nat.pow_lt_pow_iff_right (by decide)).mp
      (least.trans_lt (lt.trans secondLength.room))
    omega

/-- A code begins with the highest bit. -/
theorem Codes.high {bytes : List UInt8} {number : Nat}
    (codes : Codes bytes number) :
    ∃ byte rest, bytes = byte :: rest ∧ 0x80 ≤ byte := by
  obtain ⟨pos, ten, _, _, number_eq⟩ := codes
  cases bytes with
  | nil => cases pos
  | cons byte rest =>
      refine ⟨byte, rest, rfl, ?_⟩
      have restSmall := bigEndian_lt rest
      have power := Nat.pow_pos (n := rest.length) (show 0 < 256 by decide)
      rw [bigEndian_cons] at number_eq
      have above : header (byte :: rest).length ≥ 128 * 256 ^ rest.length := by
        rw [List.length_cons] at ten ⊢
        generalize rest.length = length at ten
        have nine : length ≤ 9 := by omega
        interval_cases length <;> decide
      rw [UInt8.le_iff_toNat_le]
      change 128 ≤ byte.toNat
      refine Nat.le_of_lt_succ (Nat.lt_of_mul_lt_mul_right
        (a := 256 ^ rest.length) ?_)
      rw [Nat.succ_eq_add_one, Nat.add_mul]
      omega

theorem lt_iff_toNat_lt {less more : Int64} (lessNotNeg : ¬less < 0)
    (moreNotNeg : ¬more < 0) :
    less < more ↔ less.toUInt64.toNat < more.toUInt64.toNat := by
  rw [lt_zero_iff] at lessNotNeg moreNotNeg
  rw [Int64.lt_iff_toInt_lt, toInt_eq, toInt_eq, if_pos (by omega),
    if_pos (by omega)]
  exact Nat.cast_lt (α := Int)

theorem not_lt_not {less more : Int64} (lt : less < more) :
    ~~~more < ~~~less := by
  have lessSmall := less.toUInt64.toNat_lt
  have moreSmall := more.toUInt64.toNat_lt
  rw [Int64.lt_iff_toInt_lt, toInt_eq, toInt_eq] at lt ⊢
  rw [toNat_not, toNat_not]
  split at lt <;> split at lt <;> split <;> split <;> omega

theorem before_writeSigned {less more : Int64} (lessNotNeg : ¬less < 0)
    (lt : less < more) :
    Before (writeSignedNumIncreasing less) (writeSignedNumIncreasing more) := by
  have moreNotNeg : ¬more < 0 := fun negative =>
    lessNotNeg (Int64.lt_trans lt negative)
  obtain ⟨lessLength, lessCodes⟩ := codes_writeSigned lessNotNeg
  obtain ⟨moreLength, moreCodes⟩ := codes_writeSigned moreNotNeg
  have number := (lt_iff_toNat_lt lessNotNeg moreNotNeg).mp lt
  refine lessCodes.before moreCodes ?_ number
  rw [lessLength, moreLength]
  exact (length_signedEncodingLength lessNotNeg).le_of_lt
    (length_signedEncodingLength moreNotNeg) number

/-- The first bit is not set for a negative number. -/
theorem firstByte_writeSigned (val : Int64) :
    ∃ byte bytes, writeSignedNumIncreasing val = byte :: bytes ∧
      (0x80 ≤ byte ↔ ¬val < 0) := by
  by_cases negative : val < 0
  · obtain ⟨byte, bytes, written, high⟩ := (@codes_writeSigned (~~~val)
      (by rwa [not_lt_zero_iff, not_not])).2.high
    refine ⟨~~~byte, complement bytes, ?_, iff_of_false ?_ (not_not.mpr negative)⟩
    · rw [← complement_complement (writeSignedNumIncreasing val),
        ← writeSigned_not, written]
      rfl
    · have small := byte.toNat_lt
      rw [UInt8.le_iff_toNat_le] at high ⊢
      rw [UInt8.toNat_not, UInt8.size]
      change 128 ≤ _ at high
      change ¬128 ≤ _
      omega
  · obtain ⟨byte, bytes, written, high⟩ := (codes_writeSigned negative).2.high
    exact ⟨byte, bytes, written, iff_of_true high negative⟩

/-- Written numbers compare like the numbers, whatever follows them. -/
theorem prefixMonotone_writeSigned :
    PrefixMonotone writeSignedNumIncreasing := by
  intro less more lt
  by_cases lessNegative : less < 0
  · by_cases moreNegative : more < 0
    · have before := before_complement (before_writeSigned
        (by rwa [not_lt_zero_iff, not_not]) (not_lt_not lt))
      rwa [writeSigned_not, writeSigned_not, complement_complement,
        complement_complement] at before
    · -- The first bits differ.
      obtain ⟨byte, bytes, lessEq, lessSign⟩ := firstByte_writeSigned less
      obtain ⟨other, others, moreEq, moreSign⟩ := firstByte_writeSigned more
      rw [lessEq, moreEq]
      refine .head (lt_of_lt_of_le ?_ (moreSign.mpr moreNegative))
      rw [← not_le, lessSign, not_not]
      exact lessNegative
  · exact before_writeSigned lessNegative lt

/-! ## Reading a number whose first bit is set -/

/-- The length that the first bytes tell. -/
def announced (src : List UInt8) : Option Nat :=
  if src.getD 0 0 ≠ 0xff then
    some (7 - (src.getD 0 0 ^^^ 0xff).toNat.log2)
  else if src.length < 8 then none
  else longLength (src.getD 1 0) (src.getD 2 0)

theorem toNat_shift (x : UInt64) (byte : UInt8) :
    ((x <<< 8) ||| byte.toUInt64).toNat =
      (x.toNat * 256 + byte.toNat) % 2 ^ 64 := by
  have small : byte.toNat < 2 ^ 8 := byte.toNat_lt
  have multiple : (x.toNat <<< 8) % 2 ^ 64 = (x.toNat % 2 ^ 56) <<< 8 := by
    rw [Nat.shiftLeft_eq, Nat.shiftLeft_eq]
    omega
  rw [UInt64.toNat_or, UInt64.toNat_shiftLeft, UInt8.toNat_toUInt64]
  change (x.toNat <<< 8) % 2 ^ 64 ||| byte.toNat = _
  rw [multiple, ← Nat.shiftLeft_add_eq_or_of_lt small, Nat.shiftLeft_eq]
  omega

theorem foldl_shift (bytes : List UInt8) (x : UInt64) :
    (bytes.foldl (fun (x : UInt64) byte => (x <<< 8) ||| byte.toUInt64)
        x).toNat =
      (x.toNat * 256 ^ bytes.length + bigEndian bytes) % 2 ^ 64 := by
  induction bytes generalizing x with
  | nil => simp [Nat.mod_eq_of_lt x.toNat_lt]
  | cons byte bytes inductionHypothesis =>
      rw [List.foldl_cons, inductionHypothesis, toNat_shift, bigEndian_cons,
        List.length_cons, pow_succ, Nat.add_mod, Nat.mod_mul_mod,
        ← Nat.add_mod]
      congr 1
      ring

theorem ofNat_bigEndian_drop (bytes : List UInt8) {count : Nat}
    (eight : 8 ≤ (bytes.drop count).length) :
    UInt64.ofNat (bigEndian (bytes.drop count)) =
      .ofNat (bigEndian bytes) := by
  rw [← UInt64.toNat_inj, UInt64.toNat_ofNat', UInt64.toNat_ofNat',
    bigEndian_drop]
  have divides : 2 ^ 64 ∣ 256 ^ (bytes.drop count).length := by
    rw [show 256 = 2 ^ 8 from rfl, ← pow_mul]
    exact pow_dvd_pow 2 (by omega)
  exact Nat.mod_mod_of_dvd _ divides

theorem longLength_eq_some_iff (secondByte thirdByte : UInt8) (len : Nat) :
    longLength secondByte thirdByte = some len ↔
      len = 8 ∧ secondByte.toNat < 128 ∨
        len = 9 ∧ 128 ≤ secondByte.toNat ∧ secondByte.toNat < 192 ∨
        len = 10 ∧ secondByte.toNat = 192 ∧ thirdByte.toNat < 128 := by
  unfold longLength
  simp only [UInt8.le_iff_toNat_le, UInt8.lt_iff_toNat_lt, ← UInt8.toNat_inj,
    UInt8.reduceToNat]
  split
  · split
    · rw [Option.some.injEq]
      omega
    · split
      · rw [Option.some.injEq]
        omega
      · simp only [reduceCtorEq, false_iff]
        omega
  · rw [Option.some.injEq]
    omega

theorem and_top_eq_zero_iff (byte : UInt8) : byte &&& 0x80 = 0 ↔ byte < 0x80 :=
  UInt8.forall_of_fin (p := fun byte => byte &&& 0x80 = 0 ↔ byte < 0x80)
    (by decide +kernel) byte

/-- Both ways of reading the bytes give their number, as far as 64 bits hold
it. -/
theorem readSigned_of_high {byte : UInt8} {rest : List UInt8}
    (high : 0x80 ≤ byte) :
    readSignedNumIncreasing (byte :: rest) =
      match announced (byte :: rest) with
      | none => .ok none
      | some len =>
          if (byte :: rest).length < len then .ok none
          else readMasked (byte :: rest) len
            (.ofNat (bigEndian ((byte :: rest).take len))) := by
  have noMask : ¬byte &&& 0x80 = 0 := by
    rw [and_top_eq_zero_iff]
    exact not_lt.mpr high
  have whole : ∀ byte : UInt8, byte ^^^ (0 : UInt64).toUInt8 = byte :=
    fun _ => UInt8.xor_zero
  simp only [readSignedNumIncreasing, announced, if_neg noMask, whole,
    List.getD_cons_zero]
  by_cases long : byte = 0xff
  · rw [if_neg (not_not.mpr long), if_neg (not_not.mpr long)]
    by_cases eight : (byte :: rest).length < 8
    · rw [if_pos eight, if_pos eight]
    · rw [if_neg eight, if_neg eight]
      cases lengthEq : longLength ((byte :: rest).getD 1 0)
          ((byte :: rest).getD 2 0) with
      | none => rfl
      | some len =>
          have bounds := (longLength_eq_some_iff _ _ _).mp lengthEq
          dsimp only
          split
          · rfl
          · rename_i notShort
            have taken : ((byte :: rest).drop (len - 8)).take 8 =
                ((byte :: rest).take len).drop (len - 8) := by
              rw [List.drop_take]
              congr 1
              omega
            rw [loadBigEndian, taken, ofNat_bigEndian_drop]
            rw [List.length_drop, List.length_take]
            omega
  · rw [if_pos long, if_pos long]
    dsimp only
    split
    · rfl
    · congr 1
      rw [← UInt64.toNat_inj, foldl_shift, UInt64.toNat_ofNat']
      simp

/-- A string is the code of some number when it lies between two headers. -/
theorem exists_codes_iff (bytes : List UInt8) :
    (∃ number, Codes bytes number) ↔
      (1 ≤ bytes.length ∧ bytes.length ≤ 10) ∧
        header bytes.length ≤ bigEndian bytes ∧
        bigEndian bytes < header bytes.length + 2 ^ (7 * bytes.length - 1) ∧
        bigEndian bytes < header bytes.length + 2 ^ 63 := by
  constructor
  · rintro ⟨number, pos, ten, room, small, number_eq⟩
    exact ⟨⟨pos, ten⟩, by omega, by omega, by omega⟩
  · rintro ⟨⟨pos, ten⟩, above, room, small⟩
    exact ⟨bigEndian bytes - header bytes.length, pos, ten, by omega,
      by omega, by omega⟩

/-- The first byte tells a length up to seven. -/
theorem firstByte_iff {byte : UInt8} (high : 0x80 ≤ byte) (len : Nat) :
    byte ≠ 0xff ∧ 7 - (byte ^^^ 0xff).toNat.log2 = len ↔
      (1 ≤ len ∧ len ≤ 7) ∧ 256 - 2 ^ (8 - len) ≤ byte.toNat ∧
        byte.toNat < 256 - 2 ^ (7 - len) := by
  have table : ∀ byte : UInt8, 0x80 ≤ byte → ∀ len : Fin 8,
      (byte ≠ 0xff ∧ 7 - (byte ^^^ 0xff).toNat.log2 = len.val ↔
        (1 ≤ len.val ∧ len.val ≤ 7) ∧ 256 - 2 ^ (8 - len.val) ≤ byte.toNat ∧
          byte.toNat < 256 - 2 ^ (7 - len.val)) :=
    UInt8.forall_of_fin (by decide +kernel)
  by_cases seven : len < 8
  · exact table byte high ⟨len, seven⟩
  · constructor
    · rintro ⟨_, lenEq⟩
      omega
    · rintro ⟨⟨_, atMost⟩, _⟩
      omega

/-- Whether a string of up to seven bytes is a code is seen from its first
byte. -/
theorem exists_codes_cons_iff {byte : UInt8} {bytes : List UInt8}
    (seven : bytes.length ≤ 6) :
    (∃ number, Codes (byte :: bytes) number) ↔
      256 - 2 ^ (7 - bytes.length) ≤ byte.toNat ∧
        byte.toNat < 256 - 2 ^ (6 - bytes.length) := by
  have low := bigEndian_lt bytes
  rw [exists_codes_iff, bigEndian_cons, List.length_cons]
  generalize bytes.length = length at *
  generalize bigEndian bytes = number at *
  interval_cases length <;> simp [header] at * <;> omega

/-- Whether a longer one is a code is seen from its first three bytes. -/
theorem exists_codes_long_iff {byte second third : UInt8} {bytes : List UInt8}
    (high : 0x80 ≤ byte) (eight : 5 ≤ bytes.length) :
    (∃ number, Codes (byte :: second :: third :: bytes) number) ↔
      byte = 0xff ∧ longLength second third = some (bytes.length + 3) := by
  have low := bigEndian_lt bytes
  have byteSmall := byte.toNat_lt
  have secondSmall := second.toNat_lt
  have thirdSmall := third.toNat_lt
  rw [exists_codes_iff, longLength_eq_some_iff]
  simp only [bigEndian_cons, List.length_cons, ← UInt8.toNat_inj,
    UInt8.reduceToNat]
  rw [UInt8.le_iff_toNat_le] at high
  change 128 ≤ _ at high
  generalize bytes.length = length at *
  by_cases seven : length ≤ 7
  · generalize bigEndian bytes = number at *
    interval_cases length <;> simp [header] at * <;> omega
  · omega

theorem exists_codes_take_iff {byte : UInt8} {rest : List UInt8}
    (high : 0x80 ≤ byte) {len : Nat} (atMost : len ≤ (byte :: rest).length) :
    (∃ number, Codes ((byte :: rest).take len) number) ↔
      byte ≠ 0xff ∧ 7 - (byte ^^^ 0xff).toNat.log2 = len ∨
        byte = 0xff ∧
          longLength ((byte :: rest).getD 1 0) ((byte :: rest).getD 2 0) =
            some len := by
  have noLong : len ≤ 7 → ∀ secondByte thirdByte,
      longLength secondByte thirdByte ≠ some len := by
    intro seven secondByte thirdByte isLong
    have bounds := (longLength_eq_some_iff _ _ _).mp isLong
    omega
  rcases Nat.lt_or_ge 7 len with eight | seven
  · -- The first three bytes are there, and five more.
    obtain ⟨second, third, bytes, rfl⟩ :
        ∃ second third bytes, rest = second :: third :: bytes := by
      match rest, atMost with
      | [], atMost => simp at atMost; omega
      | [_], atMost => simp at atMost; omega
      | second :: third :: bytes, _ => exact ⟨second, third, bytes, rfl⟩
    obtain ⟨more, rfl⟩ : ∃ more, len = more + 3 :=
      Nat.exists_eq_add_of_le' (by omega)
    simp only [List.length_cons, Nat.add_le_add_iff_right] at atMost
    have taken : (bytes.take more).length = more := by
      rw [List.length_take]
      omega
    rw [firstByte_iff high, List.take_succ_cons, List.take_succ_cons,
      List.take_succ_cons, exists_codes_long_iff high (by omega), taken]
    simp only [List.getD_cons_zero, List.getD_cons_succ]
    constructor
    · exact .inr
    · rintro (⟨⟨_, atMostSeven⟩, _⟩ | long)
      · omega
      · exact long
  · rw [firstByte_iff high]
    constructor
    · rintro ⟨number, codes⟩
      have pos := codes.pos
      rw [List.length_take] at pos
      obtain ⟨more, rfl⟩ : ∃ more, len = more + 1 :=
        Nat.exists_eq_add_of_le' (by omega)
      have taken : (rest.take more).length = more := by
        rw [List.length_take]
        rw [List.length_cons] at atMost
        omega
      rw [List.take_succ_cons] at codes
      have range := (exists_codes_cons_iff (by omega)).mp ⟨number, codes⟩
      rw [taken] at range
      refine .inl ⟨by omega, ?_⟩
      rwa [show 8 - (more + 1) = 7 - more by omega,
        show 7 - (more + 1) = 6 - more by omega]
    · rintro (⟨⟨pos, _⟩, range⟩ | ⟨_, long⟩)
      · obtain ⟨more, rfl⟩ : ∃ more, len = more + 1 :=
          Nat.exists_eq_add_of_le' (by omega)
        have taken : (rest.take more).length = more := by
          rw [List.length_take]
          rw [List.length_cons] at atMost
          omega
        rw [List.take_succ_cons, exists_codes_cons_iff (by omega), taken]
        rwa [show 8 - (more + 1) = 7 - more by omega,
          show 7 - (more + 1) = 6 - more by omega] at range
      · exact absurd long (noLong seven _ _)

/-- The first bytes tell a length that the string has exactly when so many bytes
are the code of a number. -/
theorem announced_iff {byte : UInt8} {rest : List UInt8}
    (high : 0x80 ≤ byte) {len : Nat} :
    announced (byte :: rest) = some len ∧ len ≤ (byte :: rest).length ↔
      len ≤ (byte :: rest).length ∧
        ∃ number, Codes ((byte :: rest).take len) number := by
  rw [and_comm, and_congr_right_iff]
  intro atMost
  rw [exists_codes_take_iff high atMost, announced, List.getD_cons_zero]
  split
  · rename_i short
    simp only [short, not_false_eq_true, true_and, Option.some.injEq,
      false_and, or_false, ne_eq]
  · rename_i long
    obtain rfl := not_not.mp long
    simp only [ne_eq, not_true_eq_false, false_and, true_and, false_or]
    split
    · -- No code is longer than seven bytes and shorter than eight.
      rename_i few
      simp only [reduceCtorEq, false_iff]
      intro isLong
      have bounds := (longLength_eq_some_iff _ _ _).mp isLong
      omega
    · rfl

/-- The mask takes the header away again. -/
theorem xor_mask {mask number bit : Nat} (small : number < 2 ^ bit)
    (above : mask = mask / 2 ^ bit * 2 ^ bit) :
    (mask + number) ^^^ mask = number := by
  have laid := xor_above small (mask / 2 ^ bit) (mask / 2 ^ bit)
  rwa [← above, Nat.xor_self, Nat.zero_mul, Nat.zero_add] at laid

theorem header_mod {len : Nat} (pos : 1 ≤ len) (ten : len ≤ 10) :
    header len % 2 ^ 64 = (kLengthToMask.getD len 0).toNat := by
  interval_cases len <;> rfl

theorem mask_above {len : Nat} (pos : 1 ≤ len) (ten : len ≤ 10) :
    header len % 2 ^ 64 =
      header len % 2 ^ 64 / 2 ^ min (7 * len) 63 * 2 ^ min (7 * len) 63 := by
  interval_cases len <;> rfl

theorem readMasked_of_codes {src : List UInt8} {len number : Nat}
    (codes : Codes (src.take len) number) (atMost : len ≤ src.length) :
    readMasked src len (.ofNat (bigEndian (src.take len))) =
      if len = signedEncodingLength (UInt64.ofNat number).toInt64 then
        .ok (some ((UInt64.ofNat number).toInt64, src.drop len))
      else .error lengthAssertion := by
  obtain ⟨pos, ten, room, small, number_eq⟩ := codes
  rw [List.length_take, min_eq_left atMost] at pos ten room number_eq
  have masked : UInt64.ofNat (bigEndian (src.take len)) ^^^
      kLengthToMask.getD len 0 = .ofNat number := by
    have room63 : number < 2 ^ min (7 * len) 63 := by
      rcases Nat.le_total (7 * len) 63 with short | long
      · rw [min_eq_left short]
        exact lt_of_lt_of_le room (Nat.pow_le_pow_right (by decide) (by omega))
      · rwa [min_eq_right long]
    have added : (header len + number) % 2 ^ 64 =
        header len % 2 ^ 64 + number := by
      clear room63 number_eq
      interval_cases len <;> simp [header] at * <;> omega
    rw [← UInt64.toNat_inj, UInt64.toNat_xor, UInt64.toNat_ofNat',
      UInt64.toNat_ofNat', number_eq, ← header_mod pos ten, added,
      xor_mask room63 (mask_above pos ten), Nat.mod_eq_of_lt (by omega)]
  unfold readMasked
  rw [masked]

/-- What is read from a first bit that is set. -/
theorem readSigned_high_iff {byte : UInt8} {bytes : List UInt8}
    (high : 0x80 ≤ byte) (val : Int64) (rest : List UInt8) :
    readSignedNumIncreasing (byte :: bytes) = .ok (some (val, rest)) ↔
      ¬val < 0 ∧ byte :: bytes = writeSignedNumIncreasing val ++ rest := by
  rw [readSigned_of_high high]
  generalize srcEq : byte :: bytes = src
  have announcedIff := fun len => @announced_iff byte bytes high len
  rw [srcEq] at announcedIff
  constructor
  · intro read
    cases lengthEq : announced src with
    | none =>
        rw [lengthEq] at read
        cases read
    | some len =>
        rw [lengthEq] at read
        dsimp only at read
        split at read
        · cases read
        · rename_i notShort
          have atMost := Nat.le_of_not_lt notShort
          obtain ⟨_, number, codes⟩ :=
            (announcedIff len).mp ⟨lengthEq, atMost⟩
          rw [readMasked_of_codes codes atMost] at read
          split at read
          · rename_i canonical
            cases read
            have numberEq : (UInt64.ofNat number).toInt64.toUInt64.toNat =
                number := by
              rw [UInt64.toUInt64_toInt64, UInt64.toNat_ofNat',
                Nat.mod_eq_of_lt (lt_trans codes.small (by decide))]
            have notNeg : ¬(UInt64.ofNat number).toInt64 < 0 := by
              rw [lt_zero_iff, numberEq]
              exact not_le.mpr codes.small
            refine ⟨notNeg, ?_⟩
            obtain ⟨length_eq, written⟩ := codes_writeSigned notNeg
            have same : src.take len = writeSignedNumIncreasing
                (UInt64.ofNat number).toInt64 := by
              have lengths : (src.take len).length = (writeSignedNumIncreasing
                  (UInt64.ofNat number).toInt64).length := by
                rw [length_eq, ← canonical, List.length_take,
                  min_eq_left atMost]
              refine bigEndian_injective lengths ?_
              rw [codes.bigEndian_eq, written.bigEndian_eq, lengths, numberEq]
            rw [← same, List.take_append_drop]
          · cases read
  · rintro ⟨notNeg, sameSrc⟩
    obtain ⟨length_eq, written⟩ := codes_writeSigned notNeg
    have atMost : signedEncodingLength val ≤ src.length := by
      rw [sameSrc, List.length_append, length_eq]
      exact Nat.le_add_right _ _
    have taken : src.take (signedEncodingLength val) =
        writeSignedNumIncreasing val := by
      rw [sameSrc, ← length_eq, List.take_left]
    have dropped : src.drop (signedEncodingLength val) = rest := by
      rw [sameSrc, ← length_eq, List.drop_left]
    have codes : Codes (src.take (signedEncodingLength val))
        val.toUInt64.toNat := by rwa [taken]
    rw [((announcedIff _).mpr ⟨atMost, _, codes⟩).1]
    dsimp only
    rw [if_neg (Nat.not_lt.mpr atMost), readMasked_of_codes codes atMost,
      UInt64.ofNat_toNat, Int64.toInt64_toUInt64, if_pos rfl, dropped]

/-! ## Reading a complement -/

theorem foldl_shift_complement (bytes : List UInt8) (x : UInt64) :
    (complement bytes).foldl
        (fun (x : UInt64) byte => (x <<< 8) ||| byte.toUInt64) (~~~x) =
      ~~~bytes.foldl (fun (x : UInt64) byte => (x <<< 8) ||| byte.toUInt64)
        x := by
  induction bytes generalizing x with
  | nil => rfl
  | cons byte bytes inductionHypothesis =>
      have step : (~~~x <<< 8) ||| (~~~byte).toUInt64 =
          ~~~((x <<< 8) ||| byte.toUInt64) := by
        have small := x.toNat_lt
        have byteSmall := byte.toNat_lt
        rw [← UInt64.toNat_inj, UInt64.toNat_not, toNat_shift, toNat_shift,
          UInt64.toNat_not, UInt8.toNat_not, UInt64.size, UInt8.size]
        omega
      rw [complement, List.map_cons, List.foldl_cons, List.foldl_cons, step]
      exact inductionHypothesis _

theorem loadBigEndian_eq_foldl {bytes : List UInt8} (eight : 8 ≤ bytes.length)
    (x : UInt64) :
    loadBigEndian bytes = (bytes.take 8).foldl
      (fun (x : UInt64) byte => (x <<< 8) ||| byte.toUInt64) x := by
  rw [← UInt64.toNat_inj, foldl_shift, loadBigEndian, UInt64.toNat_ofNat',
    List.length_take, min_eq_left eight]
  omega

theorem loadBigEndian_complement {bytes : List UInt8}
    (eight : 8 ≤ bytes.length) :
    loadBigEndian (complement bytes) = ~~~loadBigEndian bytes := by
  have long : 8 ≤ (complement bytes).length := by
    rwa [complement, List.length_map]
  rw [loadBigEndian_eq_foldl long (~~~0), loadBigEndian_eq_foldl eight 0,
    ← foldl_shift_complement, complement, ← List.map_take, complement]

theorem readMasked_complement (src : List UInt8) (len : Nat) (x : UInt64) :
    readMasked (complement src) len (~~~x) =
      (readMasked src len x).map
        (Option.map fun read => (~~~read.1, complement read.2)) := by
  unfold readMasked
  simp only [UInt64.not_xor, UInt64.toInt64_not, signedEncodingLength_not]
  split
  · rw [complement, ← List.map_drop]
    rfl
  · rfl

theorem getD_complement {bytes : List UInt8} {index : Nat}
    (within : index < bytes.length) :
    (complement bytes).getD index 0 = ~~~bytes.getD index 0 := by
  have withinMap : index < (complement bytes).length := by
    rwa [complement, List.length_map]
  rw [List.getD_eq_getElem?_getD, List.getD_eq_getElem?_getD,
    List.getElem?_eq_getElem within, List.getElem?_eq_getElem withinMap]
  exact List.getElem_map _

/-- A complement is read as the complement. -/
theorem readSigned_complement (src : List UInt8) :
    readSignedNumIncreasing (complement src) =
      (readSignedNumIncreasing src).map
        (Option.map fun read => (~~~read.1, complement read.2)) := by
  cases src with
  | nil => rfl
  | cons byte rest =>
      have mask : (if ~~~byte &&& 0x80 = 0 then ~~~0 else 0 : UInt64) =
          ~~~(if byte &&& 0x80 = 0 then ~~~0 else 0) :=
        UInt8.forall_of_fin (p := fun byte =>
          (if ~~~byte &&& 0x80 = 0 then ~~~0 else 0 : UInt64) =
            ~~~(if byte &&& 0x80 = 0 then ~~~0 else 0)) (by decide +kernel) byte
      have same : ∀ (byte : UInt8) (mask : UInt64),
          ~~~byte ^^^ (~~~mask).toUInt8 = byte ^^^ mask.toUInt8 := by
        intro byte mask
        rw [UInt64.toUInt8_not, UInt8.not_xor, UInt8.xor_not, UInt8.not_not]
      change readSignedNumIncreasing (~~~byte :: complement rest) = _
      have srcEq : ~~~byte :: complement rest = complement (byte :: rest) := rfl
      have length_eq : (complement (byte :: rest)).length =
          (byte :: rest).length := List.length_map _
      simp only [readSignedNumIncreasing]
      rw [mask, same, srcEq, length_eq]
      generalize (if byte &&& 0x80 = 0 then ~~~0 else 0 : UInt64) = xorMask
      split
      · split
        · rfl
        · rw [← readMasked_complement, ← foldl_shift_complement, complement,
            complement, List.map_take]
      · split
        · rfl
        · rename_i eight
          have long : 8 ≤ (byte :: rest).length := Nat.le_of_not_lt eight
          rw [getD_complement (by omega), getD_complement (by omega), same,
            same]
          cases lengthEq : longLength
              ((byte :: rest).getD 1 0 ^^^ xorMask.toUInt8)
              ((byte :: rest).getD 2 0 ^^^ xorMask.toUInt8) with
          | none => rfl
          | some len =>
              have bounds := (longLength_eq_some_iff _ _ _).mp lengthEq
              dsimp only
              split
              · rfl
              · rename_i notShort
                have dropped : 8 ≤ ((byte :: rest).drop (len - 8)).length := by
                  rw [List.length_drop]
                  omega
                rw [← readMasked_complement,
                  ← loadBigEndian_complement dropped, complement, complement,
                  List.map_drop]

theorem map_complement_eq_iff
    (read : Except HardAssert (Option (Int64 × List UInt8))) (val : Int64)
    (rest : List UInt8) :
    read.map (Option.map fun read => (~~~read.1, complement read.2)) =
        .ok (some (val, rest)) ↔
      read = .ok (some (~~~val, complement rest)) := by
  constructor
  · intro mapped
    match read, mapped with
    | .ok (some (val, rest)), mapped =>
        cases mapped
        rw [Int64.not_not, complement_complement]
  · rintro rfl
    simp only [Except.map, Option.map_some, Int64.not_not,
      complement_complement]

/-- Exactly what a number was written as is read as that number. -/
theorem readSigned_eq_some_iff (src : List UInt8) (val : Int64)
    (rest : List UInt8) :
    readSignedNumIncreasing src = .ok (some (val, rest)) ↔
      src = writeSignedNumIncreasing val ++ rest := by
  obtain ⟨first, others, written, sign⟩ := firstByte_writeSigned val
  cases src with
  | nil =>
      rw [written]
      constructor
      · intro read
        cases read
      · intro same
        cases same
  | cons byte bytes =>
      rcases le_or_gt 0x80 byte with high | low
      · rw [readSigned_high_iff high]
        refine ⟨And.right, fun same => ⟨sign.mp ?_, same⟩⟩
        rw [written, List.cons_append] at same
        rwa [← (List.cons.inj same).1]
      · -- The complement begins with a bit that is set.
        have highNot : 0x80 ≤ ~~~byte := by
          rw [UInt8.le_iff_toNat_le, UInt8.toNat_not, UInt8.size]
          rw [UInt8.lt_iff_toNat_lt] at low
          change byte.toNat < 128 at low
          change 128 ≤ _
          omega
        have srcEq : byte :: bytes = complement (~~~byte :: complement bytes) := by
          rw [complement, List.map_cons, UInt8.not_not]
          exact congrArg (byte :: ·) (complement_complement bytes).symm
        rw [srcEq, readSigned_complement, map_complement_eq_iff,
          readSigned_high_iff highNot, writeSigned_not, not_lt_zero_iff,
          not_not]
        constructor
        · rintro ⟨_, same⟩
          rw [same, complement, List.map_append, ← complement, ← complement,
            complement_complement, complement_complement]
        · intro same
          have sameNot := congrArg complement same
          rw [complement_complement] at sameNot
          refine ⟨?_, by
            rw [sameNot, complement, List.map_append, ← complement,
              ← complement]⟩
          by_contra notNeg
          have high := sign.mpr notNeg
          rw [written, ← srcEq, List.cons_append] at same
          rw [← (List.cons.inj same).1] at high
          exact not_lt.mpr high low

/-- Whatever follows them, written numbers are read back, without a failed
assertion, and compare like the numbers; no other bytes are read as a number. -/
theorem numbers_read_and_compare (first second : Int64)
    (after later : List UInt8) :
    (∀ src, readSignedNumIncreasing src = .ok (some (first, after)) ↔
      src = writeSignedNumIncreasing first ++ after) ∧
    (writeSignedNumIncreasing first ++ after <
        writeSignedNumIncreasing second ++ later ↔
      first < second ∨ first = second ∧ after < later) :=
  ⟨fun _ => readSigned_eq_some_iff _ _ _,
    prefixMonotone_writeSigned.append_lt_append_iff⟩

end OrderedCode

end AppLPS
