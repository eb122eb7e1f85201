/-
Module: AppLPS.Proofs.SpecialBytes
Purpose: The search of `OrderedCode` for bytes that need escaping tests eight
  bytes at once and finds what a search byte by byte finds.
Trusted boundary: none
Main exports: OrderedCode.skipToNextSpecialByte_eq,
  OrderedCode.skipToNextSpecialByte_first
-/
import AppLPS.Firestore.OrderedCode

namespace AppLPS

namespace OrderedCode

/-! ## The test of a word -/

/-- The number with a 1 in each of some bytes. -/
def ones : Nat → Nat
  | 0 => 0
  | bytes + 1 => 1 + 256 * ones bytes

/-- The number with the highest bit of each of some bytes. -/
def highBits (bytes : Nat) : Nat := 128 * ones bytes

/-- The test of the search for a word of some bytes: its highest bits are set in
`v - 1` and not in `v + 1`. -/
def wordTest (bytes v : Nat) : Nat :=
  (256 ^ bytes - ones bytes + v) % 256 ^ bytes &&&
    (256 ^ bytes - 1 - (v + ones bytes) % 256 ^ bytes) &&& highBits bytes

theorem ones_mul (bytes : Nat) : 255 * ones bytes + 1 = 256 ^ bytes := by
  induction bytes with
  | zero => rfl
  | succ bytes inductionHypothesis =>
      rw [ones, pow_succ]
      omega

theorem and_mod_256 (first second : Nat) :
    (first &&& second) % 256 = first % 256 &&& second % 256 :=
  Nat.and_mod_two_pow (n := 8)

theorem and_div_256 (first second : Nat) :
    (first &&& second) / 256 = first / 256 &&& second / 256 :=
  Nat.and_div_two_pow (n := 8)

/-- The test of a word that has its lowest byte split off: without a special
byte there is neither a borrow nor a carry into the other bytes. -/
theorem wordTest_succ (bytes byte rest : Nat) (small : byte < 256) :
    wordTest (bytes + 1) (byte + 256 * rest) % 256 =
        ((byte + 255) % 256 &&& (255 - (byte + 1) % 256) &&& 128) ∧
      (byte ≠ 0 → byte ≠ 255 →
        wordTest (bytes + 1) (byte + 256 * rest) / 256 =
          wordTest bytes rest) := by
  have onesEq := ones_mul bytes
  have sumBelow := Nat.mod_lt (rest + ones bytes)
    (show 0 < 256 ^ bytes by omega)
  have bits : highBits (bytes + 1) = 128 + 256 * highBits bytes := by
    simp only [highBits, ones]
    omega
  have difference := Nat.mod_mul
    (x := 256 * 256 ^ bytes - ones (bytes + 1) + (byte + 256 * rest))
    (a := 256) (b := 256 ^ bytes)
  have sum := Nat.mod_mul (x := byte + 256 * rest + ones (bytes + 1))
    (a := 256) (b := 256 ^ bytes)
  rw [wordTest, show 256 ^ (bytes + 1) = 256 * 256 ^ bytes by ring, bits,
    difference, sum]
  simp only [ones] at *
  have sumRestBelow := Nat.mod_lt
    ((byte + 256 * rest + (1 + 256 * ones bytes)) / 256)
    (show 0 < 256 ^ bytes by omega)
  constructor
  · rw [and_mod_256, and_mod_256]
    congr 1
    · congr 1 <;> omega
    · omega
  · intro notZero not255
    have restDifference :
        (256 * 256 ^ bytes - (1 + 256 * ones bytes) +
          (byte + 256 * rest)) / 256 = 256 ^ bytes - ones bytes + rest := by
      omega
    have restSum : (byte + 256 * rest + (1 + 256 * ones bytes)) / 256 =
        rest + ones bytes := by omega
    rw [and_div_256, and_div_256, wordTest, restDifference, restSum]
    congr 1
    · congr 1 <;> omega
    · omega

/-- The test of the lowest byte alone. -/
theorem byteTest_eq_zero_iff (byte : Fin 256) :
    ((byte.val + 255) % 256 &&& (255 - (byte.val + 1) % 256) &&& 128) = 0 ↔
      byte.val ≠ 0 ∧ byte.val ≠ 255 := by
  revert byte
  decide +kernel

theorem isSpecialByte_iff (c : UInt8) :
    isSpecialByte c = true ↔ c = kEscape1 ∨ c = kEscape2 := by
  rw [isSpecialByte, decide_eq_true_eq, UInt8.lt_iff_toNat_lt, UInt8.toNat_add,
    ← UInt8.toNat_inj, ← UInt8.toNat_inj]
  have small := c.toNat_lt
  simp only [kEscape1, kEscape2, UInt8.reduceToNat]
  omega

/-- The test finds a special byte exactly if the word has one. -/
theorem wordTest_eq_zero_iff (bytes : List UInt8) :
    wordTest bytes.length (littleEndian bytes) = 0 ↔
      ∀ byte ∈ bytes, isSpecialByte byte = false := by
  induction bytes with
  | nil => simp [wordTest, highBits, ones]
  | cons byte bytes inductionHypothesis =>
      have small := byte.toNat_lt
      have ⟨lowest, others⟩ := wordTest_succ bytes.length byte.toNat
        (littleEndian bytes) small
      have byteTest := byteTest_eq_zero_iff ⟨byte.toNat, small⟩
      rw [← lowest] at byteTest
      have special : isSpecialByte byte = false ↔
          byte.toNat ≠ 0 ∧ byte.toNat ≠ 255 := by
        rw [Bool.eq_false_iff, ne_eq, isSpecialByte_iff, not_or,
          ← UInt8.toNat_inj, ← UInt8.toNat_inj]
        rfl
      rw [List.forall_mem_cons, special, ← byteTest, ← inductionHypothesis]
      rw [List.length_cons, littleEndian]
      constructor
      · intro zero
        have lowestZero : wordTest (bytes.length + 1)
            (byte.toNat + 256 * littleEndian bytes) % 256 = 0 := by omega
        refine ⟨lowestZero, ?_⟩
        obtain ⟨notZero, not255⟩ := byteTest.mp lowestZero
        rw [← others notZero not255, zero]
      · rintro ⟨lowestZero, restZero⟩
        obtain ⟨notZero, not255⟩ := byteTest.mp lowestZero
        rw [← others notZero not255] at restZero
        omega

theorem littleEndian_lt (bytes : List UInt8) :
    littleEndian bytes < 256 ^ bytes.length := by
  induction bytes with
  | nil => decide
  | cons byte bytes inductionHypothesis =>
      have small := byte.toNat_lt
      rw [littleEndian, List.length_cons, pow_succ]
      omega

/-- The test of a word that is not zero. -/
theorem wordTest_ne_zero_iff (bytes : List UInt8) :
    wordTest bytes.length (littleEndian bytes) ≠ 0 ↔
      bytes.any isSpecialByte = true := by
  rw [ne_eq, wordTest_eq_zero_iff, List.any_eq_true]
  simp only [not_forall, Bool.not_eq_false, exists_prop]

theorem littleEndian_append (low high : List UInt8) :
    littleEndian (low ++ high) =
      littleEndian low + 256 ^ low.length * littleEndian high := by
  induction low with
  | nil => simp [littleEndian]
  | cons byte low inductionHypothesis =>
      rw [List.cons_append, littleEndian, littleEndian, inductionHypothesis,
        List.length_cons, pow_succ]
      ring

theorem advanceIfNoSpecialBytes_eq {bytes : List UInt8}
    (four : bytes.length = 4) :
    advanceIfNoSpecialBytes (load32 bytes) =
      if bytes.any isSpecialByte then 0 else 4 := by
  have tested := wordTest_ne_zero_iff bytes
  have small := littleEndian_lt bytes
  rw [four] at tested small
  have same : ((load32 bytes - 0x01010101) &&& ~~~(load32 bytes + 0x01010101) &&&
      0x80808080).toNat = wordTest 4 (littleEndian bytes) := by
    simp only [load32, UInt32.toNat_and, UInt32.toNat_sub, UInt32.toNat_not,
      UInt32.toNat_add, UInt32.toNat_ofNat']
    rw [Nat.mod_eq_of_lt (show littleEndian bytes < 2 ^ 32 from small)]
    rfl
  unfold advanceIfNoSpecialBytes
  simp only [ne_eq, ← UInt32.toNat_inj, same]
  exact if_congr tested rfl rfl

theorem hasZeroOr255Byte_eq {bytes : List UInt8} (eight : bytes.length = 8) :
    hasZeroOr255Byte (load64 bytes) = bytes.any isSpecialByte := by
  have tested := wordTest_ne_zero_iff bytes
  have small := littleEndian_lt bytes
  rw [eight] at tested small
  have same : ((load64 bytes - 0x0101010101010101) &&&
      ~~~(load64 bytes + 0x0101010101010101) &&&
      0x8080808080808080).toNat = wordTest 8 (littleEndian bytes) := by
    simp only [load64, UInt64.toNat_and, UInt64.toNat_sub, UInt64.toNat_not,
      UInt64.toNat_add, UInt64.toNat_ofNat']
    rw [Nat.mod_eq_of_lt (show littleEndian bytes < 2 ^ 64 from small)]
    rfl
  rw [Bool.eq_iff_iff, ← tested, hasZeroOr255Byte, decide_eq_true_eq, ne_eq,
    ← UInt64.toNat_inj, same]
  rfl

/-- The low half of a word of eight bytes. -/
theorem load64_toUInt32 {low high : List UInt8} (four : low.length = 4) :
    (load64 (low ++ high)).toUInt32 = load32 low := by
  rw [← UInt32.toNat_inj, load64, load32, UInt64.toNat_toUInt32,
    UInt64.toNat_ofNat', UInt32.toNat_ofNat', littleEndian_append, four]
  omega

/-! ## The search -/

theorem skipBytes_eq (bytes : List UInt8) :
    skipBytes bytes = bytes.findIdx isSpecialByte := by
  induction bytes with
  | nil => rfl
  | cons byte bytes inductionHypothesis =>
      rw [skipBytes, List.findIdx_cons, inductionHypothesis]
      cases isSpecialByte byte <;> rfl

/-- Without a special byte the search goes on behind a word. -/
theorem findIdx_append_of_none {word : List UInt8} (rest : List UInt8)
    (none_special : word.any isSpecialByte = false) :
    (word ++ rest).findIdx isSpecialByte =
      word.length + rest.findIdx isSpecialByte := by
  rw [List.findIdx_append, if_neg, Nat.add_comm]
  rw [List.findIdx_lt_length, ← List.any_eq_true, none_special]
  exact Bool.false_ne_true

theorem skipRemaining_eq (bytes : List UInt8) :
    skipRemaining bytes = bytes.findIdx isSpecialByte := by
  unfold skipRemaining
  split
  · rename_i p0 p1 p2 p3 rest
    dsimp only
    rw [advanceIfNoSpecialBytes_eq rfl, skipBytes_eq]
    split
    · rw [List.drop_zero, Nat.zero_add]
    · rename_i none_special
      exact (findIdx_append_of_none rest
        (Bool.eq_false_iff.mpr none_special)).symm
  · exact skipBytes_eq bytes

/-- A word that has a special byte is searched byte by byte. -/
theorem specialInWord_eq {p0 p1 p2 p3 : UInt8}
    (special : [p0, p1, p2, p3].any isSpecialByte = true)
    (more rest : List UInt8) :
    specialInWord (p0 :: p1 :: p2 :: p3 :: more) =
      ([p0, p1, p2, p3] ++ rest).findIdx isSpecialByte := by
  simp only [List.any_cons, List.any_nil, Bool.or_false] at special
  simp only [specialInWord, List.cons_append, List.findIdx_cons]
  cases first : isSpecialByte p0
  · cases second : isSpecialByte p1
    · cases third : isSpecialByte p2
      · rw [first, second, third] at special
        simp only [Bool.false_or] at special
        simp [special]
      · simp
    · simp
  · simp

/-- The search finds the first byte that needs escaping, or the end. -/
theorem skipToNextSpecialByte_eq (bytes : List UInt8) :
    skipToNextSpecialByte bytes = bytes.findIdx isSpecialByte := by
  fun_induction skipToNextSpecialByte bytes with
  | case1 p0 p1 p2 p3 p4 p5 p6 p7 rest v notFound inductionHypothesis =>
      have none_special :
          [p0, p1, p2, p3, p4, p5, p6, p7].any isSpecialByte = false := by
        rw [← hasZeroOr255Byte_eq rfl]
        simpa using notFound
      have behind := findIdx_append_of_none rest none_special
      rw [inductionHypothesis]
      exact behind.symm
  | case2 p0 p1 p2 p3 p4 p5 p6 p7 rest v found advanced =>
      have special :
          ([p0, p1, p2, p3] ++ [p4, p5, p6, p7]).any isSpecialByte = true := by
        change [p0, p1, p2, p3, p4, p5, p6, p7].any isSpecialByte = true
        rw [← hasZeroOr255Byte_eq rfl]
        simpa using found
      have lowWord : v.toUInt32 = load32 [p0, p1, p2, p3] :=
        @load64_toUInt32 [p0, p1, p2, p3] [p4, p5, p6, p7] rfl
      have advancedEq := @advanceIfNoSpecialBytes_eq [p0, p1, p2, p3] rfl
      rw [← lowWord] at advancedEq
      change advanceIfNoSpecialBytes v.toUInt32 + specialInWord
          ([p0, p1, p2, p3, p4, p5, p6, p7].drop
            (advanceIfNoSpecialBytes v.toUInt32)) =
        ([p0, p1, p2, p3] ++ ([p4, p5, p6, p7] ++ rest)).findIdx isSpecialByte
      rw [advancedEq]
      by_cases inLow : [p0, p1, p2, p3].any isSpecialByte = true
      · rw [if_pos inLow, List.drop_zero, Nat.zero_add]
        exact specialInWord_eq inLow _ _
      · have inHigh : [p4, p5, p6, p7].any isSpecialByte = true := by
          rw [List.any_append, Bool.or_eq_true] at special
          exact special.resolve_left inLow
        rw [if_neg inLow, findIdx_append_of_none _ (Bool.eq_false_iff.mpr inLow),
          ← specialInWord_eq inHigh []]
        rfl
  | case3 bytes short => exact skipRemaining_eq bytes

/-- The search stops at the first byte that needs escaping, or at the end. -/
theorem skipToNextSpecialByte_first (bytes : List UInt8) :
    (∀ byte ∈ bytes.take (skipToNextSpecialByte bytes),
      byte ≠ 0x00 ∧ byte ≠ 0xff) ∧
      match bytes[skipToNextSpecialByte bytes]? with
      | some byte => byte = 0x00 ∨ byte = 0xff
      | none => skipToNextSpecialByte bytes = bytes.length := by
  rw [skipToNextSpecialByte_eq]
  refine ⟨?_, ?_⟩
  · intro byte member
    obtain ⟨index, within, rfl⟩ := List.mem_take_iff_getElem.mp member
    have before := List.not_of_lt_findIdx (lt_min_iff.mp within).1
    rw [← Bool.not_eq_true, isSpecialByte_iff, not_or] at before
    exact before
  · split
    · rename_i byte found
      obtain ⟨within, rfl⟩ := List.getElem?_eq_some_iff.mp found
      exact (isSpecialByte_iff _).mp (List.findIdx_getElem (w := within))
    · rename_i atEnd
      exact le_antisymm List.findIdx_le_length
        (List.getElem?_eq_none_iff.mp atEnd)

end OrderedCode

end AppLPS
