/-
Module: AppLPS.Ordered.Bytes
Purpose: The orders of the machine's integers, and byte strings as numbers in
  big-endian notation.
Trusted boundary: none
Main exports: bigEndian, bigEndian_append, bigEndian_injective,
  Before.of_interval
-/
import Mathlib.Algebra.Order.Ring.Nat
import Mathlib.Tactic.Ring
import AppLPS.Ordered.PrefixCode

instance UInt8.linearOrder : LinearOrder UInt8 where
  le_refl := UInt8.le_refl
  le_trans _ _ _ := UInt8.le_trans
  le_antisymm _ _ := UInt8.le_antisymm
  le_total := UInt8.le_total
  lt_iff_le_not_ge _ _ := by
    rw [UInt8.lt_iff_toNat_lt, UInt8.le_iff_toNat_le, UInt8.le_iff_toNat_le]
    omega
  toDecidableLE := inferInstance
  toDecidableEq := inferInstance
  toDecidableLT := inferInstance

instance Int32.linearOrder : LinearOrder Int32 where
  le_refl := Int32.le_refl
  le_trans _ _ _ := Int32.le_trans
  le_antisymm _ _ := Int32.le_antisymm
  le_total := Int32.le_total
  lt_iff_le_not_ge _ _ := by
    rw [Int32.lt_iff_toInt_lt, Int32.le_iff_toInt_le, Int32.le_iff_toInt_le]
    omega
  toDecidableLE := inferInstance
  toDecidableEq := inferInstance
  toDecidableLT := inferInstance

instance Int64.linearOrder : LinearOrder Int64 where
  le_refl := Int64.le_refl
  le_trans _ _ _ := Int64.le_trans
  le_antisymm _ _ := Int64.le_antisymm
  le_total := Int64.le_total
  lt_iff_le_not_ge _ _ := by
    rw [Int64.lt_iff_toInt_lt, Int64.le_iff_toInt_le, Int64.le_iff_toInt_le]
    omega
  toDecidableLE := inferInstance
  toDecidableEq := inferInstance
  toDecidableLT := inferInstance

/-- What holds of all 256 bytes. -/
theorem UInt8.forall_of_fin {p : UInt8 → Prop}
    (table : ∀ number : Fin 256, p (.ofNat number.val)) (byte : UInt8) :
    p byte := by
  have entry := table ⟨byte.toNat, byte.toNat_lt⟩
  rwa [UInt8.ofNat_toNat] at entry

/-- The number that the bytes stand for, the first one the highest. -/
def bigEndian : List UInt8 → Nat
  | [] => 0
  | byte :: bytes => byte.toNat * 256 ^ bytes.length + bigEndian bytes

@[simp] theorem bigEndian_nil : bigEndian [] = 0 := rfl

theorem bigEndian_cons (byte : UInt8) (bytes : List UInt8) :
    bigEndian (byte :: bytes) =
      byte.toNat * 256 ^ bytes.length + bigEndian bytes := rfl

theorem bigEndian_append (first second : List UInt8) :
    bigEndian (first ++ second) =
      bigEndian first * 256 ^ second.length + bigEndian second := by
  induction first with
  | nil => simp
  | cons byte bytes inductionHypothesis =>
      rw [List.cons_append, bigEndian_cons, bigEndian_cons,
        inductionHypothesis, List.length_append, pow_add]
      ring

theorem bigEndian_lt (bytes : List UInt8) :
    bigEndian bytes < 256 ^ bytes.length := by
  induction bytes with
  | nil => simp
  | cons byte bytes inductionHypothesis =>
      have small : byte.toNat + 1 ≤ 256 := byte.toNat_lt
      calc bigEndian (byte :: bytes)
          < (byte.toNat + 1) * 256 ^ bytes.length := by
            rw [bigEndian_cons, Nat.add_mul, one_mul]
            exact Nat.add_lt_add_left inductionHypothesis _
        _ ≤ 256 * 256 ^ bytes.length := Nat.mul_le_mul_right _ small
        _ = 256 ^ (byte :: bytes).length := by
            rw [List.length_cons, pow_succ, Nat.mul_comm]

/-- The last bytes of a string are the lowest ones. -/
theorem bigEndian_drop (bytes : List UInt8) (count : Nat) :
    bigEndian (bytes.drop count) =
      bigEndian bytes % 256 ^ (bytes.drop count).length := by
  have split := bigEndian_append (bytes.take count) (bytes.drop count)
  rw [List.take_append_drop] at split
  rw [split, Nat.mul_comm, Nat.mul_add_mod,
    Nat.mod_eq_of_lt (bigEndian_lt _)]

/-- Strings of one length are told apart by their numbers. -/
theorem bigEndian_injective {first second : List UInt8}
    (length_eq : first.length = second.length)
    (same : bigEndian first = bigEndian second) : first = second := by
  induction first generalizing second with
  | nil => exact (List.length_eq_zero_iff.mp length_eq.symm).symm
  | cons byte bytes inductionHypothesis =>
      cases second with
      | nil => cases length_eq
      | cons other others =>
          have rest_eq := Nat.succ.inj length_eq
          rw [bigEndian_cons, bigEndian_cons, rest_eq] at same
          have small := bigEndian_lt bytes
          rw [rest_eq] at small
          have otherSmall := bigEndian_lt others
          have bytesEq : byte.toNat = other.toNat := by
            have quotient := congrArg (· / 256 ^ others.length) same
            simpa [Nat.mul_add_div, Nat.div_eq_of_lt small,
              Nat.div_eq_of_lt otherSmall, Nat.mul_comm] using quotient
          rw [bytesEq] at same
          rw [UInt8.toNat_inj.mp bytesEq,
            inductionHypothesis rest_eq (Nat.add_left_cancel same)]

/-- The first byte of a string that is continued with zeros up to a length. -/
theorem bigEndian_cons_scaled {byte : UInt8} {bytes : List UInt8} {total : Nat}
    (short : bytes.length ≤ total) (more : Nat) :
    (bigEndian (byte :: bytes) + more) *
        256 ^ (total + 1 - (byte :: bytes).length) =
      byte.toNat * 256 ^ total +
        (bigEndian bytes + more) * 256 ^ (total - bytes.length) := by
  have whole : 256 ^ total =
      256 ^ bytes.length * 256 ^ (total - bytes.length) := by
    rw [← pow_add, Nat.add_sub_cancel' short]
  rw [List.length_cons, Nat.add_sub_add_right, bigEndian_cons, whole]
  ring

theorem bigEndian_scaled_lt {bytes : List UInt8} {total : Nat}
    (short : bytes.length ≤ total) :
    bigEndian bytes * 256 ^ (total - bytes.length) < 256 ^ total := by
  calc bigEndian bytes * 256 ^ (total - bytes.length)
      < 256 ^ bytes.length * 256 ^ (total - bytes.length) :=
        Nat.mul_lt_mul_of_pos_right (bigEndian_lt bytes) (Nat.pow_pos (by decide))
    _ = 256 ^ total := by rw [← pow_add, Nat.add_sub_cancel' short]

/-- A string stands for the interval of all numbers that continue it; one that
ends no later than another one begins comes before it. -/
theorem Before.of_interval {first second : List UInt8} {total : Nat}
    (firstShort : first.length ≤ total) (secondShort : second.length ≤ total)
    (le : (bigEndian first + 1) * 256 ^ (total - first.length) ≤
      bigEndian second * 256 ^ (total - second.length)) :
    Before first second := by
  induction first generalizing second total with
  | nil =>
      have small := bigEndian_scaled_lt secondShort
      have whole : 256 ^ total ≤
          bigEndian second * 256 ^ (total - second.length) := by simpa using le
      exact absurd whole (not_le.mpr small)
  | cons byte bytes inductionHypothesis =>
      cases second with
      | nil => simp at le
      | cons other others =>
          obtain ⟨total, rfl⟩ : ∃ less, total = less + 1 :=
            Nat.exists_eq_add_of_le' (Nat.succ_le_of_lt
              ((Nat.succ_pos _).trans_le firstShort))
          have firstRest := Nat.le_of_succ_le_succ firstShort
          have secondRest := Nat.le_of_succ_le_succ secondShort
          have small := bigEndian_scaled_lt secondRest
          have scaled := @bigEndian_cons_scaled other _ _ secondRest 0
          simp only [Nat.add_zero] at scaled
          rw [bigEndian_cons_scaled firstRest, scaled] at le
          rcases lt_trichotomy byte other with less | same | greater
          · exact .head less
          · subst same
            exact .tail (inductionHypothesis firstRest secondRest
              (Nat.le_of_add_le_add_left le))
          · -- The first string would begin a whole byte later.
            have above : other.toNat + 1 ≤ byte.toNat :=
              UInt8.lt_iff_toNat_lt.mp greater
            have whole := Nat.mul_le_mul_right (256 ^ total) above
            rw [Nat.add_mul, one_mul] at whole
            omega
