/-
**The integer types of C++ and their conversions.**

An integer type is a width and a sign. A value is brought into a type modulo `2 ^ bits`; an operation on two
types is done in their common type.

* `Holds.convert` — a conversion keeps the values the type holds;
* `convert_agree` — where the signed and the unsigned conversion of one width agree.
-/

import Mathlib.Algebra.Order.Ring.Int

namespace Lib

/-- An integer type: its width in bits, and whether it is signed. -/
structure IntType where
  bits : ℕ
  signed : Bool
  deriving DecidableEq

namespace IntType

def int32 : IntType := ⟨32, true⟩

def uint32 : IntType := ⟨32, false⟩

variable (type : IntType) {value : ℤ}

/-- The values of the type. -/
def Holds (value : ℤ) : Prop :=
  if type.signed then -2 ^ (type.bits - 1) ≤ value ∧ value < 2 ^ (type.bits - 1)
  else 0 ≤ value ∧ value < 2 ^ type.bits

instance (value : ℤ) : Decidable (type.Holds value) := by
  unfold Holds
  infer_instance

/-- The conversion of an integer to the type. -/
def convert (value : ℤ) : ℤ :=
  if type.signed then value.bmod (2 ^ type.bits) else value % 2 ^ type.bits

/-- The integral promotion: what is narrower than `int` becomes an `int`. -/
def promote : IntType := if type.bits < int32.bits then int32 else type

/-- The type in which an operation on two types is done: the wider one, and of one width the unsigned one. -/
def common (other : IntType) : IntType :=
  let first := type.promote
  let second := other.promote
  if second.bits < first.bits then first
  else if first.bits < second.bits then second
  else ⟨first.bits, first.signed && second.signed⟩

variable {type}

theorem two_pow_succ (bits : ℕ) : (2 : ℤ) ^ (bits + 1) = 2 * 2 ^ bits := by
  rw [Int.pow_succ, Int.mul_comm]

/-- The signed conversion takes the upper half of the residues below zero. -/
theorem convert_signed (bits : ℕ) (value : ℤ) : (⟨bits + 1, true⟩ : IntType).convert value
    = if value % 2 ^ (bits + 1) < 2 ^ bits then value % 2 ^ (bits + 1)
      else value % 2 ^ (bits + 1) - 2 ^ (bits + 1) := by
  have half : ((2 : ℤ) ^ (bits + 1) + 1) / 2 = 2 ^ bits := by
    rw [two_pow_succ]
    omega
  unfold convert
  rw [if_pos rfl, Int.bmod_def]
  push_cast
  rw [half]

/-- A conversion keeps the values of the type. -/
theorem Holds.convert {bits : ℕ} {signed : Bool} (holds : (⟨bits + 1, signed⟩ : IntType).Holds value) :
    (⟨bits + 1, signed⟩ : IntType).convert value = value := by
  cases signed with
  | false => exact Int.emod_eq_of_lt holds.1 holds.2
  | true =>
    obtain ⟨lower, upper⟩ : -2 ^ bits ≤ value ∧ value < 2 ^ bits := holds
    have twice := two_pow_succ bits
    rw [convert_signed]
    rcases lt_or_ge value 0 with negative | positive
    · have wrapped : value % 2 ^ (bits + 1) = value + 2 ^ (bits + 1) := by
        rw [← Int.add_emod_right, Int.emod_eq_of_lt (by omega) (by omega)]
      rw [wrapped, if_neg (by omega)]
      omega
    · rw [Int.emod_eq_of_lt positive (by omega), if_pos upper]

/-- Signed and unsigned conversions of one width agree on the lower half of the residues. -/
theorem convert_agree (bits : ℕ) (value : ℤ) :
    (⟨bits + 1, true⟩ : IntType).convert value = (⟨bits + 1, false⟩ : IntType).convert value
      ↔ value % 2 ^ (bits + 1) < 2 ^ bits := by
  have positive : (0 : ℤ) < 2 ^ (bits + 1) := Int.pow_pos (by decide)
  have unsigned : (⟨bits + 1, false⟩ : IntType).convert value = value % 2 ^ (bits + 1) := rfl
  rw [convert_signed, unsigned]
  split_ifs with low
  · exact iff_of_true rfl low
  · exact iff_of_false (by omega) low

end IntType

end Lib
