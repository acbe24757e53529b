/-
**The bucket of a key** (`hash_pool.h`).

`key % header_->bucket_num` is done in the common type of the key and `uint32_t`, and goes into an `int` in
`Alloc`, a `uint32_t` in `GetNode` and an `int32_t` in `Free`.

* `remainder_eq` — the remainder, for every width and sign of the key;
* `index_agrees_iff` — when the three are one index of a bucket;
* `slot_eq`, `index_eq_freeIndex` — for unsigned keys they are the indices of the table.
-/

import Yarf.Lib.Integral
import Yarf.Memory.HashPool

namespace Yarf.Memory

open Lib IntType

/-! ### The three indices -/

/-- An integral `KeyType`. -/
def Integral (type : IntType) : Prop :=
  type.bits = 8 ∨ type.bits = 16 ∨ type.bits = 32 ∨ type.bits = 64

/-- `key % header_->bucket_num`; a division by zero has no value. -/
def remainder (type : IntType) (key : ℤ) (bucketNum : ℕ) : Option ℤ :=
  let common := type.common uint32
  if common.convert bucketNum = 0 then none
  else some ((common.convert key).tmod (common.convert bucketNum))

/-- `int index` in `Alloc`. -/
def allocIndex (type : IntType) (key : ℤ) (bucketNum : ℕ) : Option ℤ :=
  (remainder type key bucketNum).map int32.convert

/-- `uint32_t index` in `GetNode`. -/
def getNodeIndex (type : IntType) (key : ℤ) (bucketNum : ℕ) : Option ℤ :=
  (remainder type key bucketNum).map uint32.convert

/-- `int32_t index` in `Free`. -/
def freeIndex (type : IntType) (key : ℤ) (bucketNum : ℕ) : Option ℤ :=
  (remainder type key bucketNum).map int32.convert

/-- The three are one number, the index of a bucket. -/
def IndexAgrees (type : IntType) (key : ℤ) (bucketNum : ℕ) : Prop :=
  ∃ i, allocIndex type key bucketNum = some i ∧ getNodeIndex type key bucketNum = some i ∧
    freeIndex type key bucketNum = some i ∧ 0 ≤ i ∧ i < bucketNum

/-- The key as the division has it: a key of 64 bits is itself, a narrower one a `uint32_t`. -/
def dividend (type : IntType) (key : ℤ) : ℤ := if type.bits = 64 then key else key % 2 ^ 32

/-- There is a bucket. A key that is not negative leaves a remainder below `2 ^ 31`; a negative one is a
multiple of the number of buckets, or its absolute value leaves a remainder so large, above `2 ^ 31`, that the
conversions wrap it. -/
def HasIndex (type : IntType) (key : ℤ) (bucketNum : ℕ) : Prop :=
  bucketNum ≠ 0 ∧
    if 0 ≤ dividend type key then dividend type key % bucketNum < 2 ^ 31
    else -dividend type key % bucketNum = 0 ∨ 2 ^ 31 < -dividend type key % bucketNum

/-! ### The remainder -/

section Remainder

variable {type : IntType} {key : ℤ} {bucketNum : ℕ} (integral : Integral type)

include integral in
/-- The division is done in the type of a key of 64 bits, and else in `uint32_t`. -/
theorem common_uint32 : type.common uint32 = if type.bits = 64 then type else uint32 := by
  obtain ⟨bits, signed⟩ := type
  rcases integral with rfl | rfl | rfl | rfl <;> cases signed <;> rfl

include integral in
theorem remainder_eq (holds : type.Holds key) (buckets : bucketNum < 2 ^ 32) : remainder type key bucketNum
    = if bucketNum = 0 then none else some ((dividend type key).tmod bucketNum) := by
  have zero : (bucketNum : ℤ) = 0 ↔ bucketNum = 0 := Int.natCast_eq_zero
  have wide : (bucketNum : ℤ) < 2 ^ 32 := by exact_mod_cast buckets
  have positive : (0 : ℤ) ≤ bucketNum := Int.natCast_nonneg _
  obtain ⟨bits, signed⟩ := type
  unfold remainder dividend
  rw [common_uint32 integral]
  by_cases long : bits = 64
  · obtain rfl := long
    have divisor : (⟨64, signed⟩ : IntType).Holds bucketNum := by
      cases signed with
      | false => exact ⟨positive, wide.trans (by decide)⟩
      | true => exact ⟨le_trans (by decide) positive, wide.trans (by decide)⟩
    dsimp only
    rw [if_pos rfl, if_pos rfl, divisor.convert, holds.convert]
    simp only [zero]
  · have divisor : uint32.convert bucketNum = bucketNum := Int.emod_eq_of_lt positive wide
    have number : uint32.convert key = key % 2 ^ 32 := rfl
    dsimp only
    rw [if_neg long, if_neg long, divisor, number]
    simp only [zero]

end Remainder

/-! ### Unsigned keys -/

section Unsigned

variable (type : NodeType) (pool : HashPool) {key : ℕ} (keyLt : key < 2 ^ (8 * type.keySize))
  (buckets : pool.get .bucketNum ≠ 0)

theorem bucketNum_lt : pool.get .bucketNum < 2 ^ 32 := loadNat_lt _ 4 _

include keyLt buckets in
/-- An unsigned key is divided as it is. -/
theorem remainder_unsigned : remainder ⟨8 * type.keySize, false⟩ key (pool.get .bucketNum)
    = some (pool.slot key : ℤ) := by
  have integral : Integral ⟨8 * type.keySize, false⟩ := by
    rcases type.unsigned with size | size | size | size <;> rw [size] <;> simp [Integral]
  have number : dividend ⟨8 * type.keySize, false⟩ key = key := by
    unfold dividend
    dsimp only
    split_ifs with long
    · rfl
    · have narrow : 8 * type.keySize ≤ 32 := by
        rcases type.unsigned with size | size | size | size <;> omega
      have small := keyLt.trans_le (Nat.pow_le_pow_right (by decide) narrow)
      exact Int.emod_eq_of_lt (Int.natCast_nonneg _) (by exact_mod_cast small)
  rw [remainder_eq integral ⟨Int.natCast_nonneg _, by exact_mod_cast keyLt⟩ (bucketNum_lt pool), if_neg buckets,
    number]
  rfl

include keyLt buckets in
/-- The indices of the table are those of the three calls. -/
theorem index_unsigned : getNodeIndex ⟨8 * type.keySize, false⟩ key (pool.get .bucketNum)
      = some (pool.slot key : ℤ) ∧
    allocIndex ⟨8 * type.keySize, false⟩ key (pool.get .bucketNum) = some (pool.index key) ∧
    freeIndex ⟨8 * type.keySize, false⟩ key (pool.get .bucketNum) = some (pool.index key) := by
  have slotLt : pool.slot key < 2 ^ 32 :=
    (Nat.mod_lt key (Nat.pos_of_ne_zero buckets)).trans (bucketNum_lt pool)
  have signed : int32.convert (pool.slot key) = pool.index key := by
    unfold HashPool.index IntType.convert
    rw [if_pos (show int32.signed = true from rfl)]
    rfl
  unfold getNodeIndex allocIndex freeIndex
  rw [remainder_unsigned type pool keyLt buckets]
  refine ⟨congrArg some ?_, congrArg some signed, congrArg some signed⟩
  exact Int.emod_eq_of_lt (Int.natCast_nonneg _) (by exact_mod_cast slotLt)

end Unsigned

/-- `Init` accepts every number of buckets, also 0, for which there is memory. -/
theorem init_accepts (type : NodeType) (before : HashPool) {mem memSize bucketNum maxNode : ℕ}
    (enough : ¬memSize < HashPool.getMaxSize type bucketNum maxNode) :
    (before.init type mem memSize bucketNum maxNode false).1 = 0 := by
  have behind : (HashPool.stored type mem bucketNum maxNode before).clearBuckets.buckets
      + 8 * (HashPool.stored type mem bucketNum maxNode before).clearBuckets.get .bucketNum ≠ 0 := by
    have front : (HashPool.stored type mem bucketNum maxNode before).clearBuckets.buckets
      = mem + sizeofHashHeader := rfl
    unfold sizeofHashHeader at front
    omega
  rw [HashPool.init_eq _ _ _ _ _ _ enough]
  dsimp only
  rw [FixedLenPool.init_fst _ _ _ behind, if_neg fun wrong => wrong rfl]

/-! ### When they agree -/

/-- The remainder of a division that truncates. -/
theorem tmod_eq (number divisor : ℤ) :
    number.tmod divisor = if 0 ≤ number then number % divisor else -(-number % divisor) := by
  split_ifs with positive
  · exact Int.tmod_eq_emod_of_nonneg positive
  · rw [← Int.tmod_eq_emod_of_nonneg (by omega), Int.neg_tmod, Int.neg_neg]

/-- **When the three indices agree.** For every integral key type, key and number of buckets, `Alloc`,
`GetNode` and `Free` compute one number, the index of a bucket, if and only if there is a bucket and the
remainder is not negative and below `2 ^ 31`, or is below `-2 ^ 31`. -/
theorem index_agrees_iff (type : IntType) (key : ℤ) (bucketNum : ℕ) (integral : Integral type)
    (holds : type.Holds key) (buckets : bucketNum < 2 ^ 32) :
    IndexAgrees type key bucketNum ↔ HasIndex type key bucketNum := by
  have wide : (bucketNum : ℤ) < 2 ^ 32 := by exact_mod_cast buckets
  unfold IndexAgrees HasIndex allocIndex getNodeIndex freeIndex
  rw [remainder_eq integral holds buckets]
  by_cases none : bucketNum = 0
  · rw [if_pos none]
    refine iff_of_false ?_ fun has => has.1 none
    rintro ⟨i, found, -⟩
    cases found
  · have positive : (0 : ℤ) < bucketNum := by exact_mod_cast Nat.pos_of_ne_zero none
    have bounds := And.intro (Int.emod_nonneg (dividend type key) positive.ne')
      (Int.emod_lt_of_pos (dividend type key) positive)
    have bounds' := And.intro (Int.emod_nonneg (-dividend type key) positive.ne')
      (Int.emod_lt_of_pos (-dividend type key) positive)
    rw [if_neg none, tmod_eq]
    generalize dividend type key % bucketNum = rest, -dividend type key % bucketNum = rest' at *
    have low : (if 0 ≤ dividend type key then rest else -rest') % 2 ^ 32 < 2 ^ 31 ↔
        if 0 ≤ dividend type key then rest < 2 ^ 31 else rest' = 0 ∨ 2 ^ 31 < rest' := by
      split_ifs <;> omega
    have within : (if 0 ≤ dividend type key then rest else -rest') % 2 ^ 32 < 2 ^ 31 →
        (if 0 ≤ dividend type key then rest else -rest') % 2 ^ 32 < bucketNum := by
      split_ifs <;> omega
    rw [← low]
    generalize (if 0 ≤ dividend type key then rest else -rest') = result at within
    have agree : int32.convert result = uint32.convert result ↔ result % 2 ^ 32 < 2 ^ 31 :=
      convert_agree 31 result
    constructor
    · rintro ⟨i, first, second, -⟩
      exact ⟨none, agree.mp (Option.some.inj (first.trans second.symm))⟩
    · rintro ⟨-, small⟩
      have same := congrArg some (agree.mpr small)
      exact ⟨result % 2 ^ 32, same, rfl, same, by omega, within small⟩

/-- A negative `int64_t` key that is a multiple of the number of buckets. -/
theorem index_agrees_iff_multiple : IndexAgrees ⟨64, true⟩ (-20) 10 :=
  (index_agrees_iff ⟨64, true⟩ (-20) 10 (by unfold Integral; decide) (by decide) (by decide)).mpr (by
    unfold HasIndex
    decide)

/-- An `int64_t` key and a value of one byte. -/
def longNode : NodeType := ⟨8, 1, 1, .inr (.inr (.inr rfl)), by decide⟩

/-- In a table of ten buckets the `int64_t` key -1 is stored in front of the buckets and looked up far behind
them; in a table without buckets every key is divided by zero. -/
theorem index_agrees_fails_negative :
    ((⟨0, 0, ⟨fun _ => 0, 0, 0, .none⟩, .none⟩ : HashPool).init longNode 4096 1000 10 1 false).1 = 0 ∧
      allocIndex ⟨64, true⟩ (-1) 10 = some (-1) ∧ getNodeIndex ⟨64, true⟩ (-1) 10 = some 4294967295 ∧
      ¬IndexAgrees ⟨64, true⟩ (-1) 10 ∧
    ((⟨0, 0, ⟨fun _ => 0, 0, 0, .none⟩, .none⟩ : HashPool).init longNode 4096 1000 0 1 false).1 = 0 ∧
      allocIndex ⟨64, true⟩ 7 0 = none := by
  refine ⟨init_accepts _ _ (by decide), by decide, by decide, ?_, init_accepts _ _ (by decide), by decide⟩
  rintro ⟨i, first, second, -⟩
  have same : (some (-1) : Option ℤ) = some 4294967295 := first.trans second.symm
  cases same

end Yarf.Memory
