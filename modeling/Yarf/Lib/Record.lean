/-
**Records in a byte memory.**

A `Record` gives every field of a C struct its offset and its width, with the facts a layout has: fields
lie inside the struct and do not overlap. `load` and `store` are the accesses to a field of a struct at an
address.

* `load_store` — a field reads back what was stored in it, and the others keep what they had;
* `store_sameOutside`, `load_of_sameOutside` — the frames of both.
-/

import Yarf.Lib.Bytes

namespace Lib

/-- The layout of a struct of unsigned integers. -/
structure Record (F : Type) where
  offset : F → ℕ
  /-- `sizeof` a field. -/
  width : F → ℕ
  /-- `sizeof` the struct. -/
  size : ℕ
  inside : ∀ field, offset field + width field ≤ size
  apart : ∀ field other, field ≠ other →
    offset field + width field ≤ offset other ∨ offset other + width other ≤ offset field

namespace Record

variable {F : Type} (record : Record F) (memory : ℕ → UInt8) (base : ℕ)

def load (field : F) : ℕ := loadNat memory (record.width field) (base + record.offset field)

def store (field : F) (value : ℕ) : ℕ → UInt8 :=
  storeNat memory (record.width field) (base + record.offset field) value

theorem load_store [DecidableEq F] (field other : F) (value : ℕ) :
    record.load (record.store memory base field value) base other
      = if other = field then value % 256 ^ record.width field else record.load memory base other := by
  unfold load store
  split_ifs with same
  · rw [same, loadNat_storeNat]
  · refine (sameOutside_storeNat _ _ _ _).loadNat ?_
    have := record.apart other field same
    omega

theorem store_sameOutside (field : F) (value : ℕ) :
    SameOutside base (base + record.size) memory (record.store memory base field value) := by
  have inside := record.inside field
  exact (sameOutside_storeNat _ _ _ _).mono (by omega) (by omega)

variable {memory}

/-- A change away from the struct leaves its fields. -/
theorem load_of_sameOutside {memory' : ℕ → UInt8} {lo hi : ℕ} (same : SameOutside lo hi memory memory')
    (apart : base + record.size ≤ lo ∨ hi ≤ base) (field : F) :
    record.load memory' base field = record.load memory base field := by
  have inside := record.inside field
  exact same.loadNat (by omega)

end Record

end Lib
