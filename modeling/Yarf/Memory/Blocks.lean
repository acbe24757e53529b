/-
**Where the blocks of a pool lie.**

`Deref` adds an offset to a `Header` pointer, so the block at offset `pos` is at `56 * pos`: the `k`-th
block taken from the unused end lies at `offsetOf k`, 56 block sizes behind the one before. `Grown k` is the
header after `k` blocks.

* `Grown.full` — a pool without room for a block has given all of them;
* `Grown.take` — `Alloc` gives the node of the next block and changes the header and that block only.
-/

import Yarf.Memory.FixedLenPool

namespace Yarf.Memory

open Lib FixedLenPool

/-! ### Sizes -/

section Sizes

variable {mem maxNode nodeSize k : ℕ}

/-- `GetAllocSize` does not overflow. -/
structure Fits (maxNode nodeSize : ℕ) : Prop where
  nodes : maxNode < 2 ^ 32
  block : nodeSize + nodeOffset + 7 < 2 ^ 64
  total : sizeofHeader + maxNode * getBlockSize nodeSize < 2 ^ 64

theorem Fits.allocSize (fits : Fits maxNode nodeSize) :
    getAllocSize maxNode nodeSize = sizeofHeader + maxNode * getBlockSize nodeSize :=
  Nat.mod_eq_of_lt fits.total

/-- The memory block `Init` is given. -/
structure Room (mem maxNode nodeSize : ℕ) : Prop where
  nonNull : mem ≠ 0
  inside : mem + getAllocSize maxNode nodeSize < 2 ^ 64

/-- The node size with the `next` in front, rounded up to a multiple of eight. -/
theorem Fits.blockSize (fits : Fits maxNode nodeSize) : 8 ∣ getBlockSize nodeSize ∧
    nodeSize + 8 ≤ getBlockSize nodeSize ∧ getBlockSize nodeSize < nodeSize + 16 := by
  have block := fits.block
  unfold getBlockSize
  unfold nodeOffset at *
  rw [Nat.mod_eq_of_lt block]
  omega

/-- Where `Deref` puts the `k`-th block, seen from the header. -/
def offsetOf (blockSize k : ℕ) : ℕ := sizeofHeader * (sizeofHeader + k * blockSize)

theorem offsetOf_add_le (blockSize : ℕ) {i k : ℕ} (before : i < k) :
    offsetOf blockSize i + blockSize ≤ offsetOf blockSize k := by
  have step : (i + 1) * blockSize ≤ k * blockSize := Nat.mul_le_mul_right _ before
  rw [Nat.add_mul, Nat.one_mul] at step
  unfold offsetOf sizeofHeader
  omega

theorem le_offsetOf (blockSize k : ℕ) : 2 * sizeofHeader ≤ offsetOf blockSize k := by
  unfold offsetOf sizeofHeader
  omega

/-- A block inside the pool is one of those it is meant for. -/
theorem lt_of_offsetOf (fits : Fits maxNode nodeSize)
    (inside : offsetOf (getBlockSize nodeSize) k + getBlockSize nodeSize
      ≤ getAllocSize maxNode nodeSize) : k < maxNode := by
  obtain ⟨_, large, _⟩ := fits.blockSize
  rw [fits.allocSize] at inside
  by_contra full
  have := Nat.mul_le_mul_right (getBlockSize nodeSize) (Nat.not_lt.mp full)
  unfold offsetOf sizeofHeader at inside
  omega

end Sizes

/-! ### The unused end -/

/-- The header after `k` blocks from the unused end. -/
structure Grown (mem maxNode nodeSize : ℕ) (pool : FixedLenPool) (k : ℕ) : Prop where
  header : pool.header = mem
  maxSize : pool.get .maxSize = getAllocSize maxNode nodeSize
  blockSize : pool.get .blockSize = getBlockSize nodeSize
  allocSize : pool.get .allocSize = sizeofHeader + k * getBlockSize nodeSize
  count : k ≤ maxNode

namespace FixedLenPool

/-- There is room for a block at the unused end. -/
def HasSpace (pool : FixedLenPool) : Prop :=
  (pool.get .allocSize + pool.get .blockSize) % 2 ^ 64 ≤ pool.get .maxSize

instance (pool : FixedLenPool) : Decidable pool.HasSpace := inferInstanceAs (Decidable (_ ≤ _))

/-- `Alloc` follows no reference, and the place `Deref` gives to the unused end, if there is room, is inside
the pool. -/
def FreshInside (pool : FixedLenPool) : Prop :=
  pool.get .freeList = invalidRef ∧
    (pool.HasSpace →
      sizeofHeader * pool.get .allocSize + pool.get .blockSize ≤ pool.get .maxSize)

end FixedLenPool

section Unused

variable {mem maxNode nodeSize k : ℕ} {pool : FixedLenPool}

theorem grown_init (fits : Fits maxNode nodeSize) (nonNull : mem ≠ 0) (before : FixedLenPool) :
    Grown mem maxNode nodeSize (before.init mem maxNode nodeSize false).2 0 ∧
      (before.init mem maxNode nodeSize false).2.get .freeList = invalidRef := by
  have size : nodeSize < 2 ^ 64 := by
    have := fits.block
    omega
  have field := get_init maxNode nodeSize before nonNull fits.nodes size
  refine ⟨⟨header_init _ _ _ nonNull, field _, field _, ?_, Nat.zero_le _⟩, field _⟩
  rw [field, Nat.zero_mul, Nat.add_zero]
  rfl

/-- What leaves the header leaves `Grown`. -/
theorem Grown.congr {pool' : FixedLenPool} (grown : Grown mem maxNode nodeSize pool k)
    (header : pool'.header = pool.header) (field : ∀ field, field ≠ .freeList →
      pool'.get field = pool.get field) : Grown mem maxNode nodeSize pool' k :=
  ⟨header.trans grown.header, (field _ (by decide)).trans grown.maxSize,
    (field _ (by decide)).trans grown.blockSize, (field _ (by decide)).trans grown.allocSize,
    grown.count⟩

theorem Grown.full (grown : Grown mem maxNode nodeSize pool k) (fits : Fits maxNode nodeSize)
    (full : ¬ pool.HasSpace) : k = maxNode := by
  refine le_antisymm grown.count (Nat.not_lt.mp fun more => full ?_)
  have step := Nat.mul_le_mul_right (getBlockSize nodeSize) (Nat.succ_le_of_lt more)
  have total := fits.total
  unfold HasSpace
  rw [grown.maxSize, grown.allocSize, grown.blockSize, fits.allocSize]
  rw [Nat.succ_mul] at step
  omega

/-- A pool meant for no node has no room. -/
theorem Grown.not_hasSpace (grown : Grown mem 0 nodeSize pool 0) (fits : Fits 0 nodeSize)
    (noWrap : sizeofHeader + getBlockSize nodeSize < 2 ^ 64) : ¬ pool.HasSpace := by
  obtain ⟨_, large, _⟩ := fits.blockSize
  unfold HasSpace
  rw [grown.maxSize, grown.allocSize, grown.blockSize, fits.allocSize, Nat.zero_mul, Nat.add_zero,
    Nat.mod_eq_of_lt noWrap]
  omega

/-- **A block from the unused end**, wherever `Deref` puts it. -/
theorem Grown.take (grown : Grown mem maxNode nodeSize pool k) (fits : Fits maxNode nodeSize)
    (nonNull : mem ≠ 0) (more : k < maxNode)
    (noWrap : mem + offsetOf (getBlockSize nodeSize) k + getBlockSize nodeSize < 2 ^ 64)
    (empty : pool.get .freeList = invalidRef) (zero : Bool) :
    pool.alloc zero
        = (mem + offsetOf (getBlockSize nodeSize) k + nodeOffset, pool.taken zero) ∧
      pool.deref (pool.get .allocSize) = mem + offsetOf (getBlockSize nodeSize) k ∧
      Grown mem maxNode nodeSize (pool.taken zero) (k + 1) ∧
      (pool.taken zero).get .freeList = invalidRef ∧
      (pool.taken zero).next (mem + offsetOf (getBlockSize nodeSize) k) = 0 ∧
      SameOutside mem (mem + sizeofHeader) pool.memory pool.grow.memory ∧
      SameOutside (mem + offsetOf (getBlockSize nodeSize) k)
        (mem + offsetOf (getBlockSize nodeSize) k + getBlockSize nodeSize) pool.grow.memory
        (pool.taken zero).memory := by
  obtain ⟨_, large, _⟩ := fits.blockSize
  have front := le_offsetOf (getBlockSize nodeSize) k
  have total := fits.total
  have step := Nat.mul_le_mul_right (getBlockSize nodeSize) (Nat.succ_le_of_lt more)
  rw [Nat.succ_mul] at step
  have space : pool.HasSpace := by
    unfold HasSpace
    rw [grown.maxSize, grown.allocSize, grown.blockSize, fits.allocSize]
    omega
  have block : 8 ≤ pool.get .blockSize := by
    rw [grown.blockSize]
    omega
  have here : pool.deref (pool.get .allocSize) = mem + offsetOf (getBlockSize nodeSize) k := by
    unfold deref
    rw [grown.header, grown.allocSize]
    exact Nat.mod_eq_of_lt ((Nat.le_add_right _ _).trans_lt noWrap)
  have behind : pool.header + sizeofHeader ≤ pool.deref (pool.get .allocSize) := by
    rw [here, grown.header]
    omega
  have given := alloc_taken zero empty space (by rw [here]; omega)
  have field := get_taken zero block behind
  have outside := taken_sameOutside zero block
  have next := @next_taken pool zero
  have moved : SameOutside _ _ pool.memory pool.grow.memory := grow_sameOutside
  rw [here, Nat.mod_eq_of_lt (by unfold nodeOffset; omega)] at given
  rw [here, grown.blockSize] at outside
  rw [here] at next
  rw [grown.header] at moved
  refine ⟨given, here, ⟨?_, ?_, ?_, ?_, more⟩, ?_, next, moved, outside⟩
  · rw [header_taken, grown.header]
  · rw [field, get_grow (by decide) (by decide), grown.maxSize]
  · rw [field, get_grow (by decide) (by decide), grown.blockSize]
  · rw [field, get_grow_allocSize, grown.allocSize, grown.blockSize, Nat.succ_mul,
      Nat.mod_eq_of_lt (by omega), Nat.add_assoc]
  · rw [field, get_grow (by decide) (by decide), empty]

/-- Where the place of the next block, if there is room for one, is inside the pool, there is a block left
and its place does not wrap. -/
theorem Grown.inside (grown : Grown mem maxNode nodeSize pool k) (fits : Fits maxNode nodeSize)
    (room : Room mem maxNode nodeSize) (fresh : pool.FreshInside) (space : pool.HasSpace) :
    offsetOf (getBlockSize nodeSize) k + getBlockSize nodeSize ≤ getAllocSize maxNode nodeSize ∧
      k < maxNode ∧ mem + offsetOf (getBlockSize nodeSize) k + getBlockSize nodeSize < 2 ^ 64 := by
  have room' := room.inside
  have inside := fresh.2 space
  rw [grown.maxSize, grown.blockSize, grown.allocSize] at inside
  have within : offsetOf (getBlockSize nodeSize) k + getBlockSize nodeSize
      ≤ getAllocSize maxNode nodeSize := inside
  exact ⟨within, lt_of_offsetOf fits within, by omega⟩

end Unused

end Yarf.Memory
