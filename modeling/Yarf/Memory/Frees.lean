/-
**What `Free` accepts.**

`IsValidBlock` compares the end of a block with the end of the pool. The end is a sum that wraps: a block at
the top of the address space ends near zero, and passes (`Overreaches`), the null pointer's among them.

* `Attached.valid_iff` — every other valid block is one of those the pool has given;
* `FreeInv.step` — what a `Free` does then, and what all of them keep;
* `free_exact_iff` — for every sequence of `Free`s.
-/

import Mathlib.Data.Nat.ModEq
import Yarf.Memory.Allocator

namespace Yarf.Memory

open Lib FixedLenPool

/-! ### A sequence of `Free`s -/

/-- A pool whose header has passed `CheckHeader`, its counters without overflow. -/
structure Attached (mem maxNode nodeSize : ℕ) (pool : FixedLenPool) : Prop where
  header : pool.header = mem
  data : pool.data = mem + sizeofHeader
  checked : pool.CheckHeader maxNode nodeSize
  sized : sizeofHeader + pool.get .allocNode * pool.get .blockSize < 2 ^ 64

/-- A pool and the pointers it has taken back. -/
structure FreeRun where
  pool : FixedLenPool
  freed : List ℕ

def FreeRun.free (run : FreeRun) (node : ℕ) : FreeRun :=
  ⟨(run.pool.free node).2, if (run.pool.free node).1 = 0 then node :: run.freed else run.freed⟩

theorem FreeRun.free_eq {run : FreeRun} {node : ℕ} {result : ℤ} {pool : FixedLenPool}
    (called : run.pool.free node = (result, pool)) :
    run.free node = ⟨pool, if result = 0 then node :: run.freed else run.freed⟩ := by
  unfold FreeRun.free
  rw [called]

/-- Calls of `Free` with any pointers, and no `Alloc` between them. -/
def freeMachine (start : FixedLenPool) : Machine FreeRun ℕ where
  init run := run = ⟨start, []⟩
  step run node next := node < 2 ^ 64 ∧ next = run.free node

namespace FixedLenPool

variable (pool : FixedLenPool)

/-- The `k`-th block, as `Free` counts them. -/
def blockAt (k : ℕ) : ℕ := pool.header + sizeofHeader + k * pool.get .blockSize

/-- A word `Free(node)` reads or writes: a field of the header, and `next` of a valid block. -/
def FreeTouches (node word : ℕ) : Prop :=
  (∃ field, word = pool.header + headerRecord.offset field) ∨
    pool.IsValidBlock (getBlock node) ∧ word = getBlock node

/-- The block of the pointer passes for valid although it does not end in the address space. -/
def Overreaches (node : ℕ) : Prop :=
  2 ^ 64 ≤ getBlock node + pool.get .blockSize ∧ pool.IsValidBlock (getBlock node)

instance (node : ℕ) : Decidable (pool.Overreaches node) := inferInstanceAs (Decidable (_ ∧ _))

end FixedLenPool

/-- **What a `Free` in a sequence owes**: it succeeds exactly on the node of a block that was given, was in
use at the start and has not been freed; it stays inside the pool; it changes nothing when it fails, and the
head of the free list and the block's `next` when it succeeds. -/
structure FreeExact (start : FixedLenPool) (run : FreeRun) (node : ℕ) : Prop where
  succeeds : (run.pool.free node).1 = 0 ↔ ∃ k < start.get .allocNode,
    getBlock node = start.blockAt k ∧ start.next (start.blockAt k) = 0 ∧ node ∉ run.freed
  inside : ∀ word, run.pool.FreeTouches node word →
    start.header ≤ word ∧ word + 8 ≤ start.header + start.get .maxSize
  refused : (run.pool.free node).1 = -1 → (run.pool.free node).2.memory = run.pool.memory
  changed : (run.pool.free node).1 = 0 → ∀ place,
    ¬(start.header + headerRecord.offset .freeList ≤ place ∧
      place < start.header + headerRecord.offset .freeList + 8) →
    ¬(getBlock node ≤ place ∧ place < getBlock node + 8) →
    (run.pool.free node).2.memory place = run.pool.memory place

/-! ### Valid blocks -/

section Valid

variable {mem maxNode nodeSize block node : ℕ} {pool pool' : FixedLenPool}

/-- `Init` on a pool that is there attaches it. -/
theorem attached_init {before : FixedLenPool} (room : Room mem maxNode nodeSize) (fits : Fits maxNode nodeSize)
    (checks : (before.init mem maxNode nodeSize true).1 = 0)
    (sized : sizeofHeader + (before.init mem maxNode nodeSize true).2.get .allocNode
      * (before.init mem maxNode nodeSize true).2.get .blockSize < 2 ^ 64) :
    Attached mem maxNode nodeSize (before.init mem maxNode nodeSize true).2 := by
  have inside := room.inside
  rw [fits.allocSize] at inside
  have front : (mem + sizeofHeader) % 2 ^ 64 = mem + sizeofHeader := Nat.mod_eq_of_lt (by omega)
  revert checks sized
  unfold init
  rw [if_neg room.nonNull]
  dsimp only
  rw [if_pos rfl]
  split
  · next checked => exact fun _ sized => ⟨rfl, front, checked, sized⟩
  · intro wrong
    cases wrong

variable (fits : Fits maxNode nodeSize) (room : Room mem maxNode nodeSize)
  (attached : Attached mem maxNode nodeSize pool)

include attached in
/-- What leaves the header but for the head of the free list leaves the pool attached. -/
theorem Attached.congr (header : pool'.header = pool.header) (data : pool'.data = pool.data)
    (field : ∀ field, field ≠ .freeList → pool'.get field = pool.get field) :
    Attached mem maxNode nodeSize pool' := by
  refine ⟨header.trans attached.header, data.trans attached.data, ?_, ?_⟩
  · unfold CheckHeader
    rw [field .maxSize (by decide), field .maxNode (by decide), field .allocSize (by decide),
      field .allocNode (by decide), field .nodeSize (by decide), field .blockSize (by decide)]
    exact attached.checked
  · rw [field .allocNode (by decide), field .blockSize (by decide)]
    exact attached.sized

include attached in
theorem Attached.blockSize : pool.get .blockSize = getBlockSize nodeSize := attached.checked.2.2.2.2.2

include fits attached in
theorem Attached.large : 8 ≤ pool.get .blockSize := by
  obtain ⟨-, large, -⟩ := fits.blockSize
  rw [attached.blockSize]
  omega

include attached in
theorem Attached.allocSize : pool.get .allocSize = sizeofHeader + pool.get .allocNode * pool.get .blockSize := by
  rw [← attached.checked.2.2.2.1, Nat.mod_eq_of_lt attached.sized]

include attached room in
/-- The part of the pool in use does not wrap. -/
theorem Attached.noWrap : mem + sizeofHeader + pool.get .allocNode * pool.get .blockSize < 2 ^ 64 := by
  have size := attached.allocSize
  have within := attached.checked.2.2.1
  have inside := room.inside
  omega

/-- Offsets of blocks are the header's size and some block sizes. -/
theorem dvd_of_mod_eq {offset size : ℕ} (congruent : (sizeofHeader + offset) % size = sizeofHeader % size) :
    size ∣ offset := by
  have divides := (Nat.modEq_iff_dvd' (Nat.le_add_right sizeofHeader offset)).mp congruent.symm
  rwa [Nat.add_sub_cancel_left] at divides

include attached room in
/-- A valid block begins where blocks begin. -/
theorem Attached.valid_begins (below : block < 2 ^ 64) (valid : pool.IsValidBlock block) :
    ∃ k, block = pool.blockAt k := by
  obtain ⟨behind, congruent⟩ : pool.data ≤ block ∧
      pool.ref block % pool.get .blockSize = sizeofHeader % pool.get .blockSize := by
    unfold IsValidBlock at valid
    push Not at valid
    exact ⟨valid.1, valid.2.2⟩
  have inside := room.inside
  have start := attached.data
  have header := attached.header
  have ref : pool.ref block = sizeofHeader + (block - pool.data) := by
    unfold FixedLenPool.ref
    omega
  rw [ref] at congruent
  obtain ⟨k, offset⟩ := dvd_of_mod_eq congruent
  refine ⟨k, ?_⟩
  unfold blockAt
  rw [Nat.mul_comm, ← offset]
  omega

/-- Blocks do not overlap. -/
theorem blockAt_add_le (pool : FixedLenPool) {i k : ℕ} (before : i < k) :
    pool.blockAt i + pool.get .blockSize ≤ pool.blockAt k := by
  have step : (i + 1) * pool.get .blockSize ≤ k * pool.get .blockSize := Nat.mul_le_mul_right _ before
  rw [Nat.add_mul, Nat.one_mul] at step
  unfold blockAt
  omega

include fits attached room in
/-- A block that ends in the address space is valid exactly when it is one of those the pool has given. -/
theorem Attached.valid_iff (ends : block + pool.get .blockSize < 2 ^ 64) :
    pool.IsValidBlock block ↔ ∃ k < pool.get .allocNode, block = pool.blockAt k := by
  have header := attached.header
  have start := attached.data
  have inside := room.inside
  have size := attached.allocSize
  have noWrap := attached.noWrap room
  have limit : (pool.header + pool.get .allocSize) % 2 ^ 64 = pool.header + pool.get .allocSize :=
    Nat.mod_eq_of_lt (by omega)
  constructor
  · intro valid
    obtain ⟨k, here⟩ := attached.valid_begins room (by omega) valid
    refine ⟨k, ?_, here⟩
    have before : block + pool.get .blockSize ≤ pool.header + pool.get .allocSize := by
      unfold IsValidBlock at valid
      push Not at valid
      rw [limit, Nat.mod_eq_of_lt ends] at valid
      exact valid.2.1
    have positive := attached.large fits
    unfold blockAt at here
    have blocks : (k + 1) * pool.get .blockSize ≤ pool.get .allocNode * pool.get .blockSize := by
      rw [Nat.add_mul, Nat.one_mul]
      omega
    exact Nat.lt_of_succ_le (Nat.le_of_mul_le_mul_right blocks (by omega))
  · rintro ⟨k, given, here⟩
    have within := blockAt_add_le pool given
    have front : pool.blockAt (pool.get .allocNode)
      = pool.header + sizeofHeader + pool.get .allocNode * pool.get .blockSize := rfl
    have ref : pool.ref block = sizeofHeader + k * pool.get .blockSize := by
      unfold FixedLenPool.ref
      unfold blockAt at here
      omega
    unfold IsValidBlock
    push Not
    rw [limit, Nat.mod_eq_of_lt ends, ref, Nat.add_mul_mod_self_right]
    refine ⟨?_, ?_, rfl⟩
    · unfold blockAt at here
      omega
    · omega

include fits attached room in
/-- A block that passes for valid and does not end in the address space lies behind the pool. -/
theorem Attached.overreaches (below : block < 2 ^ 64) (ends : 2 ^ 64 ≤ block + pool.get .blockSize)
    (valid : pool.IsValidBlock block) : mem + getAllocSize maxNode nodeSize ≤ block := by
  obtain ⟨k, here⟩ := attached.valid_begins room below valid
  have inside := room.inside
  have header := attached.header
  have beyond : maxNode ≤ k := by
    by_contra less
    have := blockAt_add_le pool (Nat.not_le.mp less)
    rw [fits.allocSize, ← attached.blockSize] at inside
    unfold blockAt at here this
    omega
  have blocks := Nat.mul_le_mul_right (pool.get .blockSize) beyond
  rw [fits.allocSize, ← attached.blockSize, here]
  unfold blockAt
  omega

include attached room in
theorem Attached.blockAt_inside {k : ℕ} (given : k < pool.get .allocNode) :
    mem + sizeofHeader ≤ pool.blockAt k ∧
      pool.blockAt k + pool.get .blockSize ≤ mem + getAllocSize maxNode nodeSize ∧
      mem + getAllocSize maxNode nodeSize < 2 ^ 64 := by
  have within := blockAt_add_le pool given
  have front : pool.blockAt (pool.get .allocNode)
    = pool.header + sizeofHeader + pool.get .allocNode * pool.get .blockSize := rfl
  have size := attached.allocSize
  have limit := attached.checked.2.2.1
  have header := attached.header
  refine ⟨?_, ?_, room.inside⟩
  · unfold blockAt
    omega
  · omega

include fits attached room in
/-- A pointer that does not overreach has a valid block exactly when it is one that the pool has given. -/
theorem Attached.valid_short (short : ¬pool.Overreaches node) :
    pool.IsValidBlock (getBlock node) ↔ ∃ k < pool.get .allocNode, getBlock node = pool.blockAt k := by
  by_cases ends : getBlock node + pool.get .blockSize < 2 ^ 64
  · exact attached.valid_iff fits room ends
  · refine iff_of_false (fun valid => short ⟨Nat.not_lt.mp ends, valid⟩) ?_
    rintro ⟨k, given, here⟩
    have inside := attached.blockAt_inside room given
    omega

include fits attached room in
theorem Attached.node_eq {k : ℕ} (pointer : node < 2 ^ 64) (given : k < pool.get .allocNode)
    (here : getBlock node = pool.blockAt k) : node = pool.blockAt k + nodeOffset := by
  have inside := attached.blockAt_inside room given
  have large := attached.large fits
  unfold getBlock at here
  unfold nodeOffset at *
  omega

end Valid

/-! ### A `Free` of the sequence -/

section Calls

variable {node : ℕ} {pool : FixedLenPool}

theorem getBlock_lt (node : ℕ) : getBlock node < 2 ^ 64 := Nat.mod_lt _ (by decide)

theorem free_used (used : pool.IsUsedBlock (getBlock node)) :
    pool.free node = (0, pool.linkFreeBlock (getBlock node)) := if_pos used

theorem free_unused (unused : ¬pool.IsUsedBlock (getBlock node)) :
    ∃ message, pool.free node = (-1, { pool with errorMsg := message }) := ⟨_, if_neg unused⟩

/-- `Free` returns 0 for the node of a block in use. -/
theorem free_eq_zero : (pool.free node).1 = 0 ↔ pool.IsUsedBlock (getBlock node) := by
  by_cases used : pool.IsUsedBlock (getBlock node)
  · rw [free_used used]
    exact iff_of_true rfl used
  · obtain ⟨message, refused⟩ := free_unused used
    rw [refused]
    exact iff_of_false (show (-1 : ℤ) ≠ 0 by decide) used

/-- A `Free` that fails leaves the memory. -/
theorem free_refused (refused : (pool.free node).1 = -1) : (pool.free node).2.memory = pool.memory := by
  by_cases used : pool.IsUsedBlock (getBlock node)
  · rw [free_used used] at refused
    cases refused
  · obtain ⟨message, refused⟩ := free_unused used
    rw [refused]

/-- What `Free` returns depends on the words it touches only. -/
theorem free_reads {pool' : FixedLenPool} (header : pool'.header = pool.header) (data : pool'.data = pool.data)
    (same : ∀ word, pool.FreeTouches node word → ∀ i < 8, pool'.memory (word + i) = pool.memory (word + i)) :
    (pool'.free node).1 = 0 ↔ (pool.free node).1 = 0 := by
  have word : ∀ {word width : ℕ}, width ≤ 8 → pool.FreeTouches node word →
      loadNat pool'.memory width word = loadNat pool.memory width word := by
    intro word width small touched
    unfold loadNat
    refine congrArg leNat (load_congr fun i bound => ?_)
    rw [span_apply]
    exact same word touched i (by omega)
  have field : ∀ field, pool'.get field = pool.get field := by
    intro field
    have small : headerRecord.width field ≤ 8 := by cases field <;> decide
    unfold FixedLenPool.get Record.load
    rw [header]
    exact word small (.inl ⟨field, rfl⟩)
  have valid : pool'.IsValidBlock (getBlock node) ↔ pool.IsValidBlock (getBlock node) := by
    unfold IsValidBlock FixedLenPool.ref
    rw [field, field, header, data]
  rw [free_eq_zero, free_eq_zero]
  unfold IsUsedBlock
  rw [valid]
  refine and_congr_right fun here => ?_
  unfold FixedLenPool.next
  rw [word le_rfl (.inr ⟨here, rfl⟩)]

/-- A link is written in the head of the free list and in the block. -/
theorem linkFreeBlock_memory {block place : ℕ}
    (list : ¬(pool.header + headerRecord.offset .freeList ≤ place ∧
      place < pool.header + headerRecord.offset .freeList + 8))
    (next : ¬(block ≤ place ∧ place < block + 8)) :
    (pool.linkFreeBlock block).memory place = pool.memory place := by
  have head : (pool.linkFreeBlock block).memory place
      = (pool.setNext block (pool.get .freeList)).memory place :=
    sameOutside_storeNat _ 8 (pool.header + headerRecord.offset .freeList) _ place (by omega)
  rw [head]
  exact sameOutside_storeNat _ 8 block _ place (by omega)

end Calls

/-- What the `Free`s keep: the header but for the head of the free list, and the blocks that were in use at
the start and have not been freed. -/
structure FreeInv (mem maxNode nodeSize : ℕ) (start : FixedLenPool) (run : FreeRun) : Prop where
  began : Attached mem maxNode nodeSize start
  attached : Attached mem maxNode nodeSize run.pool
  fields : ∀ field, field ≠ .freeList → run.pool.get field = start.get field
  listed : run.pool.get .freeList ≠ 0
  used : ∀ k < start.get .allocNode, run.pool.next (start.blockAt k) = 0 ↔
    start.next (start.blockAt k) = 0 ∧ start.blockAt k + nodeOffset ∉ run.freed

section Step

variable {mem maxNode nodeSize node : ℕ} {start : FixedLenPool} {run : FreeRun}
  (fits : Fits maxNode nodeSize) (room : Room mem maxNode nodeSize)
  (inv : FreeInv mem maxNode nodeSize start run)

theorem freeInv_start (attached : Attached mem maxNode nodeSize start) (listed : start.get .freeList ≠ 0) :
    FreeInv mem maxNode nodeSize start ⟨start, []⟩ := by
  refine ⟨attached, attached, fun _ _ => rfl, listed, fun k _ => ?_⟩
  exact (and_iff_left List.not_mem_nil).symm

include inv in
theorem FreeInv.blockAt (k : ℕ) : run.pool.blockAt k = start.blockAt k := by
  unfold FixedLenPool.blockAt
  rw [inv.attached.header, inv.began.header, inv.fields .blockSize (by decide)]

include inv in
/-- The test of a block reads nothing that a `Free` changes. -/
theorem FreeInv.valid_iff (block : ℕ) : run.pool.IsValidBlock block ↔ start.IsValidBlock block := by
  unfold IsValidBlock FixedLenPool.ref
  rw [inv.attached.data, inv.began.data, inv.attached.header, inv.began.header,
    inv.fields .allocSize (by decide), inv.fields .blockSize (by decide)]

include fits room inv in
/-- **The blocks in use.** -/
theorem FreeInv.isUsed_iff (pointer : node < 2 ^ 64) (short : ¬start.Overreaches node) :
    run.pool.IsUsedBlock (getBlock node) ↔ ∃ k < start.get .allocNode,
      getBlock node = start.blockAt k ∧ start.next (start.blockAt k) = 0 ∧ node ∉ run.freed := by
  unfold IsUsedBlock
  rw [inv.valid_iff, inv.began.valid_short fits room short]
  constructor
  · rintro ⟨⟨k, given, here⟩, free⟩
    rw [here, inv.used k given, ← inv.began.node_eq fits room pointer given here] at free
    exact ⟨k, given, here, free⟩
  · rintro ⟨k, given, here, free⟩
    refine ⟨⟨k, given, here⟩, ?_⟩
    rw [here, inv.used k given, ← inv.began.node_eq fits room pointer given here]
    exact free

include fits room inv in
/-- The link written into a block leaves the other blocks. -/
theorem FreeInv.next_link {j k : ℕ} (given : k < start.get .allocNode) :
    (run.pool.linkFreeBlock (start.blockAt j)).next (start.blockAt k)
      = if k = j then run.pool.get .freeList else run.pool.next (start.blockAt k) := by
  have large := inv.began.large fits
  have inside := inv.began.blockAt_inside room given
  have header := inv.attached.header
  have bound : run.pool.get .freeList < 2 ^ 64 := loadNat_lt _ 8 _
  have front : (run.pool.linkFreeBlock (start.blockAt j)).next (start.blockAt k)
      = (run.pool.setNext (start.blockAt j) (run.pool.get .freeList)).next (start.blockAt k) := by
    refine next_of_sameOutside (set_sameOutside _ _) (.inr ?_)
    rw [header_setNext, header]
    exact inside.1
  rw [front]
  split_ifs with same
  · rw [same]
    exact next_setNext _ _ bound
  · refine next_of_sameOutside (sameOutside_storeNat _ _ _ _) ?_
    rcases Nat.lt_or_gt_of_ne same with less | more
    · have := blockAt_add_le start less
      omega
    · have := blockAt_add_le start more
      omega

include fits room inv in
/-- A block in use is linked: it is marked as free, and the others keep their mark. -/
theorem FreeInv.link {k : ℕ} (given : k < start.get .allocNode) (here : getBlock node = start.blockAt k)
    (pointer : node < 2 ^ 64) :
    FreeInv mem maxNode nodeSize start ⟨run.pool.linkFreeBlock (getBlock node), node :: run.freed⟩ := by
  have inside := inv.began.blockAt_inside room given
  have header := inv.attached.header
  have behind : run.pool.header + sizeofHeader ≤ start.blockAt k := by omega
  have field := get_linkFreeBlock behind
  have same : ∀ field, field ≠ .freeList →
      (run.pool.linkFreeBlock (start.blockAt k)).get field = run.pool.get field := by
    intro other differ
    rw [field, if_neg differ]
  rw [here]
  refine ⟨inv.began, inv.attached.congr rfl rfl same, fun other differ => ?_, ?_, fun j other => ?_⟩
  · exact (same other differ).trans (inv.fields other differ)
  · rw [field, if_pos rfl]
    unfold FixedLenPool.ref
    unfold sizeofHeader at *
    omega
  · rw [inv.next_link fits room other]
    have own := inv.began.node_eq fits room pointer given here
    split_ifs with equal
    · refine iff_of_false inv.listed fun free => free.2 ?_
      rw [equal, ← own]
      exact List.mem_cons_self
    · have differ : start.blockAt j + nodeOffset ≠ node := by
        have large := inv.began.large fits
        rcases Nat.lt_or_gt_of_ne equal with less | more
        · have := blockAt_add_le start less
          omega
        · have := blockAt_add_le start more
          omega
      rw [inv.used j other, List.mem_cons, or_iff_right differ]

include fits room inv in
/-- A `Free` whose pointer does not overreach keeps the invariant. -/
theorem FreeInv.step (pointer : node < 2 ^ 64) (short : ¬start.Overreaches node) :
    FreeInv mem maxNode nodeSize start (run.free node) := by
  by_cases used : run.pool.IsUsedBlock (getBlock node)
  · obtain ⟨k, given, here, -⟩ := (inv.isUsed_iff fits room pointer short).mp used
    rw [FreeRun.free_eq (free_used used), if_pos rfl]
    exact inv.link fits room given here pointer
  · obtain ⟨message, refused⟩ := free_unused used
    rw [FreeRun.free_eq refused, if_neg (by decide)]
    exact ⟨inv.began, ⟨inv.attached.header, inv.attached.data, inv.attached.checked, inv.attached.sized⟩,
      inv.fields, inv.listed, inv.used⟩

include fits room inv in
theorem FreeInv.touched {word : ℕ} (short : ¬start.Overreaches node) (touched : run.pool.FreeTouches node word) :
    mem ≤ word ∧ word + 8 ≤ mem + getAllocSize maxNode nodeSize := by
  rcases touched with ⟨field, here⟩ | ⟨valid, here'⟩
  · have front : headerRecord.offset field + 8 ≤ sizeofHeader := by cases field <;> decide
    rw [here, inv.attached.header, fits.allocSize]
    omega
  · rw [inv.valid_iff] at valid
    obtain ⟨k, given, here⟩ := (inv.began.valid_short fits room short).mp valid
    have inside := inv.began.blockAt_inside room given
    have large := inv.began.large fits
    omega

include fits room inv in
/-- Such a `Free` does what it owes. -/
theorem FreeInv.exact (pointer : node < 2 ^ 64) (short : ¬start.Overreaches node) :
    FreeExact start run node := by
  have known := inv.isUsed_iff fits room pointer short
  have header : run.pool.header = start.header := inv.attached.header.trans inv.began.header.symm
  refine ⟨free_eq_zero.trans known, fun word touched => ?_, free_refused, fun taken place list next => ?_⟩
  · rw [inv.began.header, inv.began.checked.1]
    exact inv.touched fits room short touched
  · have used := free_eq_zero.mp taken
    rw [← header] at list
    rw [free_used used]
    exact linkFreeBlock_memory list next

include fits room inv in
/-- A `Free` whose pointer overreaches reads behind the pool. -/
theorem FreeInv.not_exact (far : start.Overreaches node) :
    ¬FreeExact start run node := by
  intro exact
  obtain ⟨ends, valid⟩ := far
  have touched := exact.inside (getBlock node) (.inr ⟨(inv.valid_iff _).mpr valid, rfl⟩)
  have behind := inv.began.overreaches fits room (getBlock_lt node) ends valid
  rw [inv.began.header, inv.began.checked.1] at touched
  omega

end Step

/-! ### Which sequences are exact -/

/-- **What `Free` takes back.** On every pool whose header has passed the check, with a free list that is not
the null offset, and for every sequence of `Free`s: each of them does what it owes, if and only if none of
their pointers overreaches. -/
theorem free_exact_iff (start : FixedLenPool) (mem maxNode nodeSize : ℕ) (fits : Fits maxNode nodeSize)
    (room : Room mem maxNode nodeSize) (attached : Attached mem maxNode nodeSize start)
    (listed : start.get .freeList ≠ 0) (steps : List (Machine.Step FreeRun ℕ)) (last : FreeRun)
    (run : (freeMachine start).traced.Run ⟨start, []⟩ steps last) :
    (∀ taken ∈ steps, FreeExact start taken.before taken.label) ↔
      ∀ taken ∈ steps, ¬start.Overreaches taken.label := by
  have keep : ∀ taken : Machine.Step FreeRun ℕ, FreeInv mem maxNode nodeSize start taken.before →
      (freeMachine start).step taken.before taken.label taken.after →
      ¬start.Overreaches taken.label → FreeInv mem maxNode nodeSize start taken.after := by
    rintro taken inv ⟨pointer, freed⟩ short
    rw [freed]
    exact inv.step fits room pointer short
  have meets : ∀ taken : Machine.Step FreeRun ℕ, FreeInv mem maxNode nodeSize start taken.before →
      (freeMachine start).step taken.before taken.label taken.after →
      (FreeExact start taken.before taken.label ↔ ¬start.Overreaches taken.label) := by
    rintro taken inv ⟨pointer, -⟩
    exact ⟨fun exact far => inv.not_exact fits room far exact, inv.exact fits room pointer⟩
  exact Machine.traced_iff keep meets (freeInv_start attached listed) run

/-- A sequence of two `Free`s of one pointer. -/
theorem freeMachine_twice (start : FixedLenPool) {node : ℕ} (pointer : node < 2 ^ 64) :
    (freeMachine start).traced.Run ⟨start, []⟩
      ([⟨⟨start, []⟩, node, FreeRun.free ⟨start, []⟩ node⟩] ++
        [⟨FreeRun.free ⟨start, []⟩ node, node, (FreeRun.free ⟨start, []⟩ node).free node⟩])
      ((FreeRun.free ⟨start, []⟩ node).free node) :=
  .snoc (.snoc (.nil _) ⟨rfl, rfl, pointer, rfl⟩) ⟨rfl, rfl, pointer, rfl⟩

/-- A pool at 4096 for one node of eight bytes, which it has given. -/
def givenPool : FixedLenPool := (freshClient 1).pool.grow

theorem givenPool_attached : Attached 4096 1 8 givenPool :=
  ⟨by decide +kernel, by decide +kernel, by decide +kernel, by decide +kernel⟩

/-- The node is taken back, once. -/
theorem free_exact_iff_twice : FreeExact givenPool ⟨givenPool, []⟩ 4160 ∧
    FreeExact givenPool (FreeRun.free ⟨givenPool, []⟩ 4160) 4160 := by
  have run := freeMachine_twice givenPool (by decide : 4160 < 2 ^ 64)
  have short : ¬givenPool.Overreaches 4160 := by decide +kernel
  have all := (free_exact_iff givenPool 4096 1 8 ⟨by decide, by decide, by decide⟩ ⟨by decide, by decide⟩
    givenPool_attached (by decide +kernel) _ _ run).mpr
    (List.forall_mem_append.mpr ⟨List.forall_mem_singleton.mpr short, List.forall_mem_singleton.mpr short⟩)
  obtain ⟨first, second⟩ := List.forall_mem_append.mp all
  exact ⟨first _ List.mem_cons_self, second _ List.mem_cons_self⟩

/-- `Free` of the null pointer in a fresh pool reads the last word of the address space. -/
theorem free_exact_fails_null : Attached 4096 1 8 (freshClient 1).pool ∧
    (freshClient 1).pool.get .freeList ≠ 0 ∧ (freshClient 1).pool.FreeTouches 0 (2 ^ 64 - 8) ∧
    ¬FreeExact (freshClient 1).pool ⟨(freshClient 1).pool, []⟩ 0 := by
  have attached : Attached 4096 1 8 (freshClient 1).pool :=
    ⟨by decide +kernel, by decide +kernel, by decide +kernel, by decide +kernel⟩
  have valid : (freshClient 1).pool.IsValidBlock (getBlock 0) := by decide +kernel
  have touched : (freshClient 1).pool.FreeTouches 0 (2 ^ 64 - 8) := .inr ⟨valid, by decide⟩
  refine ⟨attached, by decide +kernel, touched, fun exact => ?_⟩
  have inside := (exact.inside _ touched).2
  revert inside
  decide +kernel

end Yarf.Memory
