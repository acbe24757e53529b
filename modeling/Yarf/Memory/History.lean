/-
**The header of a pool through its history.**

A process that comes back to its memory finds the header by `CheckHeader`, which computes it again from the
parameters. `historyMachine` is a pool whose blocks hold anything: between the calls, whatever lies behind or
before the header may change.

* `chooseBlock_spec`, `alloc_spec` — where the block of an `Alloc` comes from, and what it does with it;
* `Kept.step` — what every call leaves of the header;
* `header_survives` — after any history, `Init` finds the pool exactly with its own parameters.
-/

import Yarf.Memory.Frees

namespace Yarf.Memory

open Lib FixedLenPool

/-! ### Histories -/

inductive HistoryOp
  | alloc (zero : Bool)
  | free (node : ℕ)
  /-- Memory outside the header is whatever others make of it. -/
  | scribble (memory : ℕ → UInt8)

/-- The calls on a pool from `Init` on; the end of the block handed to `Free` is in the address space. -/
def historyMachine (mem maxNode nodeSize : ℕ) : Machine FixedLenPool HistoryOp where
  init pool := ∃ before : FixedLenPool, pool = (before.init mem maxNode nodeSize false).2
  step last op next := match op with
    | .alloc zero => next = (last.alloc zero).2
    | .free node => getBlock node + last.get .blockSize < 2 ^ 64 ∧ next = (last.free node).2
    | .scribble memory =>
      (∀ place, mem ≤ place → place < mem + sizeofHeader → memory place = last.memory place) ∧
        next = { last with memory := memory }

/-- No size and no offset that the pool computes overflows. -/
structure NoOverflow (mem maxNode nodeSize : ℕ) : Prop where
  fits : Fits maxNode nodeSize
  room : Room mem maxNode nodeSize
  more : sizeofHeader + (maxNode + 1) * getBlockSize nodeSize < 2 ^ 64
  offsets : ∀ k < maxNode, mem + offsetOf (getBlockSize nodeSize) k + getBlockSize nodeSize < 2 ^ 64

/-- What is left of the header: the counters belong together, and the other fields but the head of the free list
are as `Init` has stored them. -/
structure Kept (mem maxNode nodeSize : ℕ) (pool : FixedLenPool) : Prop where
  header : pool.header = mem
  data : pool.data = mem + sizeofHeader
  fixed : ∀ field, field ≠ .allocSize → field ≠ .allocNode → field ≠ .freeList →
    pool.get field = initial maxNode nodeSize field
  size : pool.get .allocSize = sizeofHeader + pool.get .allocNode * getBlockSize nodeSize
  count : pool.get .allocNode ≤ maxNode

/-! ### The calls -/

namespace FixedLenPool

variable {pool : FixedLenPool} {p : ℕ} {listed chosen : FixedLenPool} {zero : Bool}

/-- Taking a block off the free list changes the head of the list at most. -/
theorem getFreeBlock_spec (pool : FixedLenPool) : ∃ p listed, pool.getFreeBlock = (p, listed) ∧
    listed.header = pool.header ∧ listed.data = pool.data ∧
      ∀ field, field ≠ .freeList → listed.get field = pool.get field := by
  unfold getFreeBlock
  by_cases empty : pool.get .freeList = invalidRef
  · rw [if_pos empty]
    exact ⟨_, _, rfl, rfl, rfl, fun _ _ => rfl⟩
  · rw [if_neg empty]
    refine ⟨_, _, rfl, rfl, rfl, fun field other => ?_⟩
    rw [get_set, if_neg other]

/-- The block of an `Alloc` comes from the unused end, or it is a valid one from the free list. -/
theorem chooseBlock_spec (free : pool.getFreeBlock = (p, listed)) :
    (listed.HasSpace ∧ pool.chooseBlock = (listed.deref (listed.get .allocSize), listed.grow)) ∨
      (p ≠ 0 ∧ listed.IsValidBlock p ∧ pool.chooseBlock = (p, listed)) ∨
      ∃ message, pool.chooseBlock = (0, { listed with errorMsg := message }) := by
  unfold chooseBlock
  rw [free]
  dsimp only
  by_cases none : p = 0
  · rw [if_pos none]
    by_cases space : listed.HasSpace
    · exact .inl ⟨space, if_pos space⟩
    · exact .inr (.inr ⟨_, if_neg space⟩)
  · rw [if_neg none]
    by_cases valid : listed.IsValidBlock p
    · exact .inr (.inl ⟨none, valid, if_pos valid⟩)
    · exact .inr (.inr ⟨_, if_neg valid⟩)

/-- `Alloc` gives no node, or clears the block it has chosen. -/
theorem alloc_spec (chose : pool.chooseBlock = (p, chosen)) : (pool.alloc zero).2 =
    if p = 0 then chosen else (if zero then chosen.zeroBlock p else chosen).setNext p 0 := by
  unfold alloc
  rw [chose]
  dsimp only
  split_ifs <;> rfl

theorem get_grow_allocNode : pool.grow.get .allocNode = (pool.get .allocNode + 1) % 2 ^ 32 := by
  have four : 256 ^ headerRecord.width .allocNode = 2 ^ 32 := by decide
  unfold grow
  rw [get_set, if_pos rfl, four, get_set, if_neg (by decide)]

end FixedLenPool

/-! ### What they leave -/

section Step

variable {mem maxNode nodeSize p : ℕ} {pool pool' : FixedLenPool} (sizes : NoOverflow mem maxNode nodeSize)
  (kept : Kept mem maxNode nodeSize pool)

include kept in
theorem Kept.blockSize : pool.get .blockSize = getBlockSize nodeSize :=
  kept.fixed .blockSize (by decide) (by decide) (by decide)

include sizes kept in
theorem Kept.allocSize_le : pool.get .allocSize ≤ getAllocSize maxNode nodeSize := by
  have blocks := Nat.mul_le_mul_right (getBlockSize nodeSize) kept.count
  rw [kept.size, sizes.fits.allocSize]
  omega

include kept in
theorem Kept.congr (header : pool'.header = pool.header) (data : pool'.data = pool.data)
    (field : ∀ field, field ≠ .freeList → pool'.get field = pool.get field) :
    Kept mem maxNode nodeSize pool' := by
  refine ⟨header.trans kept.header, data.trans kept.data, fun other size node list => ?_, ?_, ?_⟩
  · exact (field other list).trans (kept.fixed other size node list)
  · rw [field _ (by decide), field _ (by decide)]
    exact kept.size
  · rw [field _ (by decide)]
    exact kept.count

include sizes in
theorem kept_init (before : FixedLenPool) :
    Kept mem maxNode nodeSize (before.init mem maxNode nodeSize false).2 := by
  have inside := sizes.room.inside
  have size : nodeSize < 2 ^ 64 := by
    have := sizes.fits.block
    omega
  have field := get_init maxNode nodeSize before sizes.room.nonNull sizes.fits.nodes size
  rw [sizes.fits.allocSize] at inside
  refine ⟨header_init _ _ _ sizes.room.nonNull, ?_, fun other _ _ _ => field other, ?_, ?_⟩
  · rw [data_init _ _ _ sizes.room.nonNull, Nat.mod_eq_of_lt (by omega)]
  · rw [field, field]
    exact (Nat.add_eq_left.mpr (Nat.zero_mul _)).symm
  · rw [field]
    exact Nat.zero_le _

include sizes kept in
/-- Room for a block means that not all of them have been given. -/
theorem Kept.more (space : pool.HasSpace) : pool.get .allocNode < maxNode := by
  have limit : pool.get .maxSize = sizeofHeader + maxNode * getBlockSize nodeSize :=
    (kept.fixed .maxSize (by decide) (by decide) (by decide)).trans sizes.fits.allocSize
  have large := sizes.fits.blockSize.2.1
  have more := sizes.more
  have grown : pool.get .allocSize + pool.get .blockSize
      = sizeofHeader + (pool.get .allocNode + 1) * getBlockSize nodeSize := by
    rw [kept.size, kept.blockSize, Nat.add_mul, Nat.one_mul]
    omega
  have below := Nat.mul_le_mul_right (getBlockSize nodeSize) (Nat.add_le_add_right kept.count 1)
  unfold HasSpace at space
  rw [grown, limit, Nat.mod_eq_of_lt (by omega)] at space
  have blocks := Nat.le_of_add_le_add_left space
  exact Nat.le_of_mul_le_mul_right blocks (by omega)

include sizes kept in
/-- A block from the unused end is counted in both counters. -/
theorem Kept.grow (space : pool.HasSpace) : Kept mem maxNode nodeSize pool.grow := by
  have more := kept.more sizes space
  have nodes := sizes.fits.nodes
  have below := Nat.mul_le_mul_right (getBlockSize nodeSize) (Nat.add_le_add_right kept.count 1)
  have total := sizes.more
  have node : pool.grow.get .allocNode = pool.get .allocNode + 1 := by
    rw [get_grow_allocNode, Nat.mod_eq_of_lt (by omega)]
  refine ⟨kept.header, kept.data, fun other size node list => ?_, ?_, ?_⟩
  · exact (get_grow size node).trans (kept.fixed other size node list)
  · rw [get_grow_allocSize, node, kept.size, kept.blockSize, Nat.add_assoc, Nat.add_mul, Nat.one_mul]
    rw [Nat.add_mul, Nat.one_mul] at below
    exact Nat.mod_eq_of_lt (by omega)
  · omega

include sizes kept in
/-- The place of a block from the unused end lies behind the header. -/
theorem Kept.fresh_behind (space : pool.HasSpace) :
    mem + sizeofHeader ≤ pool.deref (pool.get .allocSize) := by
  have offset := sizes.offsets _ (kept.more sizes space)
  have front := le_offsetOf (getBlockSize nodeSize) (pool.get .allocNode)
  unfold deref
  unfold offsetOf at offset front
  rw [kept.header, kept.size]
  omega

include sizes kept in
/-- A block behind the header is cleared. -/
theorem Kept.clear (zero : Bool) (behind : mem + sizeofHeader ≤ p) :
    Kept mem maxNode nodeSize ((if zero then pool.zeroBlock p else pool).setNext p 0) := by
  have large := sizes.fits.blockSize.2.1
  have same := clear_sameOutside zero p (by rw [kept.blockSize]; omega)
  have base : ((if zero then pool.zeroBlock p else pool).setNext p 0).header = pool.header := by
    cases zero <;> simp
  have first : ((if zero then pool.zeroBlock p else pool).setNext p 0).data = pool.data := by
    cases zero <;> simp
  have front : pool.header + sizeofHeader ≤ p := by rwa [kept.header]
  exact kept.congr base first fun field _ => get_of_sameOutside base same (.inl front) field

include kept in
theorem Kept.behind {block : ℕ} (valid : pool.IsValidBlock block) : mem + sizeofHeader ≤ block := by
  rw [← kept.data]
  exact Nat.not_lt.mp fun less => valid (.inl less)

include sizes kept in
theorem Kept.alloc (zero : Bool) : Kept mem maxNode nodeSize (pool.alloc zero).2 := by
  obtain ⟨p, listed, free, header, data, field⟩ := getFreeBlock_spec pool
  have kept' := kept.congr header data field
  rcases chooseBlock_spec free with ⟨space, chose⟩ | ⟨some, valid, chose⟩ | ⟨message, chose⟩
  · have grown := kept'.grow sizes space
    have behind := kept'.fresh_behind sizes space
    rw [alloc_spec chose]
    by_cases null : listed.deref (listed.get .allocSize) = 0
    · rw [if_pos null]
      exact grown
    · rw [if_neg null]
      exact grown.clear sizes zero behind
  · rw [alloc_spec chose, if_neg some]
    exact kept'.clear sizes zero (kept'.behind valid)
  · rw [alloc_spec chose, if_pos rfl]
    exact ⟨kept'.header, kept'.data, kept'.fixed, kept'.size, kept'.count⟩

include kept in
theorem Kept.free (node : ℕ) : Kept mem maxNode nodeSize (pool.free node).2 := by
  by_cases used : pool.IsUsedBlock (getBlock node)
  · have behind : pool.header + sizeofHeader ≤ getBlock node := by
      rw [kept.header]
      exact kept.behind used.1
    rw [free_used used]
    refine kept.congr rfl rfl fun field other => ?_
    rw [get_linkFreeBlock behind, if_neg other]
  · obtain ⟨message, refused⟩ := free_unused used
    rw [refused]
    exact ⟨kept.header, kept.data, kept.fixed, kept.size, kept.count⟩

include kept in
/-- What lies outside the header is no part of it. -/
theorem Kept.scribble {memory : ℕ → UInt8}
    (same : ∀ place, mem ≤ place → place < mem + sizeofHeader → memory place = pool.memory place) :
    Kept mem maxNode nodeSize { pool with memory := memory } := by
  refine kept.congr rfl rfl fun field _ => ?_
  have inside := headerRecord.inside field
  have fits : headerRecord.size = sizeofHeader := rfl
  have header := kept.header
  refine congrArg leNat (load_congr fun i bound => ?_)
  rw [span_apply]
  exact same _ (by dsimp only; omega) (by dsimp only; omega)

include sizes kept in
/-- **What every call leaves of the header.** -/
theorem Kept.step {op : HistoryOp} (taken : (historyMachine mem maxNode nodeSize).step pool op pool') :
    Kept mem maxNode nodeSize pool' := by
  cases op with
  | alloc zero =>
    have here : pool' = (pool.alloc zero).2 := taken
    rw [here]
    exact kept.alloc sizes zero
  | free node =>
    have here : pool' = (pool.free node).2 := taken.2
    rw [here]
    exact kept.free node
  | scribble memory =>
    have here : pool' = { pool with memory := memory } := taken.2
    rw [here]
    exact kept.scribble taken.1

include sizes kept in
/-- A later `Init` finds the pool with the parameters it was set up with, and with no others. -/
theorem Kept.attach {later : FixedLenPool} (same : later.memory = pool.memory) (m s : ℕ) :
    (later.init mem m s true).1 = 0 ↔ m = maxNode ∧ s = nodeSize := by
  have field : ∀ field, ({ later with header := mem } : FixedLenPool).get field = pool.get field := by
    intro field
    unfold FixedLenPool.get
    rw [same, kept.header]
  have checks : ({ later with header := mem } : FixedLenPool).CheckHeader m s ↔ m = maxNode ∧ s = nodeSize := by
    have node : pool.get .maxNode = maxNode := kept.fixed .maxNode (by decide) (by decide) (by decide)
    have size : pool.get .nodeSize = nodeSize := kept.fixed .nodeSize (by decide) (by decide) (by decide)
    have limit : pool.get .maxSize = getAllocSize maxNode nodeSize :=
      kept.fixed .maxSize (by decide) (by decide) (by decide)
    have within := kept.allocSize_le sizes
    have total := sizes.room.inside
    unfold CheckHeader
    simp only [field]
    constructor
    · rintro ⟨-, sameNode, -, -, sameSize, -⟩
      exact ⟨sameNode.symm.trans node, sameSize.symm.trans size⟩
    · rintro ⟨rfl, rfl⟩
      refine ⟨limit, node, within, ?_, size, kept.blockSize⟩
      rw [kept.blockSize, ← kept.size]
      exact Nat.mod_eq_of_lt (by omega)
  rw [← checks]
  unfold init
  rw [if_neg sizes.room.nonNull]
  dsimp only
  rw [if_pos rfl]
  by_cases passes : ({ later with header := mem } : FixedLenPool).CheckHeader m s
  · rw [if_pos passes]
    exact iff_of_true rfl passes
  · rw [if_neg passes]
    exact iff_of_false (show (-1 : ℤ) ≠ 0 by decide) passes

end Step

/-! ### Every history -/

/-- **The header survives any history.** For every pool whose sizes and offsets do not overflow, and every run
of `Alloc` and `Free` from `Init` on, with anything in the memory outside the header: the counters stay within
their bounds, the other fields are as `Init` has stored them, and a later `Init` finds the pool exactly with
its own parameters. -/
theorem header_survives (mem maxNode nodeSize : ℕ) (sizes : NoOverflow mem maxNode nodeSize)
    (pool : FixedLenPool) (reached : (historyMachine mem maxNode nodeSize).Reachable pool) :
    (pool.get .allocSize = sizeofHeader + pool.get .allocNode * pool.get .blockSize ∧
      pool.get .allocSize ≤ pool.get .maxSize ∧ pool.get .allocNode ≤ maxNode) ∧
    (∀ field, field ≠ .allocSize → field ≠ .allocNode → field ≠ .freeList →
      pool.get field = initial maxNode nodeSize field) ∧
    ∀ later : FixedLenPool, later.memory = pool.memory → ∀ m s,
      ((later.init mem m s true).1 = 0 ↔ m = maxNode ∧ s = nodeSize) := by
  have base : ∀ start, (historyMachine mem maxNode nodeSize).init start → Kept mem maxNode nodeSize start := by
    rintro _ ⟨before, rfl⟩
    exact kept_init sizes before
  have kept : Kept mem maxNode nodeSize pool :=
    reached.invariant base fun last op next _ kept taken => kept.step sizes taken
  have limit := kept.fixed .maxSize (by decide) (by decide) (by decide)
  refine ⟨⟨?_, ?_, kept.count⟩, kept.fixed, fun later same m s => kept.attach sizes same m s⟩
  · rw [kept.blockSize]
    exact kept.size
  · rw [limit]
    exact kept.allocSize_le sizes

/-- A pool for a thousand nodes is found again after its first `Alloc`. -/
theorem header_survives_alloc : (((freshClient 1000).pool.alloc true).2.init 4096 1000 8 true).1 = 0 := by
  have size : getBlockSize 8 = 16 := by decide
  have offsets : ∀ k < 1000, 4096 + offsetOf (getBlockSize 8) k + getBlockSize 8 < 2 ^ 64 := by
    intro k bound
    rw [size]
    unfold offsetOf sizeofHeader
    omega
  have sizes : NoOverflow 4096 1000 8 :=
    ⟨⟨by decide, by decide, by decide⟩, ⟨by decide, by decide⟩, by decide, offsets⟩
  have start : (historyMachine 4096 1000 8).Reachable (freshClient 1000).pool :=
    Machine.Reachable.start ⟨⟨fun _ => 0, 0, 0, .none⟩, rfl⟩
  have given : (historyMachine 4096 1000 8).step (freshClient 1000).pool (.alloc true)
    ((freshClient 1000).pool.alloc true).2 := Eq.refl _
  exact ((header_survives 4096 1000 8 sizes _ (start.next given)).2.2 _ (Eq.refl _) 1000 8).mpr ⟨rfl, rfl⟩

end Yarf.Memory
