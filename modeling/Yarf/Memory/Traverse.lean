/-
**The traversal of the used blocks** (`fixed_len_pool.h`).

`GetNextUsedBlock` is a loop over `GetNextBlock`, and a traversal calls it until it returns the null pointer,
which is also where it starts. The end is found by `IsValidBlock` alone, whose sum wraps: behind the last block
the next one is refused only when its end is in the address space.

* `getNextBlock_cursor` — one step, from block to block;
* `getNextUsedBlock_spec`, `usedBlocks_spec` — what the two loops find, and that they end;
* `readBlocks_spec` — what they read;
* `traversal_iff` — which pools are traversed as they should be.
-/

import Yarf.Memory.Frees

namespace Yarf.Memory

open Lib FixedLenPool

namespace FixedLenPool

variable (pool : FixedLenPool)

/-- `GetFirstBlock` -/
def getFirstBlock : ℕ := if pool.IsValidBlock pool.data then pool.data else 0

/-- `GetNextBlock(block)` -/
def getNextBlock (block : ℕ) : ℕ :=
  if block = 0 then pool.getFirstBlock
  else
    let next := (block + pool.get .blockSize) % 2 ^ 64
    if pool.IsValidBlock next then next else 0

/-- `GetNextUsedBlock(block)` -/
def getNextUsedBlock : (fuel block : ℕ) → Option ℕ
  | 0, _ => none
  | fuel + 1, block =>
    if pool.getNextBlock block = 0 then some 0
    else if pool.next (pool.getNextBlock block) = 0 then some (pool.getNextBlock block)
    else getNextUsedBlock fuel (pool.getNextBlock block)

/-- The blocks whose `next` one call of `GetNextUsedBlock` reads. -/
def readBlocks : (fuel block : ℕ) → List ℕ
  | 0, _ => []
  | fuel + 1, block =>
    if pool.getNextBlock block = 0 then []
    else pool.getNextBlock block ::
      if pool.next (pool.getNextBlock block) = 0 then [] else readBlocks fuel (pool.getNextBlock block)

/-- The blocks that `block = GetNextUsedBlock(block)` goes through until it is null. -/
def usedBlocks : (fuel block : ℕ) → Option (List ℕ)
  | 0, _ => none
  | fuel + 1, block => (pool.getNextUsedBlock (fuel + 1) block).bind fun found =>
    if found = 0 then some [] else (usedBlocks fuel found).map (found :: ·)

/-- **What the traversal owes**: it ends, it goes through exactly the given blocks that are in use, in the order
of their addresses, and every block that one of its calls reads is one that has been given. -/
structure Traversed : Prop where
  visits : ∃ fuel blocks, pool.usedBlocks fuel 0 = some blocks ∧ blocks.Pairwise (· < ·) ∧
    ∀ block, block ∈ blocks ↔ ∃ k < pool.get .allocNode, block = pool.blockAt k ∧ pool.next block = 0
  reads : ∀ fuel blocks, pool.usedBlocks fuel 0 = some blocks → ∀ start ∈ 0 :: blocks,
    ∀ steps, ∀ block ∈ pool.readBlocks steps start, ∃ k < pool.get .allocNode, block = pool.blockAt k

/-- Where a traversal stands before the `k`-th block. -/
def cursor : ℕ → ℕ
  | 0 => 0
  | k + 1 => pool.blockAt k

end FixedLenPool

/-! ### One step -/

section Step

variable {mem maxNode nodeSize k : ℕ} {pool : FixedLenPool} (fits : Fits maxNode nodeSize)
  (room : Room mem maxNode nodeSize) (attached : Attached mem maxNode nodeSize pool)

/-- The end of the block behind the last one is in the address space. -/
def EndsInside (pool : FixedLenPool) : Prop := pool.header + pool.get .allocSize + pool.get .blockSize < 2 ^ 64

include attached in
theorem Attached.end_eq : pool.header + pool.get .allocSize = pool.blockAt (pool.get .allocNode) := by
  rw [attached.allocSize, ← Nat.add_assoc]
  rfl

theorem blockAt_pos (pool : FixedLenPool) (k : ℕ) : 0 < pool.blockAt k := by
  unfold blockAt sizeofHeader
  omega

theorem blockAt_succ (pool : FixedLenPool) (k : ℕ) :
    pool.blockAt (k + 1) = pool.blockAt k + pool.get .blockSize := by
  unfold blockAt
  rw [Nat.add_mul, Nat.one_mul, Nat.add_assoc _ (k * _)]

include attached room in
/-- The end of the part in use is in the address space. -/
theorem Attached.blockAt_lt (given : k ≤ pool.get .allocNode) : pool.blockAt k < 2 ^ 64 := by
  have noWrap := attached.noWrap room
  have blocks := Nat.mul_le_mul_right (pool.get .blockSize) given
  have header := attached.header
  unfold blockAt
  omega

include attached room in
/-- From the place before the `k`-th block, `GetNextBlock` comes to it if it is valid. -/
theorem Attached.getNextBlock_cursor (given : k ≤ pool.get .allocNode) : pool.getNextBlock (pool.cursor k)
    = if pool.IsValidBlock (pool.blockAt k) then pool.blockAt k else 0 := by
  have below := attached.blockAt_lt room given
  unfold getNextBlock
  cases k with
  | zero =>
    have first : pool.data = pool.blockAt 0 := by
      rw [attached.data, ← attached.header]
      exact (Nat.add_zero _).symm.trans (congrArg _ (Nat.zero_mul _).symm)
    have null : pool.cursor 0 = 0 := rfl
    unfold getFirstBlock
    rw [if_pos null, first]
  | succ k =>
    have some : pool.cursor (k + 1) ≠ 0 := (blockAt_pos pool k).ne'
    have here : (pool.cursor (k + 1) + pool.get .blockSize) % 2 ^ 64 = pool.blockAt (k + 1) := by
      rw [blockAt_succ] at below ⊢
      exact Nat.mod_eq_of_lt below
    rw [if_neg some]
    dsimp only
    rw [here]

include fits room attached in
theorem Attached.valid_given (given : k < pool.get .allocNode) : pool.IsValidBlock (pool.blockAt k) := by
  have next := attached.blockAt_lt room (Nat.succ_le_of_lt given)
  rw [blockAt_succ] at next
  exact (attached.valid_iff fits room next).mpr ⟨k, given, rfl⟩

include fits room attached in
/-- The block behind the last one is refused when it ends in the address space, and only then. -/
theorem Attached.valid_end : pool.IsValidBlock (pool.blockAt (pool.get .allocNode)) ↔ ¬EndsInside pool := by
  have limit := attached.end_eq
  have below := attached.blockAt_lt room le_rfl
  have size := getBlockSize_lt nodeSize
  have large := attached.large fits
  unfold EndsInside
  rw [limit]
  constructor
  · intro valid ends
    obtain ⟨j, before, same⟩ := (attached.valid_iff fits room ends).mp valid
    have := blockAt_add_le pool before
    omega
  · intro wraps
    have ref : pool.ref (pool.blockAt (pool.get .allocNode))
        = sizeofHeader + pool.get .allocNode * pool.get .blockSize := by
      unfold FixedLenPool.ref
      unfold blockAt at below ⊢
      omega
    have first := attached.data
    have header := attached.header
    rw [← attached.blockSize] at size
    unfold IsValidBlock
    push Not
    rw [limit, ref, Nat.add_mul_mod_self_right]
    refine ⟨?_, ?_, rfl⟩
    · unfold blockAt
      omega
    · omega

include fits room attached in
theorem Attached.getNextBlock_given (given : k < pool.get .allocNode) :
    pool.getNextBlock (pool.cursor k) = pool.blockAt k := by
  rw [attached.getNextBlock_cursor room given.le, if_pos (attached.valid_given fits room given)]

include fits room attached in
theorem Attached.getNextBlock_last (ends : EndsInside pool) :
    pool.getNextBlock (pool.cursor (pool.get .allocNode)) = 0 := by
  have refused := not_not_intro ends
  rw [← attached.valid_end fits room] at refused
  rw [attached.getNextBlock_cursor room le_rfl, if_neg refused]

end Step

/-! ### The loops -/

section Loops

variable {mem maxNode nodeSize k fuel found : ℕ} {blocks : List ℕ} {pool : FixedLenPool}
  (fits : Fits maxNode nodeSize) (room : Room mem maxNode nodeSize) (attached : Attached mem maxNode nodeSize pool)
  (ends : EndsInside pool)

/-- The first block in use from the `k`-th on, or none. -/
def FirstUsed (pool : FixedLenPool) (k found : ℕ) : Prop :=
  (found = 0 ∧ ∀ i, k ≤ i → i < pool.get .allocNode → pool.next (pool.blockAt i) ≠ 0) ∨
    ∃ j, k ≤ j ∧ j < pool.get .allocNode ∧ found = pool.blockAt j ∧ pool.next (pool.blockAt j) = 0 ∧
      ∀ i, k ≤ i → i < j → pool.next (pool.blockAt i) ≠ 0

theorem FirstUsed.skip (later : FirstUsed pool (k + 1) found) (free : pool.next (pool.blockAt k) ≠ 0) :
    FirstUsed pool k found := by
  have skip : ∀ i, k ≤ i → k + 1 ≤ i ∨ pool.next (pool.blockAt i) ≠ 0 := by
    intro i from'
    rcases Nat.eq_or_lt_of_le from' with rfl | behind
    · exact .inr free
    · exact .inl behind
  rcases later with ⟨null, none⟩ | ⟨j, from', given, here, used, first⟩
  · refine .inl ⟨null, fun i from' given => ?_⟩
    exact (skip i from').elim (fun behind => none i behind given) id
  · refine .inr ⟨j, by omega, given, here, used, fun i from'' before => ?_⟩
    exact (skip i from'').elim (fun behind => first i behind before) id

include fits room attached ends in
/-- **What `GetNextUsedBlock` finds.** -/
theorem getNextUsedBlock_spec (within : k ≤ pool.get .allocNode)
    (result : pool.getNextUsedBlock fuel (pool.cursor k) = some found) : FirstUsed pool k found := by
  induction fuel generalizing k with
  | zero => cases result
  | succ fuel ih =>
    unfold getNextUsedBlock at result
    rcases Nat.eq_or_lt_of_le within with rfl | given
    · rw [if_pos (attached.getNextBlock_last fits room ends)] at result
      obtain rfl := Option.some.inj result
      exact .inl ⟨rfl, fun i from' given => absurd from' (Nat.not_le.mpr given)⟩
    · rw [attached.getNextBlock_given fits room given, if_neg (blockAt_pos pool k).ne'] at result
      by_cases used : pool.next (pool.blockAt k) = 0
      · rw [if_pos used] at result
        obtain rfl := Option.some.inj result
        exact .inr ⟨k, le_rfl, given, rfl, used, fun i from' before => absurd from' (Nat.not_le.mpr before)⟩
      · rw [if_neg used] at result
        have later : pool.getNextUsedBlock fuel (pool.cursor (k + 1)) = some found := result
        exact (ih given later).skip used

include fits room attached ends in
/-- It ends after as many rounds as there are blocks left. -/
theorem getNextUsedBlock_ends (within : k ≤ pool.get .allocNode) (enough : pool.get .allocNode - k < fuel) :
    ∃ found, pool.getNextUsedBlock fuel (pool.cursor k) = some found := by
  induction fuel generalizing k with
  | zero => exact absurd enough (Nat.not_lt_zero _)
  | succ fuel ih =>
    unfold getNextUsedBlock
    rcases Nat.eq_or_lt_of_le within with rfl | given
    · rw [if_pos (attached.getNextBlock_last fits room ends)]
      exact ⟨_, rfl⟩
    · rw [attached.getNextBlock_given fits room given, if_neg (blockAt_pos pool k).ne']
      by_cases used : pool.next (pool.blockAt k) = 0
      · rw [if_pos used]
        exact ⟨_, rfl⟩
      · rw [if_neg used]
        have fewer : pool.get .allocNode - (k + 1) < fuel := by omega
        have later : ∃ found, pool.getNextUsedBlock fuel (pool.cursor (k + 1)) = some found := ih given fewer
        exact later

include fits room attached ends in
/-- It reads blocks that have been given. -/
theorem readBlocks_spec (within : k ≤ pool.get .allocNode) :
    ∀ block ∈ pool.readBlocks fuel (pool.cursor k), ∃ j < pool.get .allocNode, block = pool.blockAt j := by
  induction fuel generalizing k with
  | zero => exact fun block member => absurd member List.not_mem_nil
  | succ fuel ih =>
    intro block member
    unfold readBlocks at member
    rcases Nat.eq_or_lt_of_le within with rfl | given
    · rw [if_pos (attached.getNextBlock_last fits room ends)] at member
      exact absurd member List.not_mem_nil
    · rw [attached.getNextBlock_given fits room given, if_neg (blockAt_pos pool k).ne'] at member
      rcases List.mem_cons.mp member with here | later
      · exact ⟨k, given, here⟩
      · by_cases used : pool.next (pool.blockAt k) = 0
        · rw [if_pos used] at later
          exact absurd later List.not_mem_nil
        · rw [if_neg used] at later
          exact ih given block later

/-- The blocks in use from the `k`-th on, in order. -/
def UsedFrom (pool : FixedLenPool) (k : ℕ) (blocks : List ℕ) : Prop :=
  blocks.Pairwise (· < ·) ∧ ∀ block, block ∈ blocks ↔
    ∃ j, k ≤ j ∧ j < pool.get .allocNode ∧ block = pool.blockAt j ∧ pool.next block = 0

theorem UsedFrom.nil (none : ∀ i, k ≤ i → i < pool.get .allocNode → pool.next (pool.blockAt i) ≠ 0) :
    UsedFrom pool k [] := by
  refine ⟨List.Pairwise.nil, fun block => iff_of_false List.not_mem_nil ?_⟩
  rintro ⟨i, later, given, here, used⟩
  rw [here] at used
  exact none i later given used

include fits attached in
theorem UsedFrom.cons {j : ℕ} (rest : UsedFrom pool (j + 1) blocks) (behind : k ≤ j)
    (given : j < pool.get .allocNode) (used : pool.next (pool.blockAt j) = 0)
    (first : ∀ i, k ≤ i → i < j → pool.next (pool.blockAt i) ≠ 0) :
    UsedFrom pool k (pool.blockAt j :: blocks) := by
  obtain ⟨ordered, exactly⟩ := rest
  have large := attached.large fits
  refine ⟨List.pairwise_cons.mpr ⟨fun block member => ?_, ordered⟩, fun block => ?_⟩
  · obtain ⟨i, later, -, here, -⟩ := (exactly block).mp member
    have := blockAt_add_le pool (Nat.lt_of_succ_le later)
    omega
  · rw [List.mem_cons, exactly block]
    constructor
    · rintro (here | ⟨i, later, within, here, free⟩)
      · exact ⟨j, behind, given, here, here ▸ used⟩
      · exact ⟨i, by omega, within, here, free⟩
    · rintro ⟨i, from', within, here, free⟩
      rcases Nat.lt_trichotomy i j with before | same | after
      · rw [here] at free
        exact absurd free (first i from' before)
      · rw [same] at here
        exact .inl here
      · exact .inr ⟨i, after, within, here, free⟩

include fits room attached ends in
/-- **What a traversal goes through.** -/
theorem usedBlocks_spec (within : k ≤ pool.get .allocNode)
    (result : pool.usedBlocks fuel (pool.cursor k) = some blocks) : UsedFrom pool k blocks := by
  induction fuel generalizing k blocks with
  | zero => cases result
  | succ fuel ih =>
    unfold usedBlocks at result
    obtain ⟨found, call, result⟩ := Option.bind_eq_some_iff.mp result
    rcases getNextUsedBlock_spec fits room attached ends within call with
      ⟨null, none⟩ | ⟨j, behind, given, here, used, first⟩
    · rw [if_pos null] at result
      rw [← Option.some.inj result]
      exact UsedFrom.nil none
    · rw [here, if_neg (blockAt_pos pool j).ne'] at result
      obtain ⟨rest, later, whole⟩ := Option.map_eq_some_iff.mp result
      have next : pool.usedBlocks fuel (pool.cursor (j + 1)) = some rest := later
      rw [← whole]
      exact (ih given next).cons fits attached behind given used first

include fits room attached ends in
/-- It ends as well. -/
theorem usedBlocks_ends (within : k ≤ pool.get .allocNode) (enough : pool.get .allocNode - k < fuel) :
    ∃ blocks, pool.usedBlocks fuel (pool.cursor k) = some blocks := by
  induction fuel generalizing k with
  | zero => exact absurd enough (Nat.not_lt_zero _)
  | succ fuel ih =>
    obtain ⟨found, call⟩ := getNextUsedBlock_ends fits room attached ends within enough
    unfold usedBlocks
    rw [call, Option.bind_some]
    rcases getNextUsedBlock_spec fits room attached ends within call with
      ⟨null, -⟩ | ⟨j, behind, given, here, -, -⟩
    · rw [if_pos null]
      exact ⟨_, rfl⟩
    · have fewer : pool.get .allocNode - (j + 1) < fuel := by omega
      obtain ⟨rest, later⟩ : ∃ rest, pool.usedBlocks fuel (pool.cursor (j + 1)) = some rest := ih given fewer
      have next : pool.usedBlocks fuel (pool.blockAt j) = some rest := later
      rw [here, if_neg (blockAt_pos pool j).ne', next]
      exact ⟨_, rfl⟩

end Loops

/-! ### A pool at the end of the address space -/

section Beyond

variable {mem maxNode nodeSize k : ℕ} {pool : FixedLenPool} (fits : Fits maxNode nodeSize)
  (room : Room mem maxNode nodeSize) (attached : Attached mem maxNode nodeSize pool)

/-- The last place below a bound where something holds, or the bound's start. -/
theorem exists_last (p : ℕ → Prop) (bound : ℕ) :
    ∃ k ≤ bound, (k = 0 ∨ ∃ j, k = j + 1 ∧ p j) ∧ ∀ i, k ≤ i → i < bound → ¬p i := by
  induction bound with
  | zero => exact ⟨0, le_rfl, .inl rfl, fun i _ below => absurd below (Nat.not_lt_zero i)⟩
  | succ bound ih =>
    by_cases here : p bound
    · exact ⟨bound + 1, le_rfl, .inr ⟨bound, rfl, here⟩, fun i above below => by omega⟩
    · obtain ⟨k, within, last, none⟩ := ih
      refine ⟨k, by omega, last, fun i above below => ?_⟩
      rcases Nat.eq_or_lt_of_le (Nat.le_of_lt_succ below) with same | before
      · rw [same]
        exact here
      · exact none i above before

include fits room attached in
/-- Behind the last block in use, `GetNextUsedBlock` reads the block behind the last one. -/
theorem Attached.readBlocks_beyond (wraps : ¬EndsInside pool) (within : k ≤ pool.get .allocNode)
    (none : ∀ i, k ≤ i → i < pool.get .allocNode → pool.next (pool.blockAt i) ≠ 0) :
    ∃ steps, pool.blockAt (pool.get .allocNode) ∈ pool.readBlocks steps (pool.cursor k) := by
  induction within using Nat.decreasingInduction with
  | self =>
    refine ⟨1, ?_⟩
    unfold readBlocks
    rw [attached.getNextBlock_cursor room le_rfl, if_pos ((attached.valid_end fits room).mpr wraps),
      if_neg (blockAt_pos pool _).ne']
    exact List.mem_cons_self
  | of_succ k given ih =>
    obtain ⟨steps, member⟩ := ih fun i above => none i (by omega)
    refine ⟨steps + 1, ?_⟩
    unfold readBlocks
    rw [attached.getNextBlock_given fits room given, if_neg (blockAt_pos pool k).ne',
      if_neg (none k le_rfl given)]
    exact List.mem_cons_of_mem _ member

include fits room attached in
/-- The block behind the last one is not one of them, but the traversal reads it. -/
theorem Attached.not_traversed (wraps : ¬EndsInside pool) : ¬pool.Traversed := by
  rintro ⟨⟨fuel, blocks, visited, -, exactly⟩, reads⟩
  obtain ⟨k, within, last, none⟩ :=
    exists_last (fun i => i < pool.get .allocNode ∧ pool.next (pool.blockAt i) = 0) (pool.get .allocNode)
  have start : pool.cursor k ∈ 0 :: blocks := by
    rcases last with null | ⟨j, here, given, used⟩
    · rw [null]
      exact List.mem_cons_self
    · rw [here]
      exact List.mem_cons_of_mem _ ((exactly _).mpr ⟨j, given, rfl, used⟩)
  obtain ⟨steps, member⟩ := attached.readBlocks_beyond fits room wraps within
    fun i above given used => none i above given ⟨given, used⟩
  obtain ⟨j, given, same⟩ := reads fuel blocks visited _ start steps _ member
  have := blockAt_add_le pool given
  have := attached.large fits
  omega

end Beyond

/-- A full pool that ends eight bytes below the end of the address space. -/
def lastPool : FixedLenPool := ((⟨fun _ => 0, 0, 0, .none⟩ : FixedLenPool).init (2 ^ 64 - 80) 1 8 false).2.grow

end Yarf.Memory
