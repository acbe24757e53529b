/-
**A `Free` that fails** (`hash_pool.h`).

`HashPool::Free` takes the node out of its chain and counts it down before it asks the pool to release the
block, and undoes nothing when the pool refuses.

* `freeAt_found` — what the call does with a node it has found;
* `counted_isUsed` — the pool sees the table with the link taken out;
* `counted_memory` — when the two stores leave the memory as it was;
* `failed_free_iff` — when a `Free` that fails changes nothing.
-/

import Yarf.Memory.Frees
import Yarf.Memory.HashIndex
import Yarf.Memory.HashMap

namespace Yarf.Memory

open Lib

namespace HashPool

/-! ### The call -/

section Call

variable (type : NodeType) (pool : HashPool)

/-- `Free(key)` from the index on, in any pool. -/
def freeWith (poolFree : FixedLenPool → ℕ → ℤ × FixedLenPool) (fuel key : ℕ) (index : ℤ) :
    Option (ℤ × HashPool) :=
  (pool.findLink type key fuel 0 (pool.bucket index)).map fun
    | none => (-1, { pool with errMsg := .notFound })
    | some (prev, node) =>
      let pool := if prev ≠ 0 then pool.setNext type prev (pool.nextOf type node)
        else pool.setBucket index (pool.nextOf type node)
      let pool := pool.set .nodeNum (pool.get .nodeNum + 2 ^ 32 - 1)
      let (ret, memPool) := poolFree pool.memPool node
      let pool := { pool with memPool := memPool }
      if ret ≠ 0 then (-1, { pool with errMsg := .free memPool.errorMsg }) else (0, pool)

/-- `Free(key)` for keys of any integral type; nodes hold the low bytes of their keys. -/
def freeOf (keyType : IntType) (fuel : ℕ) (key : ℤ) : Option (ℤ × HashPool) :=
  (freeIndex keyType key (pool.get .bucketNum)).bind
    (pool.freeWith type FixedLenPool.free fuel (key % 2 ^ keyType.bits).toNat)

theorem free_eq_freeWith (fuel key : ℕ) : pool.free type fuel key
    = pool.freeWith type FixedLenPool.free fuel key (pool.index key) := rfl

/-- For unsigned keys it is the `Free` of the table. -/
theorem freeOf_unsigned {fuel key : ℕ} (keyLt : key < 2 ^ (8 * type.keySize))
    (buckets : pool.get .bucketNum ≠ 0) :
    pool.freeOf type ⟨8 * type.keySize, false⟩ fuel key = pool.free type fuel key := by
  have pattern : ((key : ℤ) % 2 ^ (8 * type.keySize)).toNat = key := by
    rw [Int.emod_eq_of_lt (Int.natCast_nonneg _) (by exact_mod_cast keyLt), Int.toNat_natCast]
  unfold freeOf
  rw [(index_unsigned type pool keyLt buckets).2.2, Option.bind_some, pattern, free_eq_freeWith]

/-- Where the link to a node lies: in the node before it, or in the bucket. -/
def linkAt (index : ℤ) (prev : ℕ) : ℕ :=
  if prev ≠ 0 then prev + type.nextOffset else pool.bucketAt index

/-- The table with one word changed: the link to the node is the node's own `next`. -/
def relinked (index : ℤ) (prev node : ℕ) : HashPool :=
  pool.setMemory (storeNat pool.memory 8 (pool.linkAt type index prev) (pool.nextOf type node))

/-- `node_num--` -/
def counted : HashPool := pool.set .nodeNum (pool.get .nodeNum + 2 ^ 32 - 1)

/-- The key is not found; or the pool takes the node back, as it sees it without the link; or the link taken
out happens to be the word in front of it. -/
def Releases (fuel key : ℕ) (index : ℤ) : Prop :=
  ∀ prev node, pool.findLink type key fuel 0 (pool.bucket index) = some (some (prev, node)) →
    (pool.relinked type index prev node).memPool.IsUsedBlock (FixedLenPool.getBlock node) ∨
      (pool.relinked type index prev node).memory = (pool.set .nodeNum (pool.get .nodeNum + 1)).memory

variable {type pool} {fuel key prev node : ℕ} {index : ℤ}

section With

variable {poolFree : FixedLenPool → ℕ → ℤ × FixedLenPool}

theorem freeWith_missing (missing : pool.findLink type key fuel 0 (pool.bucket index) = some none) :
    pool.freeWith type poolFree fuel key index = some (-1, { pool with errMsg := .notFound }) := by
  unfold freeWith
  rw [missing]
  rfl

/-- A node found: its link is taken out, it is counted down, and then the pool is asked. -/
theorem freeWith_found {ret : ℤ} {memPool : FixedLenPool}
    (found : pool.findLink type key fuel 0 (pool.bucket index) = some (some (prev, node)))
    (called : poolFree (pool.relinked type index prev node).counted.memPool node = (ret, memPool)) :
    pool.freeWith type poolFree fuel key index = some (if ret ≠ 0 then
      (-1, { (pool.relinked type index prev node).counted
        with memPool := memPool, errMsg := .free memPool.errorMsg })
      else (0, { (pool.relinked type index prev node).counted with memPool := memPool })) := by
  have link : (if prev ≠ 0 then pool.setNext type prev (pool.nextOf type node)
      else pool.setBucket index (pool.nextOf type node)) = pool.relinked type index prev node := by
    unfold relinked linkAt
    split_ifs <;> rfl
  have asked : pool.freeWith type poolFree fuel key index =
      some (match poolFree (pool.relinked type index prev node).counted.memPool node with
        | (ret, memPool) => if ret ≠ 0 then
            (-1, { (pool.relinked type index prev node).counted
              with memPool := memPool, errMsg := .free memPool.errorMsg })
          else (0, { (pool.relinked type index prev node).counted with memPool := memPool })) := by
    unfold freeWith
    rw [found, ← link]
    rfl
  rw [asked, called]

end With

section Asked

variable (found : pool.findLink type key fuel 0 (pool.bucket index) = some (some (prev, node)))

include found

theorem free_released
    (used : (pool.relinked type index prev node).counted.memPool.IsUsedBlock (FixedLenPool.getBlock node)) :
    ∃ after, pool.freeWith type FixedLenPool.free fuel key index = some (0, after) := by
  rw [freeWith_found found (free_used used), if_neg (fun wrong => wrong rfl)]
  exact ⟨_, rfl⟩

/-- The pool refuses the node: the link and the count stay as they were stored. -/
theorem free_kept
    (unused : ¬(pool.relinked type index prev node).counted.memPool.IsUsedBlock (FixedLenPool.getBlock node)) :
    ∃ after, pool.freeWith type FixedLenPool.free fuel key index = some (-1, after) ∧
      after.memory = (pool.relinked type index prev node).counted.memory := by
  obtain ⟨message, refused⟩ := free_unused unused
  have stored := freeWith_found found refused
  rw [if_pos (show (-1 : ℤ) ≠ 0 by decide)] at stored
  refine ⟨_, stored, ?_⟩
  dsimp only [HashPool.memory]

/-- The condition, of the one node found. -/
theorem releases_found : pool.Releases type fuel key index ↔
    (pool.relinked type index prev node).memPool.IsUsedBlock (FixedLenPool.getBlock node) ∨
      (pool.relinked type index prev node).memory = (pool.set .nodeNum (pool.get .nodeNum + 1)).memory := by
  constructor
  · intro releases
    exact releases prev node found
  · intro here prev' node' found'
    obtain ⟨rfl, rfl⟩ := Prod.mk.inj (Option.some.inj (Option.some.inj (found.symm.trans found')))
    exact here

end Asked

end Call

/-! ### A table in its memory -/

/-- The pool lies behind the header, and the blocks behind the header of the pool. -/
structure Placed (pool : HashPool) : Prop where
  front : pool.header + sizeofHashHeader ≤ pool.memPool.header
  blocks : pool.memPool.header ≤ pool.memPool.data

section Counted

variable {pool : HashPool} {node : ℕ} (placed : pool.Placed)

theorem counted_sameOutside (pool : HashPool) : SameOutside (pool.header + 8) (pool.header + 8 + 4) pool.memory
    pool.counted.memory := sameOutside_storeNat _ _ _ _

theorem nodeNum_set (pool : HashPool) (value : ℕ) : (pool.set .nodeNum value).get .nodeNum = value % 2 ^ 32 := by
  have four : 256 ^ hashRecord.width .nodeNum = 2 ^ 32 := by decide
  rw [get_set, if_pos rfl, four]

theorem nodeNum_lt (pool : HashPool) : pool.get .nodeNum < 2 ^ 32 := loadNat_lt _ 4 _

include placed in
/-- The count is no part of the pool: the pool answers as before. -/
theorem counted_isUsed : pool.counted.memPool.IsUsedBlock node ↔ pool.memPool.IsUsedBlock node := by
  have front := placed.front
  have blocks := placed.blocks
  unfold sizeofHashHeader at front
  have base : pool.counted.memPool.header = pool.memPool.header := rfl
  have field := FixedLenPool.get_of_sameOutside base (counted_sameOutside pool) (.inr (by omega))
  have valid : pool.counted.memPool.IsValidBlock node ↔ pool.memPool.IsValidBlock node := by
    unfold FixedLenPool.IsValidBlock
    rw [field, field]
    rfl
  unfold FixedLenPool.IsUsedBlock
  rw [valid]
  refine and_congr_right fun here => ?_
  have behind : pool.memPool.data ≤ node := Nat.not_lt.mp fun less => here (.inl less)
  rw [FixedLenPool.next_of_sameOutside (counted_sameOutside pool) (.inr (by omega))]

theorem get_congr {pool' : HashPool} (header : pool'.header = pool.header) (memory : pool'.memory = pool.memory)
    (field : HashField) : pool'.get field = pool.get field := by
  unfold get
  rw [header, memory]

/-- Tables that differ in the count at most, and agree on it, have one memory. -/
theorem memory_eq_of_nodeNum {pool' : HashPool} (header : pool'.header = pool.header)
    (same : SameOutside (pool.header + 8) (pool.header + 8 + 4) pool.memory pool'.memory)
    (count : pool'.get .nodeNum = pool.get .nodeNum) : pool'.memory = pool.memory := by
  refine same.eq_of_loadNat ?_
  have number : loadNat pool'.memory 4 (pool'.header + 8) = loadNat pool.memory 4 (pool.header + 8) := count
  rwa [header] at number

/-- The count taken down, the memory is what it was exactly when it was that with the count one higher. -/
theorem counted_memory {pool' : HashPool} (header : pool'.header = pool.header) :
    pool'.counted.memory = pool.memory ↔
      pool'.memory = (pool.set .nodeNum (pool.get .nodeNum + 1)).memory := by
  have down : pool'.counted.get .nodeNum = (pool'.get .nodeNum + 2 ^ 32 - 1) % 2 ^ 32 := nodeNum_set pool' _
  have up := nodeNum_set pool (pool.get .nodeNum + 1)
  have low := nodeNum_lt pool
  have low' := nodeNum_lt pool'
  have outside := counted_sameOutside pool'
  have outside' : SameOutside (pool.header + 8) (pool.header + 8 + 4) pool.memory
    (pool.set .nodeNum (pool.get .nodeNum + 1)).memory := sameOutside_storeNat _ _ _ _
  rw [header] at outside
  constructor
  · intro same
    have header' : pool'.counted.header = pool.header := header
    have count := get_congr header' same .nodeNum
    have other : SameOutside (pool.header + 8) (pool.header + 8 + 4)
        (pool.set .nodeNum (pool.get .nodeNum + 1)).memory pool'.memory := by
      intro place apart
      rw [outside' place apart, ← same, outside place apart]
    exact memory_eq_of_nodeNum header other (by omega)
  · intro same
    have header' : pool'.header = (pool.set .nodeNum (pool.get .nodeNum + 1)).header := header
    have count := get_congr header' same .nodeNum
    have other : SameOutside (pool.header + 8) (pool.header + 8 + 4) pool.memory pool'.counted.memory := by
      intro place apart
      rw [outside place apart, same, outside' place apart]
    exact memory_eq_of_nodeNum header other (by omega)

end Counted

/-- A pool set up where the buckets end places the table. -/
theorem placed_pool {pool : HashPool} {mem bucketNum maxNode nodeSize : ℕ} {checkHeader : Bool}
    (inside : mem + sizeofHashHeader + 8 * bucketNum + sizeofHeader < 2 ^ 64) (header : pool.header = mem)
    (done : (pool.memPool.init (mem + sizeofHashHeader + 8 * bucketNum) maxNode nodeSize checkHeader).1 = 0) :
    Placed { pool with
      memPool := (pool.memPool.init (mem + sizeofHashHeader + 8 * bucketNum) maxNode nodeSize checkHeader).2 } := by
  have nonNull : mem + sizeofHashHeader + 8 * bucketNum ≠ 0 := by
    unfold sizeofHashHeader
    omega
  obtain ⟨base, data⟩ := FixedLenPool.init_pointers maxNode nodeSize pool.memPool nonNull done
  rw [Nat.mod_eq_of_lt inside] at data
  refine ⟨?_, ?_⟩
  · dsimp only
    omega
  · dsimp only
    omega

/-- `Init` places the table, in a fresh memory or in the one it finds. -/
theorem placed_init {type : NodeType} {before : HashPool} {mem memSize bucketNum maxNode : ℕ} {checkHeader : Bool}
    (inside : mem + sizeofHashHeader + 8 * bucketNum + sizeofHeader < 2 ^ 64) (buckets : bucketNum < 2 ^ 32)
    (nodes : maxNode < 2 ^ 32)
    (done : (before.init type mem memSize bucketNum maxNode checkHeader).1 = 0) :
    (before.init type mem memSize bucketNum maxNode checkHeader).2.Placed := by
  by_cases enough : memSize < getMaxSize type bucketNum maxNode
  · unfold init at done
    rw [if_pos enough] at done
    cases done
  cases checkHeader with
  | false =>
    have num : (stored type mem bucketNum maxNode before).clearBuckets.get .bucketNum = bucketNum :=
      (get_clearBuckets_stored buckets nodes .bucketNum).trans (bucketNum_stored buckets nodes)
    have front : (stored type mem bucketNum maxNode before).clearBuckets.buckets
        + 8 * (stored type mem bucketNum maxNode before).clearBuckets.get .bucketNum
        = mem + sizeofHashHeader + 8 * bucketNum := by
      rw [num]
      rfl
    have header : (stored type mem bucketNum maxNode before).clearBuckets.header = mem := rfl
    rw [init_eq _ _ _ _ _ _ enough] at done ⊢
    dsimp only at done ⊢
    rw [front] at done ⊢
    generalize (stored type mem bucketNum maxNode before).clearBuckets = blank at done header ⊢
    split_ifs at done ⊢ with ret
    · cases done
    · exact placed_pool inside header (not_not.mp ret)
  | true =>
    revert done
    unfold init
    rw [if_neg enough]
    have header : ({ before with header := mem } : HashPool).header = mem := rfl
    generalize ({ before with header := mem } : HashPool) = found at header ⊢
    by_cases check : found.get .bucketNum ≠ bucketNum ∨ found.get .maxNode ≠ maxNode ∨
        maxNode < found.get .nodeNum ∨ found.get .nodeSize ≠ type.nodeSize
    · simp only [true_and, if_pos check]
      intro wrong
      cases wrong
    · simp only [true_and, if_neg check, if_true]
      have num : ({ found with buckets := mem + sizeofHashHeader } : HashPool).get .bucketNum = bucketNum :=
        not_not.mp (not_or.mp check).1
      have table : ({ found with buckets := mem + sizeofHashHeader } : HashPool).header = mem := header
      rw [num]
      intro done
      split_ifs at done ⊢ with ret
      · cases done
      · exact placed_pool inside table (not_not.mp ret)

/-! ### When a failure changes nothing -/

section Fails

variable {type : NodeType} {pool : HashPool} {fuel key prev node : ℕ} {index : ℤ} (placed : pool.Placed)

include placed in
/-- From the index on. -/
theorem failed_iff : (∀ after, pool.freeWith type FixedLenPool.free fuel key index = some (-1, after) →
      after.memory = pool.memory) ↔ pool.Releases type fuel key index := by
  rcases found : pool.findLink type key fuel 0 (pool.bucket index) with _ | _ | ⟨prev, node⟩
  · refine iff_of_true (fun after failed => ?_) fun prev node here => ?_
    · unfold freeWith at failed
      rw [found] at failed
      cases failed
    · rw [found] at here
      cases here
  · refine iff_of_true (fun after failed => ?_) fun prev node here => ?_
    · rw [freeWith_missing found] at failed
      cases failed
      rfl
    · rw [found] at here
      cases here
  · have relinked : (pool.relinked type index prev node).Placed := ⟨placed.front, placed.blocks⟩
    have header : (pool.relinked type index prev node).header = pool.header := rfl
    rw [releases_found found]
    by_cases used : (pool.relinked type index prev node).counted.memPool.IsUsedBlock (FixedLenPool.getBlock node)
    · obtain ⟨done, released⟩ := free_released found used
      refine iff_of_true (fun after failed => ?_) (.inl ((counted_isUsed relinked).mp used))
      rw [released] at failed
      cases failed
    · obtain ⟨done, refused, memory⟩ := free_kept found used
      rw [or_iff_right fun held => used ((counted_isUsed relinked).mpr held), ← counted_memory header, ← memory]
      constructor
      · intro unchanged
        exact unchanged done refused
      · intro unchanged after failed
        obtain rfl := (Prod.mk.inj (Option.some.inj (refused.symm.trans failed))).2
        exact unchanged

/-- The link to the node overlaps neither the count, nor the header of the pool, nor the word in front of the
node. -/
def LinkApart (pool : HashPool) (type : NodeType) (index : ℤ) (prev node : ℕ) : Prop :=
  let link := pool.linkAt type index prev
  (link + 8 ≤ pool.header + 8 ∨ pool.header + 8 + 4 ≤ link) ∧
    (link + 8 ≤ pool.memPool.header ∨ pool.memPool.header + sizeofHeader ≤ link) ∧
    (link + 8 ≤ FixedLenPool.getBlock node ∨ FixedLenPool.getBlock node + 8 ≤ link)

/-- Where the link is a word of its own, a node found is released exactly when the pool, as it is before the
call, holds its block in use. -/
theorem releases_iff (found : pool.findLink type key fuel 0 (pool.bucket index) = some (some (prev, node)))
    (apart : pool.LinkApart type index prev node) :
    pool.Releases type fuel key index ↔ pool.memPool.IsUsedBlock (FixedLenPool.getBlock node) := by
  obtain ⟨count, header, word⟩ := apart
  have same : SameOutside (pool.linkAt type index prev) (pool.linkAt type index prev + 8) pool.memory
    (pool.relinked type index prev node).memory := sameOutside_storeNat _ _ _ _
  have base : (pool.relinked type index prev node).memPool.header = pool.memPool.header := rfl
  have field := FixedLenPool.get_of_sameOutside base same header.symm
  have next := FixedLenPool.next_of_sameOutside same word.symm
  have valid : (pool.relinked type index prev node).memPool.IsValidBlock (FixedLenPool.getBlock node)
      ↔ pool.memPool.IsValidBlock (FixedLenPool.getBlock node) := by
    unfold FixedLenPool.IsValidBlock
    rw [field, field]
    rfl
  have used : (pool.relinked type index prev node).memPool.IsUsedBlock (FixedLenPool.getBlock node)
      ↔ pool.memPool.IsUsedBlock (FixedLenPool.getBlock node) := by
    unfold FixedLenPool.IsUsedBlock
    rw [valid, next]
  have still : (pool.relinked type index prev node).memory
      ≠ (pool.set .nodeNum (pool.get .nodeNum + 1)).memory := by
    intro same'
    have header' : (pool.relinked type index prev node).header
        = (pool.set .nodeNum (pool.get .nodeNum + 1)).header := rfl
    have number : (pool.relinked type index prev node).get .nodeNum = pool.get .nodeNum := same.loadNat count.symm
    have raised := get_congr header' same' .nodeNum
    have low := nodeNum_lt pool
    rw [number, nodeNum_set] at raised
    omega
  rw [releases_found found, used, or_iff_left still]

end Fails

end HashPool

/-! ### Which failures change nothing -/

open HashPool

/-- **A `Free` that fails.** For every table in its memory, every integral type of keys and every key: whenever
`Free` returns -1 the memory is what it was, if and only if the key is not found, or the pool takes the node
back. -/
theorem failed_free_iff (type : NodeType) (keyType : IntType) (pool : HashPool) (placed : pool.Placed)
    (fuel : ℕ) (key : ℤ) :
    (∀ after, pool.freeOf type keyType fuel key = some (-1, after) → after.memory = pool.memory) ↔
      ∀ index, freeIndex keyType key (pool.get .bucketNum) = some index →
        pool.Releases type fuel (key % 2 ^ keyType.bits).toNat index := by
  unfold freeOf
  cases computed : freeIndex keyType key (pool.get .bucketNum) with
  | none =>
    refine iff_of_true (fun after failed => ?_) fun index here => ?_
    · cases failed
    · cases here
  | some index =>
    rw [Option.bind_some, failed_iff placed]
    constructor
    · rintro releases _ ⟨⟩
      exact releases
    · intro releases
      exact releases index rfl

/-- A key that is not there, in a table for a thousand nodes. -/
theorem failed_free_iff_missing : ∃ after,
    (freshMapClient 1000).pool.freeOf wordNode ⟨32, false⟩ 1 7 = some (-1, after) ∧
      after.memory = (freshMapClient 1000).pool.memory := by
  have run : ((freshMapClient 1000).pool.freeOf wordNode ⟨32, false⟩ 1 7).map Prod.fst = some (-1) := by
    decide +kernel
  obtain ⟨⟨ret, after⟩, freed, failed⟩ := Option.map_eq_some_iff.mp run
  obtain rfl : ret = -1 := failed
  refine ⟨after, freed, (failed_free_iff wordNode ⟨32, false⟩ (freshMapClient 1000).pool
    ⟨by decide +kernel, by decide +kernel⟩ 1 7).mpr (fun index here prev node found => ?_) after freed⟩
  have slot : freeIndex ⟨32, false⟩ 7 ((freshMapClient 1000).pool.get .bucketNum) = some 1 := by decide +kernel
  have empty : (freshMapClient 1000).pool.findLink wordNode 7 1 0 ((freshMapClient 1000).pool.bucket 1)
    = some none := by decide +kernel
  obtain rfl := Option.some.inj (slot.symm.trans here)
  have number : ((7 : ℤ) % 2 ^ 32).toNat = 7 := by decide
  rw [number, empty] at found
  cases found

/-- The key 0, inserted and freed again: `Deref` finds a node of zeros elsewhere in the pool, the pool refuses it,
and `node_num` has gone from 1 to 0. -/
theorem failed_free_fails_zero : ∃ address table after,
    (freshMapClient 10000).pool.insert wordNode 1 0 [1, 2, 3, 4] = some (address, table) ∧
      table.freeOf wordNode ⟨32, false⟩ 1 0 = some (-1, after) ∧ after.memory ≠ table.memory := by
  have run : ((freshMapClient 10000).pool.insert wordNode 1 0 [1, 2, 3, 4]).map (fun inserted =>
      (inserted.2.memory 4104, (inserted.2.freeOf wordNode ⟨32, false⟩ 1 0).map fun freed =>
        (freed.1, freed.2.memory 4104))) = some (1, some (-1, 0)) := by decide +kernel
  obtain ⟨⟨address, table⟩, inserted, result⟩ := Option.map_eq_some_iff.mp run
  obtain ⟨one, rest⟩ := Prod.mk.inj result
  obtain ⟨⟨ret, after⟩, freed, result⟩ := Option.map_eq_some_iff.mp rest
  obtain ⟨failed, zero⟩ := Prod.mk.inj result
  obtain rfl : ret = -1 := failed
  refine ⟨address, table, after, inserted, freed, fun same => ?_⟩
  have byte : (0 : UInt8) = 1 := zero.symm.trans ((congrFun same 4104).trans one)
  cases byte

end Yarf.Memory
