/-
**The hash table as a finite map.**

`mapMachine` is a client of a table together with the map the table stands for: the keys present, where the
value of each lies, and what was last stored there. `Meets` is what a bounded finite map owes its client at
one call.

A reference to a node is never followed back to it (`Deref` counts headers where `Ref` counted bytes), so
a call does what it owes as long as the bucket of its key is empty (`Sound`):

* `Table` — the table and its pool after `k` insertions, with `Table.alloc_none` and `Table.alloc_some`;
* `MapInv.step` — what a sound call does, and the invariant it keeps;
* `hashPool_correct` — runs of sound calls;
* `hashPool_correct_fails_first` — without that condition, `Get` does not find the first key inserted.
-/

import Yarf.Lib.Machine
import Yarf.Memory.Blocks
import Yarf.Memory.HashPool

namespace Yarf.Memory

open Lib

/-! ### A client of the table -/

/-- What is known of a present key: the address of its value, and what was last stored there. -/
structure Slot where
  address : ℕ
  value : Option (List UInt8)

/-- The table and the finite map it stands for. -/
structure MapClient where
  pool : HashPool
  map : AList fun _ : ℕ => Slot

inductive HashOp
  | alloc (key : ℕ)
  | insert (key : ℕ) (value : List UInt8)
  | get (key : ℕ)
  | free (key : ℕ)
  /-- The client stores a value through the pointer it got for a present key. -/
  | store (key : ℕ) (value : List UInt8)

namespace MapClient

variable (type : NodeType)

def perform (fuel : ℕ) (client : MapClient) : HashOp → Option MapClient
  | .alloc key => (client.pool.alloc type fuel key).map fun done =>
    ⟨done.2, if done.1 = 0 then client.map else client.map.insert key ⟨done.1, none⟩⟩
  | .insert key value => (client.pool.insert type fuel key value).map fun done =>
    ⟨done.2, if done.1 = 0 then client.map else client.map.insert key ⟨done.1, some value⟩⟩
  | .get key => (client.pool.getValue type fuel key).map fun _ => client
  | .free key => (client.pool.free type fuel key).map fun done =>
    ⟨done.2, if done.1 = 0 then client.map.erase key else client.map⟩
  | .store key value => (client.map.lookup key).map fun slot =>
    ⟨client.pool.setValue slot.address value, client.map.insert key ⟨slot.address, some value⟩⟩

/-- Keys and values are of their types, and a client stores only where it may. -/
def Allowed (client : MapClient) : HashOp → Prop
  | .alloc key | .get key | .free key => key < 256 ^ type.keySize
  | .insert key value => key < 256 ^ type.keySize ∧ value.length = type.valueSize
  | .store key value => key ∈ client.map ∧ value.length = type.valueSize

/-- An insertion fails exactly when the key is present or the table is full, and then changes nothing. -/
def Inserts (maxNode : ℕ) (client : MapClient) (key : ℕ) (done : ℕ × HashPool) : Prop :=
  (done.1 = 0 ↔ key ∈ client.map ∨ client.map.keys.length = maxNode) ∧
    (done.1 = 0 → done.2.memory = client.pool.memory)

/-- What the call owes to the client of a bounded finite map. Every loop ends: some fuel suffices. -/
def Meets (maxNode : ℕ) (client : MapClient) : HashOp → Prop
  | .alloc key => ∃ fuel done, client.pool.alloc type fuel key = some done ∧
    client.Inserts maxNode key done
  | .insert key value => ∃ fuel done, client.pool.insert type fuel key value = some done ∧
    client.Inserts maxNode key done
  | .get key => ∃ fuel address, client.pool.getValue type fuel key = some address ∧
    (address ≠ 0 ↔ key ∈ client.map) ∧
    ∀ slot value, client.map.lookup key = some slot → slot.value = some value →
      load client.pool.memory (span address) type.valueSize = value
  | .free key => ∃ fuel done, client.pool.free type fuel key = some done ∧
    (done.1 = 0 ↔ key ∈ client.map)
  | .store _ _ => True

/-- `node_num` is the number of keys present. -/
def Counts (client : MapClient) : Prop := client.pool.get .nodeNum = client.map.keys.length

/-- The call follows no reference to a node, takes its block, if there is room, inside the pool, and has a
bucket index that an `int` holds. -/
def Sound (client : MapClient) : HashOp → Prop
  | .alloc key | .insert key _ => client.pool.bucket (client.pool.slot key) = 0 ∧
    client.pool.slot key < 2 ^ 31 ∧ client.pool.memPool.FreshInside
  | .get key => client.pool.bucket (client.pool.slot key) = 0
  | .free key => client.pool.bucket (client.pool.slot key) = 0 ∧ client.pool.slot key < 2 ^ 31
  | .store _ _ => True

end MapClient

/-- A client from `Init` with `check_header=false` on, in any memory, that makes only the calls `guard`
lets through. -/
def mapMachine (guard : MapClient → HashOp → Prop) (type : NodeType) (mem bucketNum maxNode : ℕ) :
    Machine MapClient HashOp where
  init client := ∃ before : HashPool, client = ⟨(before.init type mem
    (HashPool.getMaxSize type bucketNum maxNode) bucketNum maxNode false).2, ∅⟩
  step last op next := last.Allowed type op ∧ guard last op ∧
    ∃ fuel, last.perform type fuel op = some next

/-! ### The table -/

section Tables

variable {type : NodeType} {mem bucketNum maxNode k : ℕ}

/-- The memory block `Init` is given: its exact size fits the address space, and a node is no larger than
an object may be. -/
structure HashRoom (type : NodeType) (mem bucketNum maxNode : ℕ) : Prop where
  nonNull : mem ≠ 0
  some : 0 < bucketNum
  buckets : bucketNum < 2 ^ 32
  nodes : maxNode < 2 ^ 32
  object : type.nodeSize < 2 ^ 63
  inside : mem + sizeofHashHeader + 8 * bucketNum +
    (sizeofHeader + maxNode * FixedLenPool.getBlockSize type.nodeSize) < 2 ^ 64

/-- Where the pool begins. -/
def poolAt (mem bucketNum : ℕ) : ℕ := mem + sizeofHashHeader + 8 * bucketNum

theorem HashRoom.fits (room : HashRoom type mem bucketNum maxNode) : Fits maxNode type.nodeSize := by
  have inside := room.inside
  have object := room.object
  refine ⟨room.nodes, ?_, by omega⟩
  unfold nodeOffset
  omega

theorem HashRoom.pool (room : HashRoom type mem bucketNum maxNode) :
    Room (poolAt mem bucketNum) maxNode type.nodeSize := by
  have nonNull := room.nonNull
  refine ⟨?_, ?_⟩
  · unfold poolAt
    omega
  · rw [room.fits.allocSize]
    exact room.inside

/-- The table and its pool after `k` insertions. -/
structure Table (type : NodeType) (mem bucketNum maxNode : ℕ) (pool : HashPool) (k : ℕ) : Prop where
  header : pool.header = mem
  buckets : pool.buckets = mem + sizeofHashHeader
  grown : Grown (poolAt mem bucketNum) maxNode type.nodeSize pool.memPool k
  bucketNum : pool.get .bucketNum = bucketNum
  nodeNum : pool.get .nodeNum = k

theorem Table.slot_lt {pool : HashPool} (table : Table type mem bucketNum maxNode pool k)
    (room : HashRoom type mem bucketNum maxNode) (key : ℕ) : pool.slot key < bucketNum := by
  unfold HashPool.slot
  rw [table.bucketNum]
  exact Nat.mod_lt _ room.some

/-- A change behind the header of the pool leaves the table as it is. -/
theorem Table.frame {pool pool' : HashPool} {lo hi : ℕ}
    (table : Table type mem bucketNum maxNode pool k) (room : HashRoom type mem bucketNum maxNode)
    (header : pool'.header = pool.header) (buckets : pool'.buckets = pool.buckets)
    (base : pool'.memPool.header = pool.memPool.header)
    (same : SameOutside lo hi pool.memory pool'.memory)
    (behind : poolAt mem bucketNum + sizeofHeader ≤ lo) :
    Table type mem bucketNum maxNode pool' k ∧
      ∀ i, i < bucketNum → pool'.bucket i = pool.bucket i := by
  have inside := room.inside
  unfold poolAt at behind
  have field := HashPool.get_of_sameOutside header same
    (.inl (by rw [table.header]; unfold sizeofHashHeader at *; omega))
  have poolField := FixedLenPool.get_of_sameOutside base same
    (.inl (by rw [table.grown.header]; unfold poolAt; omega))
  refine ⟨⟨header.trans table.header, buckets.trans table.buckets,
    table.grown.congr base fun other _ => poolField other, (field _).trans table.bucketNum,
    (field _).trans table.nodeNum⟩, fun i bound => ?_⟩
  exact HashPool.bucket_of_sameOutside buckets (by rw [table.buckets]; omega) same
    (.inl (by rw [table.buckets]; omega))

theorem HashRoom.maxSize (room : HashRoom type mem bucketNum maxNode) :
    HashPool.getMaxSize type bucketNum maxNode = sizeofHashHeader + 8 * bucketNum +
      (sizeofHeader + maxNode * FixedLenPool.getBlockSize type.nodeSize) := by
  have inside := room.inside
  unfold HashPool.getMaxSize
  rw [room.fits.allocSize, Nat.mod_eq_of_lt (by omega)]

/-- The table `Init` returns. -/
def freshTable (type : NodeType) (mem bucketNum maxNode : ℕ) (before : HashPool) : HashPool :=
  { (HashPool.stored type mem bucketNum maxNode before).clearBuckets with
    memPool := ((HashPool.stored type mem bucketNum maxNode before).clearBuckets.memPool.init
      (poolAt mem bucketNum) maxNode type.nodeSize false).2 }

section Fresh

variable (room : HashRoom type mem bucketNum maxNode) (before : HashPool)

include room

theorem init_fresh : before.init type mem (HashPool.getMaxSize type bucketNum maxNode) bucketNum maxNode
    false = (0, freshTable type mem bucketNum maxNode before) := by
  have field := @HashPool.get_clearBuckets_stored type mem bucketNum maxNode before room.buckets
    room.nodes
  have base : (HashPool.stored type mem bucketNum maxNode before).clearBuckets.buckets
      + 8 * (HashPool.stored type mem bucketNum maxNode before).clearBuckets.get .bucketNum
      = poolAt mem bucketNum := by
    rw [field, HashPool.bucketNum_stored room.buckets room.nodes]
    rfl
  have nodes : (HashPool.stored type mem bucketNum maxNode before).clearBuckets.get .maxNode
      = maxNode := by
    rw [field, HashPool.get_stored, (HashPool.get_storeHeader room.buckets room.nodes).2.1]
  rw [HashPool.init_eq _ _ _ _ _ _ (Nat.lt_irrefl _)]
  dsimp only
  rw [base, nodes, FixedLenPool.init_fst _ _ _ room.pool.nonNull, if_neg (fun wrong => wrong rfl)]
  rfl

/-- The pool is set up behind the buckets. -/
theorem freshTable_pool_sameOutside :
    SameOutside (poolAt mem bucketNum) (poolAt mem bucketNum + sizeofHeader)
      (HashPool.stored type mem bucketNum maxNode before).clearBuckets.memory
      (freshTable type mem bucketNum maxNode before).memory :=
  FixedLenPool.init_sameOutside _ _ _ room.pool.nonNull

/-- A fresh table has no node, and every bucket is empty. -/
theorem table_fresh : Table type mem bucketNum maxNode (freshTable type mem bucketNum maxNode before) 0 ∧
    (freshTable type mem bucketNum maxNode before).memPool.get .freeList = invalidRef ∧
    ∀ i, i < bucketNum → (freshTable type mem bucketNum maxNode before).bucket i = 0 := by
  have inside := room.inside
  have same := freshTable_pool_sameOutside room before
  have header : (freshTable type mem bucketNum maxNode before).header
      = (HashPool.stored type mem bucketNum maxNode before).clearBuckets.header := rfl
  have buckets : (freshTable type mem bucketNum maxNode before).buckets
      = (HashPool.stored type mem bucketNum maxNode before).clearBuckets.buckets := rfl
  have field : ∀ field, (freshTable type mem bucketNum maxNode before).get field
      = (HashPool.stored type mem bucketNum maxNode before).get field := fun field =>
    (HashPool.get_of_sameOutside header same (.inl (Nat.le_add_right _ _)) field).trans
      (HashPool.get_clearBuckets_stored room.buckets room.nodes field)
  have num := @HashPool.bucketNum_stored type mem bucketNum maxNode before room.buckets room.nodes
  obtain ⟨grown, empty⟩ := grown_init room.fits room.pool.nonNull
    (HashPool.stored type mem bucketNum maxNode before).clearBuckets.memPool
  refine ⟨⟨rfl, rfl, grown, (field _).trans num, (field _).trans ?_⟩, empty, fun i bound => ?_⟩
  · rw [HashPool.get_stored, (HashPool.get_storeHeader room.buckets room.nodes).2.2]
  · have start : (HashPool.stored type mem bucketNum maxNode before).buckets
        = mem + sizeofHashHeader := rfl
    have cleared := @HashPool.bucket_clearBuckets (HashPool.stored type mem bucketNum maxNode before) i
      (by rw [num]; exact bound) (by rw [num, start]; omega)
    refine (HashPool.bucket_of_sameOutside buckets ?_ same (.inl ?_)).trans cleared
    · show mem + sizeofHashHeader + 8 * i < 2 ^ 64
      omega
    · show mem + sizeofHashHeader + 8 * i + 8 ≤ poolAt mem bucketNum
      unfold poolAt
      omega

end Fresh

/-! ### Insertion into an empty bucket -/

section Insert

variable {pool : HashPool} {key : ℕ} (room : HashRoom type mem bucketNum maxNode)
  (table : Table type mem bucketNum maxNode pool k) (empty : pool.bucket (pool.slot key) = 0)
  (fresh : pool.memPool.FreshInside)

include room table empty fresh

/-- A full table: nothing but the messages changes. -/
theorem Table.alloc_none (full : ¬ pool.memPool.HasSpace) (fuel : ℕ) :
    k = maxNode ∧ ∃ pool', pool.alloc type (fuel + 1) key = some (0, pool') ∧
      pool'.memory = pool.memory ∧ Table type mem bucketNum maxNode pool' k ∧
      pool'.memPool.get .freeList = pool.memPool.get .freeList ∧
      ∀ i : ℕ, pool'.bucket i = pool.bucket i := by
  have none := HashPool.alloc_none type empty fuel
    (FixedLenPool.alloc_full true fresh.1 (Nat.not_le.mp full))
  refine ⟨table.grown.full room.fits full, _, none, rfl, ?_, rfl, fun _ => rfl⟩
  exact ⟨table.header, table.buckets, table.grown.congr rfl fun _ _ => rfl, table.bucketNum,
    table.nodeNum⟩

omit fresh in
/-- **The first key of a bucket**: its node is behind everything else, and only its bucket changes. -/
theorem Table.alloc_some (free : pool.memPool.get .freeList = invalidRef)
    (small : pool.slot key < 2 ^ 31) (more : k < maxNode)
    (noWrap : poolAt mem bucketNum + offsetOf (FixedLenPool.getBlockSize type.nodeSize) k
      + FixedLenPool.getBlockSize type.nodeSize < 2 ^ 64) (fuel : ℕ) :
    ∃ pool', pool.alloc type (fuel + 1) key = some
        (poolAt mem bucketNum + offsetOf (FixedLenPool.getBlockSize type.nodeSize) k + nodeOffset
          + type.valueOffset, pool') ∧
      Table type mem bucketNum maxNode pool' (k + 1) ∧
      pool'.bucket (pool.slot key)
        = offsetOf (FixedLenPool.getBlockSize type.nodeSize) k + nodeOffset ∧
      ∀ i, i < bucketNum → i ≠ pool.slot key → pool'.bucket i = pool.bucket i := by
  obtain ⟨given, _, grown, _, _, counters, block⟩ :=
    table.grown.take room.fits room.pool.nonNull more noWrap free true
  have inside := room.inside
  have total := room.fits.allocSize
  obtain ⟨_, large, _⟩ := room.fits.blockSize
  have front := le_offsetOf (FixedLenPool.getBlockSize type.nodeSize) k
  have slotLt := table.slot_lt room key
  have eight : nodeOffset = 8 := rfl
  have start : poolAt mem bucketNum = mem + sizeofHashHeader + 8 * bucketNum := rfl
  have taken : SameOutside (poolAt mem bucketNum) (poolAt mem bucketNum
      + offsetOf (FixedLenPool.getBlockSize type.nodeSize) k
      + FixedLenPool.getBlockSize type.nodeSize) pool.memory (pool.memPool.taken true).memory :=
    (counters.mono le_rfl (by omega)).trans (block.mono (by omega) le_rfl)
  have allocated := HashPool.alloc_some type empty fuel
    (show poolAt mem bucketNum + offsetOf (FixedLenPool.getBlockSize type.nodeSize) k + nodeOffset ≠ 0
      by omega) given
  have headerP : ({ pool with memPool := pool.memPool.taken true } : HashPool).header = pool.header := rfl
  have bucketsP : ({ pool with memPool := pool.memPool.taken true } : HashPool).buckets
    = pool.buckets := rfl
  have field := HashPool.get_of_sameOutside headerP taken (.inl (by rw [table.header]; omega))
  have bucket : ∀ i : ℕ, i < bucketNum →
      ({ pool with memPool := pool.memPool.taken true } : HashPool).bucket i = pool.bucket i :=
    fun i bound => HashPool.bucket_of_sameOutside bucketsP (by rw [table.buckets]; omega) taken
      (.inl (by rw [table.buckets]; omega))
  have slotP : ({ pool with memPool := pool.memPool.taken true } : HashPool).slot key
      = pool.slot key := by
    unfold HashPool.slot
    rw [field]
  have poolP : ({ pool with memPool := pool.memPool.taken true } : HashPool).memPool
    = pool.memPool.taken true := rfl
  generalize ({ pool with memPool := pool.memPool.taken true } : HashPool) = middle at *
  obtain ⟨linked, same, header, buckets, base, num, count, poolField, own, others⟩ :=
    HashPool.linked_spec type middle
      (by rw [slotP]; exact small : middle.slot key < 2 ^ 31)
      (by rw [slotP, bucket _ slotLt, empty])
      (by rw [poolP, grown.header] : middle.memPool.header = poolAt mem bucketNum)
      (by rw [headerP, bucketsP, table.header, table.buckets])
      (by rw [bucketsP, field, table.bucketNum, table.buckets]; exact le_rfl)
      (by rw [field, table.bucketNum]; exact room.some)
      (by omega : poolAt mem bucketNum + sizeofHeader
        ≤ poolAt mem bucketNum + offsetOf (FixedLenPool.getBlockSize type.nodeSize) k)
      (by omega) (Nat.le_add_right _ nodeOffset)
      (by omega : _ ≤ poolAt mem bucketNum + offsetOf (FixedLenPool.getBlockSize type.nodeSize) k
        + FixedLenPool.getBlockSize type.nodeSize)
  have nodes := room.nodes
  have more := grown.count
  rw [field, table.bucketNum] at num others
  rw [field, table.nodeNum, Nat.mod_eq_of_lt (by omega)] at count
  rw [slotP] at own others
  rw [same] at allocated
  refine ⟨linked, allocated, ⟨?_, ?_, ?_, num, count⟩, own.trans ?_, fun i bound differ => ?_⟩
  · rw [header, headerP, table.header]
  · rw [buckets, bucketsP, table.buckets]
  · rw [poolP] at base poolField
    exact grown.congr base fun other _ => poolField other
  · unfold FixedLenPool.ref
    rw [poolP, grown.header]
    omega
  · exact (others i bound differ).trans (bucket i bound)

end Insert

/-! ### The invariant -/

/-- The map is of the size the table counts, and every present key has a chain. -/
structure MapInv (type : NodeType) (mem bucketNum maxNode : ℕ) (client : MapClient) (k : ℕ) : Prop where
  table : Table type mem bucketNum maxNode client.pool k
  keys : client.map.keys.length = k
  chained : ∀ key ∈ client.map, client.pool.bucket (client.pool.slot key) ≠ 0
  placed : ∀ key slot, client.map.lookup key = some slot →
    poolAt mem bucketNum + sizeofHeader ≤ slot.address

section Step

variable {client : MapClient} (room : HashRoom type mem bucketNum maxNode)
  (inv : MapInv type mem bucketNum maxNode client k)

theorem mapInv_init (room : HashRoom type mem bucketNum maxNode) (before : HashPool) :
    MapInv type mem bucketNum maxNode ⟨freshTable type mem bucketNum maxNode before, ∅⟩ 0 := by
  refine ⟨(table_fresh room before).1, rfl, fun key member => ?_, fun key slot found => ?_⟩
  · exact absurd member (AList.notMem_empty key)
  · rw [AList.lookup_empty] at found
    cases found

theorem Table.slot_eq {pool pool' : HashPool} {k' : ℕ} (table : Table type mem bucketNum maxNode pool k)
    (table' : Table type mem bucketNum maxNode pool' k') (key : ℕ) : pool'.slot key = pool.slot key := by
  unfold HashPool.slot
  rw [table.bucketNum, table'.bucketNum]

include room inv

/-- A key put into an empty bucket. -/
theorem MapInv.put {pool' : HashPool} {key address : ℕ} (value : Option (List UInt8))
    (absent : key ∉ client.map) (table : Table type mem bucketNum maxNode pool' (k + 1))
    (own : pool'.bucket (client.pool.slot key) ≠ 0)
    (others : ∀ i, i < bucketNum → i ≠ client.pool.slot key → pool'.bucket i = client.pool.bucket i)
    (behind : poolAt mem bucketNum + sizeofHeader ≤ address) :
    MapInv type mem bucketNum maxNode ⟨pool', client.map.insert key ⟨address, value⟩⟩ (k + 1) := by
  refine ⟨table, ?_, fun other member => ?_, fun other slot found => ?_⟩
  · rw [AList.keys_insert, List.length_cons, List.erase_of_not_mem absent, inv.keys]
  · rw [inv.table.slot_eq table]
    by_cases same : client.pool.slot other = client.pool.slot key
    · rw [same]
      exact own
    · have differ : other ≠ key := fun equal => same (by rw [equal])
      rw [others _ (inv.table.slot_lt room other) same]
      exact inv.chained other ((AList.mem_insert _).mp member |>.resolve_left differ)
  · by_cases same : other = key
    · rw [same, AList.lookup_insert] at found
      cases found
      exact behind
    · rw [AList.lookup_insert_ne same] at found
      exact inv.placed other slot found

omit room in
/-- A key whose bucket is empty is not present. -/
theorem MapInv.absent {key : ℕ} (empty : client.pool.bucket (client.pool.slot key) = 0) :
    key ∉ client.map :=
  fun member => inv.chained key member empty

omit room in
/-- A message alone changes nothing. -/
theorem MapInv.congr {pool' : HashPool} (table : Table type mem bucketNum maxNode pool' k)
    (bucket : ∀ i : ℕ, pool'.bucket i = client.pool.bucket i) :
    MapInv type mem bucketNum maxNode ⟨pool', client.map⟩ k := by
  refine ⟨table, inv.keys, fun key member => ?_, inv.placed⟩
  rw [inv.table.slot_eq table, bucket]
  exact inv.chained key member

/-- Bytes stored where values lie. -/
theorem MapInv.setValue {address : ℕ} (behind : poolAt mem bucketNum + sizeofHeader ≤ address)
    (value : List UInt8) :
    MapInv type mem bucketNum maxNode ⟨client.pool.setValue address value, client.map⟩ k := by
  obtain ⟨table, bucket⟩ := @Table.frame type mem bucketNum maxNode k client.pool
    (client.pool.setValue address value) _ _ inv.table room rfl rfl rfl
    (sameOutside_write client.pool.memory address value) behind
  refine ⟨table, inv.keys, fun key member => ?_, inv.placed⟩
  rw [inv.table.slot_eq table, bucket _ (inv.table.slot_lt room key)]
  exact inv.chained key member

omit room in
/-- A present key keeps its address when its value changes. -/
theorem MapInv.replace {key : ℕ} {slot : Slot} (member : key ∈ client.map)
    (found : client.map.lookup key = some slot) (value : Option (List UInt8)) :
    MapInv type mem bucketNum maxNode
      ⟨client.pool, client.map.insert key ⟨slot.address, value⟩⟩ k := by
  refine ⟨inv.table, ?_, fun other held => inv.chained other ?_, fun other slot' found' => ?_⟩
  · rw [AList.keys_insert, List.length_cons, List.length_erase_of_mem (AList.mem_keys.mp member)]
    have := List.length_pos_of_mem (AList.mem_keys.mp member)
    have := inv.keys
    omega
  · rcases (AList.mem_insert _).mp held with rfl | held
    · exact member
    · exact held
  · by_cases equal : other = key
    · rw [equal, AList.lookup_insert] at found'
      cases found'
      exact inv.placed key slot found
    · rw [AList.lookup_insert_ne equal] at found'
      exact inv.placed other slot' found'

/-- **`Alloc` of a key whose bucket is empty.** -/
theorem MapInv.alloc {key : ℕ} (empty : client.pool.bucket (client.pool.slot key) = 0)
    (small : client.pool.slot key < 2 ^ 31) (fresh : client.pool.memPool.FreshInside) (fuel : ℕ) :
    ∃ done, client.pool.alloc type (fuel + 1) key = some done ∧ client.Inserts maxNode key done ∧
      (done.1 = 0 → MapInv type mem bucketNum maxNode ⟨done.2, client.map⟩ k) ∧
      (done.1 ≠ 0 → poolAt mem bucketNum + sizeofHeader ≤ done.1 ∧ ∀ value,
        MapInv type mem bucketNum maxNode ⟨done.2, client.map.insert key ⟨done.1, value⟩⟩ (k + 1)) := by
  have absent := inv.absent empty
  by_cases space : client.pool.memPool.HasSpace
  · obtain ⟨_, more, noWrap⟩ := inv.table.grown.inside room.fits room.pool fresh space
    obtain ⟨pool', allocated, table, own, others⟩ :=
      inv.table.alloc_some room empty fresh.1 small more noWrap fuel
    have front := le_offsetOf (FixedLenPool.getBlockSize type.nodeSize) k
    have eight : nodeOffset = 8 := rfl
    have count := table.grown.count
    have keys := inv.keys
    refine ⟨_, allocated, ⟨⟨fun null => ?_, fun full => ?_⟩, fun null => ?_⟩, fun null => ?_, fun _ => ?_⟩
    · dsimp only at null
      omega
    · rcases full with member | full
      · exact absurd member absent
      · omega
    · dsimp only at null
      omega
    · dsimp only at null
      omega
    · have behind : poolAt mem bucketNum + sizeofHeader ≤ poolAt mem bucketNum
          + offsetOf (FixedLenPool.getBlockSize type.nodeSize) k + nodeOffset + type.valueOffset := by
        omega
      exact ⟨behind, fun value => inv.put room value absent table (by rw [own]; omega) others behind⟩
  · obtain ⟨full, pool', allocated, memory, table, _, bucket⟩ :=
      inv.table.alloc_none room empty fresh space fuel
    refine ⟨_, allocated, ⟨⟨fun _ => .inr (inv.keys.trans full), fun _ => rfl⟩, fun _ => memory⟩,
      fun _ => inv.congr table bucket, fun given => absurd rfl given⟩

/-- **`Insert` of a key whose bucket is empty.** -/
theorem MapInv.insert {key : ℕ} (empty : client.pool.bucket (client.pool.slot key) = 0)
    (small : client.pool.slot key < 2 ^ 31) (fresh : client.pool.memPool.FreshInside)
    (value : List UInt8) (fuel : ℕ) :
    ∃ done, client.pool.insert type (fuel + 1) key value = some done ∧
      client.Inserts maxNode key done ∧ ∃ k', MapInv type mem bucketNum maxNode
        ⟨done.2, if done.1 = 0 then client.map
          else client.map.insert key ⟨done.1, some value⟩⟩ k' := by
  obtain ⟨⟨address, pool'⟩, allocated, inserts, unchanged, added⟩ :=
    inv.alloc room empty small fresh fuel
  unfold HashPool.insert
  rw [allocated, Option.map_some]
  dsimp only at *
  by_cases null : address = 0
  · rw [if_pos null]
    refine ⟨_, rfl, ⟨⟨fun _ => inserts.1.mp null, fun _ => rfl⟩, fun _ => inserts.2 null⟩, k, ?_⟩
    rw [if_pos rfl]
    exact unchanged null
  · obtain ⟨behind, put⟩ := added null
    rw [if_neg null]
    refine ⟨_, rfl, ⟨inserts.1, fun wrong => absurd wrong null⟩, k + 1, ?_⟩
    rw [if_neg null]
    exact (put _).setValue room behind value

omit room inv in
/-- Without fuel no loop ends. -/
theorem perform_zero {op : HashOp} {next : MapClient} (performed : client.perform type 0 op = some next) :
    ∃ key value, op = .store key value := by
  cases op with
  | store key value => exact ⟨key, value, rfl⟩
  | alloc key => cases performed
  | insert key value => cases performed
  | get key => cases performed
  | free key => cases performed

/-- **A sound call** does what it owes, and keeps the invariant. -/
theorem MapInv.step {op : HashOp} (allowed : client.Allowed type op) (sound : client.Sound op) :
    client.Meets type maxNode op ∧ ∀ fuel next, client.perform type fuel op = some next →
      ∃ k', MapInv type mem bucketNum maxNode next k' := by
  cases op with
  | alloc key =>
    obtain ⟨empty, small, fresh⟩ := sound
    constructor
    · obtain ⟨done, allocated, inserts, _⟩ := inv.alloc room empty small fresh 0
      exact ⟨1, done, allocated, inserts⟩
    · intro fuel next performed
      cases fuel with
      | zero =>
        obtain ⟨_, _, wrong⟩ := perform_zero performed
        cases wrong
      | succ fuel =>
        obtain ⟨done, allocated, _, unchanged, added⟩ := inv.alloc room empty small fresh fuel
        unfold MapClient.perform at performed
        dsimp only at performed
        rw [allocated, Option.map_some, Option.some.injEq] at performed
        rw [← performed]
        by_cases null : done.1 = 0
        · rw [if_pos null]
          exact ⟨k, unchanged null⟩
        · rw [if_neg null]
          exact ⟨k + 1, (added null).2 _⟩
  | insert key value =>
    obtain ⟨empty, small, fresh⟩ := sound
    constructor
    · obtain ⟨done, stored, inserts, _⟩ := inv.insert room empty small fresh value 0
      exact ⟨1, done, stored, inserts⟩
    · intro fuel next performed
      cases fuel with
      | zero =>
        obtain ⟨_, _, wrong⟩ := perform_zero performed
        cases wrong
      | succ fuel =>
        obtain ⟨done, stored, _, kept⟩ := inv.insert room empty small fresh value fuel
        unfold MapClient.perform at performed
        dsimp only at performed
        rw [stored, Option.map_some, Option.some.injEq] at performed
        rw [← performed]
        exact kept
  | get key =>
    have absent := inv.absent sound
    have missing : client.map.lookup key = none := AList.lookup_eq_none.mpr absent
    have found : ∀ fuel, client.pool.getValue type (fuel + 1) key = some 0 := by
      intro fuel
      unfold HashPool.getValue
      rw [HashPool.getNode_empty type sound]
      rfl
    refine ⟨⟨1, 0, found 0, ⟨fun wrong => absurd rfl wrong, fun member => absurd member absent⟩,
      fun slot value stored => ?_⟩, fun fuel next performed => ⟨k, ?_⟩⟩
    · rw [missing] at stored
      cases stored
    · obtain ⟨_, _, same⟩ := Option.map_eq_some_iff.mp performed
      rw [← same]
      exact inv
  | free key =>
    obtain ⟨empty, small⟩ := sound
    have absent := inv.absent empty
    refine ⟨⟨1, _, HashPool.free_empty type empty small 0, ?_⟩, fun fuel next performed => ?_⟩
    · exact ⟨fun wrong => absurd (show (-1 : ℤ) = 0 from wrong) (by decide),
        fun member => absurd member absent⟩
    · cases fuel with
      | zero =>
        obtain ⟨_, _, wrong⟩ := perform_zero performed
        cases wrong
      | succ fuel =>
        unfold MapClient.perform at performed
        dsimp only at performed
        rw [HashPool.free_empty type empty small, Option.map_some, Option.some.injEq] at performed
        rw [← performed]
        refine ⟨k, inv.congr ?_ fun _ => rfl⟩
        exact ⟨inv.table.header, inv.table.buckets, inv.table.grown, inv.table.bucketNum,
          inv.table.nodeNum⟩
  | store key value =>
    obtain ⟨member, _⟩ := allowed
    refine ⟨trivial, fun fuel next performed => ⟨k, ?_⟩⟩
    obtain ⟨slot, found, same⟩ := Option.map_eq_some_iff.mp performed
    rw [← same]
    exact (inv.setValue room (inv.placed key slot found) value).replace member found _

end Step

/-- Every state sound calls lead to has the invariant. -/
theorem mapInv_of_reachable (room : HashRoom type mem bucketNum maxNode) {client : MapClient}
    (reached : (mapMachine MapClient.Sound type mem bucketNum maxNode).Reachable client) :
    ∃ k, MapInv type mem bucketNum maxNode client k := by
  have base : ∀ start, (mapMachine MapClient.Sound type mem bucketNum maxNode).init start →
      ∃ k, MapInv type mem bucketNum maxNode start k := by
    rintro _ ⟨before, rfl⟩
    rw [init_fresh room before]
    exact ⟨0, mapInv_init room before⟩
  refine reached.invariant base ?_
  rintro last op next _ ⟨k, inv⟩ ⟨allowed, sound, fuel, performed⟩
  exact (inv.step room allowed sound).2 fuel next performed

theorem MapInv.counts {client : MapClient} (inv : MapInv type mem bucketNum maxNode client k) :
    client.Counts := by
  unfold MapClient.Counts
  rw [inv.table.nodeNum, inv.keys]

end Tables

/-! ### Which runs are correct -/

/-- **Which runs are correct.** In every run whose calls find the bucket of their key empty, and whose
insertions find the free list of the pool empty and the place of the next node inside the pool, every such
call does what a bounded finite map owes, and `node_num` counts the keys. -/
theorem hashPool_correct (type : NodeType) (mem bucketNum maxNode : ℕ)
    (room : HashRoom type mem bucketNum maxNode) (client : MapClient)
    (reached : (mapMachine MapClient.Sound type mem bucketNum maxNode).Reachable client) :
    client.Counts ∧ ∀ op, client.Allowed type op → client.Sound op →
      client.Meets type maxNode op := by
  obtain ⟨k, inv⟩ := mapInv_of_reachable room reached
  exact ⟨inv.counts, fun op allowed sound => (inv.step room allowed sound).1⟩

/-- A `uint32_t` key and a `uint32_t` value. -/
def wordNode : NodeType := ⟨4, 4, 4, .inr (.inr (.inl rfl)), by decide⟩

/-- The client of a fresh table with two buckets. -/
def freshMapClient (maxNode : ℕ) : MapClient :=
  ⟨((⟨0, 0, ⟨fun _ => 0, 0, 0, .none⟩, .none⟩ : HashPool).init wordNode 4096
    (HashPool.getMaxSize wordNode 2 maxNode) 2 maxNode false).2, ∅⟩

/-- In a table for a thousand nodes the first key is inserted. -/
theorem hashPool_correct_thousand :
    (freshMapClient 1000).Meets wordNode 1000 (.insert 7 [1, 2, 3, 4]) :=
  (hashPool_correct wordNode 4096 2 1000 ⟨by decide, by decide, by decide, by decide, by decide, by decide⟩
    (freshMapClient 1000) (Machine.Reachable.start ⟨_, rfl⟩)).2 _ ⟨by decide, rfl⟩
    ⟨by decide +kernel, by decide +kernel, by decide +kernel, fun _ => by decide +kernel⟩

/-- The client after its first insertion. -/
def insertedMapClient : MapClient :=
  ⟨(((freshMapClient 1000).pool.insert wordNode 1 7 [1, 2, 3, 4]).getD (0, (freshMapClient 1000).pool)).2,
    AList.insert 7 ⟨7292, some [1, 2, 3, 4]⟩ ∅⟩

theorem freshMapClient_insert :
    (freshMapClient 1000).perform wordNode 1 (.insert 7 [1, 2, 3, 4]) = some insertedMapClient := by
  have placed : ((freshMapClient 1000).pool.insert wordNode 1 7 [1, 2, 3, 4]).map Prod.fst
      = some 7292 := by decide +kernel
  obtain ⟨⟨address, pool⟩, inserted, here⟩ := Option.map_eq_some_iff.mp placed
  obtain rfl : address = 7292 := here
  unfold MapClient.perform insertedMapClient
  dsimp only
  rw [inserted]
  rfl

/-- Its only node is looked for elsewhere, where nothing lies. -/
theorem insertedMapClient_getNode {fuel node : ℕ}
    (found : insertedMapClient.pool.getNode wordNode fuel 7 = some node) : node = 0 := by
  have first : insertedMapClient.pool.bucket (insertedMapClient.pool.slot 7) ≠ 0 := by decide +kernel
  have other : insertedMapClient.pool.keyOf wordNode (insertedMapClient.pool.memPool.deref
    (insertedMapClient.pool.bucket (insertedMapClient.pool.slot 7))) ≠ 7 := by decide +kernel
  have last : insertedMapClient.pool.nextOf wordNode (insertedMapClient.pool.memPool.deref
    (insertedMapClient.pool.bucket (insertedMapClient.pool.slot 7))) = 0 := by decide +kernel
  unfold HashPool.getNode at found
  generalize insertedMapClient.pool = pool at *
  rcases fuel with _ | _ | fuel
  · cases found
  · rw [HashPool.findNode, if_neg first, if_neg other] at found
    cases found
  · rw [HashPool.findNode, if_neg first, if_neg other, last, HashPool.findNode, if_pos rfl] at found
    exact (Option.some.inj found).symm

/-- The key just inserted is not found. -/
theorem hashPool_correct_fails_first :
    (mapMachine (fun _ _ => True) wordNode 4096 2 1000).Reachable insertedMapClient ∧
      ¬ insertedMapClient.Meets wordNode 1000 (.get 7) := by
  constructor
  · have start : (mapMachine (fun _ _ => True) wordNode 4096 2 1000).Reachable (freshMapClient 1000) :=
      Machine.Reachable.start ⟨_, rfl⟩
    have inserted : (mapMachine (fun _ _ => True) wordNode 4096 2 1000).step (freshMapClient 1000)
        (.insert 7 [1, 2, 3, 4]) insertedMapClient :=
      ⟨⟨by decide, rfl⟩, trivial, 1, freshMapClient_insert⟩
    exact start.next inserted
  · rintro ⟨fuel, address, found, present, _⟩
    obtain ⟨node, located, rfl⟩ := Option.map_eq_some_iff.mp found
    rw [insertedMapClient_getNode located] at present
    exact present.mpr (AList.mem_insert _ |>.mpr (.inl rfl)) rfl

end Yarf.Memory
