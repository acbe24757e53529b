/-
**A hash table in a pool** (`hash_pool.h`).

The table lives in one block of memory: a `HashHeader`, the buckets, and a `FixedLenPool` whose nodes are
`HashNode`s. A bucket and the `next` of a node hold the offset of a node in the pool (`Ref`), 0 for none.
Memory is the memory of the pool.

The loops over a chain take fuel; `none` means that it has not sufficed.
-/

import Mathlib.Algebra.Group.Int.Defs
import Mathlib.Data.List.AList
import Yarf.Memory.FixedLenPool

namespace Yarf.Memory

open Lib

/-! ### Layout -/

/-- A size rounded up to a multiple of an alignment. -/
def roundUp (size align : ℕ) : ℕ := (size + align - 1) / align * align

theorem le_roundUp {align : ℕ} (positive : 0 < align) (size : ℕ) : size ≤ roundUp size align := by
  unfold roundUp
  have split := Nat.div_add_mod (size + align - 1) align
  have rest := Nat.mod_lt (size + align - 1) positive
  rw [Nat.mul_comm] at split
  omega

/-- `KeyType`, an unsigned integer, and `ValueType`, a plain type: their sizes and alignments. -/
structure NodeType where
  keySize : ℕ
  valueSize : ℕ
  valueAlign : ℕ
  unsigned : keySize = 1 ∨ keySize = 2 ∨ keySize = 4 ∨ keySize = 8
  aligned : 0 < valueAlign

namespace NodeType

variable (type : NodeType)

/-- `offsetof(HashNode, value)` -/
def valueOffset : ℕ := roundUp type.keySize type.valueAlign

/-- `offsetof(HashNode, next)` -/
def nextOffset : ℕ := roundUp (type.valueOffset + type.valueSize) 8

/-- `sizeof(HashNode)` -/
def nodeSize : ℕ := roundUp (type.nextOffset + 8) (max 8 type.valueAlign)

theorem keySize_le : type.keySize ≤ type.valueOffset := le_roundUp type.aligned _

theorem value_le : type.valueOffset + type.valueSize ≤ type.nextOffset := le_roundUp (by decide) _

theorem next_le : type.nextOffset + 8 ≤ type.nodeSize :=
  le_roundUp (Nat.lt_of_lt_of_le (by decide) (Nat.le_max_left 8 _)) _

end NodeType

/-- `sizeof(HashHeader)`. -/
def sizeofHashHeader : ℕ := 32

/-- The fields of `HashHeader`. -/
inductive HashField
  | bucketNum
  | maxNode
  | nodeNum
  | nodeSize
  | extended
  deriving DecidableEq

/-- The layout of `HashHeader`. -/
def hashRecord : Record HashField where
  offset
    | .bucketNum => 0
    | .maxNode => 4
    | .nodeNum => 8
    | .nodeSize => 16
    | .extended => 24
  width
    | .bucketNum | .maxNode | .nodeNum | .extended => 4
    | .nodeSize => 8
  size := sizeofHashHeader
  inside field := by cases field <;> decide
  apart field other := by cases field <;> cases other <;> decide

/-- What `err_msg_` says. -/
inductive HashError
  | none
  /-- `Init失败,非配的共享内存不足` -/
  | memSize
  /-- `Init失败,check_header failed` -/
  | checkHeader
  /-- `Init失败,mem_pool_.Init失败: ` -/
  | poolInit (message : PoolError)
  /-- `Alloc失败,error=key已经存在` -/
  | keyExists
  /-- `Alloc失败,Alloc() return NULL,error: ` -/
  | alloc (message : PoolError)
  /-- `Free失败,error: ` -/
  | free (message : PoolError)
  /-- `Free失败,key not found` -/
  | notFound
  deriving DecidableEq

structure HashPool where
  /-- `header_` -/
  header : ℕ
  /-- `buckets_` -/
  buckets : ℕ
  /-- `mem_pool_` -/
  memPool : FixedLenPool
  errMsg : HashError

namespace HashPool

variable (type : NodeType)

def getMaxSize (bucketNum maxNode : ℕ) : ℕ :=
  (sizeofHashHeader + 8 * bucketNum + FixedLenPool.getAllocSize maxNode type.nodeSize) % 2 ^ 64

/-! ### Places in memory -/

section Places

variable (pool : HashPool)

def memory : ℕ → UInt8 := pool.memPool.memory

def setMemory (memory : ℕ → UInt8) : HashPool :=
  { pool with memPool := { pool.memPool with memory := memory } }

/-- A field of `*header_`. -/
def get (field : HashField) : ℕ := hashRecord.load pool.memory pool.header field

def set (field : HashField) (value : ℕ) : HashPool :=
  pool.setMemory (hashRecord.store pool.memory pool.header field value)

/-- The address of `buckets_[index]`. -/
def bucketAt (index : ℤ) : ℕ := ((pool.buckets + 8 * index) % 2 ^ 64).toNat

def bucket (index : ℤ) : ℕ := loadNat pool.memory 8 (pool.bucketAt index)

def setBucket (index : ℤ) (value : ℕ) : HashPool :=
  pool.setMemory (storeNat pool.memory 8 (pool.bucketAt index) value)

/-- `node->key` -/
def keyOf (node : ℕ) : ℕ := loadNat pool.memory type.keySize node

def setKey (node key : ℕ) : HashPool :=
  pool.setMemory (storeNat pool.memory type.keySize node key)

/-- `node->next` -/
def nextOf (node : ℕ) : ℕ := loadNat pool.memory 8 (node + type.nextOffset)

def setNext (node value : ℕ) : HashPool :=
  pool.setMemory (storeNat pool.memory 8 (node + type.nextOffset) value)

/-- `&node->value` -/
def valueAt (node : ℕ) : ℕ := node + type.valueOffset

/-- `memcpy` of a value. -/
def setValue (address : ℕ) (value : List UInt8) : HashPool :=
  pool.setMemory (write pool.memory (cells (span address) value))

/-- `key % bucket_num` -/
def slot (key : ℕ) : ℕ := key % pool.get .bucketNum

/-- The same as an `int`. -/
def index (key : ℕ) : ℤ := (pool.slot key : ℤ).bmod (2 ^ 32)

end Places

/-! ### Operations -/

section Operations

variable (pool : HashPool)

/-- The fields of `*header_` that `Init` stores. -/
def storeHeader (bucketNum maxNode : ℕ) : HashPool :=
  ((((pool.set .bucketNum bucketNum).set .maxNode maxNode).set .nodeNum 0).set .nodeSize
    type.nodeSize).set .extended 0

/-- `memset(buckets_, 0, …)` -/
def clearBuckets : HashPool :=
  pool.setMemory (fill pool.memory pool.buckets (8 * pool.get .bucketNum) 0)

/-- `Init(mem, mem_size, bucket_num, max_node, check_header)` -/
def init (mem memSize bucketNum maxNode : ℕ) (checkHeader : Bool) : ℤ × HashPool :=
  if memSize < getMaxSize type bucketNum maxNode then (-1, { pool with errMsg := .memSize })
  else
    let pool := { pool with header := mem }
    if checkHeader ∧ (pool.get .bucketNum ≠ bucketNum ∨ pool.get .maxNode ≠ maxNode ∨
        maxNode < pool.get .nodeNum ∨ pool.get .nodeSize ≠ type.nodeSize) then
      (-1, { pool with errMsg := .checkHeader })
    else
      let pool := if checkHeader then pool else pool.storeHeader type bucketNum maxNode
      let pool := { pool with buckets := mem + sizeofHashHeader }
      let pool := if checkHeader then pool else pool.clearBuckets
      let (ret, memPool) := pool.memPool.init (pool.buckets + 8 * pool.get .bucketNum)
        (pool.get .maxNode) type.nodeSize checkHeader
      if ret ≠ 0 then (-1, { pool with memPool := memPool, errMsg := .poolInit memPool.errorMsg })
      else (0, { pool with memPool := memPool })

/-- The loop of `GetNode`, from an offset on. -/
def findNode (key : ℕ) : (fuel p : ℕ) → Option ℕ
  | 0, _ => none
  | fuel + 1, p =>
    if p = 0 then some 0
    else if pool.keyOf type (pool.memPool.deref p) = key then some (pool.memPool.deref p)
    else findNode key fuel (pool.nextOf type (pool.memPool.deref p))

/-- `GetNode(key)`: 0 when the key is not found. -/
def getNode (fuel key : ℕ) : Option ℕ := pool.findNode type key fuel (pool.bucket (pool.slot key))

/-- A node put in front of the chain of its key. -/
def linkNode (node key : ℕ) : HashPool :=
  let pool := pool.setKey type node key
  let index := pool.index key
  if pool.bucket index = 0 then
    let pool := pool.setNext type node 0
    pool.setBucket index (pool.memPool.ref node)
  else
    let pool := pool.setNext type node (pool.bucket index)
    pool.setBucket index (pool.memPool.ref node)

/-- `Alloc(key)`: the address of the value, or 0. -/
def alloc (fuel key : ℕ) : Option (ℕ × HashPool) :=
  (pool.getNode type fuel key).map fun node =>
    if node ≠ 0 then (0, { pool with errMsg := .keyExists })
    else
      let (node, memPool) := pool.memPool.alloc true
      let pool := { pool with memPool := memPool }
      if node = 0 then (0, { pool with errMsg := .alloc memPool.errorMsg })
      else
        let pool := pool.linkNode type node key
        (valueAt type node, pool.set .nodeNum (pool.get .nodeNum + 1))

/-- `Insert(key, value)` -/
def insert (fuel key : ℕ) (value : List UInt8) : Option (ℕ × HashPool) :=
  (pool.alloc type fuel key).map fun (address, pool) =>
    if address = 0 then (0, pool) else (address, pool.setValue address value)

/-- `Get(key)` -/
def getValue (fuel key : ℕ) : Option ℕ :=
  (pool.getNode type fuel key).map fun node => if node ≠ 0 then valueAt type node else 0

/-- The loop of `Free`: the node before the one of the key, and that node. -/
def findLink (key : ℕ) : (fuel prev p : ℕ) → Option (Option (ℕ × ℕ))
  | 0, _, _ => none
  | fuel + 1, prev, p =>
    if p = 0 then some none
    else if pool.keyOf type (pool.memPool.deref p) = key then some (some (prev, pool.memPool.deref p))
    else findLink key fuel (pool.memPool.deref p) (pool.nextOf type (pool.memPool.deref p))

/-- `Free(key)` -/
def free (fuel key : ℕ) : Option (ℤ × HashPool) :=
  (pool.findLink type key fuel 0 (pool.bucket (pool.index key))).map fun
    | none => (-1, { pool with errMsg := .notFound })
    | some (prev, node) =>
      let pool := if prev ≠ 0 then pool.setNext type prev (pool.nextOf type node)
        else pool.setBucket (pool.index key) (pool.nextOf type node)
      let pool := pool.set .nodeNum (pool.get .nodeNum + 2 ^ 32 - 1)
      let (ret, memPool) := pool.memPool.free node
      let pool := { pool with memPool := memPool }
      if ret ≠ 0 then (-1, { pool with errMsg := .free memPool.errorMsg }) else (0, pool)

end Operations

/-! ### Fields and buckets -/

section Fields

variable {type : NodeType} {pool : HashPool}

@[simp]
theorem memory_setMemory (memory : ℕ → UInt8) : (pool.setMemory memory).memory = memory := rfl

@[simp]
theorem header_setMemory (memory : ℕ → UInt8) : (pool.setMemory memory).header = pool.header := rfl

@[simp]
theorem buckets_setMemory (memory : ℕ → UInt8) : (pool.setMemory memory).buckets = pool.buckets := rfl

@[simp]
theorem header_setKey (node key : ℕ) : (pool.setKey type node key).header = pool.header := rfl

@[simp]
theorem buckets_setKey (node key : ℕ) : (pool.setKey type node key).buckets = pool.buckets := rfl

theorem get_set (field other : HashField) (value : ℕ) : (pool.set field value).get other
    = if other = field then value % 256 ^ hashRecord.width field else pool.get other :=
  hashRecord.load_store _ _ _ _ _

theorem set_sameOutside (field : HashField) (value : ℕ) :
    SameOutside pool.header (pool.header + sizeofHashHeader) pool.memory (pool.set field value).memory :=
  hashRecord.store_sameOutside _ _ _ _

/-- A change away from the header leaves its fields. -/
theorem get_of_sameOutside {pool' : HashPool} {lo hi : ℕ} (header : pool'.header = pool.header)
    (same : SameOutside lo hi pool.memory pool'.memory)
    (apart : pool.header + sizeofHashHeader ≤ lo ∨ hi ≤ pool.header) (field : HashField) :
    pool'.get field = pool.get field := by
  unfold get
  rw [header]
  exact hashRecord.load_of_sameOutside _ same apart field

/-- A bucket of the table, by an index that is one. -/
theorem bucketAt_natCast {i : ℕ} (inside : pool.buckets + 8 * i < 2 ^ 64) :
    pool.bucketAt i = pool.buckets + 8 * i := by
  unfold bucketAt
  omega

/-- A change away from a bucket leaves it. -/
theorem bucket_of_sameOutside {pool' : HashPool} {lo hi i : ℕ} (buckets : pool'.buckets = pool.buckets)
    (inside : pool.buckets + 8 * i < 2 ^ 64) (same : SameOutside lo hi pool.memory pool'.memory)
    (apart : pool.buckets + 8 * i + 8 ≤ lo ∨ hi ≤ pool.buckets + 8 * i) :
    pool'.bucket i = pool.bucket i := by
  unfold bucket
  rw [bucketAt_natCast inside, bucketAt_natCast (buckets ▸ inside), buckets]
  exact same.loadNat apart

theorem setBucket_sameOutside {i : ℕ} (inside : pool.buckets + 8 * i < 2 ^ 64) (value : ℕ) :
    SameOutside (pool.buckets + 8 * i) (pool.buckets + 8 * i + 8) pool.memory
      (pool.setBucket i value).memory := by
  unfold setBucket
  rw [bucketAt_natCast inside]
  exact sameOutside_storeNat _ _ _ _

theorem bucket_setBucket (i : ℤ) {value : ℕ} (fits : value < 2 ^ 64) :
    (pool.setBucket i value).bucket i = value :=
  (loadNat_storeNat _ _ _ _).trans (Nat.mod_eq_of_lt fits)

theorem index_eq {key : ℕ} (small : pool.slot key < 2 ^ 31) : pool.index key = pool.slot key := by
  unfold index
  rw [Int.bmod_eq_of_le] <;> omega

end Fields

/-! ### Initialisation -/

section Init

variable {type : NodeType} {pool : HashPool} {bucketNum maxNode : ℕ}

theorem get_storeHeader (buckets : bucketNum < 2 ^ 32) (nodes : maxNode < 2 ^ 32) :
    (pool.storeHeader type bucketNum maxNode).get .bucketNum = bucketNum ∧
      (pool.storeHeader type bucketNum maxNode).get .maxNode = maxNode ∧
      (pool.storeHeader type bucketNum maxNode).get .nodeNum = 0 := by
  have four : 256 ^ 4 = 2 ^ 32 := by decide
  unfold storeHeader
  simp only [get_set, hashRecord, four, reduceCtorEq, if_true, if_false, Nat.mod_eq_of_lt buckets,
    Nat.mod_eq_of_lt nodes, Nat.zero_mod, and_self]

/-- Every bucket is empty. -/
theorem bucket_clearBuckets {i : ℕ} (bound : i < pool.get .bucketNum)
    (inside : pool.buckets + 8 * pool.get .bucketNum < 2 ^ 64) : pool.clearBuckets.bucket i = 0 := by
  have zeros : load pool.clearBuckets.memory (span (pool.buckets + 8 * i)) 8 = List.replicate 8 0 := by
    refine List.map_congr_left fun place member => if_pos ?_
    have := List.mem_range.mp member
    rw [span_apply]
    omega
  unfold bucket
  rw [bucketAt_natCast (show pool.clearBuckets.buckets + 8 * i < 2 ^ 64 by
    show pool.buckets + 8 * i < 2 ^ 64
    omega)]
  show leNat (load _ (span (pool.buckets + 8 * i)) 8) = 0
  rw [zeros]
  decide

theorem clearBuckets_sameOutside : SameOutside pool.buckets (pool.buckets + 8 * pool.get .bucketNum)
    pool.memory pool.clearBuckets.memory :=
  sameOutside_fill _ _ _ _

end Init

section Stored

variable (type : NodeType) (mem bucketNum maxNode : ℕ) (before : HashPool)

/-- The table once `Init` has stored its header. -/
def stored : HashPool :=
  { ({ before with header := mem } : HashPool).storeHeader type bucketNum maxNode with
    buckets := mem + sizeofHashHeader }

theorem init_eq (memSize : ℕ) (enough : ¬ memSize < getMaxSize type bucketNum maxNode) :
    before.init type mem memSize bucketNum maxNode false =
      let blank := (stored type mem bucketNum maxNode before).clearBuckets
      let done := blank.memPool.init (blank.buckets + 8 * blank.get .bucketNum) (blank.get .maxNode)
        type.nodeSize false
      if done.1 ≠ 0 then
        (-1, { blank with memPool := done.2, errMsg := .poolInit done.2.errorMsg })
      else (0, { blank with memPool := done.2 }) := by
  unfold init stored
  rw [if_neg enough]
  simp only [Bool.false_eq_true, false_and, if_false]

variable {type mem bucketNum maxNode before} (buckets : bucketNum < 2 ^ 32) (nodes : maxNode < 2 ^ 32)

theorem get_stored (field : HashField) : (stored type mem bucketNum maxNode before).get field =
    (({ before with header := mem } : HashPool).storeHeader type bucketNum maxNode).get field := rfl

include buckets nodes

theorem bucketNum_stored : (stored type mem bucketNum maxNode before).get .bucketNum = bucketNum := by
  rw [get_stored, (get_storeHeader buckets nodes).1]

theorem clearBuckets_stored_sameOutside :
    SameOutside (mem + sizeofHashHeader) (mem + sizeofHashHeader + 8 * bucketNum)
      (stored type mem bucketNum maxNode before).memory
      (stored type mem bucketNum maxNode before).clearBuckets.memory := by
  have filled := @clearBuckets_sameOutside (stored type mem bucketNum maxNode before)
  rwa [bucketNum_stored buckets nodes] at filled

theorem get_clearBuckets_stored (field : HashField) :
    (stored type mem bucketNum maxNode before).clearBuckets.get field
      = (stored type mem bucketNum maxNode before).get field :=
  get_of_sameOutside (header_setMemory _) (clearBuckets_stored_sameOutside buckets nodes)
    (.inl le_rfl) field

end Stored

/-! ### Empty chains -/

section Empty

variable (type : NodeType) {pool : HashPool} {key : ℕ} (empty : pool.bucket (pool.slot key) = 0)

include empty

/-- The walk along an empty chain ends at once. -/
theorem getNode_empty (fuel : ℕ) : pool.getNode type (fuel + 1) key = some 0 := by
  unfold getNode
  rw [empty]
  rfl

theorem free_empty (small : pool.slot key < 2 ^ 31) (fuel : ℕ) :
    pool.free type (fuel + 1) key = some (-1, { pool with errMsg := .notFound }) := by
  unfold free
  rw [index_eq small, empty]
  rfl

/-- The pool has no node. -/
theorem alloc_none (fuel : ℕ) {memPool : FixedLenPool} (none : pool.memPool.alloc true = (0, memPool)) :
    pool.alloc type (fuel + 1) key =
      some (0, { pool with memPool := memPool, errMsg := .alloc memPool.errorMsg }) := by
  unfold alloc
  rw [getNode_empty type empty, Option.map_some, none]
  rfl

/-- A node from the pool is linked. -/
theorem alloc_some (fuel : ℕ) {memPool : FixedLenPool} {node : ℕ} (nonNull : node ≠ 0)
    (given : pool.memPool.alloc true = (node, memPool)) :
    pool.alloc type (fuel + 1) key = some (valueAt type node,
      ({ pool with memPool := memPool } : HashPool).linkNode type node key |>.set .nodeNum
        ((({ pool with memPool := memPool } : HashPool).linkNode type node key).get .nodeNum + 1)) := by
  unfold alloc
  rw [getNode_empty type empty, Option.map_some, given]
  dsimp only
  rw [if_neg (by decide), if_neg nonNull]

end Empty

section Link

variable (type : NodeType) {pool : HashPool} {key node lo hi : ℕ} (inside : lo ≤ node)
  (within : node + type.nodeSize ≤ hi)

include inside within

/-- The key of a node lies in its block. -/
theorem setKey_sameOutside :
    SameOutside lo hi pool.memory (pool.setKey type node key).memory := by
  have keyInside := type.keySize_le
  have valueInside := type.value_le
  have nextInside := type.next_le
  exact (sameOutside_storeNat _ _ _ _).mono inside (by omega)

/-- So does its `next`. -/
theorem setKey_setNext_sameOutside (value : ℕ) : SameOutside lo hi pool.memory
    ((pool.setKey type node key).setNext type node value).memory := by
  have valueInside := type.value_le
  have nextInside := type.next_le
  exact (setKey_sameOutside type inside within).trans
    ((sameOutside_storeNat _ _ _ _).mono (by omega) (by omega))

/-- The node at the end of an empty chain: its key and its `next` are stored in its block, then the
bucket. -/
theorem linkNode_empty (small : pool.slot key < 2 ^ 31) (empty : pool.bucket (pool.slot key) = 0)
    (table : pool.buckets + 8 * pool.slot key + 8 ≤ lo) (front : pool.header + sizeofHashHeader ≤ lo)
    (space : lo < 2 ^ 64) : pool.linkNode type node key
      = ((pool.setKey type node key).setNext type node 0).setBucket (pool.slot key)
        (pool.memPool.ref node) := by
  have bound : pool.buckets + 8 * pool.slot key < 2 ^ 64 := by omega
  have keyed := @setKey_sameOutside type pool key node lo hi inside within
  have num : (pool.setKey type node key).get .bucketNum = pool.get .bucketNum :=
    get_of_sameOutside (header_setKey _ _) keyed (.inl front) _
  have slot : (pool.setKey type node key).slot key = pool.slot key := by
    unfold HashPool.slot
    rw [num]
  have index : (pool.setKey type node key).index key = pool.slot key := by
    rw [index_eq (slot ▸ small), slot]
  have still : (pool.setKey type node key).bucket (pool.slot key) = 0 :=
    (bucket_of_sameOutside (buckets_setKey _ _) bound keyed (.inl table)).trans empty
  unfold linkNode
  dsimp only
  rw [index, if_pos still]
  rfl

end Link

/-- **A node linked into an empty bucket and counted**: its bucket holds its offset, and everything outside
its block is as before but for that bucket and the count. -/
theorem linked_spec (type : NodeType) (pool : HashPool) {key node lo hi poolBase : ℕ}
    (small : pool.slot key < 2 ^ 31) (empty : pool.bucket (pool.slot key) = 0)
    (base : pool.memPool.header = poolBase)
    (table : pool.header + sizeofHashHeader ≤ pool.buckets)
    (chains : pool.buckets + 8 * pool.get .bucketNum ≤ poolBase) (some : 0 < pool.get .bucketNum)
    (behind : poolBase + sizeofHeader ≤ lo) (space : lo < 2 ^ 64)
    (inside : lo ≤ node) (within : node + type.nodeSize ≤ hi) :
    ∃ linked, (pool.linkNode type node key).set .nodeNum
        ((pool.linkNode type node key).get .nodeNum + 1) = linked ∧
      linked.header = pool.header ∧ linked.buckets = pool.buckets ∧
      linked.memPool.header = pool.memPool.header ∧
      linked.get .bucketNum = pool.get .bucketNum ∧
      linked.get .nodeNum = (pool.get .nodeNum + 1) % 2 ^ 32 ∧
      (∀ field, linked.memPool.get field = pool.memPool.get field) ∧
      linked.bucket (pool.slot key) = pool.memPool.ref node ∧
      ∀ i : ℕ, i < pool.get .bucketNum → i ≠ pool.slot key → linked.bucket i = pool.bucket i := by
  have slotLt : pool.slot key < pool.get .bucketNum := Nat.mod_lt _ some
  have refLt : pool.memPool.ref node < 2 ^ 64 := Nat.mod_lt _ (by decide)
  have four : 256 ^ hashRecord.width .nodeNum = 2 ^ 32 := by decide
  have linked := linkNode_empty type inside within small empty (by omega) (by omega) space
  have block := @setKey_setNext_sameOutside type pool key _ _ _ inside within 0
  have shape : (pool.setKey type node key).setNext type node 0
      = pool.setMemory ((pool.setKey type node key).setNext type node 0).memory := rfl
  rw [shape] at linked
  generalize ((pool.setKey type node key).setNext type node 0).memory = memory at linked block
  have bucket := @setBucket_sameOutside (pool.setMemory memory) (pool.slot key)
    (by rw [buckets_setMemory]; omega) (pool.memPool.ref node)
  have written := @bucket_setBucket (pool.setMemory memory) (pool.slot key) _ refLt
  rw [← linked, buckets_setMemory, memory_setMemory] at bucket
  rw [← linked] at written
  have header : (pool.linkNode type node key).header = pool.header := by rw [linked]; rfl
  have buckets : (pool.linkNode type node key).buckets = pool.buckets := by rw [linked]; rfl
  have poolHeader : (pool.linkNode type node key).memPool.header = pool.memPool.header := by
    rw [linked]
    rfl
  have headerM : (pool.setMemory memory).header = pool.header := rfl
  have bucketsM : (pool.setMemory memory).buckets = pool.buckets := rfl
  have poolHeaderM : (pool.setMemory memory).memPool.header = pool.memPool.header := rfl
  generalize pool.linkNode type node key = middle at *
  have field : ∀ field, middle.get field = pool.get field := fun field =>
    (get_of_sameOutside (header.trans headerM.symm) bucket (.inl (by rw [headerM]; omega)) field).trans
      (get_of_sameOutside headerM block (.inl (by omega)) field)
  have poolField : ∀ field, middle.memPool.get field = pool.memPool.get field := fun field =>
    (FixedLenPool.get_of_sameOutside (poolHeader.trans poolHeaderM.symm) bucket
      (.inr (by rw [poolHeaderM]; omega)) field).trans
      (FixedLenPool.get_of_sameOutside poolHeaderM block (.inl (by omega)) field)
  have other : ∀ i : ℕ, i < pool.get .bucketNum → i ≠ pool.slot key →
      middle.bucket i = pool.bucket i := fun i bound differ =>
    (bucket_of_sameOutside (buckets.trans bucketsM.symm) (by rw [bucketsM]; omega) bucket
      (by rw [bucketsM]; omega)).trans
      (bucket_of_sameOutside bucketsM (by omega) block (.inl (by omega)))
  have count := @set_sameOutside middle .nodeNum (middle.get .nodeNum + 1)
  have headerC : (middle.set .nodeNum (middle.get .nodeNum + 1)).header = middle.header := rfl
  have bucketsC : (middle.set .nodeNum (middle.get .nodeNum + 1)).buckets = middle.buckets := rfl
  have poolHeaderC : (middle.set .nodeNum (middle.get .nodeNum + 1)).memPool.header
    = middle.memPool.header := rfl
  have kept : ∀ i : ℕ, i < pool.get .bucketNum →
      (middle.set .nodeNum (middle.get .nodeNum + 1)).bucket i = middle.bucket i := fun i bound =>
    bucket_of_sameOutside bucketsC (by omega) count (.inr (by omega))
  refine ⟨_, rfl, headerC.trans header, bucketsC.trans buckets, poolHeaderC.trans poolHeader, ?_, ?_,
    fun at' => ?_, (kept _ slotLt).trans written, fun i bound differ => ?_⟩
  · rw [get_set, if_neg (by decide), field]
  · rw [get_set, if_pos rfl, four, field]
  · exact (FixedLenPool.get_of_sameOutside poolHeaderC count (.inr (by omega)) at').trans (poolField at')
  · exact (kept i bound).trans (other i bound differ)

end HashPool

end Yarf.Memory
