/-
**A pool of nodes of one size** (`fixed_len_pool.h`, `fixed_len_pool.cc`).

The pool lives in one block of memory: a `Header`, then blocks of `block_size` bytes, each a `next` and a
node. Memory holds a byte for every address; the fields of the header are read from it and written to it,
so a stray write shows. Pointers and `size_t` are natural numbers with every sum reduced modulo `2 ^ 64`,
and the null pointer is 0.

The offset of a node counts bytes (`Ref`), but `Deref` adds an offset to a `Header` pointer, which counts
headers.
-/

import Yarf.Lib.Record

namespace Yarf.Memory

open Lib

/-- `sizeof(Header)`. -/
def sizeofHeader : ℕ := 56

/-- `offsetof(Block, node)`. -/
def nodeOffset : ℕ := 8

/-- `INVALID_REF`: the end of the free list. -/
def invalidRef : ℕ := 2 ^ 64 - 1

/-- The fields of `Header`. -/
inductive HeaderField
  | maxSize
  | maxNode
  | allocSize
  | allocNode
  | nodeSize
  | blockSize
  | freeList
  deriving DecidableEq

/-- The layout of `Header`: `uint32_t` or `size_t` fields. -/
def headerRecord : Record HeaderField where
  offset
    | .maxSize => 0
    | .maxNode => 8
    | .allocSize => 16
    | .allocNode => 24
    | .nodeSize => 32
    | .blockSize => 40
    | .freeList => 48
  width
    | .maxNode | .allocNode => 4
    | .maxSize | .allocSize | .nodeSize | .blockSize | .freeList => 8
  size := sizeofHeader
  inside field := by cases field <;> decide
  apart field other := by cases field <;> cases other <;> decide

/-- What `error_msg_` says, with the numbers printed into it. -/
inductive PoolError
  | none
  /-- `内存池头信息验证错误` -/
  | header
  /-- `Alloc错误,空间已满` -/
  | full
  /-- `Alloc错误,空闲块非法` -/
  | freeBlock (block header maxSize allocSize blockSize : ℕ)
  /-- `Free释放指针错误,指针为非法指针` -/
  | pointer (node header maxSize allocSize blockSize : ℕ)
  deriving DecidableEq

structure FixedLenPool where
  memory : ℕ → UInt8
  /-- `header_` -/
  header : ℕ
  /-- `data_` -/
  data : ℕ
  errorMsg : PoolError

namespace FixedLenPool

/-- `GetBlockSize`: `& ~7` clears the three low bits. -/
def getBlockSize (nodeSize : ℕ) : ℕ := (nodeSize + nodeOffset + 7) % 2 ^ 64 / 8 * 8

def getAllocSize (maxNode nodeSize : ℕ) : ℕ :=
  (sizeofHeader + maxNode * getBlockSize nodeSize) % 2 ^ 64

variable (pool : FixedLenPool)

/-- A field of `*header_`. -/
def get (field : HeaderField) : ℕ := headerRecord.load pool.memory pool.header field

def set (field : HeaderField) (value : ℕ) : FixedLenPool :=
  { pool with memory := headerRecord.store pool.memory pool.header field value }

def ref (p : ℕ) : ℕ := (p + 2 ^ 64 - pool.header) % 2 ^ 64

/-- `header_ + pos`: pointer arithmetic on a `Header*`. -/
def deref (pos : ℕ) : ℕ := (pool.header + sizeofHeader * pos) % 2 ^ 64

def getBlock (node : ℕ) : ℕ := (node + 2 ^ 64 - nodeOffset) % 2 ^ 64

/-- `block->next` -/
def next (block : ℕ) : ℕ := loadNat pool.memory 8 block

def setNext (block value : ℕ) : FixedLenPool :=
  { pool with memory := storeNat pool.memory 8 block value }

/-- `CheckHeader` -/
def CheckHeader (maxNode nodeSize : ℕ) : Prop :=
  pool.get .maxSize = getAllocSize maxNode nodeSize ∧ pool.get .maxNode = maxNode ∧
    pool.get .allocSize ≤ getAllocSize maxNode nodeSize ∧
    (sizeofHeader + pool.get .allocNode * pool.get .blockSize) % 2 ^ 64 = pool.get .allocSize ∧
    pool.get .nodeSize = nodeSize ∧ pool.get .blockSize = getBlockSize nodeSize

instance (maxNode nodeSize : ℕ) : Decidable (pool.CheckHeader maxNode nodeSize) :=
  inferInstanceAs (Decidable (_ ∧ _))

/-- `IsValidBlock` -/
def IsValidBlock (block : ℕ) : Prop :=
  ¬ (block < pool.data ∨
    (pool.header + pool.get .allocSize) % 2 ^ 64 < (block + pool.get .blockSize) % 2 ^ 64 ∨
    pool.ref block % pool.get .blockSize ≠ sizeofHeader % pool.get .blockSize)

instance (block : ℕ) : Decidable (pool.IsValidBlock block) := inferInstanceAs (Decidable (¬ _))

def IsUsedBlock (block : ℕ) : Prop := pool.IsValidBlock block ∧ pool.next block = 0

instance (block : ℕ) : Decidable (pool.IsUsedBlock block) := inferInstanceAs (Decidable (_ ∧ _))

/-- `Init(mem, max_node, node_size, check_header)` -/
def init (mem maxNode nodeSize : ℕ) (checkHeader : Bool) : ℤ × FixedLenPool :=
  if mem = 0 then (-1, pool)
  else
    let pool := { pool with header := mem }
    if checkHeader then
      if pool.CheckHeader maxNode nodeSize then (0, { pool with data := (mem + sizeofHeader) % 2 ^ 64 })
      else (-1, { pool with errorMsg := .header })
    else
      let pool := pool.set .maxSize (getAllocSize maxNode nodeSize)
      let pool := pool.set .maxNode maxNode
      let pool := pool.set .allocSize sizeofHeader
      let pool := pool.set .allocNode 0
      let pool := pool.set .nodeSize nodeSize
      let pool := pool.set .blockSize (getBlockSize nodeSize)
      let pool := pool.set .freeList invalidRef
      (0, { pool with data := (mem + sizeofHeader) % 2 ^ 64 })

/-- `GetFreeBlock` -/
def getFreeBlock : ℕ × FixedLenPool :=
  if pool.get .freeList = invalidRef then (0, pool)
  else
    let p := pool.deref (pool.get .freeList)
    (p, pool.set .freeList (pool.next p))

/-- `alloc_size += block_size; ++alloc_node` -/
def grow : FixedLenPool :=
  let pool := pool.set .allocSize (pool.get .allocSize + pool.get .blockSize)
  pool.set .allocNode (pool.get .allocNode + 1)

/-- The choice of a block in `Alloc`: from the free list, else from the unused end of the pool. -/
def chooseBlock : ℕ × FixedLenPool :=
  let (p, pool) := pool.getFreeBlock
  if p = 0 then
    if (pool.get .allocSize + pool.get .blockSize) % 2 ^ 64 ≤ pool.get .maxSize then
      (pool.deref (pool.get .allocSize), pool.grow)
    else (0, { pool with errorMsg := .full })
  else if pool.IsValidBlock p then (p, pool)
  else
    let message := PoolError.freeBlock p pool.header (pool.get .maxSize) (pool.get .allocSize)
      (pool.get .blockSize)
    (0, { pool with errorMsg := message })

/-- `memset(p, 0, block_size)` -/
def zeroBlock (block : ℕ) : FixedLenPool :=
  { pool with memory := fill pool.memory block (pool.get .blockSize) 0 }

/-- `Alloc(zero)` -/
def alloc (zero : Bool) : ℕ × FixedLenPool :=
  let (p, pool) := pool.chooseBlock
  if p = 0 then (0, pool)
  else
    let pool := if zero then pool.zeroBlock p else pool
    ((p + nodeOffset) % 2 ^ 64, pool.setNext p 0)

/-- `LinkFreeBlock` -/
def linkFreeBlock (block : ℕ) : FixedLenPool :=
  (pool.setNext block (pool.get .freeList)).set .freeList (pool.ref block)

/-- `Free(node)` -/
def free (node : ℕ) : ℤ × FixedLenPool :=
  let block := getBlock node
  if pool.IsUsedBlock block then (0, pool.linkFreeBlock block)
  else
    let message := PoolError.pointer node pool.header (pool.get .maxSize) (pool.get .allocSize)
      (pool.get .blockSize)
    (-1, { pool with errorMsg := message })

/-! ### Fields and stores -/

section Fields

variable {pool}

theorem get_data (data : ℕ) (field : HeaderField) :
    ({ pool with data := data } : FixedLenPool).get field = pool.get field := rfl

@[simp]
theorem header_set (field : HeaderField) (value : ℕ) : (pool.set field value).header = pool.header := rfl

@[simp]
theorem data_set (field : HeaderField) (value : ℕ) : (pool.set field value).data = pool.data := rfl

@[simp]
theorem header_setNext (block value : ℕ) : (pool.setNext block value).header = pool.header := rfl

@[simp]
theorem data_setNext (block value : ℕ) : (pool.setNext block value).data = pool.data := rfl

@[simp]
theorem header_zeroBlock (block : ℕ) : (pool.zeroBlock block).header = pool.header := rfl

@[simp]
theorem data_zeroBlock (block : ℕ) : (pool.zeroBlock block).data = pool.data := rfl

@[simp]
theorem header_grow : pool.grow.header = pool.header := rfl

@[simp]
theorem data_grow : pool.grow.data = pool.data := rfl

theorem get_set (field other : HeaderField) (value : ℕ) : (pool.set field value).get other
    = if other = field then value % 256 ^ headerRecord.width field else pool.get other :=
  headerRecord.load_store _ _ _ _ _

theorem set_sameOutside (field : HeaderField) (value : ℕ) :
    SameOutside pool.header (pool.header + sizeofHeader) pool.memory (pool.set field value).memory :=
  headerRecord.store_sameOutside _ _ _ _

theorem next_setNext (block value : ℕ) (fits : value < 2 ^ 64) :
    (pool.setNext block value).next block = value := by
  have width : (256 : ℕ) ^ 8 = 2 ^ 64 := by decide
  unfold next setNext
  rw [loadNat_storeNat, width, Nat.mod_eq_of_lt fits]

/-- A change away from the header leaves its fields. -/
theorem get_of_sameOutside {pool' : FixedLenPool} {lo hi : ℕ} (header : pool'.header = pool.header)
    (same : SameOutside lo hi pool.memory pool'.memory)
    (apart : pool.header + sizeofHeader ≤ lo ∨ hi ≤ pool.header) (field : HeaderField) :
    pool'.get field = pool.get field := by
  unfold get
  rw [header]
  exact headerRecord.load_of_sameOutside _ same apart field

/-- A change away from a block leaves its `next`. -/
theorem next_of_sameOutside {pool' : FixedLenPool} {lo hi block : ℕ}
    (same : SameOutside lo hi pool.memory pool'.memory) (apart : block + 8 ≤ lo ∨ hi ≤ block) :
    pool'.next block = pool.next block :=
  same.loadNat apart

end Fields

/-! ### What the calls do -/

section Calls

variable {pool}

/-- A pool with an empty free list and no room for a block: nothing but the message changes. -/
theorem alloc_full (zero : Bool) (empty : pool.get .freeList = invalidRef)
    (full : pool.get .maxSize < (pool.get .allocSize + pool.get .blockSize) % 2 ^ 64) :
    pool.alloc zero = (0, { pool with errorMsg := .full }) := by
  unfold alloc chooseBlock getFreeBlock
  rw [if_pos empty]
  dsimp only
  rw [if_pos rfl, if_neg (Nat.not_le.mpr full)]
  rfl

/-- The pool after `Alloc` has taken its block from the unused end. -/
def taken (pool : FixedLenPool) (zero : Bool) : FixedLenPool :=
  let block := pool.deref (pool.get .allocSize)
  (if zero then pool.grow.zeroBlock block else pool.grow).setNext block 0

theorem alloc_taken (zero : Bool) (empty : pool.get .freeList = invalidRef)
    (room : (pool.get .allocSize + pool.get .blockSize) % 2 ^ 64 ≤ pool.get .maxSize)
    (nonNull : pool.deref (pool.get .allocSize) ≠ 0) :
    pool.alloc zero
      = ((pool.deref (pool.get .allocSize) + nodeOffset) % 2 ^ 64, pool.taken zero) := by
  unfold alloc chooseBlock getFreeBlock
  rw [if_pos empty]
  dsimp only
  rw [if_pos rfl, if_pos room]
  dsimp only
  rw [if_neg nonNull]
  rfl

theorem get_grow_allocSize :
    pool.grow.get .allocSize = (pool.get .allocSize + pool.get .blockSize) % 2 ^ 64 := by
  unfold grow
  rw [get_set, if_neg (by decide), get_set, if_pos rfl]
  rfl

/-- The fields other than the two counters. -/
theorem get_grow {field : HeaderField} (size : field ≠ .allocSize) (node : field ≠ .allocNode) :
    pool.grow.get field = pool.get field := by
  unfold grow
  rw [get_set, if_neg node, get_set, if_neg size]

theorem grow_sameOutside :
    SameOutside pool.header (pool.header + sizeofHeader) pool.memory pool.grow.memory :=
  (set_sameOutside .allocSize _).trans
    (@set_sameOutside (pool.set .allocSize (pool.get .allocSize + pool.get .blockSize)) _ _)

/-- `memset` and `p->next = 0` change nothing outside the block. -/
theorem clear_sameOutside (zero : Bool) (block : ℕ) (room : 8 ≤ pool.get .blockSize) :
    SameOutside block (block + pool.get .blockSize) pool.memory
      ((if zero then pool.zeroBlock block else pool).setNext block 0).memory := by
  have next : ∀ memory, SameOutside block (block + pool.get .blockSize) memory
      (storeNat memory 8 block 0) := fun memory =>
    (sameOutside_storeNat memory 8 block 0).mono le_rfl (Nat.add_le_add_left room _)
  cases zero with
  | false => exact next _
  | true => exact (sameOutside_fill _ _ _ _).trans (next _)

section Taken

variable (zero : Bool)

@[simp]
theorem header_taken : (pool.taken zero).header = pool.header := by
  unfold taken
  cases zero <;> simp

@[simp]
theorem data_taken : (pool.taken zero).data = pool.data := by
  unfold taken
  cases zero <;> simp

theorem next_taken : (pool.taken zero).next (pool.deref (pool.get .allocSize)) = 0 := by
  unfold taken
  exact next_setNext _ _ (by decide)

/-- Behind the counters, nothing outside the block changes. -/
theorem taken_sameOutside (room : 8 ≤ pool.get .blockSize) :
    SameOutside (pool.deref (pool.get .allocSize))
      (pool.deref (pool.get .allocSize) + pool.get .blockSize) pool.grow.memory
      (pool.taken zero).memory := by
  have same : pool.grow.get .blockSize = pool.get .blockSize := get_grow (by decide) (by decide)
  rw [← same] at room ⊢
  unfold taken
  exact clear_sameOutside zero _ room

/-- A block behind the header leaves the header as the counters left it. -/
theorem get_taken (room : 8 ≤ pool.get .blockSize)
    (behind : pool.header + sizeofHeader ≤ pool.deref (pool.get .allocSize)) (field : HeaderField) :
    (pool.taken zero).get field = pool.grow.get field := by
  refine get_of_sameOutside ?_ (taken_sameOutside zero room) (.inl ?_) field
  · rw [header_taken, header_grow]
  · rwa [header_grow]

end Taken

end Calls

/-! ### Initialisation -/

section Init

variable {mem : ℕ} (maxNode nodeSize : ℕ) (pool : FixedLenPool)

theorem getBlockSize_lt : getBlockSize nodeSize < 2 ^ 64 := by
  unfold getBlockSize nodeOffset
  omega

theorem getAllocSize_lt : getAllocSize maxNode nodeSize < 2 ^ 64 := Nat.mod_lt _ (by decide)

/-- The header `Init` writes. -/
def initial : HeaderField → ℕ
  | .maxSize => getAllocSize maxNode nodeSize
  | .maxNode => maxNode
  | .allocSize => sizeofHeader
  | .allocNode => 0
  | .nodeSize => nodeSize
  | .blockSize => getBlockSize nodeSize
  | .freeList => invalidRef

theorem initial_lt (nodes : maxNode < 2 ^ 32) (size : nodeSize < 2 ^ 64) (field : HeaderField) :
    initial maxNode nodeSize field < 256 ^ headerRecord.width field := by
  have four : 256 ^ 4 = 2 ^ 32 := by decide
  have eight : 256 ^ 8 = 2 ^ 64 := by decide
  have total := getAllocSize_lt maxNode nodeSize
  have block := getBlockSize_lt nodeSize
  cases field <;> simp only [initial, headerRecord, four, eight] <;>
    first | assumption | decide

/-- Fields stored one after the other. -/
def store (values : HeaderField → ℕ) : List HeaderField → FixedLenPool → FixedLenPool
  | [], pool => pool
  | field :: rest, pool => store values rest (pool.set field (values field))

/-- The order in which `Init` stores them. -/
def fields : List HeaderField :=
  [.maxSize, .maxNode, .allocSize, .allocNode, .nodeSize, .blockSize, .freeList]

theorem init_eq (nonNull : mem ≠ 0) : pool.init mem maxNode nodeSize false =
    (0, { store (initial maxNode nodeSize) fields { pool with header := mem } with
      data := (mem + sizeofHeader) % 2 ^ 64 }) := by
  unfold init fields
  rw [if_neg nonNull]
  simp only [Bool.false_eq_true, if_false, store, initial]

/-- Fields stored one after the other keep what they were given. -/
theorem get_store (values : HeaderField → ℕ) (fits : ∀ field, values field < 256 ^ headerRecord.width field)
    (fields : List HeaderField) (field : HeaderField)
    (stored : field ∈ fields ∨ pool.get field = values field) :
    (store values fields pool).get field = values field := by
  induction fields generalizing pool with
  | nil => exact stored.resolve_left List.not_mem_nil
  | cons first rest ih =>
    refine ih _ ?_
    rw [get_set]
    by_cases same : field = first
    · rw [if_pos same, ← same, Nat.mod_eq_of_lt (fits field)]
      exact .inr rfl
    · rw [if_neg same]
      exact stored.imp_left fun member => (List.mem_cons.mp member).resolve_left same

theorem header_store (values : HeaderField → ℕ) (fields : List HeaderField) :
    (store values fields pool).header = pool.header := by
  induction fields generalizing pool with
  | nil => rfl
  | cons first rest ih => exact ih _

theorem store_sameOutside (values : HeaderField → ℕ) (fields : List HeaderField) :
    SameOutside pool.header (pool.header + sizeofHeader) pool.memory
      (store values fields pool).memory := by
  induction fields generalizing pool with
  | nil => exact sameOutside_refl _ _ _
  | cons first rest ih => exact (set_sameOutside first (values first)).trans (ih (pool.set first _))

variable (nonNull : mem ≠ 0)

include nonNull

theorem init_fst : (pool.init mem maxNode nodeSize false).1 = 0 := by
  rw [init_eq _ _ _ nonNull]

theorem header_init : (pool.init mem maxNode nodeSize false).2.header = mem := by
  rw [init_eq _ _ _ nonNull]
  dsimp only
  rw [header_store]

theorem data_init : (pool.init mem maxNode nodeSize false).2.data = (mem + sizeofHeader) % 2 ^ 64 := by
  rw [init_eq _ _ _ nonNull]

/-- The pointers of a pool that `Init` has set up, in a fresh memory or in the one it finds. -/
theorem init_pointers {checkHeader : Bool} (done : (pool.init mem maxNode nodeSize checkHeader).1 = 0) :
    (pool.init mem maxNode nodeSize checkHeader).2.header = mem ∧
      (pool.init mem maxNode nodeSize checkHeader).2.data = (mem + sizeofHeader) % 2 ^ 64 := by
  cases checkHeader with
  | false => exact ⟨header_init _ _ _ nonNull, data_init _ _ _ nonNull⟩
  | true =>
    revert done
    unfold init
    rw [if_neg nonNull]
    dsimp only
    rw [if_pos rfl]
    split_ifs
    · exact fun _ => ⟨rfl, rfl⟩
    · intro wrong
      cases wrong

/-- Only the header is written. -/
theorem init_sameOutside : SameOutside mem (mem + sizeofHeader) pool.memory
    (pool.init mem maxNode nodeSize false).2.memory := by
  rw [init_eq _ _ _ nonNull]
  exact store_sameOutside { pool with header := mem } (initial maxNode nodeSize) fields

theorem get_init (nodes : maxNode < 2 ^ 32) (size : nodeSize < 2 ^ 64) (field : HeaderField) :
    (pool.init mem maxNode nodeSize false).2.get field = initial maxNode nodeSize field := by
  have member : field ∈ fields := by cases field <;> decide
  rw [init_eq _ _ _ nonNull]
  dsimp only
  rw [get_data, get_store _ _ (initial_lt _ _ nodes size) _ _ (.inl member)]

end Init

end FixedLenPool

end Yarf.Memory
