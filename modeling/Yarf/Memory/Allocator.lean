/-
**The pool as an allocator.**

`poolMachine` is one client of a pool: it calls `Alloc` and `Free` and writes inside the nodes it holds.
`Meets` is what an allocator owes its client at one call.

`Deref` puts the block at offset `pos` at `56 * pos`, while `Free` and the bound check count offsets in
bytes. So the `k`-th block taken from the unused end lies at `offsetOf k`, and a call does what it owes
as long as that place is inside the pool and no reference is followed back (`Sound`):

* `Inv.step` — what a sound call does, and the invariant it keeps;
* `first_free_fails` — without that condition, the first node can be neither inside the pool nor freed;
* `fixedLenPool_correct_iff` puts both together.
-/

import Yarf.Lib.Machine
import Yarf.Memory.Blocks

namespace Yarf.Memory

open Lib FixedLenPool

/-! ### A client of the pool -/

/-- The pool and the nodes its client holds. -/
structure Client where
  pool : FixedLenPool
  live : List ℕ

inductive PoolOp
  | alloc (zero : Bool)
  | free (node : ℕ)
  /-- The client stores a byte in a node. -/
  | write (node offset : ℕ) (byte : UInt8)

namespace Client

def perform (client : Client) : PoolOp → Client
  | .alloc zero =>
    ⟨(client.pool.alloc zero).2,
      if (client.pool.alloc zero).1 = 0 then client.live
      else (client.pool.alloc zero).1 :: client.live⟩
  | .free node => ⟨(client.pool.free node).2, client.live.erase node⟩
  | .write node offset byte =>
    ⟨{ client.pool with memory := Function.update client.pool.memory (node + offset) byte }, client.live⟩

/-- A client frees what it holds and writes inside what it holds. -/
def Allowed (nodeSize : ℕ) (client : Client) : PoolOp → Prop
  | .alloc _ => True
  | .free node => node ∈ client.live
  | .write node offset _ => node ∈ client.live ∧ offset < nodeSize

/-- What the call owes to the client: a node inside the pool, apart from the header and from every node
the client holds; no node exactly when all are held; and every node taken back. -/
def Meets (mem maxNode nodeSize : ℕ) (client : Client) : PoolOp → Prop
  | .alloc zero =>
    ((client.pool.alloc zero).1 ≠ 0 →
      mem + sizeofHeader ≤ (client.pool.alloc zero).1 ∧
      (client.pool.alloc zero).1 + nodeSize ≤ mem + getAllocSize maxNode nodeSize ∧
      ∀ other ∈ client.live, (client.pool.alloc zero).1 + nodeSize ≤ other ∨
        other + nodeSize ≤ (client.pool.alloc zero).1) ∧
    ((client.pool.alloc zero).1 = 0 ↔ client.live.length = maxNode)
  | .free node => (client.pool.free node).1 = 0
  | .write _ _ _ => True

/-- `Alloc` follows no reference, and the place `Deref` gives to the unused end is inside the pool; `Free`
is handed the node of a valid block. -/
def Sound (client : Client) : PoolOp → Prop
  | .alloc _ => client.pool.FreshInside
  | .free node => client.pool.IsValidBlock (getBlock node)
  | .write _ _ _ => True

end Client

/-- A client from `Init` on, in any memory, that makes only the calls `guard` lets through. -/
def poolMachine (guard : Client → PoolOp → Prop) (mem maxNode nodeSize : ℕ) : Machine Client PoolOp where
  init client := ∃ before : FixedLenPool, client = ⟨(before.init mem maxNode nodeSize false).2, []⟩
  step last op next := last.Allowed nodeSize op ∧ guard last op ∧ next = last.perform op

/-! ### The invariant -/

section Invariant

variable {mem maxNode nodeSize : ℕ}

/-- The client holds nodes among the first `k` blocks taken from the unused end, each marked as used. -/
structure Inv (mem maxNode nodeSize : ℕ) (client : Client) (k : ℕ) : Prop where
  grown : Grown mem maxNode nodeSize client.pool k
  data : client.pool.data = mem + sizeofHeader
  /-- Before the first `Free` the client holds them all. -/
  whole : client.pool.get .freeList = invalidRef → client.live.length = k
  placed : ∀ node ∈ client.live, ∃ i < k, node = mem + offsetOf (getBlockSize nodeSize) i + nodeOffset ∧
    offsetOf (getBlockSize nodeSize) i + getBlockSize nodeSize ≤ getAllocSize maxNode nodeSize ∧
    client.pool.next (mem + offsetOf (getBlockSize nodeSize) i) = 0
  nodup : client.live.Nodup

theorem inv_init (fits : Fits maxNode nodeSize) (room : Room mem maxNode nodeSize)
    (before : FixedLenPool) :
    Inv mem maxNode nodeSize ⟨(before.init mem maxNode nodeSize false).2, []⟩ 0 := by
  have inside := room.inside
  rw [fits.allocSize] at inside
  refine ⟨(grown_init fits room.nonNull before).1, ?_, fun _ => rfl, fun node member => ?_,
    List.nodup_nil⟩
  · rw [data_init _ _ _ room.nonNull, Nat.mod_eq_of_lt (by omega)]
  · cases member

section Step

variable {client : Client} {k : ℕ} (fits : Fits maxNode nodeSize) (room : Room mem maxNode nodeSize)
  (inv : Inv mem maxNode nodeSize client k)

include fits inv in
/-- A pool without room gives no node, and its client holds all there are. -/
theorem Inv.alloc_none (zero : Bool) (empty : client.pool.get .freeList = invalidRef)
    (full : ¬ client.pool.HasSpace) :
    client.Meets mem maxNode nodeSize (.alloc zero) ∧
      Inv mem maxNode nodeSize (client.perform (.alloc zero)) k := by
  have held : client.live.length = maxNode := by rw [inv.whole empty, inv.grown.full fits full]
  have none := alloc_full zero empty (Nat.not_le.mp full)
  have same : Grown mem maxNode nodeSize { client.pool with errorMsg := .full } k :=
    inv.grown.congr rfl fun _ _ => rfl
  unfold Client.Meets Client.perform
  dsimp only
  rw [none]
  exact ⟨⟨fun given => absurd rfl given, fun _ => held, fun _ => rfl⟩,
    same, inv.data, inv.whole, inv.placed, inv.nodup⟩

include fits room inv in
/-- A block from the unused end is no other block. -/
theorem Inv.alloc_some (zero : Bool) (fresh : client.pool.FreshInside)
    (space : client.pool.HasSpace) :
    client.Meets mem maxNode nodeSize (.alloc zero) ∧
      Inv mem maxNode nodeSize (client.perform (.alloc zero)) (k + 1) := by
  obtain ⟨within, more, noWrap⟩ := inv.grown.inside fits room fresh space
  obtain ⟨given, _, grown, _, used, header, block⟩ :=
    inv.grown.take fits room.nonNull more noWrap fresh.1 zero
  obtain ⟨_, large, _⟩ := fits.blockSize
  have eight : nodeOffset = 8 := rfl
  have front := le_offsetOf (getBlockSize nodeSize) k
  have nonNull : mem + offsetOf (getBlockSize nodeSize) k + nodeOffset ≠ 0 := by omega
  have count := grown.count
  have held := inv.whole fresh.1
  unfold Client.Meets Client.perform
  dsimp only
  rw [given]
  dsimp only
  rw [if_neg nonNull]
  refine ⟨⟨fun _ => ⟨?_, ?_, fun other member => ?_⟩, ?_⟩, grown, ?_, fun _ => ?_,
    fun node member => ?_, ?_⟩
  · omega
  · omega
  · obtain ⟨i, before, rfl, _⟩ := inv.placed other member
    have := offsetOf_add_le (getBlockSize nodeSize) before
    omega
  · omega
  · rw [data_taken, inv.data]
  · rw [List.length_cons, held]
  · rcases List.mem_cons.mp member with rfl | member
    · exact ⟨k, Nat.lt_succ_self k, rfl, within, used⟩
    · obtain ⟨i, before, same, fit, used⟩ := inv.placed node member
      have apart := offsetOf_add_le (getBlockSize nodeSize) before
      have front' := le_offsetOf (getBlockSize nodeSize) i
      refine ⟨i, Nat.lt_succ_of_lt before, same, fit, ?_⟩
      rw [next_of_sameOutside block (.inl (by omega)), next_of_sameOutside header (.inr (by omega)),
        used]
  · refine List.nodup_cons.mpr ⟨fun member => ?_, inv.nodup⟩
    obtain ⟨i, before, same, _⟩ := inv.placed _ member
    have := offsetOf_add_le (getBlockSize nodeSize) before
    omega

include fits inv in
/-- A store inside a node disturbs neither the header nor a `next`. -/
theorem Inv.write {node offset : ℕ} (byte : UInt8) (member : node ∈ client.live)
    (inside : offset < nodeSize) :
    Inv mem maxNode nodeSize (client.perform (.write node offset byte)) k := by
  obtain ⟨_, large, _⟩ := fits.blockSize
  have same : SameOutside (node + offset) (node + offset + 1) client.pool.memory
      (client.perform (.write node offset byte)).pool.memory := fun place outside =>
    Function.update_of_ne (by omega) _ _
  obtain ⟨i, before, rfl, _⟩ := inv.placed node member
  have front := le_offsetOf (getBlockSize nodeSize) i
  have eight : nodeOffset = 8 := rfl
  have header : (client.perform (.write (mem + offsetOf (getBlockSize nodeSize) i + nodeOffset) offset
      byte)).pool.header = client.pool.header := rfl
  have field := get_of_sameOutside header same (.inl (by rw [inv.grown.header]; omega))
  refine ⟨inv.grown.congr header fun other _ => field other, inv.data, ?_, fun other held => ?_,
    inv.nodup⟩
  · rw [field]
    exact inv.whole
  · obtain ⟨j, before', same', fit, used⟩ := inv.placed other held
    refine ⟨j, before', same', fit, ?_⟩
    rw [next_of_sameOutside same, used]
    rcases lt_trichotomy i j with less | rfl | more
    · have := offsetOf_add_le (getBlockSize nodeSize) less
      omega
    · omega
    · have := offsetOf_add_le (getBlockSize nodeSize) more
      omega

theorem get_linkFreeBlock {pool : FixedLenPool} {block : ℕ} (behind : pool.header + sizeofHeader ≤ block)
    (field : HeaderField) : (pool.linkFreeBlock block).get field
      = if field = .freeList then pool.ref block else pool.get field := by
  have bound : pool.ref block < 2 ^ 64 := Nat.mod_lt _ (by decide)
  have eight : 256 ^ headerRecord.width .freeList = 2 ^ 64 := by decide
  unfold linkFreeBlock
  rw [get_set, eight, Nat.mod_eq_of_lt bound]
  congr 1
  exact get_of_sameOutside (header_setNext _ _) (sameOutside_storeNat _ _ _ _) (.inl behind) field

include fits room inv in
/-- **A valid block handed back**: it is still marked as used, so it is linked. -/
theorem Inv.free {node : ℕ} (member : node ∈ client.live)
    (valid : client.pool.IsValidBlock (getBlock node)) :
    client.Meets mem maxNode nodeSize (.free node) ∧
      Inv mem maxNode nodeSize (client.perform (.free node)) k := by
  obtain ⟨_, large, _⟩ := fits.blockSize
  have room' := room.inside
  have nonNull := room.nonNull
  obtain ⟨i, before, here, fit, used⟩ := inv.placed node member
  have front := le_offsetOf (getBlockSize nodeSize) i
  have block : getBlock node = mem + offsetOf (getBlockSize nodeSize) i := by
    unfold getBlock
    unfold nodeOffset at *
    omega
  have ref : client.pool.ref (getBlock node) = offsetOf (getBlockSize nodeSize) i := by
    unfold FixedLenPool.ref
    rw [block, inv.grown.header]
    omega
  have freed : client.pool.free node = (0, client.pool.linkFreeBlock (getBlock node)) := by
    unfold FixedLenPool.free
    exact if_pos ⟨valid, block ▸ used⟩
  have behind : client.pool.header + sizeofHeader ≤ getBlock node := by
    rw [block, inv.grown.header]
    omega
  have field := get_linkFreeBlock behind
  unfold Client.Meets Client.perform
  dsimp only
  rw [freed]
  refine ⟨rfl, inv.grown.congr rfl fun other differ => ?_, inv.data, fun empty => ?_,
    fun other held => ?_, inv.nodup.erase node⟩
  · rw [field, if_neg differ]
  · have linked := (field .freeList).symm.trans empty
    rw [if_pos rfl, ref] at linked
    unfold offsetOf sizeofHeader invalidRef at linked
    omega
  · have held' := List.mem_of_mem_erase held
    have differ : other ≠ node := fun same => by
      rw [same] at held
      exact inv.nodup.not_mem_erase held
    obtain ⟨j, before', same', fit', used'⟩ := inv.placed other held'
    refine ⟨j, before', same', fit', ?_⟩
    have front' := le_offsetOf (getBlockSize nodeSize) j
    have linked : (client.pool.linkFreeBlock (getBlock node)).next
        (mem + offsetOf (getBlockSize nodeSize) j) = client.pool.next
          (mem + offsetOf (getBlockSize nodeSize) j) := by
      refine (next_of_sameOutside (set_sameOutside _ _) (.inr ?_)).trans
        (next_of_sameOutside (sameOutside_storeNat _ _ _ _) ?_)
      · rw [header_setNext, inv.grown.header]
        omega
      · rw [block]
        rcases lt_trichotomy i j with less | same | more
        · have := offsetOf_add_le (getBlockSize nodeSize) less
          omega
        · rw [same] at here
          exact absurd (same'.trans here.symm) differ
        · have := offsetOf_add_le (getBlockSize nodeSize) more
          omega
    exact linked.trans used'

include fits room inv in
/-- **A sound call** does what it owes, and keeps the invariant. -/
theorem Inv.step {op : PoolOp} (allowed : client.Allowed nodeSize op) (sound : client.Sound op) :
    client.Meets mem maxNode nodeSize op ∧
      ∃ k', Inv mem maxNode nodeSize (client.perform op) k' := by
  cases op with
  | alloc zero =>
    by_cases space : client.pool.HasSpace
    · obtain ⟨meets, kept⟩ := inv.alloc_some fits room zero sound space
      exact ⟨meets, k + 1, kept⟩
    · obtain ⟨meets, kept⟩ := inv.alloc_none fits zero sound.1 space
      exact ⟨meets, k, kept⟩
  | free node =>
    obtain ⟨meets, kept⟩ := inv.free fits room allowed sound
    exact ⟨meets, k, kept⟩
  | write node offset byte => exact ⟨trivial, k, inv.write fits byte allowed.1 allowed.2⟩

end Step

/-- Every state sound calls lead to has the invariant. -/
theorem inv_of_reachable (fits : Fits maxNode nodeSize) (room : Room mem maxNode nodeSize)
    {client : Client} (reached : (poolMachine Client.Sound mem maxNode nodeSize).Reachable client) :
    ∃ k, Inv mem maxNode nodeSize client k := by
  have base : ∀ start, (poolMachine Client.Sound mem maxNode nodeSize).init start →
      ∃ k, Inv mem maxNode nodeSize start k := by
    rintro _ ⟨before, rfl⟩
    exact ⟨0, inv_init fits room before⟩
  refine reached.invariant base ?_
  rintro last op next _ ⟨k, inv⟩ ⟨allowed, sound, rfl⟩
  exact (inv.step fits room allowed sound).2

end Invariant

/-! ### Which pools are correct -/

section Pools

variable {mem maxNode nodeSize : ℕ}

/-- The calls of a client that knows nothing of the pool. -/
abbrev anyPoolOp : Client → PoolOp → Prop := fun _ _ => True

theorem Inv.nobody {client : Client} (inv : Inv mem maxNode nodeSize client 0) (node : ℕ) :
    node ∉ client.live := by
  intro member
  obtain ⟨i, before, _⟩ := inv.placed node member
  exact absurd before (Nat.not_lt_zero i)

/-- Whatever its client does, a pool meant for no node never gives one. -/
theorem idle_of_reachable (fits : Fits 0 nodeSize) (room : Room mem 0 nodeSize)
    (noWrap : sizeofHeader + getBlockSize nodeSize < 2 ^ 64) {client : Client}
    (reached : (poolMachine anyPoolOp mem 0 nodeSize).Reachable client) :
    Inv mem 0 nodeSize client 0 ∧ client.pool.get .freeList = invalidRef := by
  have base : ∀ start, (poolMachine anyPoolOp mem 0 nodeSize).init start →
      Inv mem 0 nodeSize start 0 ∧ start.pool.get .freeList = invalidRef := by
    rintro _ ⟨before, rfl⟩
    exact ⟨inv_init fits room before, (grown_init fits room.nonNull before).2⟩
  refine reached.invariant base ?_
  rintro last op next _ ⟨inv, empty⟩ ⟨allowed, _, rfl⟩
  have full := inv.grown.not_hasSpace fits noWrap
  cases op with
  | alloc zero =>
    refine ⟨(inv.alloc_none fits zero empty full).2, ?_⟩
    unfold Client.perform
    dsimp only
    rw [alloc_full zero empty (Nat.not_le.mp full)]
    exact empty
  | free node => exact absurd allowed (inv.nobody node)
  | write node offset byte => exact absurd allowed.1 (inv.nobody node)

theorem meets_of_no_node (fits : Fits 0 nodeSize) (room : Room mem 0 nodeSize)
    (noWrap : sizeofHeader + getBlockSize nodeSize < 2 ^ 64) {client : Client}
    (reached : (poolMachine anyPoolOp mem 0 nodeSize).Reachable client) {op : PoolOp}
    (allowed : client.Allowed nodeSize op) : client.Meets mem 0 nodeSize op := by
  obtain ⟨inv, empty⟩ := idle_of_reachable fits room noWrap reached
  cases op with
  | alloc zero => exact (inv.alloc_none fits zero empty (inv.grown.not_hasSpace fits noWrap)).1
  | free node => exact absurd allowed (inv.nobody node)
  | write node offset byte => exact absurd allowed.1 (inv.nobody node)

/-- **The first node.** If it lies inside the pool at all, it lies too far behind the header for `Free` to
take it back. -/
theorem first_free_fails (fits : Fits maxNode nodeSize) (room : Room 1 maxNode nodeSize) {client : Client}
    (inv : Inv 1 maxNode nodeSize client 0) (empty : client.pool.get .freeList = invalidRef)
    (some : ¬ (maxNode = 0 ∧ sizeofHeader + getBlockSize nodeSize < 2 ^ 64))
    (meets : client.Meets 1 maxNode nodeSize (.alloc true)) :
    ∃ node ∈ (client.perform (.alloc true)).live,
      ¬ (client.perform (.alloc true)).Meets 1 maxNode nodeSize (.free node) := by
  obtain ⟨⟨eighths, aligned⟩, large, _⟩ := fits.blockSize
  have inside := room.inside
  have total := fits.total
  have bound := getBlockSize_lt nodeSize
  have blocks : maxNode * getBlockSize nodeSize = 8 * (maxNode * eighths) := by
    rw [aligned, Nat.mul_left_comm]
  have one : maxNode = 0 ∨ getBlockSize nodeSize ≤ maxNode * getBlockSize nodeSize :=
    maxNode.eq_zero_or_pos.imp_right (Nat.le_mul_of_pos_left _)
  rw [fits.allocSize] at inside
  unfold sizeofHeader at some total inside
  have size : client.pool.get .allocSize = 56 := by
    rw [inv.grown.allocSize, Nat.zero_mul]
    rfl
  have limit : client.pool.get .maxSize = 56 + maxNode * getBlockSize nodeSize := by
    rw [inv.grown.maxSize, fits.allocSize]
    rfl
  have space : client.pool.HasSpace := by
    unfold HasSpace
    rw [size, limit, inv.grown.blockSize]
    rcases one with none | some
    · omega
    · omega
  have here : client.pool.deref (client.pool.get .allocSize) = 3137 := by
    unfold FixedLenPool.deref
    rw [inv.grown.header, size]
    decide
  have given := alloc_taken true empty space (by rw [here]; decide)
  rw [here] at given
  have within : sizeofHeader * client.pool.get .allocSize + client.pool.get .blockSize
      ≤ client.pool.get .maxSize := by
    have nonNull : (client.pool.alloc true).1 ≠ 0 := by
      rw [given]
      exact (by decide : (3137 + nodeOffset) % 2 ^ 64 ≠ 0)
    have node := (meets.1 nonNull).2.1
    rw [given, fits.allocSize] at node
    rw [size, limit, inv.grown.blockSize]
    unfold sizeofHeader nodeOffset at *
    omega
  obtain ⟨_, kept⟩ := inv.alloc_some fits room true ⟨empty, fun _ => within⟩ space
  refine ⟨3145, ?_, fun freed => ?_⟩
  · unfold Client.perform
    dsimp only
    rw [given]
    exact List.mem_cons_self
  · have used : (client.perform (.alloc true)).pool.IsUsedBlock (getBlock 3145) := by
      by_contra unused
      unfold Client.Meets FixedLenPool.free at freed
      dsimp only at freed
      rw [if_neg unused] at freed
      exact absurd (show (-1 : ℤ) = 0 from freed) (by decide)
    refine used.1 (.inr (.inl ?_))
    have block : getBlock 3145 = 3137 := by decide
    rw [kept.grown.header, kept.grown.allocSize, kept.grown.blockSize, block, Nat.one_mul]
    rw [size, limit, inv.grown.blockSize] at within
    unfold sizeofHeader at *
    omega

/-- **Which pools are correct.** Every run of every client of a pool with these sizes gets what an
allocator owes exactly when there is no node to give; in a larger pool, a run gets it as long as every
`Alloc` finds the free list empty and the place of its block inside the pool, and every `Free` a valid
block. -/
theorem fixedLenPool_correct_iff (maxNode nodeSize : ℕ) (fits : Fits maxNode nodeSize) :
    ((∀ mem, Room mem maxNode nodeSize →
        ∀ client, (poolMachine (fun _ _ => True) mem maxNode nodeSize).Reachable client →
          ∀ op, client.Allowed nodeSize op → client.Meets mem maxNode nodeSize op) ↔
      maxNode = 0 ∧ sizeofHeader + getBlockSize nodeSize < 2 ^ 64) ∧
    ∀ mem, Room mem maxNode nodeSize →
      ∀ client, (poolMachine Client.Sound mem maxNode nodeSize).Reachable client →
        ∀ op, client.Allowed nodeSize op → client.Sound op →
          client.Meets mem maxNode nodeSize op := by
  refine ⟨⟨fun all => ?_, ?_⟩, fun mem room client reached op allowed sound => ?_⟩
  · by_contra some
    have room : Room 1 maxNode nodeSize := by
      obtain ⟨⟨eighths, aligned⟩, _⟩ := fits.blockSize
      have blocks : maxNode * getBlockSize nodeSize = 8 * (maxNode * eighths) := by
        rw [aligned, Nat.mul_left_comm]
      have total := fits.total
      refine ⟨Nat.one_ne_zero, ?_⟩
      rw [fits.allocSize]
      unfold sizeofHeader at *
      omega
    have zero : FixedLenPool := ⟨fun _ => 0, 0, 0, .none⟩
    have inv := inv_init fits room zero
    have reached : (poolMachine (fun _ _ => True) 1 maxNode nodeSize).Reachable
        ⟨(zero.init 1 maxNode nodeSize false).2, []⟩ := Machine.Reachable.start ⟨zero, rfl⟩
    have taken : (poolMachine (fun _ _ => True) 1 maxNode nodeSize).step
        ⟨(zero.init 1 maxNode nodeSize false).2, []⟩ (.alloc true) _ := ⟨trivial, trivial, rfl⟩
    have size : nodeSize < 2 ^ 64 := by
      have := fits.block
      omega
    obtain ⟨node, held, fails⟩ := first_free_fails fits room inv
      (get_init maxNode nodeSize zero room.nonNull fits.nodes size .freeList) some
      (all 1 room _ reached _ trivial)
    exact fails (all 1 room _ (reached.next taken) _ held)
  · rintro ⟨rfl, noWrap⟩ mem room client reached op allowed
    exact meets_of_no_node fits room noWrap reached allowed
  · obtain ⟨k, inv⟩ := inv_of_reachable fits room reached
    exact (inv.step fits room allowed sound).1

/-- The client of a fresh pool for `maxNode` nodes of eight bytes. -/
def freshClient (maxNode : ℕ) : Client :=
  ⟨((⟨fun _ => 0, 0, 0, .none⟩ : FixedLenPool).init 4096 maxNode 8 false).2, []⟩

/-- In a pool for a thousand nodes the first node is inside. -/
theorem fixedLenPool_correct_iff_thousand :
    (freshClient 1000).Meets 4096 1000 8 (.alloc true) :=
  (fixedLenPool_correct_iff 1000 8 ⟨by decide, by decide, by decide⟩).2 4096 ⟨by decide, by decide⟩
    _ (Machine.Reachable.start ⟨⟨fun _ => 0, 0, 0, .none⟩, rfl⟩) _ trivial
    ⟨by decide +kernel, fun _ => by decide +kernel⟩

/-- In a pool for one node, the first node begins 3144 bytes into a block of 72 bytes. -/
theorem fixedLenPool_correct_fails_first :
    (poolMachine (fun _ _ => True) 4096 1 8).Reachable (freshClient 1) ∧
      ¬ (freshClient 1).Meets 4096 1 8 (.alloc true) := by
  refine ⟨Machine.Reachable.start ⟨⟨fun _ => 0, 0, 0, .none⟩, rfl⟩, fun meets => ?_⟩
  have inside := (meets.1 (by decide +kernel)).2.1
  exact absurd inside (by decide +kernel)

end Pools

end Yarf.Memory
