/-
**The room of a ring, and how large a ring may be.**

* `send_exact` — up to `2 ^ 31` bytes `Send` accepts a message exactly when the live bytes, the bytes
  skipped at the end of the ring and the packet leave one byte over, and it then moves the tail by just
  that much;
* `freeSize_exact_iff`, `allocSize_exact_iff` — at any capacity, where the two occupancy formulas are
  the differences they stand for: exactly where the sum before the remainder fits 32 bits;
* `ring_exact_iff` — so they are exact at every position exactly up to `2 ^ 31`; behind it some run of
  `Send` makes the receiver refuse a valid packet.
-/

import Mathlib.Algebra.Group.Int.Defs
import Yarf.Channel.Config
import Yarf.Channel.Drained

namespace Yarf.Channel

open Lib

/-! ### The decision of `Send` -/

/-- The bytes not yet received. -/
def Queue.live (queue : Queue) : ℕ :=
  gap queue.header.capacity.toNat queue.header.head.toNat queue.header.tail.toNat

/-- The bytes skipped at the end of the ring in front of a packet of `size` bytes. -/
def Queue.skip (queue : Queue) (size : ℕ) : ℕ :=
  skipFor queue.header.capacity.toNat queue.header.tail.toNat size

/-- Where such a packet starts. -/
def Queue.start (queue : Queue) (size : ℕ) : ℕ :=
  (queue.header.tail.toNat + queue.skip size) % queue.header.capacity.toNat

/-- The message lies in one piece at the place for its packet of `size` bytes, and the tail has moved
behind it. -/
structure Stored (queue : Queue) (data : Message) (reserve : Reserve) (size : ℕ) (after : Queue) :
    Prop where
  inside : queue.start size + size ≤ queue.header.capacity.toNat
  head : ChannelPackHead.read after.buff (queue.start size)
    = packHeader data.len queue.header.seq reserve
  body : load after.buff (span (queue.start size + 48)) data.bytes.length = data.bytes
  tail : after.header.tail.toNat = (queue.start size + size) % queue.header.capacity.toNat
  /-- A full ring does not look empty. -/
  apart : after.header.tail ≠ after.header.head
  live : after.live = queue.live + queue.skip size + size
  /-- The receiver's words are left alone. -/
  receiver : after.header.capacity = queue.header.capacity ∧ after.header.head = queue.header.head

section Decision

variable {queue : Queue} {data : Message}

/-- An accepted packet, placed as the geometry has it. -/
theorem stored_append (headLt : queue.header.head.toNat < queue.header.capacity.toNat)
    (tailLt : queue.header.tail.toNat < queue.header.capacity.toNat) (reserve : Reserve) {at_ : Place}
    {size : ℕ} (same : (alignPackSize data.len).toNat = size) (wide : 0 < size)
    (room : Room queue.header.capacity.toNat queue.header.head.toNat queue.header.tail.toNat size)
    (geometry : Placed queue.header.capacity.toNat queue.header.tail.toNat size (queue.skip size) at_) :
    Stored queue data reserve size (queue.append data reserve at_) := by
  have start : at_.curTail.toNat = queue.start size := geometry.start
  have tail : (queue.append data reserve at_).header.tail.toNat
      = slot queue.header.capacity.toNat queue.header.tail.toNat (queue.skip size + size) :=
    toNat_nextTail geometry same
  have live : (queue.append data reserve at_).live = queue.live + queue.skip size + size := by
    show gap queue.header.capacity.toNat queue.header.head.toNat
      (queue.append data reserve at_).header.tail.toNat = _
    rw [tail]
    nth_rewrite 1 [← slot_gap headLt tailLt]
    rw [slot_slot, ← Nat.add_assoc]
    exact gap_slot headLt room
  obtain ⟨head, body⟩ := read_packWrites queue.buff at_
    (packHeader data.len queue.header.seq reserve) data.bytes
  refine ⟨start ▸ geometry.inside, start ▸ head, start ▸ body, ?_, fun equal => ?_, live, rfl, rfl⟩
  · rw [tail, ← slot_slot]
    rfl
  · -- equal positions leave nothing live
    have none : (queue.append data reserve at_).live = 0 := by
      unfold Queue.live
      rw [equal]
      exact gap_self headLt
    omega

end Decision

/-- **`Send` refuses only when there is no room.** For every ring of up to `2 ^ 31` bytes, every head and
tail in it and every message whose aligned size fits 32 bits: `Send` returns `kOk` exactly when what is
live, what is skipped and the packet leave one byte of the ring over, and `kChanFull` otherwise; an
accepted message is stored in one piece, a refused one leaves the queue as it was. -/
theorem send_exact (queue : Queue) (small : queue.header.capacity.toNat ≤ 2 ^ 31)
    (headLt : queue.header.head.toNat < queue.header.capacity.toNat)
    (tailLt : queue.header.tail.toNat < queue.header.capacity.toNat) (data : Message)
    (reserve : Reserve) (fits : roundUp (48 + data.bytes.length) < 2 ^ 32) :
    ((send queue data reserve).1 = .ok () ↔
      queue.live + queue.skip (roundUp (48 + data.bytes.length)) + roundUp (48 + data.bytes.length)
        ≤ queue.header.capacity.toNat - 1) ∧
    ((send queue data reserve).1 = .ok () →
      Stored queue data reserve (roundUp (48 + data.bytes.length)) (send queue data reserve).2) ∧
    ((send queue data reserve).1 ≠ .ok () → send queue data reserve = (.error .kChanFull, queue)) := by
  have len := data.toNat_len
  have size : 48 + roundUp data.bytes.length = roundUp (48 + data.bytes.length) := by
    unfold roundUp
    omega
  have wide : 48 ≤ roundUp (48 + data.bytes.length) := size ▸ Nat.le_add_right _ _
  have unwrapped : 48 + data.len.toNat + 7 < 2 ^ 32 := by
    rw [len]
    unfold roundUp at fits
    omega
  have aligned : (alignPackSize data.len).toNat = roundUp (48 + data.bytes.length) := by
    rw [toNat_alignPackSize unwrapped, len, size]
  have decision := sendPlan_ok_iff small headLt tailLt unwrapped
  rw [len, size] at decision
  refine ⟨?_, fun accepted => ?_, fun refused => ?_⟩
  · rw [send_eq_ok_iff, decision]
    unfold Room Queue.live Queue.skip
    omega
  · obtain ⟨at_, planned⟩ := (send_eq_ok_iff data reserve).mp accepted
    obtain ⟨room, geometry⟩ := placed_of_sendPlan_ok headLt tailLt planned
    rw [aligned] at room geometry
    rw [send_of_ok reserve planned]
    exact stored_append headLt tailLt reserve aligned (by omega) room geometry
  · cases planned : sendPlan queue.header.capacity queue.header.tail queue.header.head
      queue.header.head data.len with
    | error err => rw [send_of_error reserve planned, sendPlan_error unwrapped planned]
    | ok at_ =>
      rw [send_of_ok reserve planned] at refused
      exact absurd rfl refused

/-- A message of eight bytes in an empty ring of `1468`. -/
theorem send_exact_eight : Stored testQueue eight (Vector.replicate 24 0) 56
    (send testQueue eight (Vector.replicate 24 0)).2 := by
  have exact_ := send_exact testQueue (by decide) (by decide) (by decide) eight (Vector.replicate 24 0)
    (by decide)
  exact exact_.2.1 (exact_.1.mpr (by decide))

/-! ### The occupancy formulas -/

section Formulas

variable {capacity head tail : UInt32}

/-- A sum below `2 * C` taken in 32 bits is exact modulo `C` exactly where it fits. -/
theorem wrapped_mod_iff {C sum : ℕ} (capLt : C < 2 ^ 32) (once : sum < 2 * C) :
    sum % 2 ^ 32 % C = sum % C ↔ sum < 2 ^ 32 := by
  rcases Nat.lt_or_ge sum (2 ^ 32) with fits | wraps
  · rw [Nat.mod_eq_of_lt fits]
    exact iff_of_true rfl fits
  · -- what is lost is `2 ^ 32`, not a multiple of the ring
    rw [Nat.mod_eq_sub_mod wraps, Nat.mod_eq_of_lt (by omega : sum - 2 ^ 32 < 2 ^ 32),
      Nat.mod_eq_of_lt (by omega : sum - 2 ^ 32 < C), Nat.mod_eq_sub_mod (by omega),
      Nat.mod_eq_of_lt (by omega)]
    omega

/-- **The free size** is `(head - tail - 1) mod C` exactly where the sum before the remainder fits
32 bits. -/
theorem freeSize_exact_iff (headLt : head.toNat < capacity.toNat) (tailLt : tail.toNat < capacity.toNat) :
    ((freeSize capacity tail head).toNat : ℤ) = ((head.toNat : ℤ) - tail.toNat - 1) % capacity.toNat ↔
      capacity.toNat - tail.toNat - 1 + head.toNat < 2 ^ 32 := by
  rw [toNat_freeSize headLt tailLt, ← wrapped_mod_iff capacity.toNat_lt (by omega)]
  have exact_ : ((head.toNat : ℤ) - tail.toNat - 1) % capacity.toNat
      = ((capacity.toNat - tail.toNat - 1 + head.toNat) % capacity.toNat : ℕ) := by
    rw [Int.natCast_emod, ← Int.add_emod_right]
    congr 1
    omega
  rw [exact_, Int.natCast_inj]

theorem toNat_allocSize (headLt : head.toNat < capacity.toNat) :
    (allocSize capacity head tail).toNat
      = (tail.toNat + capacity.toNat - head.toNat) % 2 ^ 32 % capacity.toNat := by
  have capLt := capacity.toNat_lt
  rw [allocSize, UInt32.toNat_mod, UInt32.toNat_sub, UInt32.toNat_add]
  congr 1
  omega

/-- **The occupied size** is `(tail - head) mod C` exactly where the sum before the remainder fits
32 bits. -/
theorem allocSize_exact_iff (headLt : head.toNat < capacity.toNat)
    (tailLt : tail.toNat < capacity.toNat) :
    ((allocSize capacity head tail).toNat : ℤ) = ((tail.toNat : ℤ) - head.toNat) % capacity.toNat ↔
      tail.toNat + capacity.toNat - head.toNat < 2 ^ 32 := by
  rw [toNat_allocSize headLt]
  have exact_ : ((tail.toNat : ℤ) - head.toNat) % capacity.toNat
      = ((tail.toNat + capacity.toNat - head.toNat) % capacity.toNat : ℕ) := by
    rw [Int.natCast_emod, ← Int.add_emod_right]
    congr 1
    omega
  rw [exact_, Int.natCast_inj]
  rcases Nat.lt_or_ge tail.toNat head.toNat with order | order
  · exact wrapped_mod_iff capacity.toNat_lt (by omega)
  · exact wrapped_mod_iff capacity.toNat_lt (by omega)

end Formulas

/-- Both formulas are the exact differences, wherever head and tail stand. -/
def RingExact (capacity : UInt32) : Prop :=
  ∀ head tail : UInt32, head.toNat < capacity.toNat → tail.toNat < capacity.toNat →
    ((freeSize capacity tail head).toNat : ℤ)
      = ((head.toNat : ℤ) - tail.toNat - 1) % capacity.toNat ∧
    ((allocSize capacity head tail).toNat : ℤ) = ((tail.toNat : ℤ) - head.toNat) % capacity.toNat

/-- **The arithmetic is exact up to `2 ^ 31`** and at no larger capacity. -/
theorem ringExact_iff {capacity : UInt32} (positive : 0 < capacity.toNat) :
    RingExact capacity ↔ capacity.toNat ≤ 2 ^ 31 := by
  have capLt := capacity.toNat_lt
  constructor
  · intro exact_
    -- the head at the start of the ring and the tail at its end
    have last : (capacity - 1).toNat = capacity.toNat - 1 :=
      UInt32.toNat_sub_of_le _ _ (UInt32.le_iff_toNat_le.mpr positive)
    have lastLt : (capacity - 1).toNat < capacity.toNat := by omega
    have firstLt : (0 : UInt32).toNat < capacity.toNat := positive
    have fits := (allocSize_exact_iff firstLt lastLt).mp (exact_ 0 (capacity - 1) firstLt lastLt).2
    rw [last, UInt32.toNat_zero] at fits
    omega
  · intro small head tail headLt tailLt
    exact ⟨(freeSize_exact_iff headLt tailLt).mpr (by omega),
      (allocSize_exact_iff headLt tailLt).mpr (by omega)⟩

/-! ### Rings of any capacity -/

/-- A ring as `CreateUnlockQueue` or `AddChannel` leaves it. -/
def Admitted (capacity : UInt32) (start : Queue) : Prop :=
  (∃ memory bytes, createUnlockQueue (some memory) bytes true = (.ok (), some start) ∧
    start.header.capacity = capacity) ∨ start = freshQueue capacity

/-- Whatever has been sent, in messages that a pack head can describe, and received, `GetNextPack` finds
no fault with a packet. -/
def NeverInvalid (start : Queue) : Prop :=
  ∀ queue, (queueMachine start 65528).Reachable queue → queue.nextPack ≠ .error .kChanPackInvalid

theorem Admitted.represents {capacity : UInt32} {start : Queue} (admitted : Admitted capacity start)
    (positive : 0 < capacity.toNat) : Represents capacity start Fifo.empty ∧ start.header.head = 0 := by
  have empty : ∀ queue : Queue, queue.header.capacity = capacity → queue.header.head = 0 →
      queue.header.tail = 0 → queue.header.seq = 0 → Represents capacity queue Fifo.empty := by
    intro queue ring head tail seq
    refine ⟨ring, ?_, seq, 0, positive, ?_, .nil _⟩
    · rw [head]
      exact positive
    · rw [head, tail]
      exact (slot_zero positive).symm
  rcases admitted with ⟨memory, bytes, created, ring⟩ | rfl
  · have header := header_of_created created
    have head : start.header.head = 0 := by rw [header]; rfl
    exact ⟨empty start ring head (by rw [header]; rfl) (by rw [header]; rfl), head⟩
  · exact ⟨empty _ rfl rfl rfl rfl, rfl⟩

section Filling

variable {capacity : UInt32} {start : Queue}

/-- Some run of `Send` has filled the first `used` bytes of the ring. -/
structure Filled (capacity : UInt32) (start : Queue) (used : ℕ) (queue : Queue) : Prop where
  reached : (queueMachine start 65528).Reachable queue
  holds : ∃ fifo, Represents capacity queue fifo
  head : queue.header.head = 0
  tail : queue.header.tail.toNat = used

/-- In a ring that nothing has been received from, `Send` computes the free size exactly at any capacity,
and accepts what fits. -/
theorem sendPlan_behind {used len : UInt32} (short : len.toNat ≤ 65528)
    (room : used.toNat + (48 + roundUp len.toNat) < capacity.toNat) :
    ∃ at_, sendPlan capacity used 0 0 len = .ok at_ := by
  have aligned : (alignPackSize len).toNat = 48 + roundUp len.toNat := toNat_alignPackSize (by omega)
  have zeroLt : (0 : UInt32).toNat < capacity.toNat := by
    rw [UInt32.toNat_zero]
    omega
  have usedLt : used.toNat < capacity.toNat := by omega
  have live : gap capacity.toNat (0 : UInt32).toNat used.toNat = used.toNat := gap_of_le (Nat.zero_le _) usedLt
  have free : (freeSize capacity used 0).toNat = capacity.toNat - used.toNat - 1 := by
    have capLt := capacity.toNat_lt
    rw [toNat_freeSize zeroLt usedLt, UInt32.toNat_zero, Nat.add_zero,
      Nat.mod_eq_of_lt (by omega : _ < 2 ^ 32), Nat.mod_eq_of_lt (by omega)]
  have sized : sendSize capacity used 0 len = .ok () := by
    unfold sendSize
    rw [(packGuard_ok_iff len).mpr (Or.inl (by omega))]
    refine if_neg ?_
    rw [UInt32.lt_iff_toNat_lt, free, aligned]
    omega
  have behind : skipFor capacity.toNat used.toNat (alignPackSize len).toNat = 0 := by
    refine if_pos ?_
    rw [aligned]
    omega
  have fits : Room capacity.toNat (0 : UInt32).toNat used.toNat (alignPackSize len).toNat := by
    unfold Room
    rw [live, behind, aligned]
    omega
  obtain ⟨at_, placed, _⟩ := place_ok zeroLt usedLt fits
  refine ⟨at_, ?_⟩
  rw [sendPlan, sized]
  exact placed

theorem Admitted.filled (admitted : Admitted capacity start) (positive : 0 < capacity.toNat) :
    Filled capacity start 0 start := by
  obtain ⟨rep, head⟩ := admitted.represents positive
  refine ⟨.start rfl, ⟨_, rep⟩, head, ?_⟩
  obtain ⟨n, _, tail, lay⟩ := rep.live
  cases lay
  rw [tail, head]
  exact slot_zero positive

/-- One more message behind the others. -/
theorem Filled.send {used : ℕ} {queue : Queue} (filled : Filled capacity start used queue)
    (data : Message) (reserve : Reserve) (short : data.bytes.length ≤ 65528)
    (room : used + (48 + roundUp data.bytes.length) < capacity.toNat) :
    (send queue data reserve).1 = .ok () ∧
      Filled capacity start (used + (48 + roundUp data.bytes.length)) (send queue data reserve).2 := by
  obtain ⟨reached, ⟨fifo, rep⟩, head, rfl⟩ := filled
  have len := data.toNat_len
  have ring := rep.ring
  obtain ⟨at_, planned⟩ := @sendPlan_behind capacity queue.header.tail data.len (by omega)
    (by rwa [len])
  have whole : sendPlan queue.header.capacity queue.header.tail queue.header.head queue.header.head
      data.len = .ok at_ := by
    rw [ring, head]
    exact planned
  have sent := send_of_ok reserve whole
  have next := reached.next (.send queue data reserve short)
  have rep' := (send_represents rep data reserve short).resolve_left (by rw [sent]; exact nofun)
  rw [sent] at next rep' ⊢
  refine ⟨rfl, next, ⟨_, rep'.2⟩, head, ?_⟩
  have aligned : (alignPackSize data.len).toNat = 48 + roundUp data.bytes.length := by
    rw [toNat_alignPackSize (by omega), len]
  have headLt := rep.headLt
  rw [← ring] at headLt room
  have tailLt : queue.header.tail.toNat < queue.header.capacity.toNat := by omega
  obtain ⟨_, geometry⟩ := placed_of_sendPlan_ok headLt tailLt whole
  have behind : skipFor queue.header.capacity.toNat queue.header.tail.toNat
      (alignPackSize data.len).toNat = 0 := if_pos (by omega)
  rw [behind] at geometry
  show (nextTail queue.header.capacity (alignPackSize data.len) at_).toNat = _
  rw [toNat_nextTail geometry rfl, aligned, Nat.zero_add, slot_of_lt room]

/-- **Filling the ring**: from the pack size on, every multiple of eight that the ring has room for is
reached. -/
theorem exists_filled (admitted : Admitted capacity start) (used : ℕ) (wide : 48 ≤ used)
    (aligned : used % 8 = 0) (room : used < capacity.toNat) :
    ∃ queue, Filled capacity start used queue := by
  induction used using Nat.strong_induction_on with
  | _ used ih =>
    rcases Nat.lt_or_ge used 96 with few | many
    · -- one message on the fresh ring
      have fresh := admitted.filled (by omega)
      have size : 0 + (48 + roundUp (zeros (used - 48) (by omega)).bytes.length) = used := by
        rw [length_zeros, roundUp]
        omega
      have sent := (fresh.send (zeros (used - 48) (by omega)) (Vector.replicate 24 0)
        (by rw [length_zeros]; omega) (by rw [size]; exact room)).2
      rw [size] at sent
      exact ⟨_, sent⟩
    · -- an empty message behind the others
      obtain ⟨before, filled⟩ := ih (used - 48) (by omega) (by omega) (by omega) (by omega)
      have size : used - 48 + (48 + roundUp (zeros 0 (by decide)).bytes.length) = used := by
        rw [length_zeros, roundUp]
        omega
      have sent := (filled.send (zeros 0 (by decide)) (Vector.replicate 24 0)
        (by rw [length_zeros]; omega) (by rw [size]; exact room)).2
      rw [size] at sent
      exact ⟨_, sent⟩

/-- The packet at the start of the ring is found, unless the occupied size comes out smaller than it is. -/
theorem nextPack_filled {used : ℕ} {queue : Queue} (filled : Filled capacity start used queue)
    (some : 0 < used) (inside : used < capacity.toNat) :
    ∃ pack : Packet, PackAt queue.buff (0 : UInt32).toNat pack ∧ pack.size ≤ used ∧
      queue.nextPack = if (allocSize capacity 0 queue.header.tail).toNat < pack.size then
          .error .kChanPackInvalid
        else .ok ⟨0, kPackHeadSize
          + (ChannelPackHead.read queue.buff (0 : UInt32).toNat).alignBodyLen.toUInt32,
          ChannelPackHead.read queue.buff (0 : UInt32).toNat⟩ := by
  obtain ⟨_, ⟨fifo, rep⟩, head, rfl⟩ := filled
  obtain ⟨ring, _, _, n, nLt, tailAt, lay⟩ := rep
  rw [head, UInt32.toNat_zero] at tailAt lay
  rw [slot_of_lt (by omega), Nat.zero_add] at tailAt
  cases packets : fifo.packets with
  | nil =>
    rw [packets] at lay
    cases lay
    omega
  | cons pack rest =>
    rw [packets] at lay
    obtain ⟨skip, left, total, first, _⟩ := lay.first
    have wide : 48 ≤ pack.size := Nat.le_add_right _ _
    have none : skip = 0 := by
      rcases first.skips with none | ⟨toEnd, _⟩
      · exact none
      · omega
    have lies : PackAt queue.buff (0 : UInt32).toNat pack := by
      have there := first.lies
      rwa [none, slot_zero (by omega)] at there
    have apart : queue.header.tail ≠ 0 := by
      intro same
      rw [same, UInt32.toNat_zero] at some
      omega
    have sought : seek capacity queue.buff 0 queue.header.tail = .ok 0 := by
      have toEnd : ¬ capacity - 0 < kPackHeadSize := by
        rw [UInt32.sub_zero, UInt32.lt_iff_toNat_lt, toNat_kPackHeadSize]
        omega
      unfold seek
      rw [if_neg toEnd, if_neg (by rw [lies.cmd]; decide)]
    refine ⟨pack, lies, by omega, ?_⟩
    rw [Queue.nextPack, ring, head, getNextPack, if_neg apart, sought]
    dsimp only
    unfold checkPack
    dsimp only
    rw [if_neg (not_not.mpr lies.cmd)]
    have order : (kPackHeadSize + (ChannelPackHead.read queue.buff (0 : UInt32).toNat).alignBodyLen.toUInt32
        > allocSize capacity 0 queue.header.tail) ↔
        (allocSize capacity 0 queue.header.tail).toNat < pack.size := by
      rw [gt_iff_lt, UInt32.lt_iff_toNat_lt, lies.size]
    by_cases less : (allocSize capacity 0 queue.header.tail).toNat < pack.size
    · rw [if_pos (order.mpr less), if_pos less]
    · rw [if_neg (mt order.mp less), if_neg less]

end Filling

/-- **Behind `2 ^ 31`** some run of `Send` alone makes the receiver refuse a valid packet. -/
theorem neverInvalid_fails {capacity : UInt32} {start : Queue} (admitted : Admitted capacity start)
    (large : 2 ^ 31 < capacity.toNat) : ¬ NeverInvalid start := by
  have capLt := capacity.toNat_lt
  intro never
  -- fill the ring until the occupied size has just wrapped
  obtain ⟨used, wide, aligned, enough, close, room⟩ : ∃ used, 48 ≤ used ∧ used % 8 = 0 ∧
      2 ^ 32 ≤ used + capacity.toNat ∧ used + capacity.toNat < 2 ^ 32 + 48 ∧
      used < capacity.toNat := by
    rcases Nat.lt_or_ge (2 ^ 32 - capacity.toNat) 48 with few | many
    · exact ⟨48, by omega, by omega, by omega, by omega, by omega⟩
    · refine ⟨roundUp (2 ^ 32 - capacity.toNat), ?_⟩
      unfold roundUp
      omega
  obtain ⟨queue, filled⟩ := exists_filled admitted used wide aligned room
  have zeroLt : (0 : UInt32).toNat < capacity.toNat := by
    rw [UInt32.toNat_zero]
    omega
  have less : (allocSize capacity 0 queue.header.tail).toNat < 48 := by
    rw [toNat_allocSize zeroLt, filled.tail, UInt32.toNat_zero, Nat.sub_zero,
      Nat.mod_eq_sub_mod enough, Nat.mod_eq_of_lt (by omega : _ < 2 ^ 32),
      Nat.mod_eq_of_lt (by omega : _ < capacity.toNat)]
    omega
  obtain ⟨pack, _, _, found⟩ := nextPack_filled filled (by omega) room
  have size : 48 ≤ pack.size := Nat.le_add_right _ _
  rw [if_pos (less.trans_le size)] at found
  exact never queue filled.reached found

/-- Up to `2 ^ 31` the ring holds the pending messages, and `GetNextPack` finds the oldest one. -/
theorem neverInvalid_of_small {capacity : UInt32} {start : Queue} (admitted : Admitted capacity start)
    (positive : 0 < capacity.toNat) (small : capacity.toNat ≤ 2 ^ 31) : NeverInvalid start := by
  rintro queue ⟨first, events, rfl, run⟩
  have fresh := (admitted.represents positive).1
  obtain ⟨_, fifo, _, _, rep⟩ := (queueMachine_simulates small fresh).run rfl run
  rcases nextPack_represents small rep with ⟨_, empty⟩ | ⟨_, _, next, _, found, _⟩
  · rw [empty]
    exact nofun
  · rw [found]
    exact nofun

/-- **How large a ring may be.** For every capacity but zero, and every ring of that capacity as
`CreateUnlockQueue` or `AddChannel` leaves it: the two occupancy formulas are exact wherever head and tail
stand if and only if the capacity is at most `2 ^ 31`; and if and only if it is, no run of `Send`, `Recv`,
`Peek` and `Drop` comes to a state in which `GetNextPack` reports an invalid packet. -/
theorem ring_exact_iff (capacity : UInt32) (positive : 0 < capacity.toNat) (start : Queue)
    (admitted : Admitted capacity start) :
    (RingExact capacity ↔ capacity.toNat ≤ 2 ^ 31) ∧
      (NeverInvalid start ↔ capacity.toNat ≤ 2 ^ 31) := by
  refine ⟨ringExact_iff positive, fun never => ?_, neverInvalid_of_small admitted positive⟩
  by_contra large
  exact neverInvalid_fails admitted (Nat.not_le.mp large) never

/-- A ring of `1468` bytes, as `AddChannel` leaves it. -/
theorem ring_exact_iff_small : RingExact 1468 ∧ NeverInvalid (freshQueue 1468) := by
  have exact_ := ring_exact_iff 1468 (by decide) (freshQueue 1468) (.inr rfl)
  exact ⟨exact_.1.mpr (by decide), exact_.2.mpr (by decide)⟩

/-- A ring of `2 ^ 32 - 40` bytes, as `AddChannel` leaves it, after one empty message: 48 bytes are occupied,
the formula says 8, and the receiver reports the packet as invalid. -/
theorem ring_exact_fails_large :
    let queue := (send (freshQueue 4294967256) ⟨[], by decide⟩ (Vector.replicate 24 0)).2
    (queueMachine (freshQueue 4294967256) 65528).Reachable queue ∧
      queue.header.head = 0 ∧ queue.header.tail = 48 ∧
      allocSize 4294967256 0 48 = 8 ∧ ¬ RingExact 4294967256 ∧
      queue.nextPack = .error .kChanPackInvalid := by
  intro queue
  have sent : (queueMachine (freshQueue 4294967256) 65528).Reachable queue :=
    (Machine.Reachable.start rfl).next (.send _ ⟨[], by decide⟩ _ (Nat.zero_le _))
  have head : queue.header.head = 0 := by decide
  have tail : queue.header.tail = 48 := by decide
  have inexact : ¬ RingExact 4294967256 := by
    rw [ringExact_iff (by decide)]
    decide
  have filled := ((Admitted.filled (.inr rfl) (by decide) :
    Filled 4294967256 (freshQueue 4294967256) 0 (freshQueue 4294967256)).send ⟨[], by decide⟩
      (Vector.replicate 24 0) (Nat.zero_le _) (by decide)).2
  obtain ⟨pack, _, _, found⟩ := nextPack_filled filled (by decide) (by decide)
  have size : 48 ≤ pack.size := Nat.le_add_right _ _
  have less : (allocSize 4294967256 0 queue.header.tail).toNat < 48 := by
    rw [tail]
    decide
  rw [if_pos (less.trans_le size)] at found
  exact ⟨sent, head, tail, by decide, inexact, found⟩

end Yarf.Channel
