/-
**The lengths `Send` can handle.**

Two lengths go wrong, and each for exactly the lengths the widths give:

* `sendSafe_iff` — `Send` stays inside the ring exactly for the lengths with `48 + len < 2 ^ 32`. From
  there on the size wraps before the guard looks at it, the guard passes, and an accepted message
  runs past the end of the ring (`wrapped_send_overruns`);
* `headSurvives_iff` — the 16-bit fields of the pack head represent the lengths up to `65528`; a
  longer message is accepted all the same whenever the ring has room for it.
-/

import Yarf.Channel.Fifo

namespace Yarf.Channel

open Lib

/-! ### Positions stay inside the ring -/

/-- Head and tail are positions of the ring. -/
structure Positions (capacity : UInt32) (queue : Queue) : Prop where
  ring : queue.header.capacity = capacity
  headLt : queue.header.head.toNat < capacity.toNat
  tailLt : queue.header.tail.toNat < capacity.toNat

/-- Every operation keeps head and tail inside the ring, whatever the ring holds. -/
theorem Positions.step {capacity : UInt32} {limit : ℕ} {queue next : Queue} {event : Event}
    (positions : Positions capacity queue) (taken : QueueStep limit queue event next) :
    Positions capacity next := by
  obtain ⟨rfl, headLt, tailLt⟩ := positions
  have wraps : ∀ word : UInt32,
      (word % queue.header.capacity).toNat < queue.header.capacity.toNat := by
    intro word
    rw [UInt32.toNat_mod]
    exact Nat.mod_lt _ (by omega)
  have advanced : ∀ pack, Positions queue.header.capacity (queue.advance pack) :=
    fun pack => ⟨rfl, wraps _, tailLt⟩
  cases taken with
  | send data reserve _ =>
    cases planned : sendPlan queue.header.capacity queue.header.tail queue.header.head
      queue.header.head data.len with
    | error err =>
      rw [send_of_error reserve planned]
      exact ⟨rfl, headLt, tailLt⟩
    | ok at_ =>
      rw [send_of_ok reserve planned]
      exact ⟨rfl, headLt, wraps _⟩
  | recv len =>
    cases found : queue.nextPack with
    | error err =>
      rw [recv_of_error len found]
      exact ⟨rfl, headLt, tailLt⟩
    | ok pack =>
      by_cases short : len < pack.packHead.bodyLen.toUInt32
      · rw [recv_of_short found short]
        exact ⟨rfl, headLt, tailLt⟩
      · rw [recv_of_ok found short]
        exact advanced pack
  | peek =>
    cases found : queue.nextPack with
    | error err =>
      rw [peek_of_error found]
      exact ⟨rfl, headLt, tailLt⟩
    | ok pack =>
      rw [peek_of_ok found]
      exact ⟨rfl, headLt, tailLt⟩
  | drop =>
    cases found : queue.nextPack with
    | error err =>
      rw [drop_of_error found]
      exact ⟨rfl, headLt, tailLt⟩
    | ok pack =>
      rw [drop_of_ok found]
      exact advanced pack

theorem Positions.reachable {capacity : UInt32} {limit : ℕ} {start queue : Queue}
    (fresh : Positions capacity start) (reached : (queueMachine start limit).Reachable queue) :
    Positions capacity queue :=
  reached.invariant (fun _ same => same ▸ fresh) fun _ _ _ _ positions taken =>
    positions.step taken

/-! ### Where `Send` writes -/

/-- The cells that hold messages not yet removed. -/
def Live (C h t cell : ℕ) : Prop := ∃ i, i < gap C h t ∧ cell = slot C h i

/-- The bytes one call of `Send` writes; none when it is refused. -/
def sendWrites (queue : Queue) (data : Message) (reserve : Reserve) : List (ℕ × UInt8) :=
  match sendPlan queue.header.capacity queue.header.tail queue.header.head queue.header.head
    data.len with
  | .error _ => []
  | .ok at_ => packWrites at_ (packHeader data.len queue.header.seq reserve) data.bytes

/-- They are all that happens to the ring. -/
theorem send_buff (queue : Queue) (data : Message) (reserve : Reserve) :
    (send queue data reserve).2.buff = write queue.buff (sendWrites queue data reserve) := by
  unfold sendWrites
  cases planned : sendPlan queue.header.capacity queue.header.tail queue.header.head
    queue.header.head data.len with
  | error err => rw [send_of_error reserve planned, write_nil]
  | ok at_ =>
    rw [send_of_ok reserve planned]
    rfl

/-- `Send` writes inside the ring and outside the live cells, and its guard refuses every length that
does not fit in 32 bits together with the head, before or after rounding. -/
def SendSafe (queue : Queue) (data : Message) (reserve : Reserve) : Prop :=
  (∀ entry ∈ sendWrites queue data reserve, entry.1 < queue.header.capacity.toNat ∧
    ¬ Live queue.header.capacity.toNat queue.header.head.toNat queue.header.tail.toNat entry.1) ∧
  (2 ^ 32 ≤ 48 + data.bytes.length ∨ 2 ^ 32 ≤ roundUp (48 + data.bytes.length) →
    packGuard data.len = .error .kUnexpect)

section Bounds

variable {queue : Queue} {data : Message} {reserve : Reserve}

/-- Sizes that do not wrap keep `Send` inside the free part of the ring. -/
theorem sendWrites_free (positions : Positions queue.header.capacity queue)
    (fits : 48 + data.bytes.length + 7 < 2 ^ 32) {entry : ℕ × UInt8}
    (member : entry ∈ sendWrites queue data reserve) :
    entry.1 < queue.header.capacity.toNat ∧
      ¬ Live queue.header.capacity.toNat queue.header.head.toNat queue.header.tail.toNat entry.1 := by
  obtain ⟨_, headLt, tailLt⟩ := positions
  have len := data.toNat_len
  have size := toNat_alignPackSize (by omega : 48 + data.len.toNat + 7 < 2 ^ 32)
  have long : 48 + data.bytes.length ≤ (alignPackSize data.len).toNat := by
    rw [size, len]
    exact Nat.add_le_add_left (le_roundUp _) 48
  unfold sendWrites at member
  cases planned : sendPlan queue.header.capacity queue.header.tail queue.header.head
    queue.header.head data.len with
  | error err =>
    rw [planned] at member
    cases member
  | ok at_ =>
    rw [planned] at member
    obtain ⟨room, geometry⟩ := placed_of_sendPlan_ok headLt tailLt planned
    obtain ⟨i, bound, inside, _⟩ := packWrites_slot geometry long member
    rw [← slot_gap headLt tailLt] at geometry
    refine ⟨inside, fun ⟨j, live, same⟩ => ?_⟩
    obtain ⟨k, behind, within, here⟩ := packWrites_free geometry long member
    rw [slot_gap headLt tailLt] at within
    unfold Room at room
    have := slot_inj (by omega) (by omega) (here.symm.trans same)
    omega

/-- **A wrapped size.** From `2 ^ 32 - 48` on the guard lets the length through, and an accepted
message is copied past the end of the ring. -/
theorem wrapped_send_overruns (wraps : 2 ^ 32 ≤ 48 + data.bytes.length) :
    packGuard data.len = .ok () ∧
      ((send queue data reserve).1 = .ok () → ∃ entry ∈ sendWrites queue data reserve,
        queue.header.capacity.toNat ≤ entry.1) := by
  have len := data.toNat_len
  have capLt := queue.header.capacity.toNat_lt
  refine ⟨(packGuard_ok_iff data.len).mpr (Or.inr (by omega)), fun accepted => ?_⟩
  unfold sendWrites
  cases planned : sendPlan queue.header.capacity queue.header.tail queue.header.head
    queue.header.head data.len with
  | error err =>
    rw [send_of_error reserve planned] at accepted
    cases accepted
  | ok at_ =>
    -- the last byte of the body lies at `curTail + 48 + len - 1`
    have last : data.bytes.length - 1 < data.bytes.length := by omega
    refine ⟨(at_.curTail.toNat + 48 + (data.bytes.length - 1), data.bytes[data.bytes.length - 1]), ?_, ?_⟩
    · exact List.mem_append_right _ (mem_cells_of_lt _ _ _ last)
    · show queue.header.capacity.toNat ≤ at_.curTail.toNat + 48 + (data.bytes.length - 1)
      omega

/-- **Exactly the unwrapped lengths are safe**, at every capacity and every pair of positions. -/
theorem sendSafe_iff_of_positions (positions : Positions queue.header.capacity queue) :
    SendSafe queue data reserve ↔ 48 + data.bytes.length < 2 ^ 32 := by
  have len := data.toNat_len
  constructor
  · intro safe
    by_contra wraps
    have refused := safe.2 (Or.inl (Nat.not_lt.mp wraps))
    rw [(packGuard_ok_iff data.len).mpr (Or.inr (by omega))] at refused
    cases refused
  · intro fits
    rcases Nat.lt_or_ge (48 + data.bytes.length + 7) (2 ^ 32) with small | rounds
    · refine ⟨fun entry member => sendWrites_free positions small member, fun large => ?_⟩
      unfold roundUp at large
      omega
    · -- the rounding wraps, and the guard sees it
      have refused : packGuard data.len = .error .kUnexpect := by
        refine (packGuard_cases data.len).resolve_left fun passes => ?_
        have := (packGuard_ok_iff data.len).mp passes
        omega
      refine ⟨fun entry member => ?_, fun _ => refused⟩
      unfold sendWrites sendPlan sendSize at member
      rw [refused] at member
      cases member

end Bounds

/-- **`Send` and the end of the ring.** For every capacity, all positions inside the ring and every
length, `Send` writes inside the ring and outside the live cells, with a guard that refuses what does
not fit in 32 bits, exactly when `48 + len` fits. -/
theorem sendSafe_iff (capacity : UInt32) (queue : Queue) (positions : Positions capacity queue)
    (data : Message) (reserve : Reserve) :
    SendSafe queue data reserve ↔ 48 + data.bytes.length < 2 ^ 32 :=
  sendSafe_iff_of_positions (positions.ring ▸ positions)

/-- An empty ring of `1468` bytes. -/
def testQueue : Queue := ⟨resetHead (1468 + kUnlockQueueHeadSize), fun _ => 0⟩

theorem testQueue_positions : Positions 1468 testQueue := ⟨by decide, by decide, by decide⟩

/-- A message of `count` zero bytes. -/
def zeros (count : ℕ) (fits : count < 2 ^ 32) : Message :=
  ⟨List.replicate count 0, by rwa [List.length_replicate]⟩

theorem length_zeros (count : ℕ) (fits : count < 2 ^ 32) : (zeros count fits).bytes.length = count :=
  List.length_replicate

theorem sendSafe_iff_testQueue :
    SendSafe testQueue (zeros 4 (by decide)) (Vector.replicate 24 0) ↔
      48 + (zeros 4 (by decide)).bytes.length < 2 ^ 32 :=
  sendSafe_iff 1468 testQueue testQueue_positions (zeros 4 (by decide)) (Vector.replicate 24 0)

theorem sendPlan_testQueue_wrapped :
    sendPlan 1468 0 0 0 (UInt32.ofNat 4294967248) = .ok ⟨none, 0⟩ := by
  decide

/-- `len = 2 ^ 32 - 48` on the empty ring: the size wraps to `0`, the message is accepted and its
body runs past the ring. -/
theorem sendSafe_fails_wrapped :
    Positions 1468 testQueue ∧
      ¬ SendSafe testQueue (zeros 4294967248 (by decide)) (Vector.replicate 24 0) ∧
      ∃ entry ∈ sendWrites testQueue (zeros 4294967248 (by decide)) (Vector.replicate 24 0),
        1468 ≤ entry.1 := by
  have wraps : 2 ^ 32 ≤ 48 + (zeros 4294967248 (by decide)).bytes.length := by
    rw [length_zeros]
    decide
  have len : (zeros 4294967248 (by decide)).len = UInt32.ofNat 4294967248 := by
    rw [Message.len, length_zeros]
  refine ⟨testQueue_positions, fun safe => ?_, ?_⟩
  · exact absurd ((sendSafe_iff_of_positions testQueue_positions).mp safe) (Nat.not_lt.mpr wraps)
  · refine (wrapped_send_overruns wraps).2 ?_
    rw [send_of_ok _ (by rw [len]; exact sendPlan_testQueue_wrapped)]

/-! ### What the pack head can say -/

/-- The head `Send` wrote gives the length of the body and the distance the tail moved; a message it
cannot represent is refused. -/
def HeadSurvives (queue : Queue) (data : Message) (reserve : Reserve) : Prop :=
  (∀ at_, sendPlan queue.header.capacity queue.header.tail queue.header.head queue.header.head
      data.len = .ok at_ →
    let after := (send queue data reserve).2
    let pack := ChannelPackHead.read after.buff at_.curTail.toNat
    (send queue data reserve).1 = .ok () ∧ pack.bodyLen.toNat = data.bytes.length ∧
      48 + pack.alignBodyLen.toNat
        = gap queue.header.capacity.toNat at_.curTail.toNat after.header.tail.toNat) ∧
  (2 ^ 16 ≤ data.bytes.length ∨ 2 ^ 16 ≤ roundUp data.bytes.length →
    ∃ err, send queue data reserve = (.error err, queue))

section Head

variable {queue : Queue} {data : Message} {reserve : Reserve}

/-- The head an accepted `Send` leaves in the ring. -/
theorem read_append (queue : Queue) (data : Message) (reserve : Reserve) (at_ : Place) :
    ChannelPackHead.read (queue.append data reserve at_).buff at_.curTail.toNat
      = packHeader data.len queue.header.seq reserve :=
  (read_packWrites queue.buff at_ _ data.bytes).1

/-- The distance the tail moves is the size of the packet. -/
theorem gap_append (positions : Positions queue.header.capacity queue)
    (fits : 48 + data.bytes.length + 7 < 2 ^ 32) {at_ : Place}
    (planned : sendPlan queue.header.capacity queue.header.tail queue.header.head queue.header.head
      data.len = .ok at_) :
    gap queue.header.capacity.toNat at_.curTail.toNat
        (queue.append data reserve at_).header.tail.toNat = 48 + roundUp data.bytes.length := by
  obtain ⟨_, headLt, tailLt⟩ := positions
  have len := data.toNat_len
  have size := toNat_alignPackSize (by omega : 48 + data.len.toNat + 7 < 2 ^ 32)
  obtain ⟨room, geometry⟩ := placed_of_sendPlan_ok headLt tailLt planned
  have tailAt : (queue.append data reserve at_).header.tail.toNat = _ := toNat_nextTail geometry rfl
  unfold Room at room
  rw [tailAt, ← slot_slot, ← geometry.start, gap_slot _ (by omega), size, len]
  exact geometry.start ▸ slot_lt _ _ (by omega)

/-- **Exactly the lengths up to `65528` survive the head**, unless the ring has no room. -/
theorem headSurvives_iff_of_positions (small : queue.header.capacity.toNat ≤ 2 ^ 31)
    (positions : Positions queue.header.capacity queue) (fits : 48 + data.bytes.length + 7 < 2 ^ 32) :
    HeadSurvives queue data reserve ↔
      data.bytes.length ≤ 65528 ∨
        ¬ Room queue.header.capacity.toNat queue.header.head.toNat queue.header.tail.toNat
          (48 + roundUp data.bytes.length) := by
  have len := data.toNat_len
  have decision := sendPlan_ok_iff small positions.headLt positions.tailLt
    (by omega : 48 + data.len.toNat + 7 < 2 ^ 32)
  rw [len] at decision
  rw [← decision]
  constructor
  · rintro ⟨_, refuses⟩
    by_contra long
    push Not at long
    obtain ⟨long, at_, planned⟩ := long
    obtain ⟨err, refused⟩ := refuses (Or.inr (by unfold roundUp; omega))
    rw [send_of_ok reserve planned] at refused
    cases refused
  · intro short
    refine ⟨fun at_ planned => ?_, fun long => ?_⟩
    · have short := short.resolve_right fun none => none ⟨at_, planned⟩
      have lies := packWrites_packAt queue.buff at_ data queue.header.seq reserve short
      rw [send_of_ok reserve planned]
      refine ⟨rfl, lies.bodyLen, ?_⟩
      rw [gap_append positions fits planned]
      exact congrArg (48 + ·) lies.alignBodyLen
    · cases planned : sendPlan queue.header.capacity queue.header.tail queue.header.head
        queue.header.head data.len with
      | error err => exact ⟨err, send_of_error reserve planned⟩
      | ok at_ =>
        have short := short.resolve_right fun none => none ⟨at_, planned⟩
        unfold roundUp at long
        omega

end Head

/-- **`Send` and the pack head.** In every run of the queue from empty, in every state reached and for
every length whose size does not wrap, the head `Send` writes represents the message, or the message
is refused, exactly when its length is at most `65528` or the ring has no room for it. -/
theorem headSurvives_iff (capacity : UInt32) (positive : 0 < capacity.toNat)
    (small : capacity.toNat ≤ 2 ^ 31) (start : Queue)
    (fresh : start.header = resetHead (capacity + kUnlockQueueHeadSize)) (queue : Queue)
    (reached : (queueMachine start (2 ^ 32 - 56)).Reachable queue) (data : Message)
    (fits : 48 + data.bytes.length + 7 < 2 ^ 32) (reserve : Reserve) :
    HeadSurvives queue data reserve ↔
      data.bytes.length ≤ 65528 ∨
        ¬ Room capacity.toNat queue.header.head.toNat queue.header.tail.toNat
          (48 + roundUp data.bytes.length) := by
  have begins : Positions capacity start := by
    refine ⟨?_, ?_, ?_⟩
    · rw [fresh]
      exact UInt32.add_sub_cancel _ _
    · rw [fresh]
      exact positive
    · rw [fresh]
      exact positive
  have positions := begins.reachable reached
  obtain rfl := positions.ring
  exact headSurvives_iff_of_positions small positions fits

theorem headSurvives_iff_testQueue :
    HeadSurvives testQueue (zeros 4 (by decide)) (Vector.replicate 24 0) ↔
      (zeros 4 (by decide)).bytes.length ≤ 65528 ∨
        ¬ Room (1468 : UInt32).toNat testQueue.header.head.toNat testQueue.header.tail.toNat
          (48 + roundUp (zeros 4 (by decide)).bytes.length) :=
  headSurvives_iff 1468 (by decide) (by decide) testQueue rfl testQueue (Lib.Machine.Reachable.start rfl)
    (zeros 4 (by decide)) (by decide) (Vector.replicate 24 0)

/-- An empty ring of a mebibyte. -/
def wideQueue : Queue := ⟨resetHead (1048576 + kUnlockQueueHeadSize), fun _ => 0⟩

/-- A message of `65536` bytes is accepted by an empty ring of a mebibyte, with a head that says
`body_len = 0`. -/
theorem headSurvives_fails_long :
    (send wideQueue (zeros 65536 (by decide)) (Vector.replicate 24 0)).1 = .ok () ∧
      (ChannelPackHead.read
        (send wideQueue (zeros 65536 (by decide)) (Vector.replicate 24 0)).2.buff 0).bodyLen = 0 ∧
      ¬ HeadSurvives wideQueue (zeros 65536 (by decide)) (Vector.replicate 24 0) := by
  have len : (zeros 65536 (by decide)).len = UInt32.ofNat 65536 := by
    rw [Message.len, length_zeros]
  have planned : sendPlan wideQueue.header.capacity wideQueue.header.tail wideQueue.header.head
      wideQueue.header.head (zeros 65536 (by decide)).len = .ok ⟨none, 0⟩ := by
    rw [len]
    decide
  have head := read_append wideQueue (zeros 65536 (by decide)) (Vector.replicate 24 0) ⟨none, 0⟩
  rw [send_of_ok _ planned]
  refine ⟨rfl, ?_, fun survives => ?_⟩
  · rw [show (0 : ℕ) = (Place.mk none 0).curTail.toNat from rfl, head]
    show (zeros 65536 (by decide)).len.toUInt16 = 0
    rw [len]
    decide
  · have long : 2 ^ 16 ≤ (zeros 65536 (by decide)).bytes.length := by
      rw [length_zeros]
      decide
    obtain ⟨err, refused⟩ := survives.2 (Or.inl long)
    rw [send_of_ok _ planned] at refused
    cases refused

end Yarf.Channel
