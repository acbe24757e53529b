/-
**A ring that has been drained.**

An empty ring is not rewound: its head and tail stay where the last packet ended. A packet is contiguous,
so an empty ring takes it only behind that place or in front of it, and the guard of `Send` reports the
ring as full otherwise.

* `place_drained` — the wrap decision on an empty ring;
* `drained_accepts_iff` — which messages a drained ring takes of those a fresh one does.
-/

import Yarf.Channel.SendLimits

namespace Yarf.Channel

open Lib

section Drained

variable {capacity pos size len : UInt32}

/-- The wrap decision of `Send` on an empty ring. -/
theorem place_drained (posLt : pos.toNat < capacity.toNat) :
    (∃ at_, place capacity pos pos size = .ok at_) ↔
      pos.toNat + size.toNat ≤ capacity.toNat ∨ size.toNat < pos.toNat := by
  have toEnd : (capacity - pos).toNat = capacity.toNat - pos.toNat := by
    rw [UInt32.toNat_sub]
    have := capacity.toNat_lt
    omega
  unfold place
  dsimp only
  rw [if_pos (UInt32.le_refl pos)]
  by_cases short : capacity - pos < size
  · have short' := UInt32.lt_iff_toNat_lt.mp short
    rw [if_pos short]
    by_cases low : pos ≤ size
    · have low' := UInt32.le_iff_toNat_le.mp low
      rw [if_pos low]
      refine iff_of_false ?_ (by omega)
      rintro ⟨at_, refused⟩
      cases refused
    · have low' := UInt32.le_iff_toNat_le.not.mp low
      rw [if_neg low]
      refine iff_of_true ?_ (.inr (by omega))
      split_ifs
      · exact ⟨_, rfl⟩
      · exact ⟨_, rfl⟩
  · have short' := UInt32.lt_iff_toNat_lt.not.mp short
    rw [if_neg short]
    exact iff_of_true ⟨_, rfl⟩ (.inl (by omega))

theorem place_error {tail head : UInt32} {err : Err} (refused : place capacity tail head size = .error err) :
    err = .kChanFull := by
  unfold place at refused
  dsimp only at refused
  split_ifs at refused
  cases refused
  rfl

/-- An empty ring has all of its bytes but one free, wherever it is empty. -/
theorem sendSize_drained (small : capacity.toNat ≤ 2 ^ 31) (posLt : pos.toNat < capacity.toNat) :
    sendSize capacity pos pos len = sendSize capacity 0 0 len := by
  have free : freeSize capacity pos pos = freeSize capacity 0 0 := by
    refine UInt32.toNat_inj.mp ?_
    have zeroLt : (0 : UInt32).toNat < capacity.toNat := (Nat.zero_le _).trans_lt posLt
    rw [freeSize_eq small posLt posLt, freeSize_eq small zeroLt zeroLt, gap_self posLt,
      gap_self zeroLt]
  unfold sendSize
  rw [free]

end Drained

theorem send_eq_ok_iff {queue : Queue} (data : Message) (reserve : Reserve) :
    (send queue data reserve).1 = .ok () ↔ ∃ at_, sendPlan queue.header.capacity queue.header.tail
      queue.header.head queue.header.head data.len = .ok at_ := by
  cases planned : sendPlan queue.header.capacity queue.header.tail queue.header.head queue.header.head
    data.len with
  | error err =>
    rw [send_of_error reserve planned]
    refine iff_of_false (fun wrong => ?_) fun ⟨_, wrong⟩ => ?_
    · cases wrong
    · cases wrong
  | ok at_ =>
    rw [send_of_ok reserve planned]
    exact iff_of_true rfl ⟨at_, rfl⟩

/-- A reset leaves the header zeroed. -/
theorem header_of_created {memory start : Queue} {bytes : UInt32}
    (created : createUnlockQueue (some memory) bytes true = (.ok (), some start)) :
    start.header = resetHead bytes := by
  unfold createUnlockQueue initSide at created
  simp only [if_true, Option.map_some] at created
  split_ifs at created
  · cases created
  · cases created
    rfl

/-- **A drained ring.** For every ring of `48 < C ≤ 2 ^ 31` bytes and every reachable state in which head
and tail are equal, a message that a fresh ring would accept is accepted exactly when its packet fits behind
the tail or in front of it, and the ring is reported full otherwise; so a message of which two fit the ring
is always accepted. -/
theorem drained_accepts_iff (capacity : UInt32) (big : 48 < capacity.toNat)
    (small : capacity.toNat ≤ 2 ^ 31) (memory start : Queue)
    (created : createUnlockQueue (some memory) (capacity + kUnlockQueueHeadSize) true
      = (.ok (), some start))
    (limit : ℕ) (queue : Queue) (reached : (queueMachine start limit).Reachable queue)
    (drained : queue.header.head = queue.header.tail) (data : Message) (reserve : Reserve)
    (fresh : (send start data reserve).1 = .ok ()) :
    ((send queue data reserve).1 = .ok () ↔
      queue.header.tail.toNat + (alignPackSize data.len).toNat ≤ capacity.toNat ∨
        (alignPackSize data.len).toNat < queue.header.tail.toNat) ∧
    ((send queue data reserve).1 = .ok () ∨ (send queue data reserve).1 = .error .kChanFull) ∧
    (2 * (alignPackSize data.len).toNat ≤ capacity.toNat → (send queue data reserve).1 = .ok ()) := by
  have header := header_of_created created
  have ring : start.header.capacity = capacity := by
    rw [header]
    exact UInt32.add_sub_cancel _ _
  have begins : Positions capacity start := by
    refine ⟨ring, ?_, ?_⟩
    · rw [header]
      exact lt_trans (by decide : (0 : UInt32).toNat < 48) big
    · rw [header]
      exact lt_trans (by decide : (0 : UInt32).toNat < 48) big
  obtain ⟨same, _, tailLt⟩ := begins.reachable reached
  -- both rings have the same free size, and it is enough
  have sized : sendSize capacity queue.header.tail queue.header.tail data.len = .ok () := by
    obtain ⟨at_, planned⟩ := (send_eq_ok_iff data reserve).mp fresh
    have enough := (sendPlan_ok planned).1
    rw [ring, header] at enough
    rw [sendSize_drained small tailLt]
    exact enough
  have planned : sendPlan queue.header.capacity queue.header.tail queue.header.head queue.header.head
      data.len = place capacity queue.header.tail queue.header.tail (alignPackSize data.len) := by
    unfold sendPlan
    rw [same, drained, sized]
  have accepted : (send queue data reserve).1 = .ok () ↔
      queue.header.tail.toNat + (alignPackSize data.len).toNat ≤ capacity.toNat ∨
        (alignPackSize data.len).toNat < queue.header.tail.toNat := by
    rw [send_eq_ok_iff, planned]
    exact place_drained tailLt
  refine ⟨accepted, ?_, fun twice => accepted.mpr (by omega)⟩
  cases placed : place capacity queue.header.tail queue.header.tail (alignPackSize data.len) with
  | error err =>
    rw [send_of_error reserve (planned.trans placed), place_error placed]
    exact .inr rfl
  | ok at_ =>
    rw [send_of_ok reserve (planned.trans placed)]
    exact .inl rfl

/-- An empty ring on zeroed memory. -/
def emptyRing (capacity : UInt32) : Queue := ⟨resetHead (capacity + kUnlockQueueHeadSize), fun _ => 0⟩

/-- A message of eight bytes; its packet takes 56. -/
def eight : Message := zeros 8 (by decide)

/-- The ring after the message has come and gone. -/
def drainedRing (capacity : UInt32) : Queue :=
  (drop (send (emptyRing capacity) eight (Vector.replicate 24 0)).2).2

theorem drainedRing_reachable (capacity : UInt32) :
    (queueMachine (emptyRing capacity) 8).Reachable (drainedRing capacity) := by
  have start : (queueMachine (emptyRing capacity) 8).Reachable (emptyRing capacity) :=
    Machine.Reachable.start rfl
  have sent : (queueMachine (emptyRing capacity) 8).Reachable
      (send (emptyRing capacity) eight (Vector.replicate 24 0)).2 :=
    start.next (.send _ eight _ (length_zeros 8 (by decide)).le)
  exact sent.next (.drop _)

/-- A ring that two such packets fit takes the message again. -/
theorem drained_accepts_iff_eight :
    (send (drainedRing 112) eight (Vector.replicate 24 0)).1 = .ok () :=
  (drained_accepts_iff 112 (by decide) (by decide) ⟨resetHead 0, fun _ => 0⟩ (emptyRing 112) rfl 8
    (drainedRing 112) (drainedRing_reachable 112) (by decide +kernel) eight (Vector.replicate 24 0)
    (by decide +kernel)).2.2 (by decide)

/-- A smaller one does not: the ring is empty, and full for the message that it has just held. -/
theorem drained_refuses_eight :
    (queueMachine (emptyRing 100) 8).Reachable (drainedRing 100) ∧
      (drainedRing 100).header.head = (drainedRing 100).header.tail ∧
      (send (emptyRing 100) eight (Vector.replicate 24 0)).1 = .ok () ∧
      (send (drainedRing 100) eight (Vector.replicate 24 0)).1 = .error .kChanFull :=
  ⟨drainedRing_reachable 100, by decide +kernel, by decide +kernel, by decide +kernel⟩

end Yarf.Channel
