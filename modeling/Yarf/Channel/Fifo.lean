/-
**The queue refines a FIFO.**

`Fifo` is what the queue is for: a list of pending messages and the number of messages accepted so
far. `FifoStep` says, event by event, what a caller of such a list sees. `queueMachine` is the code:
its steps are `send`, `recv`, `peek` and `drop` of `UnlockQueue`.

`Represents` ties the bytes of the ring to the list. Every operation of the code is matched by the
list operation with the same event (`queueMachine_simulates`), so a run of the code is a run of the
list, event by event (`queue_refines_fifo`).
-/

import Yarf.Lib.Machine
import Yarf.Channel.Layout

namespace Yarf.Channel

open Lib

/-! ### The abstract queue -/

/-- A message with the number of messages accepted before it. -/
structure Accepted where
  number : ℕ
  bytes : List UInt8
  deriving DecidableEq

structure Fifo where
  /-- How many messages have been accepted. -/
  sent : ℕ
  /-- The messages not yet removed, oldest first. -/
  pending : List Accepted
  deriving DecidableEq

def Fifo.empty : Fifo := ⟨0, []⟩

/-- One call and what it returned. -/
inductive Event
  | send (data : Message) (ret : Except Err Unit)
  | recv (len : UInt32) (ret : Except Err (List UInt8))
  | peek (ret : Except Err (List UInt8))
  | drop (ret : Except Err Unit)

/-- A call on a list of messages. The code of `Recv`, `Peek` and `Drop` is determined by the list;
`Send` may find the queue full. -/
inductive FifoStep : Fifo → Event → Fifo → Prop
  | sendOk (fifo : Fifo) (data : Message) :
      FifoStep fifo (.send data (.ok ())) ⟨fifo.sent + 1, fifo.pending ++ [⟨fifo.sent, data.bytes⟩]⟩
  | sendFull (fifo : Fifo) (data : Message) :
      FifoStep fifo (.send data (.error .kChanFull)) fifo
  | recvEmpty (sent : ℕ) (len : UInt32) :
      FifoStep ⟨sent, []⟩ (.recv len (.error .kChanEmpty)) ⟨sent, []⟩
  | recvShort (sent : ℕ) (len : UInt32) (oldest : Accepted) (rest : List Accepted) :
      len.toNat < oldest.bytes.length →
      FifoStep ⟨sent, oldest :: rest⟩ (.recv len (.error .kChanRecvSpaceLimit))
        ⟨sent, oldest :: rest⟩
  | recvOk (sent : ℕ) (len : UInt32) (oldest : Accepted) (rest : List Accepted) :
      oldest.bytes.length ≤ len.toNat →
      FifoStep ⟨sent, oldest :: rest⟩ (.recv len (.ok oldest.bytes)) ⟨sent, rest⟩
  | peekEmpty (sent : ℕ) : FifoStep ⟨sent, []⟩ (.peek (.error .kChanEmpty)) ⟨sent, []⟩
  | peekOk (sent : ℕ) (oldest : Accepted) (rest : List Accepted) :
      FifoStep ⟨sent, oldest :: rest⟩ (.peek (.ok oldest.bytes)) ⟨sent, oldest :: rest⟩
  | dropEmpty (sent : ℕ) : FifoStep ⟨sent, []⟩ (.drop (.error .kChanEmpty)) ⟨sent, []⟩
  | dropOk (sent : ℕ) (oldest : Accepted) (rest : List Accepted) :
      FifoStep ⟨sent, oldest :: rest⟩ (.drop (.ok ())) ⟨sent, rest⟩

def fifoMachine : Machine Fifo Event where
  init := (· = Fifo.empty)
  step := FifoStep

/-! ### The code as a machine -/

/-- One call of the code. The stack bytes `Send` copies into the reserved words are arbitrary; `Peek`
is observed through the bytes it points at. -/
inductive QueueStep (limit : ℕ) : Queue → Event → Queue → Prop
  | send (queue : Queue) (data : Message) (reserve : Reserve) : data.bytes.length ≤ limit →
      QueueStep limit queue (.send data (send queue data reserve).1) (send queue data reserve).2
  | recv (queue : Queue) (len : UInt32) :
      QueueStep limit queue (.recv len (recv queue len).1) (recv queue len).2
  | peek (queue : Queue) :
      QueueStep limit queue (.peek ((peek queue).1.map fun view => view.bytes (peek queue).2.buff))
        (peek queue).2
  | drop (queue : Queue) : QueueStep limit queue (.drop (drop queue).1) (drop queue).2

/-- The queue as the code runs it, with messages of at most `limit` bytes. -/
def queueMachine (start : Queue) (limit : ℕ) : Machine Queue Event where
  init := (· = start)
  step := QueueStep limit

/-- The event reports an error, or is a `Peek`. -/
def Event.Passive : Event → Prop
  | .send _ ret => ret ≠ .ok ()
  | .recv _ ret => ∀ bytes, ret ≠ .ok bytes
  | .peek _ => True
  | .drop ret => ret ≠ .ok ()

/-- An operation that fails, and every `Peek`, leaves the whole queue as it was. -/
theorem QueueStep.unchanged {limit : ℕ} {queue next : Queue} {event : Event}
    (taken : QueueStep limit queue event next) (passive : event.Passive) : next = queue := by
  cases taken with
  | send data reserve _ =>
    cases planned : sendPlan queue.header.capacity queue.header.tail queue.header.head
      queue.header.head data.len with
    | error err => rw [send_of_error reserve planned]
    | ok at_ =>
      rw [send_of_ok reserve planned] at passive
      exact absurd rfl passive
  | recv len =>
    cases found : queue.nextPack with
    | error err => rw [recv_of_error len found]
    | ok pack =>
      by_cases short : len < pack.packHead.bodyLen.toUInt32
      · rw [recv_of_short found short]
      · rw [recv_of_ok found short] at passive
        exact absurd rfl (passive _)
  | peek =>
    cases found : queue.nextPack with
    | error err => rw [peek_of_error found]
    | ok pack => rw [peek_of_ok found]
  | drop =>
    cases found : queue.nextPack with
    | error err => rw [drop_of_error found]
    | ok pack =>
      rw [drop_of_ok found] at passive
      exact absurd rfl passive

/-! ### The bytes of the ring and the list -/

/-- The packets that stand for the pending messages: the `k`-th accepted one carries `k` modulo
`2 ^ 32`. -/
def Fifo.packets (fifo : Fifo) : List Packet :=
  fifo.pending.map fun message => ⟨UInt32.ofNat message.number, message.bytes⟩

/-- The ring holds exactly the pending messages. -/
structure Represents (capacity : UInt32) (queue : Queue) (fifo : Fifo) : Prop where
  ring : queue.header.capacity = capacity
  headLt : queue.header.head.toNat < capacity.toNat
  seq : queue.header.seq = UInt32.ofNat fifo.sent
  live : ∃ n, n < capacity.toNat ∧
    queue.header.tail.toNat = slot capacity.toNat queue.header.head.toNat n ∧
    Layout queue.buff capacity.toNat queue.header.head.toNat n fifo.packets

section Operations

variable {capacity : UInt32} {queue : Queue} {fifo : Fifo}

/-- A freshly reset queue holds nothing. -/
theorem createUnlockQueue_represents (big : 48 < capacity.toNat) (small : capacity.toNat ≤ 2 ^ 31)
    (memory : Queue) :
    ∃ start, createUnlockQueue (some memory) (capacity + kUnlockQueueHeadSize) true
        = (.ok (), some start) ∧ Represents capacity start Fifo.empty := by
  have bytes : (capacity + kUnlockQueueHeadSize).toNat = capacity.toNat + 580 := by
    rw [UInt32.toNat_add, show kUnlockQueueHeadSize.toNat = 580 from rfl]
    omega
  have large : ¬ capacity + kUnlockQueueHeadSize ≤ kUnlockQueueHeadSize + kPackHeadSize := by
    rw [UInt32.le_iff_toNat_le, bytes,
      show (kUnlockQueueHeadSize + kPackHeadSize).toNat = 628 from rfl]
    omega
  have ring : (resetHead (capacity + kUnlockQueueHeadSize)).capacity = capacity :=
    UInt32.add_sub_cancel _ _
  refine ⟨{ memory with header := resetHead (capacity + kUnlockQueueHeadSize) }, ?_, ring, ?_, rfl,
    0, by omega, ?_, .nil _⟩
  · simp only [createUnlockQueue, if_true, Option.map_some, initSide, if_neg large]
  · exact lt_trans (by decide : (0 : UInt32).toNat < 48) big
  · exact (slot_zero (lt_trans (by decide : (0 : UInt32).toNat < 48) big)).symm

/-- **`Send`.** An accepted message is appended with the next number; otherwise the queue is full. -/
theorem send_represents (rep : Represents capacity queue fifo)
    (data : Message) (reserve : Reserve) (short : data.bytes.length ≤ 65528) :
    (send queue data reserve).1 = .error .kChanFull ∨
      (send queue data reserve).1 = .ok () ∧
        Represents capacity (send queue data reserve).2
          ⟨fifo.sent + 1, fifo.pending ++ [⟨fifo.sent, data.bytes⟩]⟩ := by
  obtain ⟨rfl, headLt, seq, n, nLt, tailAt, lay⟩ := rep
  have len := data.toNat_len
  have positive : 0 < queue.header.capacity.toNat := by omega
  have tailLt : queue.header.tail.toNat < queue.header.capacity.toNat :=
    tailAt ▸ slot_lt _ _ positive
  cases planned : sendPlan queue.header.capacity queue.header.tail queue.header.head
    queue.header.head data.len with
  | error err =>
    left
    rw [send_of_error reserve planned, sendPlan_error (by omega) planned]
  | ok at_ =>
    right
    rw [send_of_ok reserve planned]
    refine ⟨rfl, rfl, headLt, ?_, ?_⟩
    · show queue.header.seq + 1 = UInt32.ofNat (fifo.sent + 1)
      rw [seq, UInt32.ofNat_add]
      rfl
    obtain ⟨room, geometry⟩ := placed_of_sendPlan_ok headLt tailLt planned
    have size : (alignPackSize data.len).toNat = 48 + roundUp data.bytes.length := by
      rw [toNat_alignPackSize (by omega), len]
    unfold Room at room
    rw [tailAt, gap_slot headLt nLt] at room
    rw [tailAt] at geometry
    rw [size] at room geometry
    refine ⟨_, room, ?_, ?_⟩
    · show (nextTail queue.header.capacity (alignPackSize data.len) at_).toNat = _
      rw [toNat_nextTail geometry size, slot_slot, Nat.add_assoc]
      rfl
    · have appended : Layout (queue.append data reserve at_).buff _ _ _
          (fifo.packets ++ [⟨queue.header.seq, data.bytes⟩]) :=
        lay.afterSend headLt geometry room queue.header.seq reserve short
      rw [Nat.add_assoc, Fifo.packets, List.map_append, List.map_singleton, ← seq]
      exact appended

/-- **`GetNextPack`** reports an empty queue exactly when the list is empty; otherwise it finds the
oldest message, and moving the head past it removes that message alone. -/
theorem nextPack_represents (small : capacity.toNat ≤ 2 ^ 31) (rep : Represents capacity queue fifo) :
    fifo.pending = [] ∧ queue.nextPack = .error .kChanEmpty ∨
      ∃ oldest rest next, fifo.pending = oldest :: rest ∧ queue.nextPack = .ok next ∧
        next.view.bytes queue.buff = oldest.bytes ∧
        next.packHead.bodyLen.toUInt32.toNat = oldest.bytes.length ∧
        Represents capacity (queue.advance next) ⟨fifo.sent, rest⟩ := by
  obtain ⟨rfl, headLt, seq, n, nLt, tailAt, lay⟩ := rep
  obtain ⟨sent, pending⟩ := fifo
  cases pending with
  | nil =>
    left
    cases lay
    exact ⟨rfl, getNextPack_empty headLt tailAt⟩
  | cons oldest rest =>
    right
    obtain ⟨skip, left, total, first, later⟩ := lay.first
    obtain ⟨next, found, finds⟩ := getNextPack_first small headLt nLt tailAt first
    refine ⟨oldest, rest, next, rfl, found, finds.view_bytes, ?_, rfl, ?_, seq, left, by omega, ?_, ?_⟩
    · rw [UInt16.toNat_toUInt32]
      exact finds.bodyLen
    · exact finds.nextHead ▸ slot_lt _ _ (by omega)
    · show queue.header.tail.toNat = slot _ (next.nextHead queue.header.capacity).toNat left
      rw [finds.nextHead, slot_slot, tailAt, total]
    · show Layout queue.buff _ (next.nextHead queue.header.capacity).toNat left _
      rw [finds.nextHead]
      exact later

end Operations

/-! ### The refinement -/

/-- **Every step of the code is a step of the list.** -/
theorem queueMachine_simulates {capacity : UInt32} (small : capacity.toNat ≤ 2 ^ 31) {start : Queue}
    (fresh : Represents capacity start Fifo.empty) :
    Simulation (queueMachine start 65528) fifoMachine (Represents capacity) where
  init := by
    rintro _ rfl
    exact ⟨Fifo.empty, rfl, fresh⟩
  step := by
    intro queue fifo event next rep taken
    cases taken with
    | send data reserve short =>
      rcases send_represents rep data reserve short with full | ⟨accepted, after⟩
      · have same := QueueStep.unchanged (.send queue data reserve short) (by
          rw [full]
          exact fun equal => by cases equal)
        rw [full, same]
        exact ⟨fifo, .sendFull fifo data, rep⟩
      · rw [accepted]
        exact ⟨_, .sendOk fifo data, after⟩
    | recv len =>
      obtain ⟨sent, pending⟩ := fifo
      rcases nextPack_represents small rep with ⟨none, found⟩
        | ⟨oldest, rest, next, some, found, bytes, size, after⟩
      · subst none
        rw [recv_of_error len found]
        exact ⟨_, .recvEmpty sent len, rep⟩
      · subst some
        by_cases short : len < next.packHead.bodyLen.toUInt32
        · rw [recv_of_short found short]
          rw [UInt32.lt_iff_toNat_lt, size] at short
          exact ⟨_, .recvShort sent len oldest rest short, rep⟩
        · rw [recv_of_ok found short, bytes]
          rw [UInt32.lt_iff_toNat_lt, size] at short
          exact ⟨_, .recvOk sent len oldest rest (Nat.not_lt.mp short), after⟩
    | peek =>
      obtain ⟨sent, pending⟩ := fifo
      rcases nextPack_represents small rep with ⟨none, found⟩
        | ⟨oldest, rest, next, some, found, bytes, _, _⟩
      · subst none
        rw [peek_of_error found]
        exact ⟨_, .peekEmpty sent, rep⟩
      · subst some
        rw [peek_of_ok found]
        show ∃ above, FifoStep _ (.peek (.ok (next.view.bytes queue.buff))) above ∧ _
        rw [bytes]
        exact ⟨_, .peekOk sent oldest rest, rep⟩
    | drop =>
      obtain ⟨sent, pending⟩ := fifo
      rcases nextPack_represents small rep with ⟨none, found⟩
        | ⟨oldest, rest, next, some, found, _, _, after⟩
      · subst none
        rw [drop_of_error found]
        exact ⟨_, .dropEmpty sent, rep⟩
      · subst some
        rw [drop_of_ok found]
        exact ⟨_, .dropOk sent oldest rest, after⟩

/-- **The queue refines a FIFO.** For every ring of `48 < C ≤ 2 ^ 31` bytes, on memory of any
content, creation with reset succeeds, and every run of `Send` (of at most `65528` bytes), `Recv`,
`Peek` and `Drop` from there is, event by event, a run of the list of messages; at its end the ring
holds exactly the pending ones, the `k`-th accepted message carrying `seq = k mod 2 ^ 32`. A call that
fails, and every `Peek`, leaves the queue as it was. -/
theorem queue_refines_fifo (capacity : UInt32) (big : 48 < capacity.toNat)
    (small : capacity.toNat ≤ 2 ^ 31) (memory : Queue) :
    ∃ start, createUnlockQueue (some memory) (capacity + kUnlockQueueHeadSize) true
        = (.ok (), some start) ∧
      start.header.capacity = capacity ∧
      ∀ events last, (queueMachine start 65528).Run start events last →
        (∃ fifo, fifoMachine.Run Fifo.empty events fifo ∧ Represents capacity last fifo) ∧
        ∀ event next, (queueMachine start 65528).step last event next → event.Passive → next = last := by
  obtain ⟨start, created, fresh⟩ := createUnlockQueue_represents big small memory
  refine ⟨start, created, fresh.ring, fun events last run => ⟨?_, ?_⟩⟩
  · obtain ⟨above, fifo, rfl, matched, rep⟩ := (queueMachine_simulates small fresh).run rfl run
    exact ⟨fifo, matched, rep⟩
  · exact fun event next taken passive => QueueStep.unchanged taken passive

/-- The ring of the threaded test, on zeroed memory. -/
theorem queue_refines_fifo_testRing :
    ∃ start, createUnlockQueue (some ⟨resetHead 0, fun _ => 0⟩) (1468 + kUnlockQueueHeadSize) true
        = (.ok (), some start) ∧
      start.header.capacity = 1468 ∧
      ∀ events last, (queueMachine start 65528).Run start events last →
        (∃ fifo, fifoMachine.Run Fifo.empty events fifo ∧ Represents 1468 last fifo) ∧
        ∀ event next, (queueMachine start 65528).step last event next → event.Passive → next = last :=
  queue_refines_fifo 1468 (by decide) (by decide) ⟨resetHead 0, fun _ => 0⟩

end Yarf.Channel
