/-
**The lock-free queue, as the code computes it** (`unlock_queue.cc`, `unlock_queue_impl.h`,
`misc.cc`).

A queue is a header and a ring of bytes. Machine words are `UInt32`, so every sum, difference and
remainder below wraps exactly where the source's does. An operation returns its code together with
the queue it leaves behind, so that "the queue is unchanged" is a statement about the code and not
about the type.

The steps of `Send` and `GetNextPack` between two accesses to shared memory are definitions of their
own (`sendSize`, `place`, `packWrites`; `seek`, `checkPack`): the sequential operations
are assembled from them here, and so are the interleaved ones.

Offsets into the ring are natural numbers: the copies run on pointers, whose arithmetic does not
wrap at `2 ^ 32`.
-/

import Yarf.Err
import Yarf.Channel.Pack

namespace Yarf.Channel

open Lib

/-- `GetAlignmentSize`. -/
def getAlignmentSize (size alignmentLevel : UInt32) : UInt32 :=
  if alignmentLevel = 8 then (size + 7) &&& ~~~7
  else if alignmentLevel = 4 then (size + 3) &&& ~~~3
  else if alignmentLevel = 2 then (size + 1) &&& ~~~1
  else size

def kUnlockQueueMaxCtrlMsg : ℕ := 512

/-- The queue header in front of the ring. -/
structure UnlockQueueHead where
  /-- The size of the ring alone. -/
  capacity : UInt32
  /-- Where the oldest message starts; written by the receiver only. -/
  head : UInt32
  /-- Where the next message goes; written by the sender only. -/
  tail : UInt32
  /-- The sequence number of the next message. -/
  seq : UInt32
  ctrlMsg : Vector UInt8 kUnlockQueueMaxCtrlMsg
  ctrlMsgLen : UInt32

/-- `sizeof(UnlockQueueHead)`. -/
def kUnlockQueueHeadSize : UInt32 := 580

/-- A queue in memory: the header and the bytes behind it, by offset from `buff_`. -/
structure Queue where
  header : UnlockQueueHead
  buff : ℕ → UInt8

/-- The argument pair `(const char* data, uint32_t len)`: `len` bytes. -/
structure Message where
  bytes : List UInt8
  fits : bytes.length < 2 ^ 32

def Message.len (data : Message) : UInt32 := UInt32.ofNat data.bytes.length

theorem Message.toNat_len (data : Message) : data.len.toNat = data.bytes.length :=
  UInt32.toNat_ofNat_of_lt' data.fits

/-! ### The sender -/

def packSize (len : UInt32) : UInt32 := kPackHeadSize + len

def alignPackSize (len : UInt32) : UInt32 := getAlignmentSize (packSize len) 8

/-- The overflow guard of `Send`. -/
def packGuard (len : UInt32) : Except Err Unit :=
  if alignPackSize len % kChannelAlignLevel ≠ 0 ∨ alignPackSize len < packSize len then
    .error .kUnexpect
  else .ok ()

def freeSize (capacity tail head : UInt32) : UInt32 :=
  (capacity - tail - 1 + head) % capacity

/-- Where `Send` decides to put a packet. -/
structure Place where
  /-- The offset of the place-holder head, when one is written. -/
  placeHold : Option UInt32
  /-- The offset of the packet itself. -/
  curTail : UInt32
  deriving DecidableEq

/-- The wrap decision of `Send`. -/
def place (capacity curTail curHead size : UInt32) : Except Err Place :=
  if curTail ≥ curHead then
    let tailFreeSize := capacity - curTail
    if tailFreeSize < size then
      -- a packet that ended at `curHead` would make a full ring look empty
      if curHead ≤ size then .error .kChanFull
      else if tailFreeSize < kPackHeadSize then .ok ⟨none, 0⟩
      else .ok ⟨some curTail, 0⟩
    else .ok ⟨none, curTail⟩
  else .ok ⟨none, curTail⟩

/-- The head `Send` puts in front of a body; the 16-bit fields keep the low bits of the lengths. -/
def packHeader (len seq : UInt32) (reserve : Reserve) : ChannelPackHead :=
  { ChannelPackHead.new kChannelCmdTransfer reserve with
    alignBodyLen := (alignPackSize len - kPackHeadSize).toUInt16
    bodyLen := len.toUInt16
    seq := seq }

/-- The copy of the place-holder head, when there is one. -/
def holdWrites : Option UInt32 → List (ℕ × UInt8)
  | some offset => cells (span offset.toNat) ChannelPackHead.placeHoldHead.toBytes
  | none => []

/-- The bytes `Send` writes, in the order of its `memcpy` calls. -/
def packWrites (at_ : Place) (pack : ChannelPackHead) (data : List UInt8) : List (ℕ × UInt8) :=
  holdWrites at_.placeHold
  ++ cells (span at_.curTail.toNat) pack.toBytes
  ++ cells (span (at_.curTail.toNat + 48)) data

def nextTail (capacity size : UInt32) (at_ : Place) : UInt32 := (at_.curTail + size) % capacity

/-- The tests of `Send` on its first read of `head`: the overflow guard and the free size. -/
def sendSize (capacity tail head len : UInt32) : Except Err Unit :=
  match packGuard len with
  | .error err => .error err
  | .ok () => if freeSize capacity tail head < alignPackSize len then .error .kChanFull else .ok ()

/-- What `Send` decides before it writes: where the packet goes, or why it is refused. The two reads
of `head` are separate arguments. -/
def sendPlan (capacity tail head curHead len : UInt32) : Except Err Place :=
  match sendSize capacity tail head len with
  | .error err => .error err
  | .ok () => place capacity tail curHead (alignPackSize len)

/-- The queue after an accepted `Send`: the copies, then `tail`, then `seq`. `reserve` is whatever the
stack held where `pack_header` lies. -/
def Queue.append (queue : Queue) (data : Message) (reserve : Reserve) (at_ : Place) : Queue where
  header := { queue.header with
    tail := nextTail queue.header.capacity (alignPackSize data.len) at_
    seq := queue.header.seq + 1 }
  buff := write queue.buff
    (packWrites at_ (packHeader data.len queue.header.seq reserve) data.bytes)

/-- `CSendUnlockQueue::Send`. -/
def send (queue : Queue) (data : Message) (reserve : Reserve) : Except Err Unit × Queue :=
  match sendPlan queue.header.capacity queue.header.tail queue.header.head queue.header.head
    data.len with
  | .error err => (.error err, queue)
  | .ok at_ => (.ok (), queue.append data reserve at_)

/-- `CSendUnlockQueue::SetCtrlMsg`. -/
def setCtrlMsg (queue : Queue) (data : Message) : Except Err Unit × Queue :=
  if kUnlockQueueMaxCtrlMsg < data.bytes.length then (.error .kSpaceLimit, queue)
  else (.ok (), { queue with header := { queue.header with
    ctrlMsg := Vector.ofFn fun i => (data.bytes[i.val]?).getD queue.header.ctrlMsg[i]
    ctrlMsgLen := data.len } })

/-- `CSendUnlockQueue::GetCtrlMsg`. The caller's `len` is overwritten before it is looked at. -/
def getCtrlMsg (queue : Queue) : Except Err (List UInt8) :=
  if 0 < queue.header.ctrlMsgLen then .error .kSpaceLimit
  else if kUnlockQueueMaxCtrlMsg < queue.header.ctrlMsgLen.toNat then .error .kUnexpect
  else .ok (queue.header.ctrlMsg.toList.take queue.header.ctrlMsgLen.toNat)

/-! ### The receiver -/

/-- `alloc_size` of `GetNextPack`. -/
def allocSize (capacity curHead curTail : UInt32) : UInt32 :=
  (curTail + capacity - curHead) % capacity

/-- The first half of `GetNextPack`: skip the end of the ring when no packet lies there. -/
def seek (capacity : UInt32) (buff : ℕ → UInt8) (head tail : UInt32) : Except Err UInt32 :=
  let tailAllocSize := capacity - head
  if tailAllocSize < kPackHeadSize then
    if allocSize capacity head tail < tailAllocSize then .error .kChanPackInvalid else .ok 0
  else if (ChannelPackHead.read buff head.toNat).cmd = kChannelCmdPlaceHolder then
    if allocSize capacity head tail < tailAllocSize then .error .kChanPackInvalid else .ok 0
  else .ok head

/-- The three results of `GetNextPack`. -/
structure NextPack where
  curHead : UInt32
  alignPackSize : UInt32
  packHead : ChannelPackHead

/-- The second half of `GetNextPack`: the tests on the pack head found. -/
def checkPack (capacity : UInt32) (pack : ChannelPackHead) (curHead tail : UInt32) :
    Except Err NextPack :=
  let size := kPackHeadSize + pack.alignBodyLen.toUInt32
  if pack.cmd ≠ kChannelCmdTransfer then .error .kUnexpect
  else if size > allocSize capacity curHead tail then .error .kChanPackInvalid
  else .ok ⟨curHead, size, pack⟩

/-- `CRecvUnlockQueue::GetNextPack` on the values of `head` and `tail` it has read. -/
def getNextPack (capacity : UInt32) (buff : ℕ → UInt8) (head tail : UInt32) : Except Err NextPack :=
  if tail = head then .error .kChanEmpty
  else match seek capacity buff head tail with
    | .error err => .error err
    | .ok curHead => checkPack capacity (ChannelPackHead.read buff curHead.toNat) curHead tail

def Queue.nextPack (queue : Queue) : Except Err NextPack :=
  getNextPack queue.header.capacity queue.buff queue.header.head queue.header.tail

/-- The offset of the body behind a pack head. -/
def NextPack.bodyOffset (pack : NextPack) : ℕ := pack.curHead.toNat + 48

/-- The head after the packet has been taken. -/
def NextPack.nextHead (pack : NextPack) (capacity : UInt32) : UInt32 :=
  (pack.curHead + pack.alignPackSize) % capacity

/-- What `Peek` hands out: a pointer into the ring and a length. -/
structure View where
  offset : ℕ
  len : ℕ
  deriving DecidableEq

/-- The bytes a view points at. -/
def View.bytes (view : View) (buff : ℕ → UInt8) : List UInt8 := load buff (span view.offset) view.len

def NextPack.view (pack : NextPack) : View := ⟨pack.bodyOffset, pack.packHead.bodyLen.toNat⟩

/-- `CRecvUnlockQueue::Peek`. -/
def peek (queue : Queue) : Except Err View × Queue :=
  match queue.nextPack with
  | .error err => (.error err, queue)
  | .ok pack => (.ok pack.view, queue)

/-- The queue after the head has been moved past a packet. -/
def Queue.advance (queue : Queue) (pack : NextPack) : Queue :=
  { queue with header := { queue.header with head := pack.nextHead queue.header.capacity } }

/-- `CRecvUnlockQueue::Drop`. -/
def drop (queue : Queue) : Except Err Unit × Queue :=
  match queue.nextPack with
  | .error err => (.error err, queue)
  | .ok pack => (.ok (), queue.advance pack)

/-- `CRecvUnlockQueue::Recv` into a buffer of `len` bytes. On success the bytes copied are returned;
their number is the `len` the source reports. -/
def recv (queue : Queue) (len : UInt32) : Except Err (List UInt8) × Queue :=
  match queue.nextPack with
  | .error err => (.error err, queue)
  | .ok pack =>
    if len < pack.packHead.bodyLen.toUInt32 then (.error .kChanRecvSpaceLimit, queue)
    else (.ok (pack.view.bytes queue.buff), queue.advance pack)

/-! ### The cases of each operation -/

section Cases

variable {queue : Queue}

theorem send_of_error {data : Message} {err : Err} (reserve : Reserve)
    (refused : sendPlan queue.header.capacity queue.header.tail queue.header.head queue.header.head
      data.len = .error err) : send queue data reserve = (.error err, queue) := by
  rw [send, refused]

theorem send_of_ok {data : Message} {at_ : Place} (reserve : Reserve)
    (planned : sendPlan queue.header.capacity queue.header.tail queue.header.head queue.header.head
      data.len = .ok at_) : send queue data reserve = (.ok (), queue.append data reserve at_) := by
  rw [send, planned]

theorem peek_of_error {err : Err} (none : queue.nextPack = .error err) :
    peek queue = (.error err, queue) := by
  rw [peek, none]

theorem peek_of_ok {pack : NextPack} (found : queue.nextPack = .ok pack) :
    peek queue = (.ok pack.view, queue) := by
  rw [peek, found]

theorem drop_of_error {err : Err} (none : queue.nextPack = .error err) :
    drop queue = (.error err, queue) := by
  rw [drop, none]

theorem drop_of_ok {pack : NextPack} (found : queue.nextPack = .ok pack) :
    drop queue = (.ok (), queue.advance pack) := by
  rw [drop, found]

theorem recv_of_error {err : Err} (len : UInt32) (none : queue.nextPack = .error err) :
    recv queue len = (.error err, queue) := by
  rw [recv, none]

theorem recv_of_short {pack : NextPack} {len : UInt32} (found : queue.nextPack = .ok pack)
    (short : len < pack.packHead.bodyLen.toUInt32) :
    recv queue len = (.error .kChanRecvSpaceLimit, queue) := by
  rw [recv, found]
  exact if_pos short

theorem recv_of_ok {pack : NextPack} {len : UInt32} (found : queue.nextPack = .ok pack)
    (enough : ¬ len < pack.packHead.bodyLen.toUInt32) :
    recv queue len = (.ok (pack.view.bytes queue.buff), queue.advance pack) := by
  rw [recv, found]
  exact if_neg enough

end Cases

/-! ### Creation -/

/-- `CSendUnlockQueue::Init` and `CRecvUnlockQueue::Init`: the same tests on a memory of `capacity`
bytes. `IsValid` of the header is always true. -/
def initSide (mem : Option Queue) (capacity : UInt32) : Except Err Queue :=
  match mem with
  | none => .error .kArg
  | some queue =>
    if capacity ≤ kUnlockQueueHeadSize + kPackHeadSize then .error .kArg else .ok queue

/-- The header after `bzero` and the capacity write of a reset. -/
def resetHead (capacity : UInt32) : UnlockQueueHead where
  capacity := capacity - kUnlockQueueHeadSize
  head := 0
  tail := 0
  seq := 0
  ctrlMsg := Vector.replicate _ 0
  ctrlMsgLen := 0

/-- `CreateUnlockQueue` on a memory of `capacity` bytes: the reset writes come first, then the tests
of the two sides. -/
def createUnlockQueue (mem : Option Queue) (capacity : UInt32) (reset : Bool) :
    Except Err Unit × Option Queue :=
  let mem := if reset then mem.map fun queue => { queue with header := resetHead capacity } else mem
  match initSide mem capacity with
  | .error err => (.error err, mem)
  | .ok _ => match initSide mem capacity with
    | .error err => (.error err, mem)
    | .ok _ => (.ok (), mem)

end Yarf.Channel
