/-
**One sender against one receiver.**

The steps of `Send` and of `Recv`, `Peek`, `Drop` are cut where they touch shared memory: the sender
reads `head` for the free size, reads it again for the wrap, writes byte by byte, publishes `tail`,
increments `seq`; the receiver reads `head` and `tail`, reads the place-holder, reads the pack head,
copies byte by byte, publishes `head`. `PairStep` interleaves them in any order.

* `SenderInv` — the bytes still to be written lie behind the tail, in cells the receiver does not
  look at; once they are written they spell out the packet. It only gets easier when the head moves.
* `ReceiverInv` — the packet the receiver is working on is the oldest one, found within the tail it
  has read. It survives everything the sender does.
* `pairMachine_inv` — every reachable state satisfies both, together with the layout of the ring.
* `interleaving_safe` — what follows: writes never touch published messages, what `Peek` pointed at
  stays, nothing is observed half written, and the messages delivered are a prefix of those accepted.
-/

import Yarf.Channel.Fifo
import Yarf.Channel.SendLimits

namespace Yarf.Channel

open Lib

/-! ### The two parties -/

/-- Where the sender stands in `Send`. -/
inductive SendPc
  | idle
  /-- `free_size` was large enough for `data`. -/
  | sized (data : Message)
  /-- The place is decided; these bytes are still to be written. -/
  | copying (data : Message) (at_ : Place) (todo : List (ℕ × UInt8))
  /-- `tail` is published, `seq` is not yet incremented. -/
  | bump

/-- The call the receiver is executing. -/
inductive Taking
  | recv (len : UInt32)
  | peek
  | drop
  deriving DecidableEq

/-- Where the receiver stands in `Recv`, `Peek` or `Drop`. -/
inductive RecvPc
  | idle
  /-- `head` and `tail` have been read and differ. -/
  | snapped (op : Taking) (head tail : UInt32)
  /-- The end of the ring has been skipped, if need be. -/
  | sought (op : Taking) (curHead tail : UInt32)
  /-- `GetNextPack` has returned. -/
  | found (op : Taking) (next : NextPack)
  /-- `Recv` has copied these bytes. -/
  | copying (next : NextPack) (got : List UInt8)

/-- Both parties, the queue between them, and what an observer has noted so far. -/
structure Pair where
  queue : Queue
  sender : SendPc
  receiver : RecvPc
  /-- The messages whose `tail` has been published, oldest first. -/
  accepted : List (List UInt8)
  /-- The bytes handed out with each removal, oldest first. -/
  delivered : List (List UInt8)
  /-- The last `Peek` since the head was moved: its view and the bytes it showed. -/
  peeked : Option (View × List UInt8)

def Pair.start (queue : Queue) : Pair := ⟨queue, .idle, .idle, [], [], none⟩

/-- One byte of a copy. -/
def Queue.poke (queue : Queue) (entry : ℕ × UInt8) : Queue :=
  { queue with buff := Function.update queue.buff entry.1 entry.2 }

def Queue.publishTail (queue : Queue) (tail : UInt32) : Queue :=
  { queue with header := { queue.header with tail := tail } }

def Queue.bumpSeq (queue : Queue) : Queue :=
  { queue with header := { queue.header with seq := queue.header.seq + 1 } }

/-- Who takes a step. -/
inductive Party
  | sender
  | receiver
  deriving DecidableEq

/-- One atomic step of one party. -/
inductive PairStep (limit : ℕ) : Pair → Party → Pair → Prop
  | sendRefused (pair : Pair) (data : Message) (err : Err) :
      pair.sender = .idle → data.bytes.length ≤ limit →
      sendSize pair.queue.header.capacity pair.queue.header.tail pair.queue.header.head data.len
        = .error err →
      PairStep limit pair .sender pair
  | sendSized (pair : Pair) (data : Message) :
      pair.sender = .idle → data.bytes.length ≤ limit →
      sendSize pair.queue.header.capacity pair.queue.header.tail pair.queue.header.head data.len
        = .ok () →
      PairStep limit pair .sender { pair with sender := .sized data }
  | sendFull (pair : Pair) (data : Message) (err : Err) :
      pair.sender = .sized data →
      place pair.queue.header.capacity pair.queue.header.tail pair.queue.header.head
        (alignPackSize data.len) = .error err →
      PairStep limit pair .sender { pair with sender := .idle }
  | sendPlaced (pair : Pair) (data : Message) (at_ : Place) (reserve : Reserve) :
      pair.sender = .sized data →
      place pair.queue.header.capacity pair.queue.header.tail pair.queue.header.head
        (alignPackSize data.len) = .ok at_ →
      PairStep limit pair .sender { pair with
        sender := .copying data at_
          (packWrites at_ (packHeader data.len pair.queue.header.seq reserve) data.bytes) }
  | sendByte (pair : Pair) (data : Message) (at_ : Place) (entry : ℕ × UInt8)
      (todo : List (ℕ × UInt8)) :
      pair.sender = .copying data at_ (entry :: todo) →
      PairStep limit pair .sender { pair with
        queue := pair.queue.poke entry
        sender := .copying data at_ todo }
  | sendPublish (pair : Pair) (data : Message) (at_ : Place) :
      pair.sender = .copying data at_ [] →
      PairStep limit pair .sender { pair with
        queue := pair.queue.publishTail
          (nextTail pair.queue.header.capacity (alignPackSize data.len) at_)
        sender := .bump
        accepted := pair.accepted ++ [data.bytes] }
  | sendBump (pair : Pair) :
      pair.sender = .bump →
      PairStep limit pair .sender { pair with queue := pair.queue.bumpSeq, sender := .idle }
  | recvEmpty (pair : Pair) :
      pair.receiver = .idle → pair.queue.header.tail = pair.queue.header.head →
      PairStep limit pair .receiver pair
  | recvSnap (pair : Pair) (op : Taking) :
      pair.receiver = .idle → pair.queue.header.tail ≠ pair.queue.header.head →
      PairStep limit pair .receiver { pair with
        receiver := .snapped op pair.queue.header.head pair.queue.header.tail }
  | recvSeekFail (pair : Pair) (op : Taking) (head tail : UInt32) (err : Err) :
      pair.receiver = .snapped op head tail →
      seek pair.queue.header.capacity pair.queue.buff head tail = .error err →
      PairStep limit pair .receiver { pair with receiver := .idle }
  | recvSeek (pair : Pair) (op : Taking) (head tail curHead : UInt32) :
      pair.receiver = .snapped op head tail →
      seek pair.queue.header.capacity pair.queue.buff head tail = .ok curHead →
      PairStep limit pair .receiver { pair with receiver := .sought op curHead tail }
  | recvCheckFail (pair : Pair) (op : Taking) (curHead tail : UInt32) (err : Err) :
      pair.receiver = .sought op curHead tail →
      checkPack pair.queue.header.capacity (ChannelPackHead.read pair.queue.buff curHead.toNat)
        curHead tail = .error err →
      PairStep limit pair .receiver { pair with receiver := .idle }
  | recvCheck (pair : Pair) (op : Taking) (curHead tail : UInt32) (next : NextPack) :
      pair.receiver = .sought op curHead tail →
      checkPack pair.queue.header.capacity (ChannelPackHead.read pair.queue.buff curHead.toNat)
        curHead tail = .ok next →
      PairStep limit pair .receiver { pair with receiver := .found op next }
  | recvPeek (pair : Pair) (next : NextPack) :
      pair.receiver = .found .peek next →
      PairStep limit pair .receiver { pair with
        receiver := .idle
        peeked := some (next.view, next.view.bytes pair.queue.buff) }
  | recvShort (pair : Pair) (len : UInt32) (next : NextPack) :
      pair.receiver = .found (.recv len) next → len < next.packHead.bodyLen.toUInt32 →
      PairStep limit pair .receiver { pair with receiver := .idle }
  | recvCopy (pair : Pair) (len : UInt32) (next : NextPack) :
      pair.receiver = .found (.recv len) next → ¬ len < next.packHead.bodyLen.toUInt32 →
      PairStep limit pair .receiver { pair with receiver := .copying next [] }
  | recvByte (pair : Pair) (next : NextPack) (got : List UInt8) :
      pair.receiver = .copying next got → got.length < next.packHead.bodyLen.toNat →
      PairStep limit pair .receiver { pair with
        receiver := .copying next (got ++ [pair.queue.buff (next.bodyOffset + got.length)]) }
  | recvPublish (pair : Pair) (next : NextPack) (got : List UInt8) :
      pair.receiver = .copying next got → got.length = next.packHead.bodyLen.toNat →
      PairStep limit pair .receiver { pair with
        queue := pair.queue.advance next
        receiver := .idle
        delivered := pair.delivered ++ [got]
        peeked := none }
  | dropPublish (pair : Pair) (next : NextPack) :
      pair.receiver = .found .drop next →
      PairStep limit pair .receiver { pair with
        queue := pair.queue.advance next
        receiver := .idle
        delivered := pair.delivered ++ [next.view.bytes pair.queue.buff]
        peeked := none }

/-- All interleavings of one sender and one receiver, with messages of at most `limit` bytes. -/
def pairMachine (start : Queue) (limit : ℕ) : Machine Pair Party where
  init := (· = Pair.start start)
  step := PairStep limit

/-! ### What each party relies on -/

/-- While the sender copies: the bytes `todo` lie behind the tail and, once written, spell out the
packet. -/
structure Copying (C t : ℕ) (buff : ℕ → UInt8) (n : ℕ) (data : Message) (at_ : Place)
    (todo : List (ℕ × UInt8)) (skip : ℕ) (seq : UInt32) : Prop where
  placed : Placed C t (48 + roundUp data.bytes.length) skip at_
  room : n + skip + (48 + roundUp data.bytes.length) < C
  behind : ∀ entry ∈ todo, ∃ i, i < skip + (48 + roundUp data.bytes.length) ∧ entry.1 < C ∧
    entry.1 = slot C t i
  skips : SkipAt (write buff todo) C t skip
  lies : PackAt (write buff todo) at_.curTail.toNat ⟨seq, data.bytes⟩

/-- The sender's part: `n` cells are live in front of the tail `t`. -/
def SenderInv (C t : ℕ) (buff : ℕ → UInt8) (n : ℕ) : SendPc → Prop
  | .idle => True
  | .sized data => data.bytes.length ≤ 65528 ∧ n + (48 + roundUp data.bytes.length) < C
  | .copying data at_ todo =>
      data.bytes.length ≤ 65528 ∧ ∃ skip seq, Copying C t buff n data at_ todo skip seq
  | .bump => True

/-- The oldest pending packet lies within the first `m` of the `n` live cells. -/
structure Oldest (buff : ℕ → UInt8) (C h n : ℕ) (pending : List Packet) (m skip : ℕ)
    (pack : Packet) : Prop where
  first : First buff C h m skip pack
  within : m ≤ n
  oldest : pending.head? = some pack

/-- The receiver's part. -/
def ReceiverInv (capacity head : UInt32) (buff : ℕ → UInt8) (n : ℕ) (pending : List Packet) :
    RecvPc → Prop
  | .idle => True
  | .snapped _ head' tail => head' = head ∧ ∃ m skip pack,
      Oldest buff capacity.toNat head.toNat n pending m skip pack ∧
      tail.toNat = slot capacity.toNat head.toNat m
  | .sought _ curHead tail => ∃ m skip pack,
      Oldest buff capacity.toNat head.toNat n pending m skip pack ∧
      tail.toNat = slot capacity.toNat head.toNat m ∧
      curHead.toNat = slot capacity.toNat head.toNat skip
  | .found _ next => ∃ m skip pack, Oldest buff capacity.toNat head.toNat n pending m skip pack ∧
      Found buff capacity head skip pack next
  | .copying next got => ∃ m skip pack, Oldest buff capacity.toNat head.toNat n pending m skip pack ∧
      Found buff capacity head skip pack next ∧ got <+: pack.body

/-- What the last `Peek` showed is the oldest packet. -/
def PeekedInv (C h : ℕ) (buff : ℕ → UInt8) (n : ℕ) (pending : List Packet) :
    Option (View × List UInt8) → Prop
  | none => True
  | some (view, bytes) => ∃ m skip pack, Oldest buff C h n pending m skip pack ∧
      view = ⟨slot C h skip + 48, pack.body.length⟩ ∧ bytes = pack.body

/-- The invariant of the pair: `n` live cells, holding the `pending` packets. -/
structure PairInv (capacity : UInt32) (pair : Pair) (n : ℕ) (pending : List Packet) : Prop where
  ring : pair.queue.header.capacity = capacity
  headLt : pair.queue.header.head.toNat < capacity.toNat
  nLt : n < capacity.toNat
  tailAt : pair.queue.header.tail.toNat = slot capacity.toNat pair.queue.header.head.toNat n
  lay : Layout pair.queue.buff capacity.toNat pair.queue.header.head.toNat n pending
  accepted : pair.accepted = pair.delivered ++ pending.map Packet.body
  sender : SenderInv capacity.toNat pair.queue.header.tail.toNat pair.queue.buff n pair.sender
  receiver : ReceiverInv capacity pair.queue.header.head pair.queue.buff n pending pair.receiver
  peeked : PeekedInv capacity.toNat pair.queue.header.head.toNat pair.queue.buff n pending pair.peeked

/-! ### What the other party does, does not matter -/

section Stable

variable {capacity head : UInt32} {C h t n m skip : ℕ} {buff other : ℕ → UInt8}
  {pending : List Packet} {pack : Packet}

theorem Oldest.exists_cons (old : Oldest buff C h n pending m skip pack) :
    ∃ rest, pending = pack :: rest := by
  obtain ⟨first, rest⟩ := List.head?_eq_some_iff.mp old.oldest
  exact ⟨first, rest⟩

theorem Oldest.congr (old : Oldest buff C h n pending m skip pack)
    (agree : ∀ i, i < n → buff (slot C h i) = other (slot C h i)) :
    Oldest other C h n pending m skip pack :=
  ⟨old.first.congr fun i bound => agree i (bound.trans_le old.within), old.within, old.oldest⟩

/-- More published cells and packets. -/
theorem Oldest.publish (old : Oldest buff C h n pending m skip pack) (more : ℕ) (new : Packet) :
    Oldest buff C h (n + more) (pending ++ [new]) m skip pack := by
  obtain ⟨rest, rfl⟩ := old.exists_cons
  exact ⟨old.first, old.within.trans (Nat.le_add_right _ _), rfl⟩

theorem Found.congr {next : NextPack} (found : Found buff capacity head skip pack next)
    (old : Oldest buff capacity.toNat head.toNat n pending m skip pack)
    (agree : ∀ i, i < n → buff (slot capacity.toNat head.toNat i)
      = other (slot capacity.toNat head.toNat i)) :
    Found other capacity head skip pack next :=
  ⟨(old.congr agree).first.lies, found.curHead, found.bodyLen, found.nextHead⟩

/-- The receiver does not notice writes outside the live cells. -/
theorem ReceiverInv.congr {pc : RecvPc} (inv : ReceiverInv capacity head buff n pending pc)
    (agree : ∀ i, i < n → buff (slot capacity.toNat head.toNat i)
      = other (slot capacity.toNat head.toNat i)) :
    ReceiverInv capacity head other n pending pc := by
  cases pc with
  | idle => trivial
  | snapped op head' tail =>
    obtain ⟨same, m, skip, pack, old, tailAt⟩ := inv
    exact ⟨same, m, skip, pack, old.congr agree, tailAt⟩
  | sought op curHead tail =>
    obtain ⟨m, skip, pack, old, tailAt, curAt⟩ := inv
    exact ⟨m, skip, pack, old.congr agree, tailAt, curAt⟩
  | found op next =>
    obtain ⟨m, skip, pack, old, found⟩ := inv
    exact ⟨m, skip, pack, old.congr agree, found.congr old agree⟩
  | copying next got =>
    obtain ⟨m, skip, pack, old, found, part⟩ := inv
    exact ⟨m, skip, pack, old.congr agree, found.congr old agree, part⟩

/-- The receiver does not notice a newer tail. -/
theorem ReceiverInv.publish {pc : RecvPc} (inv : ReceiverInv capacity head buff n pending pc)
    (more : ℕ) (new : Packet) :
    ReceiverInv capacity head buff (n + more) (pending ++ [new]) pc := by
  cases pc with
  | idle => trivial
  | snapped op head' tail =>
    obtain ⟨same, m, skip, pack, old, tailAt⟩ := inv
    exact ⟨same, m, skip, pack, old.publish more new, tailAt⟩
  | sought op curHead tail =>
    obtain ⟨m, skip, pack, old, tailAt, curAt⟩ := inv
    exact ⟨m, skip, pack, old.publish more new, tailAt, curAt⟩
  | found op next =>
    obtain ⟨m, skip, pack, old, found⟩ := inv
    exact ⟨m, skip, pack, old.publish more new, found⟩
  | copying next got =>
    obtain ⟨m, skip, pack, old, found, part⟩ := inv
    exact ⟨m, skip, pack, old.publish more new, found, part⟩

theorem PeekedInv.congr {peeked : Option (View × List UInt8)}
    (inv : PeekedInv C h buff n pending peeked)
    (agree : ∀ i, i < n → buff (slot C h i) = other (slot C h i)) :
    PeekedInv C h other n pending peeked := by
  cases peeked with
  | none => trivial
  | some shown =>
    obtain ⟨m, skip, pack, old, view, bytes⟩ := inv
    exact ⟨m, skip, pack, old.congr agree, view, bytes⟩

theorem PeekedInv.publish {peeked : Option (View × List UInt8)}
    (inv : PeekedInv C h buff n pending peeked) (more : ℕ) (new : Packet) :
    PeekedInv C h buff (n + more) (pending ++ [new]) peeked := by
  cases peeked with
  | none => trivial
  | some shown =>
    obtain ⟨m, skip, pack, old, view, bytes⟩ := inv
    exact ⟨m, skip, pack, old.publish more new, view, bytes⟩

/-- Fewer live cells only give the sender more room. -/
theorem SenderInv.mono {pc : SendPc} (inv : SenderInv C t buff n pc) (fewer : m ≤ n) :
    SenderInv C t buff m pc := by
  cases pc with
  | idle => trivial
  | sized data =>
    obtain ⟨short, room⟩ := inv
    exact ⟨short, by omega⟩
  | copying data at_ todo =>
    obtain ⟨short, skip, seq, copy⟩ := inv
    have room := copy.room
    exact ⟨short, skip, seq, copy.placed, by omega, copy.behind, copy.skips, copy.lies⟩
  | bump => trivial

/-- The byte about to be written is not live. -/
theorem Copying.free {data : Message} {at_ : Place} {todo : List (ℕ × UInt8)} {seq : UInt32}
    (copy : Copying C (slot C h n) buff n data at_ todo skip seq) {entry : ℕ × UInt8}
    (member : entry ∈ todo) (i : ℕ) (live : i < n) : slot C h i ≠ entry.1 := by
  intro same
  obtain ⟨j, bound, _, here⟩ := copy.behind entry member
  have room := copy.room
  rw [here, slot_slot] at same
  have := slot_inj (by omega) (by omega) same
  omega

end Stable

/-! ### One step -/

section Step

variable {capacity : UInt32} {pair : Pair} {n : ℕ} {pending : List Packet}

theorem PairInv.positive (inv : PairInv capacity pair n pending) : 0 < capacity.toNat := by
  have := inv.nLt
  omega

theorem PairInv.tailLt (inv : PairInv capacity pair n pending) :
    pair.queue.header.tail.toNat < capacity.toNat :=
  inv.tailAt ▸ slot_lt _ _ inv.positive

theorem PairInv.gap (inv : PairInv capacity pair n pending) :
    gap capacity.toNat pair.queue.header.head.toNat pair.queue.header.tail.toNat = n := by
  rw [inv.tailAt, gap_slot inv.headLt inv.nLt]

/-- A change of the sender's program counter alone. -/
theorem PairInv.withSender (inv : PairInv capacity pair n pending) {pc : SendPc}
    (sender : SenderInv capacity.toNat pair.queue.header.tail.toNat pair.queue.buff n pc) :
    PairInv capacity { pair with sender := pc } n pending :=
  { inv with sender := sender }

/-- A change of the receiver's program counter alone. -/
theorem PairInv.withReceiver (inv : PairInv capacity pair n pending) {pc : RecvPc}
    (receiver : ReceiverInv capacity pair.queue.header.head pair.queue.buff n pending pc) :
    PairInv capacity { pair with receiver := pc } n pending :=
  { inv with receiver := receiver }

/-- **The first read of `head`**: enough cells are free, and no receiver step takes them away. -/
theorem senderInv_sized (inv : PairInv capacity pair n pending) {data : Message}
    (short : data.bytes.length ≤ 65528)
    (sized : sendSize pair.queue.header.capacity pair.queue.header.tail pair.queue.header.head
      data.len = .ok ()) :
    SenderInv capacity.toNat pair.queue.header.tail.toNat pair.queue.buff n (.sized data) := by
  have len := data.toNat_len
  rw [inv.ring] at sized
  have free := free_of_sendSize_ok inv.headLt inv.tailLt sized
  rw [inv.gap, toNat_alignPackSize (by omega), len] at free
  exact ⟨short, free⟩

/-- **The second read of `head`**: the place is behind the tail, with room up to whatever the head is
by now. -/
theorem senderInv_copying (inv : PairInv capacity pair n pending) {data : Message} {at_ : Place}
    (stands : pair.sender = .sized data)
    (placed : place pair.queue.header.capacity pair.queue.header.tail pair.queue.header.head
      (alignPackSize data.len) = .ok at_) (reserve : Reserve) :
    SenderInv capacity.toNat pair.queue.header.tail.toNat pair.queue.buff n (.copying data at_
      (packWrites at_ (packHeader data.len pair.queue.header.seq reserve) data.bytes)) := by
  have len := data.toNat_len
  have sender := inv.sender
  rw [stands] at sender
  obtain ⟨short, free⟩ := sender
  have size : (alignPackSize data.len).toNat = 48 + roundUp data.bytes.length := by
    rw [toNat_alignPackSize (by omega), len]
  have long : 48 + data.bytes.length ≤ 48 + roundUp data.bytes.length :=
    Nat.add_le_add_left (le_roundUp _) 48
  rw [inv.ring] at placed
  obtain ⟨room, geometry⟩ := placed_of_place_ok inv.headLt inv.tailLt
    (by rw [inv.gap, size]; exact free) placed
  unfold Room at room
  rw [inv.gap, size] at room
  rw [size] at geometry
  exact ⟨short, _, pair.queue.header.seq, geometry, room,
    fun entry member => packWrites_slot geometry long member,
    packWrites_skipAt _ geometry (by omega) long, packWrites_packAt _ at_ data _ reserve short⟩

/-- **One byte of the copy.** The receiver sees nothing of it. -/
theorem PairInv.poke (inv : PairInv capacity pair n pending) {data : Message} {at_ : Place}
    {entry : ℕ × UInt8} {todo : List (ℕ × UInt8)}
    (stands : pair.sender = .copying data at_ (entry :: todo)) :
    PairInv capacity
      { pair with queue := pair.queue.poke entry, sender := .copying data at_ todo } n pending := by
  have sender := inv.sender
  rw [stands] at sender
  obtain ⟨short, skip, seq, copy⟩ := sender
  have agree : ∀ i, i < n → pair.queue.buff (slot capacity.toNat pair.queue.header.head.toNat i)
      = (pair.queue.poke entry).buff (slot capacity.toNat pair.queue.header.head.toNat i) := by
    intro i live
    rw [inv.tailAt] at copy
    exact (Function.update_of_ne (copy.free List.mem_cons_self i live) _ _).symm
  exact {
    ring := inv.ring
    headLt := inv.headLt
    nLt := inv.nLt
    tailAt := inv.tailAt
    lay := inv.lay.congr inv.headLt agree
    accepted := inv.accepted
    sender := ⟨short, skip, seq, copy.placed, copy.room,
      fun other member => copy.behind other (List.mem_cons_of_mem _ member), copy.skips, copy.lies⟩
    receiver := inv.receiver.congr agree
    peeked := inv.peeked.congr agree }

/-- **The tail is published**: every byte of the packet has been written. -/
theorem PairInv.publish (inv : PairInv capacity pair n pending) {data : Message} {at_ : Place}
    (stands : pair.sender = .copying data at_ []) :
    ∃ more new, PairInv capacity { pair with
      queue := pair.queue.publishTail
        (nextTail pair.queue.header.capacity (alignPackSize data.len) at_)
      sender := .bump
      accepted := pair.accepted ++ [data.bytes] } (n + more) (pending ++ [new]) := by
  have len := data.toNat_len
  have sender := inv.sender
  rw [stands] at sender
  obtain ⟨short, skip, seq, placed, room, _, skips, lies⟩ := sender
  have size : (alignPackSize data.len).toNat = 48 + roundUp data.bytes.length := by
    rw [toNat_alignPackSize (by omega), len]
  have inside : at_.curTail.toNat + Packet.size ⟨seq, data.bytes⟩ ≤ capacity.toNat := placed.inside
  have tail := toNat_nextTail placed size
  rw [write_nil] at skips lies
  rw [placed.start] at lies inside
  rw [inv.tailAt] at skips lies inside
  have longer := inv.lay.snoc skips lies inside inv.headLt
  have published : (nextTail pair.queue.header.capacity (alignPackSize data.len) at_).toNat
      = slot capacity.toNat pair.queue.header.head.toNat
          (n + (skip + Packet.size ⟨seq, data.bytes⟩)) := by
    rw [inv.ring, tail, inv.tailAt, slot_slot, Packet.size]
  have counted : pair.accepted ++ [data.bytes]
      = pair.delivered ++ (pending ++ [Packet.mk seq data.bytes]).map Packet.body := by
    rw [inv.accepted, List.map_append, List.append_assoc, List.map_singleton]
  have nLt : n + (skip + Packet.size ⟨seq, data.bytes⟩) < capacity.toNat := by
    show n + (skip + (48 + roundUp data.bytes.length)) < capacity.toNat
    omega
  exact ⟨_, _, inv.ring, inv.headLt, nLt, published, longer, counted, trivial,
    inv.receiver.publish _ _, inv.peeked.publish _ _⟩

/-- **A snapshot of `head` and `tail`.** A tail that differs from the head has a packet behind it. -/
theorem receiverInv_snapped (inv : PairInv capacity pair n pending) (op : Taking)
    (apart : pair.queue.header.tail ≠ pair.queue.header.head) :
    ReceiverInv capacity pair.queue.header.head pair.queue.buff n pending
      (.snapped op pair.queue.header.head pair.queue.header.tail) := by
  have some : 0 < n := by
    by_contra none
    have tailAt := inv.tailAt
    rw [Nat.eq_zero_of_not_pos none, slot_zero inv.headLt, UInt32.toNat_inj] at tailAt
    exact apart tailAt
  obtain ⟨pack, rest, rfl⟩ := inv.lay.exists_cons some
  obtain ⟨skip, left, total, first, _⟩ := inv.lay.first
  exact ⟨rfl, n, skip, pack, ⟨first, le_rfl, rfl⟩, inv.tailAt⟩

/-- **The skip** never fails. -/
theorem receiverInv_sought (small : capacity.toNat ≤ 2 ^ 31) (inv : PairInv capacity pair n pending)
    {op : Taking} {head tail : UInt32} (stands : pair.receiver = .snapped op head tail) :
    ∃ curHead, seek pair.queue.header.capacity pair.queue.buff head tail = .ok curHead ∧
      ReceiverInv capacity pair.queue.header.head pair.queue.buff n pending
        (.sought op curHead tail) := by
  have receiver := inv.receiver
  rw [stands] at receiver
  obtain ⟨rfl, m, skip, pack, old, tailAt⟩ := receiver
  obtain ⟨curHead, sought, curAt⟩ :=
    seek_first small inv.headLt (old.within.trans_lt inv.nLt) tailAt old.first
  rw [inv.ring]
  exact ⟨curHead, sought, m, skip, pack, old, tailAt, curAt⟩

/-- **The tests on the pack head** never fail. -/
theorem receiverInv_found (small : capacity.toNat ≤ 2 ^ 31) (inv : PairInv capacity pair n pending)
    {op : Taking} {curHead tail : UInt32} (stands : pair.receiver = .sought op curHead tail) :
    ∃ next, checkPack pair.queue.header.capacity
        (ChannelPackHead.read pair.queue.buff curHead.toNat) curHead tail = .ok next ∧
      ReceiverInv capacity pair.queue.header.head pair.queue.buff n pending (.found op next) := by
  have receiver := inv.receiver
  rw [stands] at receiver
  obtain ⟨m, skip, pack, old, tailAt, curAt⟩ := receiver
  obtain ⟨next, checked, found⟩ :=
    checkPack_first small (old.within.trans_lt inv.nLt) tailAt old.first curAt
  rw [inv.ring]
  exact ⟨next, checked, m, skip, pack, old, found⟩

/-- **One byte of the copy out of the ring.** -/
theorem receiverInv_byte {buff : ℕ → UInt8} {head : UInt32} {next : NextPack} {got : List UInt8}
    (inv : ReceiverInv capacity head buff n pending (.copying next got))
    (more : got.length < next.packHead.bodyLen.toNat) :
    ReceiverInv capacity head buff n pending
      (.copying next (got ++ [buff (next.bodyOffset + got.length)])) := by
  obtain ⟨m, skip, pack, old, found, part⟩ := inv
  refine ⟨m, skip, pack, old, found, ?_⟩
  have bound : got.length < pack.body.length := found.bodyLen ▸ more
  have cell : buff (next.bodyOffset + got.length) = pack.body[got.length] := by
    have bytes := found.view_bytes
    have inside : got.length < (next.view.bytes buff).length := bytes ▸ bound
    have loaded : (next.view.bytes buff)[got.length] = buff (next.bodyOffset + got.length) :=
      getElem_load _ _ _ _ inside
    rw [← loaded]
    simp only [bytes]
  have far : got = pack.body.take got.length := List.prefix_iff_eq_take.mp part
  have further : got ++ [pack.body[got.length]] = pack.body.take (got.length + 1) := by
    rw [← List.take_append_getElem bound, ← far]
  rw [cell, further]
  exact List.take_prefix _ _

/-- **The head is published.** Exactly the oldest packet is removed. -/
theorem PairInv.advance (inv : PairInv capacity pair n pending) {next : NextPack} {skip m : ℕ}
    {pack : Packet}
    (old : Oldest pair.queue.buff capacity.toNat pair.queue.header.head.toNat n pending m skip pack)
    (found : Found pair.queue.buff capacity pair.queue.header.head skip pack next) :
    ∃ left rest, PairInv capacity { pair with
      queue := pair.queue.advance next
      receiver := .idle
      delivered := pair.delivered ++ [pack.body]
      peeked := none } left rest := by
  obtain ⟨rest, rfl⟩ := old.exists_cons
  obtain ⟨skip', left, total, first, later⟩ := inv.lay.first
  obtain rfl := old.first.unique first inv.headLt
  have head : ((pair.queue.advance next).header.head).toNat
      = slot capacity.toNat pair.queue.header.head.toNat (skip + pack.size) := by
    show (next.nextHead pair.queue.header.capacity).toNat = _
    rw [inv.ring]
    exact found.nextHead
  have nLt := inv.nLt
  refine ⟨left, rest, ?_⟩
  exact {
    ring := inv.ring
    headLt := head ▸ slot_lt _ _ inv.positive
    nLt := by omega
    tailAt := by
      show pair.queue.header.tail.toNat = slot _ (pair.queue.advance next).header.head.toNat left
      rw [head, slot_slot, ← total]
      exact inv.tailAt
    lay := by
      show Layout pair.queue.buff _ (pair.queue.advance next).header.head.toNat left rest
      rw [head]
      exact later
    accepted := by
      show pair.accepted = pair.delivered ++ [pack.body] ++ rest.map Packet.body
      rw [inv.accepted, List.append_assoc]
      rfl
    sender := inv.sender.mono (by omega)
    receiver := trivial
    peeked := trivial }

/-- **Every step of either party keeps the invariant.** -/
theorem PairInv.step (small : capacity.toNat ≤ 2 ^ 31) (inv : PairInv capacity pair n pending)
    {party : Party} {after : Pair} (taken : PairStep 65528 pair party after) :
    ∃ n' pending', PairInv capacity after n' pending' := by
  cases taken with
  | sendRefused data err _ _ _ => exact ⟨n, pending, inv⟩
  | sendSized data _ short sized =>
    exact ⟨n, pending, inv.withSender (senderInv_sized inv short sized)⟩
  | sendFull data err _ _ => exact ⟨n, pending, inv.withSender trivial⟩
  | sendPlaced data at_ reserve stands placed =>
    exact ⟨n, pending, inv.withSender (senderInv_copying inv stands placed reserve)⟩
  | sendByte data at_ entry todo stands => exact ⟨n, pending, inv.poke stands⟩
  | sendPublish data at_ stands =>
    obtain ⟨more, new, after⟩ := inv.publish stands
    exact ⟨_, _, after⟩
  | sendBump stands => exact ⟨n, pending, { inv with sender := trivial }⟩
  | recvEmpty _ _ => exact ⟨n, pending, inv⟩
  | recvSnap op _ apart =>
    exact ⟨n, pending, inv.withReceiver (receiverInv_snapped inv op apart)⟩
  | recvSeekFail op head tail err _ _ => exact ⟨n, pending, inv.withReceiver trivial⟩
  | recvSeek op head tail curHead stands sought =>
    obtain ⟨curHead', sought', later⟩ := receiverInv_sought small inv stands
    rw [sought'] at sought
    cases sought
    exact ⟨n, pending, inv.withReceiver later⟩
  | recvCheckFail op curHead tail err _ _ => exact ⟨n, pending, inv.withReceiver trivial⟩
  | recvCheck op curHead tail next stands checked =>
    obtain ⟨next', checked', later⟩ := receiverInv_found small inv stands
    rw [checked'] at checked
    cases checked
    exact ⟨n, pending, inv.withReceiver later⟩
  | recvPeek next stands =>
    have receiver := inv.receiver
    rw [stands] at receiver
    obtain ⟨m, skip, pack, old, found⟩ := receiver
    have shown : PeekedInv capacity.toNat pair.queue.header.head.toNat pair.queue.buff n pending
        (some (next.view, next.view.bytes pair.queue.buff)) :=
      ⟨m, skip, pack, old, found.view, found.view_bytes⟩
    exact ⟨n, pending, { inv with receiver := trivial, peeked := shown }⟩
  | recvShort len next _ _ => exact ⟨n, pending, inv.withReceiver trivial⟩
  | recvCopy len next stands _ =>
    have receiver := inv.receiver
    rw [stands] at receiver
    obtain ⟨m, skip, pack, old, found⟩ := receiver
    exact ⟨n, pending, inv.withReceiver ⟨m, skip, pack, old, found, List.nil_prefix⟩⟩
  | recvByte next got stands more =>
    have receiver := inv.receiver
    rw [stands] at receiver
    exact ⟨n, pending, inv.withReceiver (receiverInv_byte receiver more)⟩
  | recvPublish next got stands whole =>
    have receiver := inv.receiver
    rw [stands] at receiver
    obtain ⟨m, skip, pack, old, found, part⟩ := receiver
    obtain rfl := part.eq_of_length (whole.trans found.bodyLen)
    exact inv.advance old found
  | dropPublish next stands =>
    have receiver := inv.receiver
    rw [stands] at receiver
    obtain ⟨m, skip, pack, old, found⟩ := receiver
    rw [found.view_bytes]
    exact inv.advance old found

end Step

/-! ### Every interleaving -/

/-- Before the first step nothing is pending. -/
theorem pairInv_start {capacity : UInt32} {start : Queue}
    (fresh : Represents capacity start Fifo.empty) : PairInv capacity (Pair.start start) 0 [] := by
  obtain ⟨ring, headLt, _, n, nLt, tailAt, lay⟩ := fresh
  obtain rfl : n = 0 := by
    by_contra some
    obtain ⟨_, _, none⟩ := lay.exists_cons (Nat.pos_of_ne_zero some)
    cases none
  exact ⟨ring, headLt, nLt, tailAt, .nil _, rfl, trivial, trivial, trivial⟩

/-- Some live cells and packets fit the state. -/
def PairHolds (capacity : UInt32) (pair : Pair) : Prop :=
  ∃ n pending, PairInv capacity pair n pending

/-- **Every reachable state satisfies the invariant.** -/
theorem pairMachine_inv {capacity : UInt32} (small : capacity.toNat ≤ 2 ^ 31) {start : Queue}
    (fresh : Represents capacity start Fifo.empty) {pair : Pair}
    (reached : (pairMachine start 65528).Reachable pair) : PairHolds capacity pair := by
  refine reached.invariant ?_ ?_
  · rintro _ rfl
    exact ⟨0, [], pairInv_start fresh⟩
  · rintro _ _ _ _ ⟨n, pending, inv⟩ taken
    exact inv.step small taken

/-- The bytes the sender has decided to write and has not written yet. -/
def SendPc.todo : SendPc → List (ℕ × UInt8)
  | .copying _ _ todo => todo
  | _ => []

/-- What holds at every moment. -/
structure Pair.Safe (capacity : UInt32) (pair : Pair) : Prop where
  /-- The live cells hold exactly the messages accepted and not yet removed. -/
  holds : ∃ n pending, n < capacity.toNat ∧
    pair.queue.header.tail.toNat = slot capacity.toNat pair.queue.header.head.toNat n ∧
    Layout pair.queue.buff capacity.toNat pair.queue.header.head.toNat n pending ∧
    pair.accepted = pair.delivered ++ pending.map Packet.body
  /-- The bytes still to be written lie inside the ring and touch no live cell. -/
  apart : ∀ entry ∈ pair.sender.todo, entry.1 < capacity.toNat ∧
    ¬ Live capacity.toNat pair.queue.header.head.toNat pair.queue.header.tail.toNat entry.1
  /-- What `Peek` pointed at still holds the bytes it showed: the oldest message. -/
  peeked : ∀ view bytes, pair.peeked = some (view, bytes) →
    view.bytes pair.queue.buff = bytes ∧ pair.accepted[pair.delivered.length]? = some bytes
  /-- What `GetNextPack` has found is the oldest accepted message, whole. -/
  found : ∀ op next, pair.receiver = .found op next →
    pair.accepted[pair.delivered.length]? = some (next.view.bytes pair.queue.buff)
  /-- What `Recv` has copied so far is the beginning of it. -/
  copied : ∀ next got, pair.receiver = .copying next got →
    ∃ bytes, pair.accepted[pair.delivered.length]? = some bytes ∧ got <+: bytes
  /-- The messages delivered are a prefix of those accepted. -/
  delivered : pair.delivered <+: pair.accepted

section Safe

variable {capacity : UInt32} {pair : Pair} {n : ℕ} {pending : List Packet}

/-- The oldest pending packet is the first message not yet delivered. -/
theorem PairInv.next_accepted (inv : PairInv capacity pair n pending) {m skip : ℕ} {pack : Packet}
    (old : Oldest pair.queue.buff capacity.toNat pair.queue.header.head.toNat n pending m skip pack) :
    pair.accepted[pair.delivered.length]? = some pack.body := by
  obtain ⟨rest, rfl⟩ := old.exists_cons
  rw [inv.accepted, List.getElem?_append_right le_rfl, Nat.sub_self]
  rfl

/-- The byte about to be written is outside the live cells. -/
theorem PairInv.todo_free (inv : PairInv capacity pair n pending) {entry : ℕ × UInt8}
    (member : entry ∈ pair.sender.todo) :
    entry.1 < capacity.toNat ∧
      ¬ Live capacity.toNat pair.queue.header.head.toNat pair.queue.header.tail.toNat entry.1 := by
  have sender := inv.sender
  cases stands : pair.sender with
  | copying data at_ todo =>
    rw [stands] at sender member
    obtain ⟨_, skip, seq, copy⟩ := sender
    obtain ⟨_, _, inside, _⟩ := copy.behind entry member
    refine ⟨inside, fun ⟨i, live, here⟩ => ?_⟩
    rw [inv.gap] at live
    rw [inv.tailAt] at copy
    exact copy.free member i live here.symm
  | idle | sized | bump =>
    rw [stands] at member
    cases member

theorem PairInv.safe (inv : PairInv capacity pair n pending) : pair.Safe capacity where
  holds := ⟨n, pending, inv.nLt, inv.tailAt, inv.lay, inv.accepted⟩
  apart := fun entry member => inv.todo_free member
  peeked := by
    intro view bytes shown
    have peeked := inv.peeked
    rw [shown] at peeked
    obtain ⟨m, skip, pack, old, rfl, rfl⟩ := peeked
    exact ⟨old.first.lies.body, inv.next_accepted old⟩
  found := by
    intro op next stands
    have receiver := inv.receiver
    rw [stands] at receiver
    obtain ⟨m, skip, pack, old, found⟩ := receiver
    rw [found.view_bytes]
    exact inv.next_accepted old
  copied := by
    intro next got stands
    have receiver := inv.receiver
    rw [stands] at receiver
    obtain ⟨m, skip, pack, old, _, part⟩ := receiver
    exact ⟨pack.body, inv.next_accepted old, part⟩
  delivered := ⟨pending.map Packet.body, inv.accepted.symm⟩

end Safe

/-- **One sender against one receiver.** For every ring of `48 < C ≤ 2 ^ 31` bytes, created with
reset on memory of any content, and every interleaving of the steps of one sender (messages of at
most `65528` bytes) with those of one receiver: the bytes the sender writes never meet a published
message that is not yet removed, the data `Peek` pointed at stays as it was, whatever the receiver
observes is an accepted message, whole, and the messages delivered are a prefix of those accepted. -/
theorem interleaving_safe (capacity : UInt32) (big : 48 < capacity.toNat)
    (small : capacity.toNat ≤ 2 ^ 31) (memory : Queue) :
    ∃ start, createUnlockQueue (some memory) (capacity + kUnlockQueueHeadSize) true
        = (.ok (), some start) ∧
      ∀ pair, (pairMachine start 65528).Reachable pair → pair.Safe capacity := by
  obtain ⟨start, created, fresh⟩ := createUnlockQueue_represents big small memory
  refine ⟨start, created, fun pair reached => ?_⟩
  obtain ⟨n, pending, inv⟩ := pairMachine_inv small fresh reached
  exact inv.safe

/-- The ring of the threaded test, on zeroed memory. -/
theorem interleaving_safe_testRing :
    ∃ start, createUnlockQueue (some ⟨resetHead 0, fun _ => 0⟩) (1468 + kUnlockQueueHeadSize) true
        = (.ok (), some start) ∧
      ∀ pair, (pairMachine start 65528).Reachable pair → pair.Safe 1468 :=
  interleaving_safe 1468 (by decide) (by decide) ⟨resetHead 0, fun _ => 0⟩

end Yarf.Channel
