/-
**The zero-copy path.**

`Peek` hands out a pointer into the ring and `Drop` parses the ring again, possibly after the sender has
moved the tail. What is live when `Peek` looks stays as it is under any number of sends (`Grown`), so
`Drop` finds the same packet (`nextPack_grown`).

`peek_drop_eq_recv`: `Peek` and then `Drop` do what `Recv` does.
-/

import Yarf.Channel.Announce
import Yarf.Channel.Capacity
import Yarf.Channel.Receiver

namespace Yarf.Channel

open Lib

/-! ### Sends while a packet is looked at -/

/-- A ring of at most `2 ^ 31` bytes with its head and tail in it, whatever it holds. -/
structure Queue.Formed (queue : Queue) : Prop where
  small : queue.header.capacity.toNat ≤ 2 ^ 31
  headLt : queue.header.head.toNat < queue.header.capacity.toNat
  tailLt : queue.header.tail.toNat < queue.header.capacity.toNat

/-- The sender has gone on: what was live is live, and as it was. -/
structure Grown (queue later : Queue) : Prop where
  formed : later.Formed
  capacity : later.header.capacity = queue.header.capacity
  head : later.header.head = queue.header.head
  live : queue.live ≤ later.live
  kept : ∀ i, i < queue.live →
    later.buff (slot queue.header.capacity.toNat queue.header.head.toNat i)
      = queue.buff (slot queue.header.capacity.toNat queue.header.head.toNat i)

section Sends

variable {queue later : Queue}

theorem Queue.Formed.positions (formed : queue.Formed) : Positions queue.header.capacity queue :=
  ⟨rfl, formed.headLt, formed.tailLt⟩

theorem Grown.refl (formed : queue.Formed) : Grown queue queue :=
  ⟨formed, rfl, rfl, le_rfl, fun _ _ => rfl⟩

theorem Grown.trans {last : Queue} (first : Grown queue later) (second : Grown later last) :
    Grown queue last := by
  refine ⟨second.formed, second.capacity.trans first.capacity, second.head.trans first.head,
    first.live.trans second.live, fun i inside => ?_⟩
  have kept := second.kept i (inside.trans_le first.live)
  rw [first.capacity, first.head] at kept
  exact kept.trans (first.kept i inside)

/-- A message whose copy stays in the ring and that is accepted has a size that fits 32 bits. -/
theorem fits_of_inside {data : Message} {reserve : Reserve}
    (inside : ∀ entry ∈ sendWrites queue data reserve, entry.1 < queue.header.capacity.toNat)
    (accepted : (send queue data reserve).1 = .ok ()) : 48 + data.bytes.length + 7 < 2 ^ 32 := by
  have len := data.toNat_len
  obtain ⟨at_, planned⟩ := (send_eq_ok_iff data reserve).mp accepted
  have passes := (sendSize_ok (sendPlan_ok planned).1).1
  rcases (packGuard_ok_iff data.len).mp passes with fits | wraps
  · omega
  · obtain ⟨entry, member, outside⟩ :=
      (@wrapped_send_overruns queue data reserve (by omega)).2 accepted
    exact absurd (inside entry member) (Nat.not_lt.mpr outside)

/-- **One send** leaves what is live as it is. -/
theorem send_grown (formed : queue.Formed) (data : Message) (reserve : Reserve)
    (inside : ∀ entry ∈ sendWrites queue data reserve, entry.1 < queue.header.capacity.toNat) :
    Grown queue (send queue data reserve).2 := by
  cases planned : sendPlan queue.header.capacity queue.header.tail queue.header.head
    queue.header.head data.len with
  | error err =>
    rw [send_of_error reserve planned]
    exact .refl formed
  | ok at_ =>
    have accepted : (send queue data reserve).1 = .ok () :=
      (send_eq_ok_iff data reserve).mpr ⟨at_, planned⟩
    have fits := fits_of_inside inside accepted
    have rounded : roundUp (48 + data.bytes.length) < 2 ^ 32 :=
      (roundUp_lt _).trans_le (by omega)
    have stored := (send_exact queue formed.small formed.headLt formed.tailLt data reserve rounded).2.1
      accepted
    obtain ⟨capacity, head⟩ := stored.receiver
    have positive : 0 < queue.header.capacity.toNat := (Nat.zero_le _).trans_lt formed.headLt
    have formed' : (send queue data reserve).2.Formed := by
      refine ⟨?_, ?_, ?_⟩
      · rw [capacity]
        exact formed.small
      · rw [capacity, head]
        exact formed.headLt
      · rw [capacity, stored.tail]
        exact Nat.mod_lt _ positive
    refine ⟨formed', capacity, head, ?_, fun i live => ?_⟩
    · rw [stored.live]
      omega
    · rw [send_buff]
      refine write_apply_of_forall_ne _ _ _ fun entry member same => ?_
      exact (sendWrites_free formed.positions fits member).2 ⟨i, live, same⟩

end Sends

/-! ### The packet under the head -/

section Packet

variable {queue later : Queue} {pack : NextPack} {start : UInt32}

theorem Queue.Formed.live_lt (formed : queue.Formed) : queue.live < queue.header.capacity.toNat :=
  gap_lt _ _ ((Nat.zero_le _).trans_lt formed.headLt)

/-- The tail has gone around the end of the ring exactly when the end is live. -/
theorem Queue.Formed.around_iff (formed : queue.Formed) :
    queue.header.tail.toNat < queue.header.head.toNat ↔
      queue.header.capacity.toNat - queue.header.head.toNat ≤ queue.live := by
  have headLt := formed.headLt
  have tailLt := formed.tailLt
  unfold live
  rcases Nat.lt_or_ge queue.header.tail.toNat queue.header.head.toNat with order | order
  · rw [gap_of_lt order headLt]
    exact iff_of_true order (by omega)
  · rw [gap_of_le order tailLt]
    exact iff_of_false (Nat.not_lt.mpr order) (by omega)

/-- The bytes of a packet that starts `shift` live bytes behind the head. -/
theorem Queue.Formed.gap_shift (formed : queue.Formed) {shift : ℕ} (inside : shift ≤ queue.live) :
    gap queue.header.capacity.toNat (slot queue.header.capacity.toNat queue.header.head.toNat shift)
      queue.header.tail.toNat = queue.live - shift := by
  have liveLt := formed.live_lt
  have positive : 0 < queue.header.capacity.toNat := (Nat.zero_le _).trans_lt formed.headLt
  nth_rewrite 1 [← slot_gap formed.headLt formed.tailLt]
  rw [show gap _ _ _ = shift + (queue.live - shift) from (Nat.add_sub_of_le inside).symm, ← slot_slot]
  exact gap_slot (slot_lt _ _ positive) (by omega)

/-- The bytes from `start` to the end of the ring lie `shift` behind the head. -/
structure StartsAt (queue : Queue) (start : UInt32) (shift : ℕ) : Prop where
  inside : start.toNat < queue.header.capacity.toNat
  within : shift ≤ queue.live
  place : ∀ i, start.toNat + i < queue.header.capacity.toNat →
    slot queue.header.capacity.toNat queue.header.head.toNat (shift + i) = start.toNat + i

/-- The next packet starts at the head, or at the start of the ring behind its end. -/
theorem packStart_starts (formed : queue.Formed) (found : queue.packStart = some start) :
    queue.Skips ∧ start = 0 ∧
        StartsAt queue start (queue.header.capacity.toNat - queue.header.head.toNat) ∨
      ¬ queue.Skips ∧ start = queue.header.head ∧ StartsAt queue start 0 := by
  have headLt := formed.headLt
  unfold Queue.packStart at found
  by_cases skips : queue.Skips
  · rw [if_pos skips] at found
    split_ifs at found with order
    cases found
    refine Or.inl ⟨skips, rfl, (Nat.zero_le _).trans_lt headLt, formed.around_iff.mp order, fun i below => ?_⟩
    rw [UInt32.toNat_zero] at below ⊢
    rw [slot_of_le (by omega) (by omega)]
    omega
  · rw [if_neg skips] at found
    cases found
    refine Or.inr ⟨skips, rfl, headLt, Nat.zero_le _, fun i below => ?_⟩
    rw [Nat.zero_add, slot_of_lt below]

/-- A packet that is accepted there takes live bytes only. -/
theorem StartsAt.gap {shift : ℕ} (starts : StartsAt queue start shift) (formed : queue.Formed) :
    gap queue.header.capacity.toNat start.toNat queue.header.tail.toNat = queue.live - shift := by
  have first := starts.place 0 starts.inside
  rw [Nat.add_zero, Nat.add_zero] at first
  rw [← first, formed.gap_shift starts.within]

/-- A pack head that lies in what is live reads the same. -/
theorem Grown.read (grown : Grown queue later) {shift : ℕ} (starts : StartsAt queue start shift)
    (inside : start.toNat + 48 ≤ queue.header.capacity.toNat) (live : shift + 48 ≤ queue.live) :
    ChannelPackHead.read later.buff start.toNat = ChannelPackHead.read queue.buff start.toNat := by
  refine ChannelPackHead.read_congr fun i below => ?_
  have kept := grown.kept (shift + i) (by omega)
  rwa [starts.place i (by omega)] at kept

/-- The end of the ring is skipped as before. -/
theorem Grown.skips_iff (grown : Grown queue later) (formed : queue.Formed)
    (near : queue.header.capacity.toNat - queue.header.head.toNat < 48 ∨ 48 ≤ queue.live) :
    later.Skips ↔ queue.Skips := by
  have headLt := formed.headLt
  unfold Queue.Skips
  rw [grown.capacity, grown.head]
  rcases Nat.lt_or_ge (queue.header.capacity.toNat - queue.header.head.toNat) 48 with short | wide
  · exact iff_of_true (Or.inl short) (Or.inl short)
  · have starts : StartsAt queue queue.header.head 0 :=
      ⟨headLt, Nat.zero_le _, fun i below => by rw [Nat.zero_add, slot_of_lt below]⟩
    rw [grown.read starts (by omega) (by omega)]

/-- What is live lies where it lay. -/
theorem Grown.starts (grown : Grown queue later) {shift : ℕ} (starts : StartsAt queue start shift) :
    StartsAt later start shift := by
  refine ⟨?_, starts.within.trans grown.live, fun i below => ?_⟩
  · rw [grown.capacity]
    exact starts.inside
  · rw [grown.capacity] at below
    rw [grown.capacity, grown.head]
    exact starts.place i below

/-- A packet that was accepted there is accepted again, under the same pack head. -/
theorem Grown.accepted (grown : Grown queue later) (formed : queue.Formed) {shift : ℕ}
    (starts : StartsAt queue start shift) (transfer : queue.Transfer start)
    (begins : later.packStart = some start) (inside : start.toNat + 48 ≤ queue.header.capacity.toNat) :
    later.nextPack = .ok ⟨start, kPackHeadSize
      + (ChannelPackHead.read queue.buff start.toNat).alignBodyLen.toUInt32,
      ChannelPackHead.read queue.buff start.toNat⟩ := by
  obtain ⟨cmd, room⟩ := transfer
  have size := starts.gap formed
  have size' := (grown.starts starts).gap grown.formed
  have within := starts.within
  have more := grown.live
  have same := grown.read starts inside (by omega)
  refine (nextPack_eq_ok_iff grown.formed.small grown.formed.positions _).mpr
    ⟨start, begins, ⟨?_, ?_⟩, ?_⟩
  · rw [same]
    exact cmd
  · rw [same, size']
    omega
  · rw [same]

/-- **`GetNextPack` finds the same packet** after any number of sends. -/
theorem nextPack_grown (grown : Grown queue later) (formed : queue.Formed)
    (found : queue.nextPack = .ok pack) : later.nextPack = .ok pack := by
  have headLt := formed.headLt
  have more := grown.live
  obtain ⟨start, begins, transfer, rfl⟩ :=
    (nextPack_eq_ok_iff formed.small formed.positions pack).mp found
  have room := transfer.2
  rcases packStart_starts formed begins with ⟨skips, rfl, starts⟩ | ⟨stays, rfl, starts⟩
  · -- the packet lies at the start of the ring
    have around := starts.within
    have size := starts.gap formed
    have skips' : later.Skips := by
      refine (grown.skips_iff formed ?_).mpr skips
      omega
    have order : later.header.tail.toNat < later.header.head.toNat := by
      rw [grown.formed.around_iff, grown.capacity, grown.head]
      omega
    have begins' : later.packStart = some 0 := by
      unfold Queue.packStart
      rw [if_pos skips', if_pos order]
    refine grown.accepted formed starts transfer begins' ?_
    have bound := formed.live_lt
    rw [UInt32.toNat_zero]
    omega
  · -- the packet lies at the head
    have size := starts.gap formed
    have stays' : ¬ later.Skips := (grown.skips_iff formed (Or.inr (by omega))).not.mpr stays
    have begins' : later.packStart = some queue.header.head := by
      unfold Queue.packStart
      rw [if_neg stays', grown.head]
    refine grown.accepted formed starts transfer begins' ?_
    have wide := (not_or.mp stays).1
    omega

/-- The bytes that `Peek` has handed out stay as they are, where the pack head tells the truth. -/
theorem view_grown (grown : Grown queue later) (formed : queue.Formed)
    (found : queue.nextPack = .ok pack) (truthful : queue.HeadsTrue) :
    pack.view.bytes later.buff = pack.view.bytes queue.buff := by
  obtain ⟨ring, packet, occupied⟩ :=
    (((robust_iff queue.header.capacity formed.small queue formed.positions).mpr truthful).1 pack found).1
  obtain ⟨start, begins, _, same⟩ :=
    (nextPack_eq_ok_iff formed.small formed.positions pack).mp found
  have curHead : pack.curHead = start := by rw [same]
  obtain ⟨shift, starts⟩ : ∃ shift, StartsAt queue start shift := by
    rcases packStart_starts formed begins with ⟨_, _, starts⟩ | ⟨_, _, starts⟩
    · exact ⟨_, starts⟩
    · exact ⟨_, starts⟩
  rw [curHead] at ring occupied
  rw [starts.gap formed] at occupied
  refine load_congr fun i below => ?_
  have bound : i < pack.packHead.bodyLen.toNat := below
  have kept := grown.kept (shift + (48 + i)) (by omega)
  rw [starts.place (48 + i) (by omega)] at kept
  show later.buff (pack.curHead.toNat + 48 + i) = queue.buff (pack.curHead.toNat + 48 + i)
  rwa [curHead, Nat.add_assoc]

end Packet

/-! ### Queues that hold messages -/

section Represents

variable {capacity : UInt32} {queue : Queue} {fifo : Fifo}

theorem Represents.formed (small : capacity.toNat ≤ 2 ^ 31) (rep : Represents capacity queue fifo) :
    queue.Formed := by
  obtain ⟨rfl, headLt, _, n, nLt, tailAt, _⟩ := rep
  exact ⟨small, headLt, tailAt ▸ slot_lt _ _ ((Nat.zero_le _).trans_lt nLt)⟩

/-- What `Send` has written tells the truth. -/
theorem Represents.headsTrue (small : capacity.toNat ≤ 2 ^ 31) (rep : Represents capacity queue fifo) :
    queue.HeadsTrue := by
  have formed := rep.formed small
  intro start begins transfer
  have accepted := (nextPack_eq_ok_iff formed.small formed.positions _).mpr
    ⟨start, begins, transfer, rfl⟩
  obtain ⟨rfl, headLt, _, n, nLt, tailAt, lay⟩ := rep
  cases packets : fifo.packets with
  | nil =>
    rw [packets] at lay
    cases lay
    have empty : queue.nextPack = .error .kChanEmpty := getNextPack_empty headLt tailAt
    rw [accepted] at empty
    cases empty
  | cons pack rest =>
    rw [packets] at lay
    obtain ⟨skip, _, _, first, _⟩ := lay.first
    obtain ⟨next, found, finds⟩ := getNextPack_first small headLt nLt tailAt first
    have same : queue.nextPack = .ok next := found
    cases accepted.symm.trans same
    have here : start.toNat = slot queue.header.capacity.toNat queue.header.head.toNat skip :=
      finds.curHead
    have lies := first.lies
    have inside := first.inside
    rw [← here] at lies inside
    rw [lies.bodyLen, lies.alignBodyLen]
    have rounded := le_roundUp pack.body.length
    refine ⟨rounded, fun _ => ?_⟩
    unfold Packet.size at inside
    omega

end Represents

/-! ### The peers' sends -/

/-- One send of a peer, into any of the segments. Where the copy would leave the ring there is no state to go
on from. -/
inductive PeerSends : Segments → Segments → Prop
  | send (segments : Segments) (shm : ShmId) (data : Message) (reserve : Reserve) :
      (∀ entry ∈ sendWrites (segments shm) data reserve,
        entry.1 < (segments shm).header.capacity.toNat) →
      PeerSends segments (Function.update segments shm (send (segments shm) data reserve).2)

/-- Any number of them leave each ring grown. -/
theorem peerSends_grown {segments after : Segments} (sends : Relation.ReflTransGen PeerSends segments after)
    (shm : ShmId) (formed : (segments shm).Formed) : Grown (segments shm) (after shm) := by
  induction sends with
  | refl => exact .refl formed
  | tail _ one ih =>
    refine ih.trans ?_
    cases one with
    | send target data reserve inside =>
      by_cases same : shm = target
      · subst same
        rw [Function.update_self]
        exact send_grown ih.formed data reserve inside
      · rw [Function.update_of_ne same]
        exact .refl ih.formed

/-! ### `Peek`, `Drop` and `Recv` -/

/-- The queue with its head moved. -/
def Queue.withHead (queue : Queue) (head : UInt32) : Queue :=
  { queue with header := { queue.header with head := head } }

/-- What `Peek` and then `Drop` do, set against a `Recv` in the same state. -/
structure SameAsRecv (chan : CChannel) (segments : Segments) (peeked : CChannel.Answer View)
    (received : CChannel.Answer (List UInt8)) : Prop where
  /-- The same cursor and packet count. -/
  cursor : peeked.chan = received.chan
  src : peeked.src = received.src
  /-- `Peek` changes no queue. -/
  looks : peeked.segments = segments
  /-- The same error, and no queue changed. -/
  error : ∀ err, peeked.ret = .error err → received.ret = .error err ∧ received.segments = segments
  /-- The same message; `Drop` under the key of the queue that answered leaves what `Recv` leaves. -/
  ok : ∀ view, peeked.ret = .ok view → ∃ key queue, peeked.chan.curRecvQueue = some key ∧
    chan.unlockQueues[key]? = some queue ∧ peeked.src = queue.peerId ∧
    received.ret = .ok (view.bytes (segments queue.recver).buff) ∧
    peeked.chan.drop segments key = (.ok (), received.segments) ∧
    -- sends in between change nothing but what they write
    ∀ after, (segments queue.recver).Formed → Relation.ReflTransGen PeerSends segments after →
      peeked.chan.drop after key = (.ok (), Function.update after queue.recver
        ((after queue.recver).withHead (received.segments queue.recver).header.head)) ∧
      ((segments queue.recver).HeadsTrue →
        view.bytes (after queue.recver).buff = view.bytes (segments queue.recver).buff)

section Calls

variable {chan : CChannel} {segments : Segments} {start key : ProcId} {queue : CUnlockQueue}

/-- `Drop` on a queue that holds a packet. -/
theorem CChannel.drop_serves (member : chan.unlockQueues[key]? = some queue) {pack : NextPack}
    (holds : (segments queue.recver).nextPack = .ok pack) :
    chan.drop segments key = (.ok (),
      Function.update segments queue.recver ((segments queue.recver).advance pack)) := by
  unfold drop
  rw [member]
  dsimp only
  rw [CUnlockQueue.drop, drop_of_ok holds]

/-- Where a call is answered with an error, `Peek` and `Recv` agree. -/
theorem CChannel.error_serves (valid : chan.CursorValid) (begins : chan.startKey = some start)
    (found : chan.serving segments start = some key) (member : chan.unlockQueues[key]? = some queue)
    {err : Err} (refused : (segments queue.recver).nextPack = .error err) (len : UInt32) :
    chan.peek segments
        = some ⟨.error err, queue.peerId, (chan.served start key).moveToNextQueue, segments⟩ ∧
      chan.recv segments len
        = some ⟨.error err, queue.peerId, (chan.served start key).moveToNextQueue, segments⟩ := by
  constructor
  · have done : queue.peek segments = (.error err, segments) := by
      refine Prod.ext ?_ (queue.peek_segments segments)
      show (Channel.peek (segments queue.recver)).1 = _
      rw [peek_of_error refused]
    have answered := call_serves peek_receives valid begins found member
    rw [done] at answered
    exact answered
  · have failed : (queue.recv len segments).1 = .error err := by
      show (Channel.recv (segments queue.recver) len).1 = _
      rw [recv_of_error len refused]
    have done : queue.recv len segments = (.error err, segments) :=
      Prod.ext failed (recv_quiet len queue segments err failed)
    have answered := call_serves (recv_receives len) valid begins found member
    rw [done] at answered
    exact answered

/-- `Peek` and `Recv` on a queue that holds a packet. -/
theorem sameAsRecv_serves (valid : chan.CursorValid) (begins : chan.startKey = some start)
    (found : chan.serving segments start = some key) (member : chan.unlockQueues[key]? = some queue)
    {pack : NextPack} (holds : (segments queue.recver).nextPack = .ok pack) {len : UInt32}
    (enough : pack.packHead.bodyLen.toNat ≤ len.toNat) :
    ∃ peeked received, chan.peek segments = some peeked ∧ chan.recv segments len = some received ∧
      SameAsRecv chan segments peeked received := by
  have long : ¬ len < pack.packHead.bodyLen.toUInt32 := by
    rw [UInt32.lt_iff_toNat_lt, UInt16.toNat_toUInt32]
    exact Nat.not_lt.mpr enough
  refine ⟨_, _, CChannel.peek_serves valid begins found member holds,
    CChannel.recv_serves valid begins found member holds long, rfl, rfl, rfl, nofun, ?_⟩
  intro view ok
  cases ok
  have inside : (chan.counted start key).unlockQueues[key]? = some queue := member
  refine ⟨key, queue, rfl, member, rfl, rfl, CChannel.drop_serves inside holds, ?_⟩
  intro after formed sends
  have grown := peerSends_grown sends queue.recver formed
  refine ⟨?_, view_grown grown formed holds⟩
  have moved : (Function.update segments queue.recver ((segments queue.recver).advance pack)
      queue.recver).header.head = pack.nextHead (after queue.recver).header.capacity := by
    rw [Function.update_self, grown.capacity]
    rfl
  rw [CChannel.drop_serves inside (nextPack_grown grown formed holds)]
  show _ = (Except.ok (), Function.update after queue.recver ((after queue.recver).withHead
    (Function.update segments queue.recver ((segments queue.recver).advance pack)
      queue.recver).header.head))
  rw [moved]
  rfl

end Calls

/-- **The zero-copy path does what the copying path does.** For every channel with at least one peer, wherever
its cursor stands, whatever its packet count and whatever the queues hold: `Peek` and `Recv` with a buffer
as long as every message agree in code, source, cursor and packet count; on an error neither changes a
queue; and on `kOk` the bytes shown are those received, and `Drop` under the key of the queue that answered
leaves every queue as `Recv` leaves it. The peers' sends between `Peek` and `Drop` change nothing but what
they write: `Drop` moves the head as `Recv` does, and the bytes shown stay. -/
theorem peek_drop_eq_recv (chan : CChannel) (valid : chan.CursorValid) (peer : ProcId)
    (member : peer ∈ chan.unlockQueues) (segments : Segments) (len : UInt32)
    (enough : ∀ (key : ProcId) (queue : CUnlockQueue) (pack : NextPack),
      chan.unlockQueues[key]? = some queue → (segments queue.recver).nextPack = .ok pack →
        pack.packHead.bodyLen.toNat ≤ len.toNat) :
    ∃ peeked received, chan.peek segments = some peeked ∧ chan.recv segments len = some received ∧
      SameAsRecv chan segments peeked received := by
  obtain ⟨start, _, begins, _, scan⟩ := @CChannel.call_scan _ _ chan segments peer peek_receives valid member
  cases found : chan.serving segments start with
  | none =>
    obtain ⟨_, _, begins', _, scan'⟩ :=
      @CChannel.call_scan _ _ chan segments peer (recv_receives len) valid member
    cases begins.symm.trans begins'
    rw [found] at scan scan'
    obtain ⟨last, queue, ends, here, answered⟩ := scan
    obtain ⟨last', queue', ends', here', answered'⟩ := scan'
    cases ends.symm.trans ends'
    cases here.symm.trans here'
    refine ⟨_, _, answered, answered', rfl, rfl, rfl, fun err same => ?_, nofun⟩
    cases same
    exact ⟨rfl, rfl⟩
  | some key =>
    rw [found] at scan
    obtain ⟨queue, here, _⟩ := scan
    cases holds : (segments queue.recver).nextPack with
    | error err =>
      obtain ⟨peeked, received⟩ := CChannel.error_serves valid begins found here holds len
      refine ⟨_, _, peeked, received, rfl, rfl, rfl, fun other same => ?_, nofun⟩
      cases same
      exact ⟨rfl, rfl⟩
    | ok pack => exact sameAsRecv_serves valid begins found here holds (enough key queue pack here holds)

/-- Process `1` and its two peers, whose queues hold a message each. -/
theorem peek_drop_eq_recv_star :
    ∃ peeked received, starChannel.peek pairSegments = some peeked ∧
      starChannel.recv pairSegments 65535 = some received ∧
      SameAsRecv starChannel pairSegments peeked received := by
  have opened : CChannel.init (fun _ => true) pairSegments (some starConfig) 1 .new
      = (.ok (), starChannel) := rfl
  refine peek_drop_eq_recv starChannel (CChannel.init_placed opened).cursor 4 (by decide) pairSegments 65535
    fun key queue pack _ _ => ?_
  exact Nat.le_of_lt_succ pack.packHead.bodyLen.toNat_lt

end Yarf.Channel
