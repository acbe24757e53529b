/-
**What `CChannel::Init` opens, and what is left when it does not.**

`Init` opens the channels of a process one by one. It can open a channel when both segments attach and
both sizes are above the size of the two heads (`Opens`), and all of them when, besides, the peers are
different and none of them has a queue yet (`Openable`, `init_ok_iff`).

* `init_clean_iff` — the queues opened before a failure stay: a failed `Init` leaves no trace exactly
  when it fails at the first channel already;
* `stored_usable_iff` — `AddChannel` stores any size: the two ends of a channel open, and carry an empty
  message each way, exactly when both sizes are above the heads' and below `2 ^ 32 - 48`;
* `cursor_safe_iff` — after a successful `Init` the receive calls are safe exactly when there is a queue.
-/

import Yarf.Channel.Announce
import Yarf.Channel.Capacity
import Yarf.Channel.Wiring

namespace Yarf.Channel

open Lib

/-! ### One channel -/

/-- A size above that of the queue head and a pack head. -/
def Wide (size : UInt32) : Prop := 628 < size.toNat

instance (size : UInt32) : Decidable (Wide size) := inferInstanceAs (Decidable (_ < _))

/-- The other process of the channel, as `Init` takes it. -/
def ChanConfig.peerOf (procId : ProcId) (channel : ChanConfig) : ProcId :=
  if procId = channel.peer1 then channel.peer0 else channel.peer1

/-- `Init` of the process can open the channel. -/
structure ChanConfig.Opens (attach : ShmId → Bool) (procId : ProcId) (channel : ChanConfig) : Prop where
  own : channel.peer0 = procId ∨ channel.peer1 = procId
  attached : attach channel.sendShmId = true ∧ attach channel.recvShmId = true
  wide : Wide channel.sendSize ∧ Wide channel.recvSize

section One

variable {attach : ShmId → Bool} {segments : Segments} {procId : ProcId} {queues : UnlockQueueSet}
  {channel : ChanConfig}

theorem initSide_eq (queue : Queue) (capacity : UInt32) :
    initSide (some queue) capacity = if Wide capacity then .ok queue else .error .kArg := by
  have heads : (kUnlockQueueHeadSize + kPackHeadSize).toNat = 628 := rfl
  have narrow : capacity ≤ kUnlockQueueHeadSize + kPackHeadSize ↔ ¬ Wide capacity := by
    rw [UInt32.le_iff_toNat_le, heads]
    exact Nat.not_lt.symm
  unfold initSide
  dsimp only
  by_cases wide : Wide capacity
  · rw [if_neg (fun small => narrow.mp small wide), if_pos wide]
  · rw [if_pos (narrow.mpr wide), if_neg wide]

theorem CUnlockQueue.init_eq (recver sender : ShmId) (recvCapacity sendCapacity peerId : UInt32) :
    init segments recver recvCapacity sender sendCapacity peerId =
      if Wide recvCapacity ∧ Wide sendCapacity then .ok ⟨recver, sender, peerId⟩ else .error .kArg := by
  rw [init, initSide_eq, initSide_eq]
  by_cases first : Wide recvCapacity
  · by_cases second : Wide sendCapacity
    · rw [if_pos first, if_pos second, if_pos ⟨first, second⟩]
    · rw [if_pos first, if_neg second, if_neg (fun both : _ ∧ _ => second both.2)]
  · rw [if_neg first, if_neg (fun both : _ ∧ _ => first both.1)]

/-- The view of a process: the same two segments with the same two sizes. -/
theorem ChanConfig.orient_own (own : channel.peer0 = procId ∨ channel.peer1 = procId) :
    ∃ view, channel.orient procId = .ok (channel.peerOf procId, view) ∧
      ((attach view.sendShmId = true ∧ attach view.recvShmId = true) ↔
        attach channel.sendShmId = true ∧ attach channel.recvShmId = true) ∧
      ((Wide view.recvSize ∧ Wide view.sendSize) ↔ Wide channel.sendSize ∧ Wide channel.recvSize) := by
  unfold orient peerOf
  by_cases second : procId = channel.peer1
  · rw [if_pos second, if_pos second]
    exact ⟨_, rfl, and_comm, Iff.rfl⟩
  · have first : procId = channel.peer0 := own.elim Eq.symm fun same => absurd same.symm second
    rw [if_neg second, if_neg second, if_neg (not_not.mpr first)]
    exact ⟨_, rfl, Iff.rfl, and_comm⟩

theorem ChanConfig.orient_other (other : ¬ (channel.peer0 = procId ∨ channel.peer1 = procId)) :
    channel.orient procId = .error .kUnexpect := by
  rw [not_or] at other
  rw [orient, if_neg (Ne.symm other.2), if_pos (Ne.symm other.1)]

theorem ChanConfig.pair_eq (own : channel.peer0 = procId ∨ channel.peer1 = procId) :
    channel.pair = s(procId, channel.peerOf procId) := by
  unfold pair peerOf
  by_cases second : procId = channel.peer1
  · rw [if_pos second, second, Sym2.eq_swap]
  · rw [if_neg second, own.resolve_right (Ne.symm second)]

/-- **One queue of `Init`** is opened, under the key of the peer, exactly when it can be and the peer has
none yet. -/
theorem CChannel.openQueue_cases :
    ((channel.Opens attach procId ∧ channel.peerOf procId ∉ queues) ∧
      ∃ queue, openQueue attach segments procId queues channel = .ok (channel.peerOf procId, queue)) ∨
    (¬ (channel.Opens attach procId ∧ channel.peerOf procId ∉ queues) ∧
      ∃ err, openQueue attach segments procId queues channel = .error err) := by
  unfold openQueue
  by_cases own : channel.peer0 = procId ∨ channel.peer1 = procId
  case neg =>
    rw [ChanConfig.orient_other own]
    exact Or.inr ⟨fun both => own both.1.own, _, rfl⟩
  obtain ⟨view, oriented, attached, wide⟩ := @ChanConfig.orient_own attach _ _ own
  rw [oriented]
  dsimp only
  by_cases used : channel.peerOf procId ∈ queues
  · rw [if_pos used]
    exact Or.inr ⟨fun both => both.2 used, _, rfl⟩
  rw [if_neg used]
  by_cases send : attach view.sendShmId = false
  · rw [if_pos send]
    refine Or.inr ⟨fun both => ?_, _, rfl⟩
    rw [(attached.mpr both.1.attached).1] at send
    cases send
  rw [if_neg send]
  by_cases recv : attach view.recvShmId = false
  · rw [if_pos recv]
    refine Or.inr ⟨fun both => ?_, _, rfl⟩
    rw [(attached.mpr both.1.attached).2] at recv
    cases recv
  rw [if_neg recv, CUnlockQueue.init_eq]
  by_cases sizes : Wide view.recvSize ∧ Wide view.sendSize
  · rw [if_pos sizes]
    have both := attached.mp ⟨Bool.not_eq_false _ ▸ send, Bool.not_eq_false _ ▸ recv⟩
    exact Or.inl ⟨⟨⟨own, both, wide.mp sizes⟩, used⟩, _, rfl⟩
  · rw [if_neg sizes]
    exact Or.inr ⟨fun both => sizes (wide.mpr both.1.wide), _, rfl⟩

end One

/-! ### All channels of a process -/

/-- `Init` of the process can open these channels beside the queues it has. -/
structure Openable (attach : ShmId → Bool) (procId : ProcId) (queues : UnlockQueueSet)
    (channels : List ChanConfig) : Prop where
  opens : ∀ channel ∈ channels, channel.Opens attach procId
  absent : ∀ channel ∈ channels, channel.peerOf procId ∉ queues
  peers : (channels.map (ChanConfig.peerOf procId)).Nodup

section All

variable {attach : ShmId → Bool} {segments : Segments} {procId key : ProcId} {queues : UnlockQueueSet}
  {channel : ChanConfig} {channels : List ChanConfig} {config : GlobalConfig} {chan : CChannel}

/-- Channels between different pairs of processes have different peers. -/
theorem ChanConfig.nodup_peers (own : ∀ channel ∈ channels, channel.peer0 = procId ∨ channel.peer1 = procId)
    (pairs : (channels.map ChanConfig.pair).Nodup) :
    (channels.map (ChanConfig.peerOf procId)).Nodup := by
  refine List.Nodup.of_map (fun key => s(procId, key)) ?_
  rw [List.map_map]
  rwa [List.map_congr_left fun channel member => pair_eq (own channel member)] at pairs

theorem UnlockQueueSet.mem_insert_iff {queue : CUnlockQueue} {other : ProcId} :
    other ∈ Std.TreeMap.insert queues key queue ↔ other = key ∨ other ∈ queues := by
  rw [Std.TreeMap.mem_insert, Std.LawfulEqCmp.compare_eq_iff_eq, eq_comm]

/-- The first channel, and then the others beside its queue. -/
theorem openable_cons (queue : CUnlockQueue) :
    Openable attach procId queues (channel :: channels) ↔
      (channel.Opens attach procId ∧ channel.peerOf procId ∉ queues) ∧
        Openable attach procId (queues.insert (channel.peerOf procId) queue) channels := by
  constructor
  · rintro ⟨opens, absent, peers⟩
    rw [List.map_cons, List.nodup_cons] at peers
    refine ⟨⟨opens _ List.mem_cons_self, absent _ List.mem_cons_self⟩,
      fun other member => opens other (List.mem_cons_of_mem _ member), fun other member => ?_, peers.2⟩
    rw [UnlockQueueSet.mem_insert_iff, not_or]
    exact ⟨ne_of_mem_of_not_mem (List.mem_map_of_mem member) peers.1,
      absent other (List.mem_cons_of_mem _ member)⟩
  · rintro ⟨⟨first, fresh⟩, opens, absent, peers⟩
    refine ⟨List.forall_mem_cons.mpr ⟨first, opens⟩, List.forall_mem_cons.mpr ⟨fresh, ?_⟩, ?_⟩
    · intro other member used
      exact absent other member (UnlockQueueSet.mem_insert_iff.mpr (Or.inr used))
    · rw [List.map_cons, List.nodup_cons, List.mem_map]
      refine ⟨?_, peers⟩
      rintro ⟨other, member, same⟩
      exact absent other member (UnlockQueueSet.mem_insert_iff.mpr (Or.inl same))

/-- **The loop of `Init`** gets to its end exactly when all channels can be opened. -/
theorem CChannel.openQueues_ok_iff :
    (openQueues attach segments procId channels queues).1 = .ok () ↔
      Openable attach procId queues channels := by
  induction channels generalizing queues with
  | nil => exact iff_of_true rfl ⟨List.forall_mem_nil _, List.forall_mem_nil _, List.nodup_nil⟩
  | cons channel rest ih =>
    unfold openQueues
    rcases @openQueue_cases attach segments procId queues channel with
      ⟨can, queue, opened⟩ | ⟨cannot, err, failed⟩
    · rw [opened, openable_cons queue]
      exact ih.trans (and_iff_right can).symm
    · rw [failed, openable_cons ⟨0, 0, 0⟩]
      refine iff_of_false (fun wrong => ?_) fun both => cannot both.1
      cases wrong

/-- The loop keeps the queues there are. -/
theorem CChannel.openQueues_keeps (member : key ∈ queues) :
    key ∈ (openQueues attach segments procId channels queues).2 := by
  induction channels generalizing queues with
  | nil => exact member
  | cons channel rest ih =>
    unfold openQueues
    cases openQueue attach segments procId queues channel with
    | error err => exact member
    | ok found => exact ih (UnlockQueueSet.mem_insert_iff.mpr (Or.inr member))

/-- A first channel that can be opened has its queue from then on. -/
theorem CChannel.openQueues_first (can : channel.Opens attach procId)
    (fresh : channel.peerOf procId ∉ queues) :
    channel.peerOf procId ∈ (openQueues attach segments procId (channel :: channels) queues).2 := by
  unfold openQueues
  rcases @openQueue_cases attach segments procId queues channel with
    ⟨_, queue, opened⟩ | ⟨cannot, _⟩
  · rw [opened]
    exact openQueues_keeps (UnlockQueueSet.mem_insert_iff.mpr (Or.inl rfl))
  · exact absurd ⟨can, fresh⟩ cannot

theorem CChannel.init_ok_iff :
    (init attach segments (some config) procId chan).1 = .ok () ↔
      Openable attach procId chan.unlockQueues (config.getChansByProcId procId) := by
  rw [init_ret]
  exact openQueues_ok_iff

/-- What a failed `Init` leaves behind. -/
theorem CChannel.init_failed {err : Err} {after : CChannel}
    (failed : init attach segments (some config) procId chan = (.error err, after)) :
    after = { chan with unlockQueues :=
      (openQueues attach segments procId (config.getChansByProcId procId) chan.unlockQueues).2 } := by
  unfold init at failed
  rcases found : openQueues attach segments procId (config.getChansByProcId procId) chan.unlockQueues
    with ⟨ret, queues⟩
  simp only [found] at failed
  cases ret with
  | error err => exact (congrArg Prod.snd failed).symm
  | ok _ => cases failed

end All

/-! ### A failed `Init` -/

/-- A failed `Init` leaves the queues, the cursor and the packet count as they are. -/
def LeavesNoTrace (attach : ShmId → Bool) (segments : Segments) (config : Option GlobalConfig)
    (procId : ProcId) (chan : CChannel) : Prop :=
  ∀ err after, CChannel.init attach segments config procId chan = (.error err, after) →
    after.unlockQueues = chan.unlockQueues ∧ after.curRecvQueue = chan.curRecvQueue ∧
      after.curQueueRecvPkgCount = chan.curQueueRecvPkgCount

/-- After a failed first `Init`, any later one does what it does on a new channel. -/
def CanBeRepeated (attach : ShmId → Bool) (segments : Segments) (config : Option GlobalConfig)
    (procId : ProcId) : Prop :=
  ∀ err after, CChannel.init attach segments config procId .new = (.error err, after) →
    ∀ attach segments config procId,
      CChannel.init attach segments config procId after = CChannel.init attach segments config procId .new

/-- `Init` opens all channels of the process, or not even the first one. -/
def AllOrNone (attach : ShmId → Bool) (config : Option GlobalConfig) (procId : ProcId)
    (queues : UnlockQueueSet) : Prop :=
  ∀ found ∈ config, Openable attach procId queues (found.getChansByProcId procId) ∨
    ∀ first ∈ (found.getChansByProcId procId).head?,
      ¬ (first.Opens attach procId ∧ first.peerOf procId ∉ queues)

section Failure

variable {attach : ShmId → Bool} {segments : Segments} {procId : ProcId}
  {config : Option GlobalConfig} {chan : CChannel}

/-- With none of the channels opened a failed `Init` changes nothing at all. -/
theorem AllOrNone.unchanged (clean : AllOrNone attach config procId chan.unlockQueues) {err : Err}
    {after : CChannel}
    (failed : CChannel.init attach segments config procId chan = (.error err, after)) : after = chan := by
  cases config with
  | none =>
    cases failed
    rfl
  | some config =>
    rcases clean config rfl with all | none
    · rw [← @CChannel.init_ok_iff attach segments, failed] at all
      cases all
    · have left := CChannel.init_failed failed
      cases listed : config.getChansByProcId procId with
      | nil =>
        rw [listed] at left
        exact left
      | cons first rest =>
        rw [listed] at left none
        rcases @CChannel.openQueue_cases attach segments procId chan.unlockQueues first with
          ⟨can, _⟩ | ⟨_, err, refused⟩
        · exact absurd can (none first rfl)
        · rw [CChannel.openQueues, refused] at left
          exact left

/-- Else the queue of the first channel is left behind. -/
theorem AllOrNone.leaves (segments : Segments)
    (partly : ¬ AllOrNone attach config procId chan.unlockQueues) :
    ∃ (err : Err) (after : CChannel) (first : ChanConfig),
      CChannel.init attach segments config procId chan = (.error err, after) ∧ first.Opens attach procId ∧
        first.peerOf procId ∉ chan.unlockQueues ∧ first.peerOf procId ∈ after.unlockQueues := by
  unfold AllOrNone at partly
  push Not at partly
  obtain ⟨config, rfl, notAll, first, head, can, fresh⟩ := partly
  cases listed : config.getChansByProcId procId with
  | nil =>
    rw [listed] at head
    cases head
  | cons channel rest =>
    rw [listed] at head
    cases head
    rw [← @CChannel.init_ok_iff attach segments] at notAll
    rcases result : CChannel.init attach segments (some config) procId chan with ⟨ret, after⟩
    rw [result] at notAll
    cases ret with
    | ok _ => exact absurd rfl notAll
    | error err =>
      refine ⟨err, after, first, rfl, can, fresh, ?_⟩
      rw [CChannel.init_failed result, listed]
      exact CChannel.openQueues_first can fresh

end Failure

/-- What is left when the segment `20` does not attach. -/
def starLeft : CChannel := (CChannel.init (fun id => id != 20) pairSegments (some starConfig) 1 .new).2

/-- A size whose ring opens and takes an empty message that is found again. -/
def Fits (size : UInt32) : Prop := Wide size ∧ size.toNat < 2 ^ 32 - 48

instance (size : UInt32) : Decidable (Fits size) := inferInstanceAs (Decidable (_ ∧ _))

def Message.empty : Message := ⟨[], Nat.two_pow_pos 32⟩

/-- An empty message sent on the one end arrives at the other. -/
def Carries (segments : Segments) (sender receiver : CUnlockQueue) : Prop :=
  ∀ reserve len, (sender.send .empty reserve segments).1 = .ok () ∧
    (receiver.recv len (sender.send .empty reserve segments).2).1 = .ok []

/-- `CUnlockQueue::Init` as `CChannel::Init` calls it for a channel it sees as `view`. -/
def ChanConfig.openEnd (segments : Segments) (view : ChanConfig) (peerId : ProcId) :
    Except Err CUnlockQueue :=
  CUnlockQueue.init segments view.recvShmId view.recvSize view.sendShmId view.sendSize peerId.toUInt32

/-- Both ends of the channel open, and an empty message gets through in both directions. -/
def ChanConfig.Usable (segments : Segments) (channel : ChanConfig) : Prop :=
  ∃ first second, channel.openEnd segments channel.peer1 = .ok first ∧
    channel.image.openEnd segments channel.peer0 = .ok second ∧
    Carries segments first second ∧ Carries segments second first

section Usable

variable {capacity : UInt32} {segments : Segments} {channel : ChanConfig}

/-- A ring with one empty message: it is found unless the occupied size wraps. -/
theorem recv_empty_iff (wide : Wide capacity) (reserve : Reserve) (len : UInt32) :
    (send (freshQueue capacity) .empty reserve).1 = .ok () ∧
      ((recv (send (freshQueue capacity) .empty reserve).2 len).1 = .ok [] ↔
        capacity.toNat < 2 ^ 32 - 48) := by
  have capLt := capacity.toNat_lt
  have above : 628 < capacity.toNat := wide
  have none : 48 + roundUp Message.empty.bytes.length = 48 := rfl
  have fresh : Filled capacity (freshQueue capacity) 0 (freshQueue capacity) :=
    Admitted.filled (.inr rfl) (by omega)
  obtain ⟨sent, filled⟩ := fresh.send .empty reserve (Nat.zero_le _) (by rw [none]; omega)
  rw [none, Nat.zero_add] at filled
  refine ⟨sent, ?_⟩
  obtain ⟨pack, lies, few, found⟩ := nextPack_filled filled (by omega) (by omega)
  have body : pack.body.length = 0 := by
    unfold Packet.size roundUp at few
    omega
  have size : pack.size = 48 := by rw [Packet.size, body, roundUp]
  have zeroLt : (0 : UInt32).toNat < capacity.toNat := by
    rw [UInt32.toNat_zero]
    omega
  rw [size, toNat_allocSize zeroLt, filled.tail, UInt32.toNat_zero, Nat.sub_zero] at found
  rcases Nat.lt_or_ge capacity.toNat (2 ^ 32 - 48) with small | large
  · have occupied : (48 + capacity.toNat) % 2 ^ 32 % capacity.toNat = 48 := by
      rw [Nat.mod_eq_of_lt (by omega : 48 + capacity.toNat < 2 ^ 32), Nat.add_mod_right,
        Nat.mod_eq_of_lt (by omega)]
    rw [occupied, if_neg (Nat.lt_irrefl 48)] at found
    obtain ⟨next, here, bodyLen⟩ : ∃ next, (send (freshQueue capacity) .empty reserve).2.nextPack = .ok next ∧
        next.packHead.bodyLen = 0 := ⟨_, found, UInt16.toNat_inj.mp (lies.bodyLen.trans body)⟩
    refine iff_of_true ?_ small
    rw [recv_of_ok here (by rw [bodyLen]; exact UInt32.not_lt_zero), NextPack.view, bodyLen]
    rfl
  · have wrapped : (48 + capacity.toNat) % 2 ^ 32 % capacity.toNat < 48 := by
      have carry : 2 ^ 32 ≤ 48 + capacity.toNat := by omega
      rw [Nat.mod_eq_sub_mod carry, Nat.mod_eq_of_lt (by omega : 48 + capacity.toNat - 2 ^ 32 < 2 ^ 32),
        Nat.mod_eq_of_lt (by omega)]
      omega
    rw [if_pos wrapped] at found
    refine iff_of_false ?_ (Nat.not_lt.mpr large)
    rw [recv_of_error len found]
    intro wrong
    cases wrong

/-- Two ends on one fresh ring. -/
theorem carries_iff {sender receiver : CUnlockQueue} (same : receiver.recver = sender.sender)
    (fresh : segments sender.sender = freshQueue capacity) (wide : Wide capacity) :
    Carries segments sender receiver ↔ capacity.toNat < 2 ^ 32 - 48 := by
  have through : ∀ reserve len,
      (sender.send .empty reserve segments).1 = (send (freshQueue capacity) .empty reserve).1 ∧
      (receiver.recv len (sender.send .empty reserve segments).2).1
        = (recv (send (freshQueue capacity) .empty reserve).2 len).1 := by
    intro reserve len
    unfold CUnlockQueue.send CUnlockQueue.recv
    dsimp only
    rw [same, Function.update_self, fresh]
    exact ⟨rfl, rfl⟩
  constructor
  · intro carries
    obtain ⟨_, received⟩ := carries (Vector.replicate 24 0) 0
    rw [(through _ _).2] at received
    exact (recv_empty_iff wide _ _).2.mp received
  · intro small reserve len
    rw [(through reserve len).1, (through reserve len).2]
    exact ⟨(recv_empty_iff wide reserve len).1, (recv_empty_iff wide reserve len).2.mpr small⟩

/-- **A channel on two fresh rings.** -/
theorem ChanConfig.usable_iff (first : segments channel.sendShmId = freshQueue channel.sendSize)
    (second : segments channel.recvShmId = freshQueue channel.recvSize) :
    channel.Usable segments ↔ Fits channel.sendSize ∧ Fits channel.recvSize := by
  unfold Usable openEnd
  simp only [CUnlockQueue.init_eq]
  by_cases wide : Wide channel.recvSize ∧ Wide channel.sendSize
  · have mirrored : Wide channel.image.recvSize ∧ Wide channel.image.sendSize := wide.symm
    rw [if_pos wide, if_pos mirrored]
    have there := @carries_iff channel.sendSize segments ⟨channel.recvShmId, channel.sendShmId,
      channel.peer1.toUInt32⟩ ⟨channel.sendShmId, channel.recvShmId, channel.peer0.toUInt32⟩ rfl first wide.2
    have back := @carries_iff channel.recvSize segments ⟨channel.sendShmId, channel.recvShmId,
      channel.peer0.toUInt32⟩ ⟨channel.recvShmId, channel.sendShmId, channel.peer1.toUInt32⟩ rfl second wide.1
    constructor
    · rintro ⟨_, _, ⟨⟩, ⟨⟩, forth, reply⟩
      exact ⟨⟨wide.2, there.mp forth⟩, ⟨wide.1, back.mp reply⟩⟩
    · intro fits
      exact ⟨_, _, rfl, rfl, there.mpr fits.1.2, back.mpr fits.2.2⟩
  · rw [if_neg wide]
    refine iff_of_false ?_ fun fits => wide ⟨fits.2.1, fits.1.1⟩
    rintro ⟨_, _, ⟨⟩, _⟩

/-- A channel that has just been stored. -/
theorem Added.usable_iff {initByKey : ℕ → Option ShmId} {sendShm recvShm : ShmId}
    {state after : ConfigState} (added : Added initByKey channel sendShm recvShm state after)
    (apart : initByKey state.created ≠ initByKey (state.created + 1)) :
    { channel with sendShmId := sendShm, recvShmId := recvShm }.Usable after.segments ↔
      Fits channel.sendSize ∧ Fits channel.recvSize := by
  have differ : sendShm ≠ recvShm := by
    intro same
    exact apart (added.first.trans (same ▸ added.second.symm))
  refine ChanConfig.usable_iff ?_ ?_
  · rw [added.segments, Function.update_of_ne differ, Function.update_self]
  · rw [added.segments, Function.update_self]

end Usable

/-- **Every stored channel can be used exactly when its sizes fit.** Whenever `AddChannel` returns `kOk`,
with two new segments, for any 32-bit sizes: both ends of the channel it has stored open, and an empty
message gets through in each direction, if and only if both sizes fit. And in every configuration that
calls of `Create` come to, the first `Init` of a process, with all segments attaching, succeeds if and
only if all sizes of its channels are above those of the two heads. -/
theorem stored_usable_iff (initByKey : ℕ → Option ShmId) :
    (∀ state peer1 peer2 sendSize recvSize after,
      addChannel initByKey peer1 peer2 sendSize recvSize state = (.ok (), after) →
      initByKey state.created ≠ initByKey (state.created + 1) →
      ∃ channel, after.shm.config.channels = state.shm.config.channels ++ [channel] ∧
        channel.peer0 = peer1 ∧ channel.peer1 = peer2 ∧ channel.sendSize = sendSize ∧ channel.recvSize = recvSize ∧
        (channel.Usable after.segments ↔ Fits sendSize ∧ Fits recvSize)) ∧
    ∀ state, (configMachine initByKey).Reachable state → ∀ segments procId,
      (CChannel.init (fun _ => true) segments (some state.shm.config) procId .new).1 = .ok () ↔
        ∀ channel ∈ state.shm.config.getChansByProcId procId,
          Wide channel.sendSize ∧ Wide channel.recvSize := by
  refine ⟨?_, ?_⟩
  · intro state peer1 peer2 sendSize recvSize after stored apart
    have request : addRequest initByKey (newChannel .zero peer1 peer2 sendSize recvSize) state
        = (.ok (), after) := stored
    rcases @addRequest_cases initByKey state (newChannel .zero peer1 peer2 sendSize recvSize) with
      ⟨err, failed, _⟩ | ⟨sendShm, recvShm, _, added⟩
    · rw [request] at failed
      cases failed
    · rw [request] at added
      exact ⟨_, congrArg GlobalConfig.channels added.config, rfl, rfl, rfl, rfl, added.usable_iff apart⟩
  · intro state reached segments procId
    have inv := configMachine_inv reached
    have own : ∀ channel ∈ state.shm.config.getChansByProcId procId,
        channel.peer0 = procId ∨ channel.peer1 = procId :=
      fun channel member => of_decide_eq_true (List.mem_filter.mp member).2
    rw [CChannel.init_ok_iff]
    refine ⟨fun all channel member => (all.opens channel member).wide, fun wide => ⟨?_, ?_, ?_⟩⟩
    · exact fun channel member => ⟨own channel member, ⟨rfl, rfl⟩, wide channel member⟩
    · exact fun _ _ => Std.TreeMap.not_mem_emptyc
    · exact ChanConfig.nodup_peers own (inv.pairs.sublist (List.filter_sublist.map _))

/-- The memory before the first channel. -/
def noChannels : ConfigState := ⟨createByKey none, fun _ => freshQueue 0, 0⟩

theorem noChannels_reachable : (configMachine countingShm).Reachable noChannels := .start ⟨rfl, rfl⟩

/-- A channel with rings of `1000` and `2000` bytes. -/
theorem stored_usable_iff_thousand :
    (∃ channel, (addChannel countingShm 1 2 1000 2000 noChannels).2.shm.config.channels = [channel] ∧
      channel.Usable (addChannel countingShm 1 2 1000 2000 noChannels).2.segments) ∧
    (CChannel.init (fun _ => true) pairSegments (some noChannels.shm.config) 1 .new).1 = .ok () := by
  obtain ⟨usable, opens⟩ := stored_usable_iff countingShm
  constructor
  · obtain ⟨channel, stored, _, _, _, _, iff_⟩ := usable noChannels 1 2 1000 2000 _ rfl (by decide)
    exact ⟨channel, stored, iff_.mpr (by decide)⟩
  · exact (opens noChannels noChannels_reachable pairSegments 1).mpr nofun

/-- The memory after `Create` with one channel of rings of `100` bytes. -/
def smallAsked : ConfigState :=
  create countingShm [newChannel .zero 1 2 100 100] (some noChannels.shm) noChannels.segments
    noChannels.created

/-- `AddChannel` stores the channel, and neither of its processes can open it. -/
theorem stored_usable_fails_small :
    addChannel countingShm 1 2 100 100 noChannels = (.ok (), smallAsked) ∧
      (configMachine countingShm).Reachable smallAsked ∧
      (∃ channel, smallAsked.shm.config.channels = [channel] ∧
        channel.openEnd smallAsked.segments 2 = .error .kArg ∧ ¬ channel.Usable smallAsked.segments) ∧
      (CChannel.init (fun _ => true) smallAsked.segments (some smallAsked.shm.config) 1 .new).1
        = .error .kArg ∧
      (CChannel.init (fun _ => true) smallAsked.segments (some smallAsked.shm.config) 2 .new).1
        = .error .kArg := by
  refine ⟨rfl, noChannels_reachable.next rfl, ⟨_, rfl, rfl, ?_⟩, rfl, rfl⟩
  rintro ⟨_, _, ⟨⟩, _⟩

/-! ### The cursor -/

/-- `Recv` and `Peek` come back, without dereferencing the end of the map, and report an empty channel as
such. -/
def CChannel.ReceivesSafely (chan : CChannel) (segments : Segments) : Prop :=
  ∀ len, ∃ received peeked, chan.recv segments len = some received ∧ chan.peek segments = some peeked ∧
    (chan.AllEmpty segments →
      received.ret = .error .kChanEmpty ∧ peeked.ret = .error .kChanEmpty)

section Cursor

variable {attach : ShmId → Bool} {segments : Segments} {procId peer : ProcId} {config : GlobalConfig}
  {before start : CChannel} {chan : CChannel}

/-- There is a queue to receive from exactly when the process has a channel, or had one before. -/
theorem CChannel.init_some_iff
    (opened : init attach segments (some config) procId before = (.ok (), start)) :
    (∃ peer, peer ∈ start.unlockQueues) ↔
      config.getChansByProcId procId ≠ [] ∨ ∃ peer, peer ∈ before.unlockQueues := by
  have all := init_ok_iff.mp (congrArg Prod.fst opened)
  have queues : start.unlockQueues =
      (openQueues attach segments procId (config.getChansByProcId procId) before.unlockQueues).2 := by
    rw [openQueues_of_init opened]
  rw [queues]
  cases listed : config.getChansByProcId procId with
  | nil => exact (or_iff_right fun wrong => wrong rfl).symm
  | cons channel rest =>
    refine iff_of_true ⟨channel.peerOf procId, ?_⟩ (Or.inl (List.cons_ne_nil _ _))
    rw [listed] at all
    exact openQueues_first (all.opens _ List.mem_cons_self) (all.absent _ List.mem_cons_self)

/-- A call that comes back has found a queue. -/
theorem CChannel.ReceivesSafely.some (safe : chan.ReceivesSafely segments) :
    ∃ peer, peer ∈ chan.unlockQueues := by
  obtain ⟨_, peeked, _, answered, _⟩ := safe 0
  obtain ⟨queue, here, _⟩ := poll_cases answered
  obtain ⟨key, _, member⟩ := current_eq_some here
  rw [prepare_unlockQueues] at member
  exact ⟨key, UnlockQueueSet.mem_of_some member⟩

/-- With a queue and a cursor inside the map the calls come back. -/
theorem CChannel.CursorValid.receivesSafely (valid : chan.CursorValid)
    (member : peer ∈ chan.unlockQueues) : chan.ReceivesSafely segments := by
  intro len
  obtain ⟨_, _, _, _, received, recv, exactRecv⟩ :=
    @call_exact _ _ _ segments _ (recv_receives len) valid member
  obtain ⟨_, _, _, _, peeked, peek, exactPeek⟩ :=
    @call_exact _ _ _ segments _ peek_receives valid member
  exact ⟨received, peeked, recv, peek, fun empty => ⟨exactRecv.empty.mpr empty, exactPeek.empty.mpr empty⟩⟩

end Cursor

/-- **The receive cursor.** For every configuration and process for which `Init` returns `kOk`, on a new
channel or a used one: in every state of every run of `Send`, `Recv`, `Peek` and `Drop`, whatever the peers
do, `Recv` and `Peek` stay inside the map and report an empty channel as such, if and only if the process
takes part in a channel or the map held a queue before. -/
theorem cursor_safe_iff (attach : ShmId → Bool) (segments : Segments) (config : GlobalConfig)
    (procId : ProcId) (before start : CChannel)
    (opened : CChannel.init attach segments (some config) procId before = (.ok (), start)) :
    (∀ sys, (systemMachine start).Reachable sys → sys.chan.ReceivesSafely sys.segments) ↔
      config.getChansByProcId procId ≠ [] ∨ ∃ peer, peer ∈ before.unlockQueues := by
  rw [← CChannel.init_some_iff opened]
  constructor
  · intro safe
    exact (safe ⟨start, segments⟩ (.start rfl)).some
  · rintro ⟨peer, member⟩ sys reached
    have placed := systemMachine_placed (CChannel.init_placed opened) member reached
    rw [← systemMachine_unlockQueues reached] at member
    exact CChannel.CursorValid.receivesSafely placed.cursor member

/-- A process with two channels, before any call. -/
theorem cursor_safe_iff_star : starChannel.ReceivesSafely pairSegments :=
  (cursor_safe_iff (fun _ => true) pairSegments starConfig 1 .new starChannel rfl).mpr
    (Or.inl (List.cons_ne_nil _ _)) ⟨starChannel, pairSegments⟩ (.start rfl)

/-- Process `9` takes part in no channel: `Init` succeeds, and `Recv` and `Peek` dereference the end. -/
theorem cursor_safe_fails_stranger :
    CChannel.init (fun _ => true) pairSegments (some starConfig) 9 .new = (.ok (), ⟨∅, none, 0, 9⟩) ∧
      (systemMachine ⟨∅, none, 0, 9⟩).Reachable ⟨⟨∅, none, 0, 9⟩, pairSegments⟩ ∧
      CChannel.recv ⟨∅, none, 0, 9⟩ pairSegments 100 = none ∧
      CChannel.peek ⟨∅, none, 0, 9⟩ pairSegments = none ∧
      ¬ CChannel.ReceivesSafely ⟨∅, none, 0, 9⟩ pairSegments := by
  refine ⟨rfl, .start rfl, rfl, rfl, fun safe => ?_⟩
  obtain ⟨_, _, _, peeked, _⟩ := safe 0
  cases peeked

end Yarf.Channel
