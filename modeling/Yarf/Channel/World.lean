/-
**All processes of a host.**

`worldMachine` is the code of all processes together, from a host on which nothing has been created: any
of them may at any time call `Create`, `Init`, `GetPeerIds`, `Send`, `Recv`, `Peek` and `Drop`. A process
that has called `Init` does not see channels that are created later.

Each stored channel has two lanes, one segment in each direction. `Hosts` ties what is in the segments to
the mailboxes of `Post`: the segment of a lane holds the messages of the mailbox of its sender and its
receiver. Every call keeps it, and is the call of the mailboxes with the same answer (`Hosts.step`).

* `world_refines_mailboxes` — so a run of the processes is, call for call, a run of the mailboxes;
* `world_delivers` — and what a process takes from a peer is what that peer sent to it, in order and once.
-/

import Yarf.Channel.Announce
import Yarf.Channel.Mailbox
import Yarf.Channel.Opening

namespace Yarf.Channel

open Lib

/-! ### The processes -/

/-- `CChannel::GetPeerIds`: the peers are pushed behind what is in the vector. -/
def CChannel.getPeerIds (chan : CChannel) (peerIds : List ProcId) : List ProcId :=
  peerIds ++ chan.unlockQueues.keys

/-- What the processes share, and the channel of each. -/
structure World where
  /-- The configuration in shared memory; none before the first `Create`. -/
  shm : Option GlobalConfigShm
  segments : Segments
  /-- How many queue segments have been asked for. -/
  created : ℕ
  chans : ProcId → CChannel

/-- The memory `Create` works on. -/
def World.state (world : World) : ConfigState := ⟨createByKey world.shm, world.segments, world.created⟩

def World.network (world : World) : Network := ⟨world.chans, world.segments⟩

/-- The memory after a call of `Create`. -/
def World.store (world : World) (state : ConfigState) : World :=
  { world with shm := some state.shm, segments := state.segments, created := state.created }

/-- The memory after a call on a channel. -/
def World.carry (world : World) (net : Network) : World :=
  { world with chans := net.chans, segments := net.segments }

/-- A channel between two processes, on rings for which the arithmetic of the queue is exact. -/
structure ChanConfig.Sound (channel : ChanConfig) : Prop where
  two : channel.peer0 ≠ channel.peer1
  send : 0 < channel.sendSize.toNat ∧ channel.sendSize.toNat ≤ 2 ^ 31
  recv : 0 < channel.recvSize.toNat ∧ channel.recvSize.toNat ≤ 2 ^ 31

/-- A message whose length fits the pack head. -/
def NetworkCall.Short : NetworkCall → Prop
  | .send _ data _ => data.bytes.length ≤ 65528
  | _ => True

/-- One call of one process; `Init` may be called again. -/
inductive WorldStep (initByKey : ℕ → Option ShmId) : World → PostCall → World → Prop
  | create (world : World) (channels : List ChanConfig) : (∀ channel ∈ channels, channel.Sound) →
      WorldStep initByKey world (.create channels)
        (world.store (create initByKey channels world.shm world.segments world.created))
  | init (world : World) (procId : ProcId) (attach : ShmId → Bool) (ret : Except Err Unit)
      (chan : CChannel) :
      CChannel.init attach world.segments (world.shm.map GlobalConfigShm.config) procId
        (world.chans procId) = (ret, chan) →
      WorldStep initByKey world (.init procId ret)
        { world with chans := Function.update world.chans procId chan }
  | getPeerIds (world : World) (procId : ProcId) (before : List ProcId) :
      WorldStep initByKey world
        (.getPeerIds procId before ((world.chans procId).getPeerIds before)) world
  | call (world : World) (procId : ProcId) (call : NetworkCall) (next : Network) : call.Short →
      NetworkStep world.network (procId, call) next →
      WorldStep initByKey world (.call procId call) (world.carry next)

/-- All processes of a host, from the beginning. -/
def worldMachine (initByKey : ℕ → Option ShmId) : Machine World PostCall where
  init world := world.shm = none ∧ world.created = 0 ∧ ∀ procId, world.chans procId = .new
  step := WorldStep initByKey

/-! ### Lanes -/

/-- One direction of a stored channel: a segment and the two processes at its ends. -/
structure Lane where
  id : ShmId
  sender : ProcId
  receiver : ProcId
  size : UInt32

def ChanConfig.lanes (channel : ChanConfig) : List Lane :=
  [⟨channel.sendShmId, channel.peer0, channel.peer1, channel.sendSize⟩,
    ⟨channel.recvShmId, channel.peer1, channel.peer0, channel.recvSize⟩]

def GlobalConfig.lanes (config : GlobalConfig) : List Lane := config.channels.flatMap ChanConfig.lanes

section Lanes

variable {config : GlobalConfig} {channel : ChanConfig} {lane other : Lane} {procId key : ProcId}
  {queue : CUnlockQueue}

theorem ChanConfig.mem_lanes : lane ∈ channel.lanes ↔
    lane = ⟨channel.sendShmId, channel.peer0, channel.peer1, channel.sendSize⟩ ∨
      lane = ⟨channel.recvShmId, channel.peer1, channel.peer0, channel.recvSize⟩ := by
  rw [lanes, List.mem_cons, List.mem_singleton]

theorem GlobalConfig.mem_lanes : lane ∈ config.lanes ↔ ∃ channel ∈ config.channels, lane ∈ channel.lanes :=
  List.mem_flatMap

theorem GlobalConfig.lanes_append :
    (GlobalConfig.mk (config.channels ++ [channel])).lanes = config.lanes ++ channel.lanes := by
  rw [lanes, lanes, List.flatMap_append, List.flatMap_singleton]

theorem GlobalConfig.map_lanes_id : config.lanes.map Lane.id = config.shmIds :=
  List.map_flatMap

/-- A lane has its segment for itself. -/
theorem Lane.eq_of_id (ids : config.shmIds.Nodup) (member : lane ∈ config.lanes)
    (inside : other ∈ config.lanes) (same : lane.id = other.id) : lane = other :=
  List.inj_on_of_nodup_map (GlobalConfig.map_lanes_id ▸ ids) member inside same

theorem Lane.id_mem (member : lane ∈ config.lanes) : lane.id ∈ config.shmIds :=
  GlobalConfig.map_lanes_id ▸ List.mem_map_of_mem member

theorem ChanConfig.lane_pair (member : lane ∈ channel.lanes) :
    s(lane.sender, lane.receiver) = channel.pair := by
  rcases mem_lanes.mp member with rfl | rfl
  · rfl
  · exact Sym2.eq_swap

/-- Between two processes there is one lane in each direction. -/
theorem Lane.eq_of_ends (pairs : (config.channels.map ChanConfig.pair).Nodup)
    (two : ∀ channel ∈ config.channels, channel.peer0 ≠ channel.peer1) (member : lane ∈ config.lanes)
    (inside : other ∈ config.lanes) (sender : lane.sender = other.sender)
    (receiver : lane.receiver = other.receiver) : lane = other := by
  obtain ⟨channel, stored, mine⟩ := GlobalConfig.mem_lanes.mp member
  obtain ⟨entry, stored', theirs⟩ := GlobalConfig.mem_lanes.mp inside
  have pair : channel.pair = entry.pair := by
    rw [← ChanConfig.lane_pair mine, ← ChanConfig.lane_pair theirs, sender, receiver]
  obtain rfl := GlobalConfig.pair_unique pairs stored stored' pair
  have apart := two channel stored
  rcases ChanConfig.mem_lanes.mp mine with rfl | rfl
  · rcases ChanConfig.mem_lanes.mp theirs with rfl | rfl
    · rfl
    · exact absurd sender apart
  · rcases ChanConfig.mem_lanes.mp theirs with rfl | rfl
    · exact absurd sender.symm apart
    · rfl

/-- The two segments of a queue are the lanes between its process and its peer. -/
theorem Configured.lanes (own : Configured config procId key queue) :
    (∃ lane ∈ config.lanes, lane.id = queue.sender ∧ lane.sender = procId ∧ lane.receiver = key) ∧
      ∃ lane ∈ config.lanes, lane.id = queue.recver ∧ lane.sender = key ∧ lane.receiver = procId := by
  obtain ⟨channel, member, roles⟩ := own
  have first := GlobalConfig.mem_lanes.mpr ⟨channel, member, ChanConfig.mem_lanes.mpr (Or.inl rfl)⟩
  have second := GlobalConfig.mem_lanes.mpr ⟨channel, member, ChanConfig.mem_lanes.mpr (Or.inr rfl)⟩
  rcases roles with ⟨rfl, rfl, recver, sender⟩ | ⟨rfl, rfl, recver, sender⟩
  · exact ⟨⟨_, second, sender.symm, rfl, rfl⟩, _, first, recver.symm, rfl, rfl⟩
  · exact ⟨⟨_, first, sender.symm, rfl, rfl⟩, _, second, recver.symm, rfl, rfl⟩

theorem Configured.mono {later : GlobalConfig} (own : Configured config procId key queue)
    (grown : config.channels ⊆ later.channels) : Configured later procId key queue := by
  obtain ⟨channel, member, roles⟩ := own
  exact ⟨channel, grown member, roles⟩

end Lanes

/-! ### The memory and the mailboxes -/

/-- The configuration is well formed, each process has queues of its own channels only, and each lane holds
its mailbox. -/
structure Hosts (initByKey : ℕ → Option ShmId) (state : ConfigState) (chans : ProcId → CChannel)
    (post : Post) : Prop where
  inv : state.Inv
  /-- The segments are those that were created for the channels, whatever they hold by now. -/
  segmented : ∃ segments, Segmented initByKey { state with segments := segments }
  sound : ∀ channel ∈ state.shm.config.channels, channel.Sound
  tagged : ∀ procId, Tagged state.shm.config procId (chans procId).unlockQueues
  placed : ∀ procId, (chans procId).Placed
  linked : ∀ pair, pair ∈ post.linked ↔ state.shm.config.Stores pair
  opened : ∀ procId key, key ∈ post.opened procId ↔ key ∈ (chans procId).unlockQueues
  lanes : ∀ lane ∈ state.shm.config.lanes,
    Represents lane.size (state.segments lane.id) (post.mail lane.sender lane.receiver)
  unlinked : ∀ sender receiver, s(sender, receiver) ∉ post.linked →
    post.mail sender receiver = Fifo.empty

section Frames

variable {initByKey : ℕ → Option ShmId} {state : ConfigState} {chans : ProcId → CChannel} {post : Post}
  {lane : Lane} {procId : ProcId}

theorem Hosts.size (hosts : Hosts initByKey state chans post) (member : lane ∈ state.shm.config.lanes) :
    0 < lane.size.toNat ∧ lane.size.toNat ≤ 2 ^ 31 := by
  obtain ⟨channel, stored, mine⟩ := GlobalConfig.mem_lanes.mp member
  have sound := hosts.sound channel stored
  rcases ChanConfig.mem_lanes.mp mine with rfl | rfl
  · exact sound.send
  · exact sound.recv

theorem Hosts.ids (hosts : Hosts initByKey state chans post) : state.shm.config.shmIds.Nodup := by
  obtain ⟨_, segmented⟩ := hosts.segmented
  exact segmented.ids

/-- What one lane holds changes, and its mailbox with it. -/
theorem Hosts.put (hosts : Hosts initByKey state chans post) (member : lane ∈ state.shm.config.lanes)
    {queue : Queue} {fifo : Fifo} (rep : Represents lane.size queue fifo) :
    Hosts initByKey { state with segments := Function.update state.segments lane.id queue } chans
      (post.put lane.sender lane.receiver fifo) := by
  refine ⟨⟨hosts.inv.count, hosts.inv.pairs⟩, hosts.segmented, hosts.sound, hosts.tagged, hosts.placed,
    hosts.linked, hosts.opened, ?_, ?_⟩
  · intro other inside
    dsimp only
    by_cases same : other = lane
    · subst same
      rw [Function.update_self, Post.put_same]
      exact rep
    · have ids : other.id ≠ lane.id := fun equal => same (Lane.eq_of_id hosts.ids inside member equal)
      have ends : ¬(other.sender = lane.sender ∧ other.receiver = lane.receiver) := by
        intro equal
        exact same (Lane.eq_of_ends hosts.inv.pairs (fun channel stored => (hosts.sound channel stored).two)
          inside member equal.1 equal.2)
      rw [Function.update_of_ne ids, Post.put_other ends]
      exact hosts.lanes other inside
  · intro sender receiver alone
    obtain ⟨channel, stored, mine⟩ := GlobalConfig.mem_lanes.mp member
    have linked : s(lane.sender, lane.receiver) ∈ post.linked := by
      rw [hosts.linked, ChanConfig.lane_pair mine]
      exact List.mem_map_of_mem stored
    rw [Post.put_other]
    · exact hosts.unlinked sender receiver alone
    · rintro ⟨rfl, rfl⟩
      exact alone linked

/-- **A queue operation** on the segment of a lane is the operation on its mailbox. -/
theorem Hosts.event (hosts : Hosts initByKey state chans post) (member : lane ∈ state.shm.config.lanes)
    {event : Event} {queue : Queue} (taken : QueueStep 65528 (state.segments lane.id) event queue) :
    ∃ fifo, FifoStep (post.mail lane.sender lane.receiver) event fifo ∧
      Hosts initByKey { state with segments := Function.update state.segments lane.id queue } chans
        (post.put lane.sender lane.receiver fifo) := by
  obtain ⟨positive, small⟩ := hosts.size member
  have fresh := (Admitted.represents (Or.inr rfl : Admitted lane.size (freshQueue lane.size)) positive).1
  obtain ⟨fifo, step, rep⟩ :=
    (queueMachine_simulates small fresh).step _ _ _ _ (hosts.lanes lane member) taken
  exact ⟨fifo, step, hosts.put member rep⟩

/-- The cursor of one process moves. -/
theorem Hosts.move (hosts : Hosts initByKey state chans post) {chan : CChannel}
    (kept : chan.unlockQueues = (chans procId).unlockQueues) (placed : chan.Placed) :
    Hosts initByKey state (Function.update chans procId chan) post := by
  refine ⟨hosts.inv, hosts.segmented, hosts.sound, ?_, ?_, hosts.linked, ?_, hosts.lanes, hosts.unlinked⟩
  · intro other
    rw [update_unlockQueues kept]
    exact hosts.tagged other
  · intro other
    rcases eq_or_ne other procId with rfl | apart
    · rw [Function.update_self]
      exact placed
    · rw [Function.update_of_ne apart]
      exact hosts.placed other
  · intro other key
    rw [update_unlockQueues kept]
    exact hosts.opened other key

end Frames

/-! ### `Create` -/

section Create

variable {initByKey : ℕ → Option ShmId} {state after : ConfigState} {chans : ProcId → CChannel} {post : Post}
  {channel : ChanConfig} {sendShm recvShm : ShmId}

/-- What is added does not depend on what the segments hold. -/
theorem Added.segments_free (added : Added initByKey channel sendShm recvShm state after)
    (segments : Segments) :
    Added initByKey channel sendShm recvShm { state with segments := segments }
      { after with segments := Function.update (Function.update segments sendShm
        (freshQueue channel.sendSize)) recvShm (freshQueue channel.recvSize) } :=
  ⟨added.room, added.first, added.second, added.config, added.count, rfl, added.created⟩

theorem Refused.segments_free (refused : Refused state after) (segments : Segments) :
    Refused { state with segments := segments } { after with segments := segments } :=
  ⟨refused.config, refused.count, rfl, refused.created⟩

/-- Nothing is stored. -/
theorem Hosts.refused (hosts : Hosts initByKey state chans post) (refused : Refused state after) :
    Hosts initByKey after chans post := by
  obtain ⟨segments, segmented⟩ := hosts.segmented
  refine ⟨hosts.inv.refused refused, ⟨segments, segmented.refused (refused.segments_free segments)⟩, ?_, ?_,
    hosts.placed, ?_, hosts.opened, ?_, hosts.unlinked⟩
  · rw [refused.config]
    exact hosts.sound
  · rw [refused.config]
    exact hosts.tagged
  · rw [refused.config]
    exact hosts.linked
  · rw [refused.config, refused.segments]
    exact hosts.lanes

/-- A channel is stored, with two empty lanes. -/
theorem Hosts.added (hosts : Hosts initByKey state chans post) (sound : channel.Sound)
    (absent : ¬state.shm.config.Stores channel.pair)
    (added : Added initByKey channel sendShm recvShm state after)
    (distinct : Distinct initByKey after.created) :
    Hosts initByKey after chans { post with linked := insert channel.pair post.linked } := by
  obtain ⟨segments, segmented⟩ := hosts.segmented
  have grown : state.shm.config.channels ⊆ after.shm.config.channels := by
    rw [added.config]
    exact List.subset_append_left _ _
  have range : state.created ≤ state.created + 1 ∧ state.created + 1 < after.created := by
    rw [added.created]
    omega
  have newSend := segmented.unused distinct le_rfl (Nat.lt_of_succ_lt range.2) added.first
  have newRecv := segmented.unused distinct range.1 range.2 added.second
  have apart : sendShm ≠ recvShm := by
    intro same
    have clash := distinct _ _ _ (by omega) range.2 added.first (same ▸ added.second)
    omega
  have alone : channel.pair ∉ post.linked := (hosts.linked _).not.mpr absent
  have none : ∀ sender receiver, s(sender, receiver) = channel.pair →
      post.mail sender receiver = Fifo.empty :=
    fun sender receiver same => hosts.unlinked sender receiver (same ▸ alone)
  refine ⟨hosts.inv.added absent added, ⟨_, segmented.added (added.segments_free segments) distinct⟩,
    ?_, ?_, hosts.placed, ?_, hosts.opened, ?_, ?_⟩
  · rw [added.config]
    exact List.forall_mem_append.mpr ⟨hosts.sound, List.forall_mem_singleton.mpr ⟨sound.1, sound.2, sound.3⟩⟩
  · intro procId key queue member
    obtain ⟨own, tag⟩ := hosts.tagged procId key queue member
    exact ⟨own.mono grown, tag⟩
  · intro pair
    rw [Set.mem_insert_iff, hosts.linked, added.config, GlobalConfig.Stores, GlobalConfig.Stores,
      List.map_append, List.mem_append, List.map_singleton, List.mem_singleton, or_comm]
    rfl
  · rw [added.config, GlobalConfig.lanes_append, added.segments]
    refine List.forall_mem_append.mpr ⟨?_, ?_⟩
    · intro lane member
      have used := Lane.id_mem member
      rw [Function.update_of_ne (ne_of_mem_of_not_mem used newRecv),
        Function.update_of_ne (ne_of_mem_of_not_mem used newSend)]
      exact hosts.lanes lane member
    · intro lane member
      rcases ChanConfig.mem_lanes.mp member with rfl | rfl
      · dsimp only
        rw [Function.update_of_ne apart, Function.update_self, none _ _ rfl]
        exact (Admitted.represents (Or.inr rfl) sound.send.1).1
      · dsimp only
        rw [Function.update_self, none _ _ Sym2.eq_swap]
        exact (Admitted.represents (Or.inr rfl) sound.recv.1).1
  · intro sender receiver other
    exact hosts.unlinked sender receiver fun linked => other (Set.mem_insert_of_mem _ linked)

/-- **The loop of `Create`** links pairs that were asked for, and touches no mailbox. -/
theorem Hosts.createChannels (channels : List ChanConfig) (sound : ∀ channel ∈ channels, channel.Sound)
    (distinct : ∀ n, Distinct initByKey n) (hosts : Hosts initByKey state chans post) :
    ∃ linked, post.linked ⊆ linked ∧
      (∀ pair ∈ linked, pair ∈ post.linked ∨ pair ∈ channels.map ChanConfig.pair) ∧
      Hosts initByKey (createChannels initByKey channels state) chans { post with linked := linked } := by
  induction channels generalizing state post with
  | nil => exact ⟨post.linked, subset_rfl, fun pair member => Or.inl member, hosts⟩
  | cons channel rest ih =>
    have later := fun other member => sound other (List.mem_cons_of_mem _ member)
    have widen : ∀ pair, pair ∈ rest.map ChanConfig.pair → pair ∈ (channel :: rest).map ChanConfig.pair :=
      fun pair member => List.mem_cons_of_mem _ member
    unfold Channel.createChannels
    by_cases stored : state.shm.config.channels.any channel.sameChannel = true
    · rw [if_pos stored]
      obtain ⟨linked, more, asked, after⟩ := ih later hosts
      exact ⟨linked, more, fun pair member => (asked pair member).imp_right (widen pair), after⟩
    · rw [if_neg stored]
      rw [GlobalConfig.stores_iff] at stored
      rcases @addRequest_cases initByKey state channel with ⟨_, _, refused⟩ | ⟨_, _, _, added⟩
      · obtain ⟨linked, more, asked, after⟩ := ih later (hosts.refused refused)
        exact ⟨linked, more, fun pair member => (asked pair member).imp_right (widen pair), after⟩
      · obtain ⟨linked, more, asked, after⟩ :=
          ih later (hosts.added (sound channel List.mem_cons_self) stored added (distinct _))
        refine ⟨linked, (Set.subset_insert _ _).trans more, fun pair member => ?_, after⟩
        rcases asked pair member with old | new
        · rcases Set.mem_insert_iff.mp old with rfl | before
          · exact Or.inr List.mem_cons_self
          · exact Or.inl before
        · exact Or.inr (widen pair new)

end Create

/-! ### `Init` and `GetPeerIds` -/

section Init

variable {initByKey : ℕ → Option ShmId} {state : ConfigState} {chans : ProcId → CChannel} {post : Post}
  {procId key : ProcId}

theorem Configured.stores {config : GlobalConfig} {queue : CUnlockQueue}
    (own : Configured config procId key queue) : config.Stores s(procId, key) := by
  obtain ⟨channel, member, roles⟩ := own
  refine List.mem_map.mpr ⟨channel, member, ?_⟩
  rcases roles with ⟨rfl, rfl, _⟩ | ⟨rfl, rfl, _⟩
  · exact Sym2.eq_swap
  · rfl

theorem Tagged.stores {config : GlobalConfig} {queues : UnlockQueueSet} (tagged : Tagged config procId queues)
    (member : key ∈ queues) : config.Stores s(procId, key) :=
  (tagged key _ (Std.TreeMap.getElem?_eq_some_getElem member)).1.stores

/-- **After a successful `Init`** every linked peer has its queue. -/
theorem CChannel.init_complete {attach : ShmId → Bool} {segments : Segments} {config : GlobalConfig}
    {before chan : CChannel} (opened : init attach segments (some config) procId before = (.ok (), chan))
    (stored : config.Stores s(procId, key)) : key ∈ chan.unlockQueues := by
  obtain ⟨channel, member, pair⟩ := List.mem_map.mp stored
  have own : channel.peer0 = procId ∨ channel.peer1 = procId := by
    rcases Sym2.eq_iff.mp pair with ⟨first, _⟩ | ⟨_, second⟩
    · exact Or.inl first
    · exact Or.inr second
  have inside : channel ∈ config.getChansByProcId procId :=
    List.mem_filter.mpr ⟨member, decide_eq_true own⟩
  obtain ⟨peer, view, oriented, queue⟩ := (openQueues_complete (openQueues_of_init opened)).2 channel inside
  obtain ⟨_, expected, _⟩ := @ChanConfig.orient_own attach procId channel own
  rw [expected] at oriented
  cases oriented
  rw [ChanConfig.pair_eq own, Sym2.congr_right] at pair
  exact pair ▸ UnlockQueueSet.mem_of_some queue

/-- `Init` keeps the queues there are and the place of the cursor. -/
theorem CChannel.init_keeps {attach : ShmId → Bool} {segments : Segments} {config : Option GlobalConfig}
    {before chan : CChannel} {ret : Except Err Unit}
    (opened : init attach segments config procId before = (ret, chan)) (placed : before.Placed) :
    chan.Placed ∧ ∀ key ∈ before.unlockQueues, key ∈ chan.unlockQueues := by
  cases config with
  | none =>
    cases opened
    exact ⟨placed, fun _ member => member⟩
  | some config =>
    have queues : chan.unlockQueues = _ := (congrArg (fun result => result.2.unlockQueues) opened).symm.trans
      init_unlockQueues
    have kept : ∀ key ∈ before.unlockQueues, key ∈ chan.unlockQueues := by
      rw [queues]
      exact fun key member => openQueues_keeps member
    refine ⟨?_, kept⟩
    cases ret with
    | ok _ => exact init_placed opened
    | error err =>
      have same := init_failed opened
      refine ⟨fun key here => kept key (placed.cursor key ?_), ?_⟩
      · rw [same] at here
        exact here
      · rw [same]
        exact placed.count

theorem CChannel.init_tagged_again {attach : ShmId → Bool} {segments : Segments} {config : GlobalConfig}
    {before chan : CChannel} {ret : Except Err Unit} (tagged : Tagged config procId before.unlockQueues)
    (opened : init attach segments (some config) procId before = (ret, chan)) :
    Tagged config procId chan.unlockQueues := by
  have queues : chan.unlockQueues = _ := (congrArg (fun result => result.2.unlockQueues) opened).symm.trans
    init_unlockQueues
  rw [queues]
  exact openQueues_tagged (fun channel member => (List.mem_filter.mp member).1) tagged

/-- A process opens queues. -/
theorem Hosts.reopened (hosts : Hosts initByKey state chans post) {chan : CChannel}
    (tagged : Tagged state.shm.config procId chan.unlockQueues) (placed : chan.Placed) :
    Hosts initByKey state (Function.update chans procId chan) { post with
      opened := Function.update post.opened procId {key | key ∈ chan.unlockQueues} } := by
  refine ⟨hosts.inv, hosts.segmented, hosts.sound, ?_, ?_, hosts.linked, ?_, hosts.lanes, hosts.unlinked⟩
  · intro other
    rcases eq_or_ne other procId with rfl | apart
    · rw [Function.update_self]
      exact tagged
    · rw [Function.update_of_ne apart]
      exact hosts.tagged other
  · intro other
    rcases eq_or_ne other procId with rfl | apart
    · rw [Function.update_self]
      exact placed
    · rw [Function.update_of_ne apart]
      exact hosts.placed other
  · intro other key
    dsimp only
    rcases eq_or_ne other procId with rfl | apart
    · rw [Function.update_self, Function.update_self]
      exact Iff.rfl
    · rw [Function.update_of_ne apart, Function.update_of_ne apart]
      exact hosts.opened other key

/-- **`Init`** is a step of the mailboxes. -/
theorem Hosts.init {shm : Option GlobalConfigShm} {segments : Segments} {created : ℕ}
    (hosts : Hosts initByKey ⟨createByKey shm, segments, created⟩ chans post) {attach : ShmId → Bool}
    {ret : Except Err Unit} {chan : CChannel}
    (opened : CChannel.init attach segments (shm.map GlobalConfigShm.config) procId (chans procId)
      = (ret, chan)) :
    ∃ next, PostStep post (.init procId ret) next ∧
      Hosts initByKey ⟨createByKey shm, segments, created⟩ (Function.update chans procId chan) next := by
  obtain ⟨placed, kept⟩ := CChannel.init_keeps opened (hosts.placed procId)
  have tagged : Tagged (createByKey shm).config procId chan.unlockQueues := by
    cases shm with
    | none =>
      cases opened
      exact hosts.tagged procId
    | some shm => exact CChannel.init_tagged_again (hosts.tagged procId) opened
  refine ⟨_, .init post procId ret {key | key ∈ chan.unlockQueues} ?_ ?_ ?_, hosts.reopened tagged placed⟩
  · exact fun key member => kept key ((hosts.opened procId key).mp member)
  · exact fun key member => (hosts.linked _).mpr (tagged.stores member)
  · rintro rfl key linked
    cases shm with
    | none => cases opened
    | some shm => exact CChannel.init_complete opened ((hosts.linked _).mp linked)

/-- **`GetPeerIds`** lists the peers in the order of their ids. -/
theorem Hosts.getPeerIds (hosts : Hosts initByKey state chans post) (before : List ProcId) :
    PostStep post (.getPeerIds procId before ((chans procId).getPeerIds before)) post := by
  refine .getPeerIds post procId before _ (fun peer => ?_) ?_
  · rw [hosts.opened]
    exact Std.TreeMap.mem_keys
  · exact Std.TreeMap.ordered_keys.imp fun less => Std.compare_eq_lt.mp less

end Init

/-! ### Calls on a channel -/

section Calls

variable {initByKey : ℕ → Option ShmId} {state : ConfigState} {chans : ProcId → CChannel} {post : Post}
  {procId key : ProcId} {queue : CUnlockQueue}

/-- The ring is empty exactly when the list is. -/
theorem Represents.empty_iff {capacity : UInt32} {ring : Queue} {fifo : Fifo}
    (small : capacity.toNat ≤ 2 ^ 31) (rep : Represents capacity ring fifo) :
    ring.Empty ↔ fifo.pending = [] := by
  rw [← nextPack_eq_empty_iff]
  rcases nextPack_represents small rep with ⟨none, found⟩ | ⟨oldest, rest, next, some, found, _⟩
  · exact iff_of_true found none
  · rw [found, some]
    exact iff_of_false nofun (List.cons_ne_nil _ _)

/-- The mailboxes of a process are empty when its queues are. -/
theorem Hosts.allEmpty (hosts : Hosts initByKey state chans post) :
    (chans procId).AllEmpty state.segments ↔
      ∀ peer ∈ post.opened procId, (post.mail peer procId).pending = [] := by
  have at_queue : ∀ (key : ProcId) (queue : CUnlockQueue), (chans procId).unlockQueues[key]? = some queue →
      ((state.segments queue.recver).Empty ↔ (post.mail key procId).pending = []) := by
    intro key queue member
    obtain ⟨_, lane, inside, id, rfl, rfl⟩ := (hosts.tagged _ key queue member).1.lanes
    rw [← id]
    exact (hosts.lanes lane inside).empty_iff (hosts.size inside).2
  constructor
  · intro all peer member
    have here := Std.TreeMap.getElem?_eq_some_getElem ((hosts.opened procId peer).mp member)
    exact (at_queue peer _ here).mp (all peer _ here)
  · intro none key queue member
    have here := (hosts.opened procId key).mpr (UnlockQueueSet.mem_of_some member)
    exact (at_queue key queue member).mpr (none key here)

/-- How a call of `Recv` or `Peek` ends: one of the queues has answered it, all mailboxes of the process are
empty, or a queue has refused it. -/
inductive Outcome {α : Type} (op : CUnlockQueue → Segments → Except Err α × Segments) (chan : CChannel)
    (segments : Segments) (empty : Prop) (answer : CChannel.Answer α) : Prop
  | served (value : α) (key : ProcId) (queue : CUnlockQueue) : answer.ret = .ok value →
      answer.chan.curRecvQueue = some key → chan.unlockQueues[key]? = some queue →
      op queue segments = (.ok value, answer.segments) → Outcome op chan segments empty answer
  | empty : answer.ret = .error .kChanEmpty → answer.segments = segments → empty →
      Outcome op chan segments empty answer
  | refused (err : Err) (key : ProcId) (queue : CUnlockQueue) : answer.ret = .error err →
      answer.segments = segments → err ≠ .kChanEmpty → chan.unlockQueues[key]? = some queue →
      (op queue segments).1 = .error err → Outcome op chan segments empty answer

/-- **`Recv` or `Peek`**, as far as both do the same. -/
theorem Hosts.poll {α : Type} {op : CUnlockQueue → Segments → Except Err α × Segments}
    (hosts : Hosts initByKey state chans post) (receives : Receives op) {answer : CChannel.Answer α}
    (answered : (chans procId).prepare.poll op ((chans procId).unlockQueues.size - 1) state.segments
      = some answer) :
    answer.chan.Placed ∧ answer.chan.unlockQueues = (chans procId).unlockQueues ∧
      Outcome op (chans procId) state.segments
        (∀ peer ∈ post.opened procId, (post.mail peer procId).pending = []) answer := by
  obtain ⟨_, here, _⟩ := CChannel.poll_cases answered
  obtain ⟨key, _, member⟩ := CChannel.current_eq_some here
  rw [CChannel.prepare_unlockQueues] at member
  have inside := UnlockQueueSet.mem_of_some member
  have placed := hosts.placed procId
  have kept := CChannel.poll_unlockQueues answered
  rw [CChannel.prepare_unlockQueues] at kept
  obtain ⟨_, prepared⟩ := placed.prepare inside
  refine ⟨CChannel.poll_placed prepared answered, kept, ?_⟩
  cases ret : answer.ret with
  | ok value =>
    obtain ⟨key, queue, cursor, found, _, done⟩ := CChannel.poll_ok receives.quiet answered ret
    rw [CChannel.prepare_unlockQueues] at found
    exact .served value key queue ret cursor found done
  | error err =>
    have same := CChannel.poll_error receives.quiet answered ret
    obtain ⟨_, _, _, _, other, found, exact_⟩ := @CChannel.call_exact α op (chans procId) state.segments key
      receives placed.cursor inside
    cases answered.symm.trans found
    by_cases empty : err = .kChanEmpty
    · subst empty
      exact .empty ret same (hosts.allEmpty.mp (exact_.empty.mp ret))
    · have full : answer.ret ≠ .error .kChanEmpty := by
        rw [ret]
        exact fun equal => empty (Except.error.inj equal)
      obtain ⟨key, queue, _, found, done, _⟩ := exact_.first full
      exact .refused err key queue ret same empty found (done.symm.trans ret)

/-- **`Send`.** -/
theorem Hosts.send (hosts : Hosts initByKey state chans post) (dst : ProcId) (data : Message)
    (reserve : Reserve) (short : data.bytes.length ≤ 65528) :
    ∃ next, PostStep post
        (.call procId (.send dst data ((chans procId).send state.segments dst data reserve).1)) next ∧
      Hosts initByKey
        { state with segments := ((chans procId).send state.segments dst data reserve).2 } chans next := by
  unfold CChannel.send
  cases found : (chans procId).unlockQueues[dst]? with
  | none =>
    refine ⟨post, .sendStranger post procId dst data fun known => ?_, hosts⟩
    have member := Std.TreeMap.getElem?_eq_some_getElem ((hosts.opened procId dst).mp known)
    cases found.symm.trans member
  | some queue =>
    have known := (hosts.opened procId dst).mpr (UnlockQueueSet.mem_of_some found)
    obtain ⟨⟨lane, inside, id, rfl, rfl⟩, _⟩ := (hosts.tagged procId dst queue found).1.lanes
    obtain ⟨fifo, step, after⟩ :=
      hosts.event inside (.send (state.segments lane.id) data reserve short)
    dsimp only [CUnlockQueue.send]
    rw [← id]
    exact ⟨_, .send post _ _ data _ fifo known step, after⟩

/-- **`Drop`.** -/
theorem Hosts.drop (hosts : Hosts initByKey state chans post) (src : ProcId) :
    ∃ next, PostStep post (.call procId (.drop src ((chans procId).drop state.segments src).1)) next ∧
      Hosts initByKey { state with segments := ((chans procId).drop state.segments src).2 } chans next := by
  unfold CChannel.drop
  cases found : (chans procId).unlockQueues[src]? with
  | none =>
    refine ⟨post, .dropStranger post procId src fun known => ?_, hosts⟩
    have member := Std.TreeMap.getElem?_eq_some_getElem ((hosts.opened procId src).mp known)
    cases found.symm.trans member
  | some queue =>
    have known := (hosts.opened procId src).mpr (UnlockQueueSet.mem_of_some found)
    obtain ⟨_, lane, inside, id, rfl, rfl⟩ := (hosts.tagged procId src queue found).1.lanes
    obtain ⟨fifo, step, after⟩ := hosts.event inside (.drop (state.segments lane.id))
    dsimp only [CUnlockQueue.drop]
    rw [← id]
    exact ⟨_, .drop post _ _ _ fifo known step, after⟩

/-- **`Recv`.** -/
theorem Hosts.recv (hosts : Hosts initByKey state chans post) (len : UInt32)
    {answer : CChannel.Answer (List UInt8)}
    (answered : (chans procId).recv state.segments len = some answer) :
    ∃ next, PostStep post (.call procId (.recv len answer.chan.curRecvQueue answer.ret)) next ∧
      Hosts initByKey { state with segments := answer.segments }
        (Function.update chans procId answer.chan) next := by
  obtain ⟨placed, kept, outcome⟩ := hosts.poll (recv_receives len) answered
  rcases outcome with ⟨bytes, key, queue, ret, cursor, found, done⟩ | ⟨ret, same, none⟩
    | ⟨err, key, queue, ret, same, full, found, refused⟩
  · have known := (hosts.opened procId key).mpr (UnlockQueueSet.mem_of_some found)
    obtain ⟨_, lane, inside, id, rfl, rfl⟩ := (hosts.tagged procId key queue found).1.lanes
    obtain ⟨fifo, step, after⟩ := hosts.event inside (.recv (state.segments lane.id) len)
    have value : (Channel.recv (state.segments queue.recver) len).1 = .ok bytes := congrArg Prod.fst done
    have segments : Function.update state.segments queue.recver
      (Channel.recv (state.segments queue.recver) len).2 = answer.segments := congrArg Prod.snd done
    rw [id, value] at step
    rw [id, segments] at after
    rw [ret, cursor]
    exact ⟨_, .recvOk post _ _ len bytes fifo known step, after.move kept placed⟩
  · rw [ret, same]
    exact ⟨post, .recvEmpty post procId len _ none, hosts.move kept placed⟩
  · have here := hosts.move kept placed
    have known := (hosts.opened procId key).mpr (UnlockQueueSet.mem_of_some found)
    obtain ⟨_, lane, inside, id, rfl, rfl⟩ := (hosts.tagged procId key queue found).1.lanes
    obtain ⟨fifo, step, _⟩ := hosts.event inside (.recv (state.segments lane.id) len)
    have value : (Channel.recv (state.segments queue.recver) len).1 = .error err := refused
    rw [id, value] at step
    rw [ret, same]
    generalize box : post.mail lane.sender lane.receiver = mailbox at step
    cases step with
    | recvEmpty => exact absurd rfl full
    | recvShort sent _ oldest rest short =>
      exact ⟨post, .recvShort post _ _ len _ oldest rest known (congrArg Fifo.pending box) short, here⟩

/-- **`Peek`.** -/
theorem Hosts.peek (hosts : Hosts initByKey state chans post) {answer : CChannel.Answer View}
    (answered : (chans procId).peek state.segments = some answer) :
    ∃ next, PostStep post (.call procId (.peek answer.chan.curRecvQueue
        (answer.ret.map fun view => view.bytes (answer.chan.currentBuff answer.segments)))) next ∧
      Hosts initByKey { state with segments := answer.segments }
        (Function.update chans procId answer.chan) next := by
  obtain ⟨placed, kept, outcome⟩ := hosts.poll peek_receives answered
  have here := hosts.move kept placed
  rcases outcome with ⟨view, key, queue, ret, cursor, found, done⟩ | ⟨ret, same, none⟩
    | ⟨err, key, queue, ret, same, full, found, refused⟩
  · have known := (hosts.opened procId key).mpr (UnlockQueueSet.mem_of_some found)
    have segments : answer.segments = state.segments := by
      rw [← queue.peek_segments state.segments, done]
    have current : answer.chan.current = some queue := by
      rw [CChannel.current, cursor, Option.bind_some, kept, found]
    obtain ⟨_, lane, inside, id, rfl, rfl⟩ := (hosts.tagged procId key queue found).1.lanes
    obtain ⟨fifo, step, _⟩ := hosts.event inside (.peek (state.segments lane.id))
    have value : (Channel.peek (state.segments queue.recver)).1 = .ok view := congrArg Prod.fst done
    rw [id, value, peek_unchanged] at step
    rw [ret, cursor, segments, CChannel.currentBuff, current]
    generalize box : post.mail lane.sender lane.receiver = mailbox at step
    generalize shown : (Except.map _ (Except.ok view) : Except Err (List UInt8)) = bytes at step
    cases step with
    | peekEmpty => cases shown
    | peekOk sent oldest rest =>
      have peeked := PostStep.peekOk post _ _ oldest rest known (congrArg Fifo.pending box)
      rw [← shown] at peeked
      exact ⟨post, peeked, here⟩
  · rw [ret, same]
    exact ⟨post, .peekEmpty post procId _ none, here⟩
  · obtain ⟨_, lane, inside, id, rfl, rfl⟩ := (hosts.tagged procId key queue found).1.lanes
    obtain ⟨fifo, step, _⟩ := hosts.event inside (.peek (state.segments lane.id))
    have value : (Channel.peek (state.segments queue.recver)).1 = .error err := refused
    rw [id, value] at step
    generalize box : post.mail lane.sender lane.receiver = mailbox at step
    cases step with
    | peekEmpty => exact absurd rfl full

end Calls

/-! ### The refinement -/

/-- **Every step of the processes is a step of the mailboxes.** -/
theorem worldMachine_simulates {initByKey : ℕ → Option ShmId} (distinct : ∀ n, Distinct initByKey n) :
    Simulation (worldMachine initByKey) postMachine
      (fun world post => Hosts initByKey world.state world.chans post) where
  init := by
    rintro ⟨shm, segments, created, chans⟩ ⟨rfl, rfl, fresh⟩
    have none : (createByKey none).config = ⟨[]⟩ := rfl
    have new : ∀ procId, (chans procId).unlockQueues = ∅ := by
      intro procId
      rw [show chans procId = .new from fresh procId]
      rfl
    refine ⟨Post.empty, rfl, ⟨Nat.zero_le _, ?_⟩, ⟨segments, ?_, ?_, ?_⟩, ?_, ?_, ?_, ?_, ?_, ?_, ?_⟩
    · exact List.nodup_nil
    · exact List.nodup_nil
    · exact nofun
    · exact nofun
    · exact nofun
    · intro procId key queue member
      dsimp only at member
      rw [new] at member
      exact absurd (UnlockQueueSet.mem_of_some member) Std.TreeMap.not_mem_emptyc
    · intro procId
      rw [fresh procId]
      exact ⟨nofun, Nat.zero_le 10⟩
    · exact fun pair => iff_of_false (Set.notMem_empty _) List.not_mem_nil
    · intro procId key
      dsimp only
      rw [new]
      exact iff_of_false (Set.notMem_empty _) Std.TreeMap.not_mem_emptyc
    · exact nofun
    · exact fun _ _ _ => rfl
  step := by
    intro world post call next hosts taken
    cases taken with
    | create channels sound =>
      obtain ⟨linked, more, asked, after⟩ := hosts.createChannels channels sound distinct
      exact ⟨_, .create post channels linked more asked, after⟩
    | init procId attach ret chan opened => exact hosts.init opened
    | getPeerIds procId before => exact ⟨post, hosts.getPeerIds before, hosts⟩
    | call procId call net short step =>
      cases step with
      | send _ dst data reserve => exact hosts.send dst data reserve short
      | recv _ len answer answered => exact hosts.recv len answered
      | peek _ answer answered => exact hosts.peek answered
      | drop _ src => exact hosts.drop src

/-- A host on which nothing has been created. -/
def hostStart : World := ⟨none, fun _ => freshQueue 0, 0, fun _ => .new⟩

/-- The host with a channel between `1` and `2`. -/
def hostLinked : World :=
  hostStart.store (create hostShm [newChannel .zero 1 2 1000 2000] none hostStart.segments 0)

/-- A process calls `Init`, and every segment attaches. -/
def World.opens (world : World) (procId : ProcId) : World :=
  { world with chans := Function.update world.chans procId (CChannel.init (fun _ => true) world.segments
      (world.shm.map GlobalConfigShm.config) procId (world.chans procId)).2 }

/-- The processes `1` and `2` have opened their ends. -/
def hostOpened : World := (hostLinked.opens 1).opens 2

/-- Process `1` has sent a message to process `2`. -/
def hostSent : World :=
  hostOpened.carry ⟨hostOpened.chans, ((hostOpened.chans 1).send hostOpened.segments 2 ⟨[7], by decide⟩
    (Vector.replicate 24 0)).2⟩

def hostCalls : List PostCall :=
  [.create [newChannel .zero 1 2 1000 2000], .init 1 (.ok ()), .init 2 (.ok ()),
    .call 1 (.send 2 ⟨[7], by decide⟩ (.ok ()))]

theorem hostLinked_run : (worldMachine hostShm).Run hostStart (hostCalls.take 2) (hostLinked.opens 1) := by
  have sound : ∀ channel ∈ [newChannel .zero 1 2 1000 2000], channel.Sound :=
    List.forall_mem_singleton.mpr ⟨by decide, ⟨by decide, by decide⟩, ⟨by decide, by decide⟩⟩
  have created : (worldMachine hostShm).Run hostStart (hostCalls.take 1) hostLinked :=
    .snoc (.nil _) (.create hostStart _ sound)
  exact .snoc created (.init hostLinked 1 (fun _ => true) (.ok ()) _ rfl)

theorem hostCalls_run : (worldMachine hostShm).Run hostStart hostCalls hostSent := by
  have opened : (worldMachine hostShm).Run hostStart (hostCalls.take 3) hostOpened :=
    .snoc hostLinked_run (.init (hostLinked.opens 1) 2 (fun _ => true) (.ok ()) _ rfl)
  have sent : ((hostOpened.chans 1).send hostOpened.segments 2 ⟨[7], by decide⟩
      (Vector.replicate 24 0)).1 = .ok () := rfl
  have step := NetworkStep.send hostOpened.network 1 2 ⟨[7], by decide⟩ (Vector.replicate 24 0)
  have short : (NetworkCall.send 2 ⟨[7], by decide⟩ (.ok ())).Short := (by decide : 1 ≤ 65528)
  exact .snoc opened (.call hostOpened 1 _ _ short (sent ▸ step))

end Yarf.Channel
