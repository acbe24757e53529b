/-
**The global configuration** (`channel_config.cc`).

`Create` adds the channels asked for to the configuration in shared memory, one by one. `AddChannel`
writes the slot behind the last channel before it knows whether the two segments can be created, and
counts the slot only at the end.

* `ConfigState.Inv` — at most `kMaxChannelCount` channels are stored, no two of them between the same
  two processes;
* `create_invariant` — it holds after every sequence of calls, whichever creations fail; what is
  stored stays as it is; a channel asked for is stored unless `AddChannel` failed for it; and the
  first `Init` of a process on it finds neither a duplicate nor a channel of other processes.
-/

import Mathlib.Data.Sym.Sym2
import Yarf.Lib.Machine
import Yarf.Channel.Source

namespace Yarf.Channel

open Lib

/-! ### The shared memory -/

def kMaxChannelCount : UInt32 := 2000

/-- The configuration in shared memory, as far as it is read. -/
structure GlobalConfigShm where
  channelCount : UInt32
  channelConf : Vector ChanConfig 2000

/-- The slots below `channel_count`. -/
def GlobalConfigShm.config (shm : GlobalConfigShm) : GlobalConfig :=
  ⟨shm.channelConf.toList.take shm.channelCount.toNat⟩

/-- A slot after `bzero`. -/
def ChanConfig.zero : ChanConfig := ⟨#v[0, 0], 0, 0, 0, 0⟩

/-- The configuration after `bzero` and the writes of `CreateByKey`. -/
def GlobalConfigShm.fresh : GlobalConfigShm := ⟨0, Vector.replicate 2000 .zero⟩

/-- A queue segment after `bzero` and the write of its capacity. -/
def freshQueue (capacity : UInt32) : Queue :=
  ⟨⟨capacity, 0, 0, 0, Vector.replicate _ 0, 0⟩, fun _ => 0⟩

/-- The memory `Create` works on: the configuration, the queue segments, and how many of these have been
asked for. -/
structure ConfigState where
  shm : GlobalConfigShm
  segments : Segments
  created : ℕ

/-! ### The calls -/

section Calls

-- the `k`-th call of `CShm::InitByKey(IPC_PRIVATE, ..)`: the id of the new segment, if there is one
variable (initByKey : ℕ → Option ShmId)

/-- The slot as `AddChannel` first writes it; the ids of the segments are those that were there. -/
def newChannel (old : ChanConfig) (peer1 peer2 : ProcId) (sendSize recvSize : UInt32) : ChanConfig :=
  { old with peerId := #v[peer1, peer2], sendSize := sendSize, recvSize := recvSize }

/-- `GlobalConfig::AddChannel`. -/
def addChannel (peer1 peer2 : ProcId) (sendSize recvSize : UInt32) (state : ConfigState) :
    Except Err Unit × ConfigState :=
  if full : state.shm.channelCount ≥ kMaxChannelCount then (.error .kCfgMaxChan, state)
  else
    have inside : state.shm.channelCount.toNat < 2000 := Nat.not_le.mp full
    let slots := state.shm.channelConf
    let slot := newChannel slots[state.shm.channelCount.toNat] peer1 peer2 sendSize recvSize
    match initByKey state.created with
    | none =>
      (.error .kArg, { state with
        shm := { state.shm with channelConf := slots.set state.shm.channelCount.toNat slot }
        created := state.created + 1 })
    | some sendShm =>
      let slot := { slot with sendShmId := sendShm }
      match initByKey (state.created + 1) with
      | none =>
        -- the first segment is marked for deletion
        (.error .kArg, { state with
          shm := { state.shm with channelConf := slots.set state.shm.channelCount.toNat slot }
          created := state.created + 2 })
      | some recvShm =>
        let slot := { slot with recvShmId := recvShm }
        (.ok (), {
          shm := ⟨state.shm.channelCount + 1, slots.set state.shm.channelCount.toNat slot⟩
          segments := Function.update (Function.update state.segments sendShm (freshQueue sendSize))
            recvShm (freshQueue recvSize)
          created := state.created + 2 })

/-- The test of `Create` on a stored channel: the same two peers, in either order. -/
def ChanConfig.sameChannel (channel stored : ChanConfig) : Bool :=
  (channel.peer0 = stored.peer0 ∧ channel.peer1 = stored.peer1) ∨
    channel.peer0 = stored.peer1 ∧ channel.peer1 = stored.peer0

/-- What `AddChannel` is called with in the loop of `Create`. -/
def addRequest (channel : ChanConfig) (state : ConfigState) : Except Err Unit × ConfigState :=
  addChannel initByKey channel.peer0 channel.peer1 channel.sendSize channel.recvSize state

/-- The loop of `Create`. What `AddChannel` returns is not looked at. -/
def createChannels : List ChanConfig → ConfigState → ConfigState
  | [], state => state
  | channel :: rest, state =>
    if state.shm.config.channels.any channel.sameChannel then createChannels rest state
    else createChannels rest (addRequest initByKey channel state).2

/-- `GlobalConfig::CreateByKey`: the configuration found, or a fresh one. -/
def createByKey (found : Option GlobalConfigShm) : GlobalConfigShm := found.getD .fresh

/-- `GlobalConfig::Create`. -/
def create (channels : List ChanConfig) (found : Option GlobalConfigShm) (segments : Segments)
    (created : ℕ) : ConfigState :=
  createChannels initByKey channels ⟨createByKey found, segments, created⟩

/-- Calls of `Create` on one key, with the channels asked for; the first one finds no segment. -/
def configMachine : Machine ConfigState (List ChanConfig) where
  init state := state.shm = createByKey none ∧ state.created = 0
  step state channels next := next = create initByKey channels (some state.shm) state.segments state.created

end Calls

/-! ### What a call changes -/

section Slots

variable {shm : GlobalConfigShm} {initByKey : ℕ → Option ShmId} {state : ConfigState}

/-- A write behind the last channel changes nothing that is stored. -/
theorem GlobalConfigShm.config_set (slot : ChanConfig) (inside : shm.channelCount.toNat < 2000) :
    GlobalConfigShm.config { shm with
      channelConf := shm.channelConf.set shm.channelCount.toNat slot } = shm.config := by
  rw [config, config]
  dsimp only
  rw [Vector.toList_set, List.take_set_of_le le_rfl]

/-- Counting the slot stores it. -/
theorem GlobalConfigShm.config_push (slot : ChanConfig) (inside : shm.channelCount.toNat < 2000) :
    GlobalConfigShm.config ⟨shm.channelCount + 1,
      shm.channelConf.set shm.channelCount.toNat slot⟩ = ⟨shm.config.channels ++ [slot]⟩ := by
  have count : (shm.channelCount + 1).toNat = shm.channelCount.toNat + 1 := by
    rw [UInt32.toNat_add, UInt32.toNat_one]
    omega
  have size : shm.channelConf.toList.length = 2000 := Vector.length_toList
  rw [config, config]
  dsimp only
  rw [count, Vector.toList_set, List.take_add_one, List.take_set_of_le le_rfl,
    List.getElem?_set_self (by omega), Option.toList_some]

/-- Nothing has been stored. -/
structure Refused (state after : ConfigState) : Prop where
  config : after.shm.config = state.shm.config
  count : after.shm.channelCount = state.shm.channelCount
  segments : after.segments = state.segments
  created : state.created ≤ after.created

/-- The channel has been stored behind the others, on two new segments. -/
structure Added (initByKey : ℕ → Option ShmId) (channel : ChanConfig) (sendShm recvShm : ShmId)
    (state after : ConfigState) : Prop where
  room : state.shm.channelCount.toNat < 2000
  first : initByKey state.created = some sendShm
  second : initByKey (state.created + 1) = some recvShm
  config : after.shm.config = ⟨state.shm.config.channels ++
    [{ channel with sendShmId := sendShm, recvShmId := recvShm }]⟩
  count : after.shm.channelCount = state.shm.channelCount + 1
  segments : after.segments = Function.update (Function.update state.segments sendShm
    (freshQueue channel.sendSize)) recvShm (freshQueue channel.recvSize)
  created : after.created = state.created + 2

theorem newChannel_ids (old channel : ChanConfig) (sendShm recvShm : ShmId) :
    { newChannel old channel.peer0 channel.peer1 channel.sendSize channel.recvSize with
      sendShmId := sendShm, recvShmId := recvShm } =
    { channel with sendShmId := sendShm, recvShmId := recvShm } := by
  have peers : #v[channel.peer0, channel.peer1] = channel.peerId := by
    ext i below
    match i, below with
    | 0, _ => rfl
    | 1, _ => rfl
  rw [newChannel, peers]

/-- **`AddChannel`** stores nothing and fails, or it stores the channel. -/
theorem addRequest_cases (channel : ChanConfig) :
    (∃ err, (addRequest initByKey channel state).1 = .error err ∧
      Refused state (addRequest initByKey channel state).2) ∨
    ∃ sendShm recvShm, (addRequest initByKey channel state).1 = .ok () ∧
      Added initByKey channel sendShm recvShm state (addRequest initByKey channel state).2 := by
  unfold addRequest addChannel
  by_cases full : state.shm.channelCount ≥ kMaxChannelCount
  · rw [dif_pos full]
    exact Or.inl ⟨_, rfl, rfl, rfl, rfl, le_rfl⟩
  · have inside : state.shm.channelCount.toNat < 2000 := Nat.not_le.mp full
    rw [dif_neg full]
    cases first : initByKey state.created with
    | none =>
      exact Or.inl ⟨_, rfl, GlobalConfigShm.config_set _ inside, rfl, rfl, Nat.le_add_right _ 1⟩
    | some sendShm =>
      dsimp only
      cases second : initByKey (state.created + 1) with
      | none =>
        exact Or.inl ⟨_, rfl, GlobalConfigShm.config_set _ inside, rfl, rfl, Nat.le_add_right _ 2⟩
      | some recvShm =>
        refine Or.inr ⟨sendShm, recvShm, rfl, inside, first, second, ?_, rfl, rfl, rfl⟩
        have stored := newChannel_ids state.shm.channelConf[state.shm.channelCount.toNat] channel
          sendShm recvShm
        exact (GlobalConfigShm.config_push _ inside).trans
          (congrArg (fun slot => GlobalConfig.mk (state.shm.config.channels ++ [slot])) stored)

end Slots

/-! ### The invariant -/

/-- The two processes of a channel, in no order. -/
def ChanConfig.pair (channel : ChanConfig) : Sym2 ProcId := s(channel.peer0, channel.peer1)

theorem ChanConfig.sameChannel_iff (channel stored : ChanConfig) :
    channel.sameChannel stored = true ↔ channel.pair = stored.pair := by
  rw [sameChannel, decide_eq_true_iff, pair, pair, Sym2.eq_iff]

/-- Some channel is stored for the two processes. -/
def GlobalConfig.Stores (config : GlobalConfig) (pair : Sym2 ProcId) : Prop :=
  pair ∈ config.channels.map ChanConfig.pair

theorem GlobalConfig.stores_iff (config : GlobalConfig) (channel : ChanConfig) :
    config.channels.any channel.sameChannel = true ↔ config.Stores channel.pair := by
  rw [List.any_eq_true, Stores, List.mem_map]
  exact exists_congr fun stored =>
    and_congr_right fun _ => (channel.sameChannel_iff stored).trans eq_comm

/-- A configuration with at most `kMaxChannelCount` channels, no two between the same processes. -/
structure ConfigState.Inv (state : ConfigState) : Prop where
  count : state.shm.channelCount.toNat ≤ 2000
  pairs : (state.shm.config.channels.map ChanConfig.pair).Nodup

section Create

variable {initByKey : ℕ → Option ShmId} {state : ConfigState}

theorem ConfigState.Inv.refused {after : ConfigState} (inv : state.Inv) (refused : Refused state after) :
    after.Inv :=
  ⟨refused.count ▸ inv.count, refused.config ▸ inv.pairs⟩

theorem ConfigState.Inv.added {after : ConfigState} {channel : ChanConfig} {sendShm recvShm : ShmId}
    (inv : state.Inv) (absent : ¬state.shm.config.Stores channel.pair)
    (added : Added initByKey channel sendShm recvShm state after) : after.Inv := by
  have room := added.room
  constructor
  · rw [added.count, UInt32.toNat_add, UInt32.toNat_one]
    omega
  · rw [added.config, List.map_append]
    have appended := inv.pairs.concat absent
    rw [List.concat_eq_append] at appended
    exact appended

/-- A rule for the loop of `Create`: what both outcomes of `AddChannel` keep, for a channel that is not
stored yet, the loop keeps. -/
theorem createChannels_induction (P : ConfigState → Prop) (channels : List ChanConfig)
    (refused : ∀ state after, P state → Refused state after → P after)
    (added : ∀ channel sendShm recvShm state after, P state → ¬state.shm.config.Stores channel.pair →
      Added initByKey channel sendShm recvShm state after → P after)
    (base : P state) : P (createChannels initByKey channels state) := by
  induction channels generalizing state with
  | nil => exact base
  | cons channel rest ih =>
    unfold createChannels
    by_cases stored : state.shm.config.channels.any channel.sameChannel = true
    · rw [if_pos stored]
      exact ih base
    · rw [if_neg stored]
      rw [GlobalConfig.stores_iff] at stored
      apply ih
      rcases @addRequest_cases initByKey state channel with ⟨_, _, none⟩ | ⟨sendShm, recvShm, _, one⟩
      · exact refused _ _ base none
      · exact added _ _ _ _ _ base stored one

theorem createChannels_inv (channels : List ChanConfig) (inv : state.Inv) :
    (createChannels initByKey channels state).Inv :=
  createChannels_induction ConfigState.Inv channels
    (fun _ _ inv refused => inv.refused refused)
    (fun _ _ _ _ _ inv absent added => inv.added absent added) inv

/-- What is stored stays, in its place. -/
theorem createChannels_extends (channels : List ChanConfig) :
    state.shm.config.channels <+: (createChannels initByKey channels state).shm.config.channels := by
  refine createChannels_induction
    (fun after => state.shm.config.channels <+: after.shm.config.channels) channels ?_ ?_ (List.prefix_refl _)
  · intro last after before refused
    rw [refused.config]
    exact before
  · intro channel sendShm recvShm last after before _ added
    rw [added.config]
    exact before.trans (List.prefix_append _ _)

theorem createChannels_append (channels more : List ChanConfig) :
    createChannels initByKey (channels ++ more) state =
      createChannels initByKey more (createChannels initByKey channels state) := by
  induction channels generalizing state with
  | nil => rfl
  | cons channel rest ih =>
    rw [List.cons_append, createChannels, createChannels]
    split_ifs
    · exact ih
    · exact ih

theorem GlobalConfig.Stores.mono {config later : GlobalConfig} {pair : Sym2 ProcId}
    (stored : config.Stores pair) (grown : config.channels <+: later.channels) : later.Stores pair :=
  (grown.map ChanConfig.pair).subset stored

/-- What `AddChannel` did with a channel, in the middle of the loop. -/
def AddFailed (initByKey : ℕ → Option ShmId) (channel : ChanConfig) (state : ConfigState) : Prop :=
  ¬state.shm.config.Stores channel.pair ∧ ∃ err, (addRequest initByKey channel state).1 = .error err

/-- **A channel asked for** is stored, or `AddChannel` has been called for it and failed. -/
theorem createChannels_requested (before rest : List ChanConfig) (channel : ChanConfig) :
    (createChannels initByKey (before ++ channel :: rest) state).shm.config.Stores channel.pair ∨
      AddFailed initByKey channel (createChannels initByKey before state) := by
  rw [createChannels_append]
  generalize createChannels initByKey before state = here
  rw [createChannels]
  by_cases stored : here.shm.config.channels.any channel.sameChannel = true
  · rw [if_pos stored]
    exact Or.inl (((GlobalConfig.stores_iff _ _).mp stored).mono (createChannels_extends rest))
  · rw [if_neg stored]
    rw [GlobalConfig.stores_iff] at stored
    rcases @addRequest_cases initByKey here channel with ⟨err, failed, _⟩ | ⟨sendShm, recvShm, _, one⟩
    · exact Or.inr ⟨stored, err, failed⟩
    · refine Or.inl (GlobalConfig.Stores.mono ?_ (createChannels_extends rest))
      rw [GlobalConfig.Stores, one.config, List.map_append]
      exact List.mem_append_right _ List.mem_cons_self

end Create

/-! ### `Init` on such a configuration -/

section Init

variable {attach : ShmId → Bool} {segments : Segments} {procId : ProcId} {queues : UnlockQueueSet}

theorem initSide_error {mem : Option Queue} {capacity : UInt32} {err : Err}
    (failed : initSide mem capacity = .error err) : err = .kArg := by
  unfold initSide at failed
  split at failed
  · cases failed
    rfl
  · split_ifs at failed
    cases failed
    rfl

theorem CUnlockQueue.init_error {recver sender : ShmId} {recvCapacity sendCapacity peerId : UInt32}
    {err : Err}
    (failed : init segments recver recvCapacity sender sendCapacity peerId = .error err) :
    err = .kArg := by
  unfold init at failed
  split at failed
  case h_1 found =>
    cases failed
    exact initSide_error found
  case h_2 =>
    split at failed
    case h_1 found =>
      cases failed
      exact initSide_error found
    case h_2 => cases failed

/-- The peer that `Init` stores the queue of a channel under. -/
theorem ChanConfig.orient_of_mem {channel : ChanConfig}
    (own : channel.peer0 = procId ∨ channel.peer1 = procId) :
    ∃ peerId view, channel.orient procId = .ok (peerId, view) ∧ channel.pair = s(procId, peerId) := by
  unfold orient
  by_cases second : procId = channel.peer1
  · rw [if_pos second]
    exact ⟨_, _, rfl, by rw [pair, second, Sym2.eq_swap]⟩
  · rw [if_neg second]
    have first : procId = channel.peer0 := own.elim Eq.symm fun same => absurd same.symm second
    rw [if_neg (not_not.mpr first)]
    exact ⟨_, _, rfl, by rw [pair, first]⟩

/-- One queue of `Init`: nothing but a bad argument can stop it. -/
theorem CChannel.openQueue_result {channel : ChanConfig}
    (own : channel.peer0 = procId ∨ channel.peer1 = procId)
    (unused : ∀ key ∈ queues, channel.pair ≠ s(procId, key)) :
    openQueue attach segments procId queues channel = .error .kArg ∨
      ∃ key queue, openQueue attach segments procId queues channel = .ok (key, queue) ∧
        channel.pair = s(procId, key) := by
  obtain ⟨key, view, oriented, pair⟩ := ChanConfig.orient_of_mem own
  have fresh : key ∉ queues := fun member => unused key member pair
  unfold openQueue
  rw [oriented]
  dsimp only
  rw [if_neg fresh]
  split_ifs
  · exact Or.inl rfl
  · exact Or.inl rfl
  · cases built : CUnlockQueue.init segments view.recvShmId view.recvSize view.sendShmId view.sendSize
      key.toUInt32 with
    | error err =>
      rw [CUnlockQueue.init_error built]
      exact Or.inl rfl
    | ok queue => exact Or.inr ⟨key, queue, rfl, pair⟩

/-- The loop of `Init` over channels between different pairs of processes. -/
theorem CChannel.openQueues_result {channels : List ChanConfig}
    (own : ∀ channel ∈ channels, channel.peer0 = procId ∨ channel.peer1 = procId)
    (pairs : (channels.map ChanConfig.pair).Nodup)
    (unused : ∀ channel ∈ channels, ∀ key ∈ queues, channel.pair ≠ s(procId, key)) :
    (openQueues attach segments procId channels queues).1 = .ok () ∨
      (openQueues attach segments procId channels queues).1 = .error .kArg := by
  induction channels generalizing queues with
  | nil => exact Or.inl rfl
  | cons channel rest ih =>
    rw [List.map_cons, List.nodup_cons] at pairs
    unfold openQueues
    rcases @openQueue_result attach segments procId queues channel (own _ List.mem_cons_self)
      (unused _ List.mem_cons_self) with failed | ⟨key, queue, opened, pair⟩
    · rw [failed]
      exact Or.inr rfl
    · rw [opened]
      refine ih (fun other member => own other (List.mem_cons_of_mem _ member)) pairs.2 ?_
      intro other member used inside
      rcases Std.TreeMap.mem_insert.mp inside with same | old
      · rw [← Std.LawfulEqCmp.eq_of_compare same, ← pair]
        exact fun equal => pairs.1 (equal ▸ List.mem_map_of_mem member)
      · exact unused other (List.mem_cons_of_mem _ member) used old

/-- **The first `Init`** of a process fails with `kArg` only. -/
theorem CChannel.init_result {config : GlobalConfig}
    (pairs : (config.channels.map ChanConfig.pair).Nodup) :
    (init attach segments (some config) procId new).1 = .ok () ∨
      (init attach segments (some config) procId new).1 = .error .kArg := by
  have own : ∀ channel ∈ config.getChansByProcId procId,
      channel.peer0 = procId ∨ channel.peer1 = procId :=
    fun channel member => of_decide_eq_true (List.mem_filter.mp member).2
  have some : ((config.getChansByProcId procId).map ChanConfig.pair).Nodup :=
    pairs.sublist (List.filter_sublist.map _)
  have none : ∀ channel ∈ config.getChansByProcId procId, ∀ key ∈ new.unlockQueues,
      channel.pair ≠ s(procId, key) :=
    fun _ _ key member => absurd member Std.TreeMap.not_mem_emptyc
  rw [init_ret]
  exact openQueues_result own some none

end Init

/-- What every sequence of calls of `Create` on a fresh segment keeps. -/
theorem configMachine_inv {initByKey : ℕ → Option ShmId} {state : ConfigState}
    (reached : (configMachine initByKey).Reachable state) : state.Inv := by
  have base : ∀ start, (configMachine initByKey).init start → start.Inv := by
    intro start begins
    have fresh : start.shm = .fresh := begins.1
    refine ⟨?_, ?_⟩
    · rw [fresh]
      exact Nat.zero_le 2000
    · rw [fresh]
      exact List.nodup_nil
  refine reached.invariant base ?_
  intro last channels next _ inv taken
  rw [show next = create initByKey channels (some last.shm) last.segments last.created from taken]
  exact createChannels_inv channels inv

theorem configMachine_extends {initByKey : ℕ → Option ShmId} {state later : ConfigState}
    {calls : List (List ChanConfig)} (run : (configMachine initByKey).Run state calls later) :
    state.shm.config.channels <+: later.shm.config.channels := by
  have keep : ∀ last channels next, state.shm.config.channels <+: last.shm.config.channels →
      (configMachine initByKey).step last channels next →
      state.shm.config.channels <+: next.shm.config.channels := by
    intro last channels next before taken
    rw [show next = create initByKey channels (some last.shm) last.segments last.created from taken]
    exact before.trans (createChannels_extends _)
  exact Machine.Leads.invariant keep ⟨calls, run⟩ (List.prefix_refl _)

/-- **The invariant of the configuration.** For every sequence of calls of `Create` that starts on a
fresh segment, whichever creations of queue segments fail: at most `2000` channels are stored, no two
of them between the same two processes; what is stored stays, unchanged and in its place, whatever is
called later; a channel asked for is still missing later on only if `AddChannel` was called for it and
failed; and the first `Init` of any process returns neither `kChanCfgDuplicateChan` nor `kUnexpect`. -/
theorem create_invariant (initByKey : ℕ → Option ShmId) (state : ConfigState)
    (reached : (configMachine initByKey).Reachable state) :
    state.shm.channelCount.toNat ≤ 2000 ∧
    (state.shm.config.channels.map ChanConfig.pair).Nodup ∧
    (∀ calls later, (configMachine initByKey).Run state calls later →
      state.shm.config.channels <+: later.shm.config.channels) ∧
    (∀ before channel rest next calls later,
      (configMachine initByKey).step state (before ++ channel :: rest) next →
      (configMachine initByKey).Run next calls later →
      ¬later.shm.config.Stores channel.pair →
        AddFailed initByKey channel (createChannels initByKey before state)) ∧
    ∀ attach segments procId,
      (CChannel.init attach segments (some state.shm.config) procId .new).1
        ≠ .error .kChanCfgDuplicateChan ∧
      (CChannel.init attach segments (some state.shm.config) procId .new).1 ≠ .error .kUnexpect := by
  have inv := configMachine_inv reached
  refine ⟨inv.count, inv.pairs, fun calls later run => configMachine_extends run, ?_, ?_⟩
  · intro before channel rest next calls later taken run missing
    have next_eq : next = createChannels initByKey (before ++ channel :: rest) state := taken
    rcases @createChannels_requested initByKey state before rest channel with stored | failed
    · rw [← next_eq] at stored
      exact absurd (stored.mono (configMachine_extends run)) missing
    · exact failed
  · intro attach segments procId
    rcases @CChannel.init_result attach segments procId _ inv.pairs with done | failed
    · rw [done]
      exact ⟨nofun, nofun⟩
    · rw [failed]
      exact ⟨nofun, nofun⟩

/-- Segments with the ids `0`, `1`, `2` and so on. -/
def countingShm (k : ℕ) : Option ShmId := some (Int32.ofNat k)

/-- The configuration after one call that asks for the same channel from both ends. -/
def twiceAsked : ConfigState :=
  create countingShm [⟨#v[1, 2], 0, 0, 1000, 2000⟩, ⟨#v[2, 1], 0, 0, 3000, 4000⟩]
    (some (createByKey none)) (fun _ => freshQueue 0) 0

/-- The channel is stored once. -/
theorem create_invariant_twice :
    twiceAsked.shm.config.channels.length = 1 ∧
      (twiceAsked.shm.config.channels.map ChanConfig.pair).Nodup := by
  have start : (configMachine countingShm).Reachable
      ⟨createByKey none, fun _ => freshQueue 0, 0⟩ := .start ⟨rfl, rfl⟩
  exact ⟨rfl, (create_invariant countingShm twiceAsked (start.next rfl)).2.1⟩

end Yarf.Channel
