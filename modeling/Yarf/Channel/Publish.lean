/-
**Channels are published whole.**

`AddChannel` writes the slot behind the last one field by field, creates the two queue segments, writes
their capacities and counts the slot at the very end. Meanwhile other processes may be in
`GetChansByProcId`, which reads `channel_count` again in every round of its loop and copies the slots field
by field. `PublishStep` cuts one creator and any number of such readers at every access to the shared
memory and runs them in any order.

* `addWrites` — the accesses of one call of `AddChannel`; made in one go they are `addChannel`
  (`addWrites_eq`);
* `Published` — what is stored is what the atomic calls so far have stored;
* `Reads` — what a reader has found and copied so far is what is stored;
* `getChans_linearizable` — a reader that returns has found what an atomic `GetChansByProcId` would have
  found at its last read of `channel_count`, and the queues of all of it are ready for use.
-/

import Yarf.Channel.Wiring

namespace Yarf.Channel

open Lib

/-! ### The fields of a slot -/

inductive Field
  | peer0
  | peer1
  | sendShmId
  | recvShmId
  | sendSize
  | recvSize
  deriving DecidableEq

/-- The fields in the order they lie in. -/
def Field.all : List Field := [.peer0, .peer1, .sendShmId, .recvShmId, .sendSize, .recvSize]

/-- One field of the first channel is copied into the second. -/
def Field.copy (source : ChanConfig) : Field → ChanConfig → ChanConfig
  | .peer0, target => { target with peerId := #v[source.peer0, target.peer1] }
  | .peer1, target => { target with peerId := #v[target.peer0, source.peer1] }
  | .sendShmId, target => { target with sendShmId := source.sendShmId }
  | .recvShmId, target => { target with recvShmId := source.recvShmId }
  | .sendSize, target => { target with sendSize := source.sendSize }
  | .recvSize, target => { target with recvSize := source.recvSize }

/-- The two channels have the field in common. -/
def Field.Same (first second : ChanConfig) : Field → Prop
  | .peer0 => first.peer0 = second.peer0
  | .peer1 => first.peer1 = second.peer1
  | .sendShmId => first.sendShmId = second.sendShmId
  | .recvShmId => first.recvShmId = second.recvShmId
  | .sendSize => first.sendSize = second.sendSize
  | .recvSize => first.recvSize = second.recvSize

section Fields

variable {source target : ChanConfig}

theorem Field.same_copy (field : Field) : field.Same (field.copy source target) source := by
  cases field <;> rfl

/-- A copied field leaves the others alone. -/
theorem Field.same_copy_other {field other : Field} (apart : other ≠ field) {channel : ChanConfig}
    (same : other.Same target channel) : other.Same (field.copy source target) channel := by
  cases field <;> cases other <;> first | exact absurd rfl apart | exact same

theorem Field.ext (same : ∀ field : Field, field.Same source target) : source = target := by
  obtain ⟨peers, sendShm, recvShm, sendSize, recvSize⟩ := source
  obtain ⟨peers', sendShm', recvShm', sendSize', recvSize'⟩ := target
  have first : peers[0] = peers'[0] := same .peer0
  have second : peers[1] = peers'[1] := same .peer1
  obtain rfl : peers = peers' := by
    ext i below
    rcases i with _ | _ | i
    · exact congrArg _ first
    · exact congrArg _ second
    · omega
  obtain rfl : sendShm = sendShm' := same .sendShmId
  obtain rfl : recvShm = recvShm' := same .recvShmId
  obtain rfl : sendSize = sendSize' := same .sendSize
  obtain rfl : recvSize = recvSize' := same .recvSize
  rfl

end Fields

/-! ### The creator -/

/-- One access of `AddChannel` to the shared memory. -/
inductive Write
  /-- A field of the slot behind the last one. -/
  | slot (field : Field) (channel : ChanConfig)
  /-- `CShm::InitByKey(IPC_PRIVATE, ..)`, and the zeros it fills a new segment with. -/
  | newShm (id : Option ShmId)
  | capacity (id : ShmId) (size : UInt32)
  /-- `channel_count++` -/
  | count

/-- The slot behind the last one is changed. -/
def GlobalConfigShm.setNext (shm : GlobalConfigShm) (change : ChanConfig → ChanConfig) : GlobalConfigShm :=
  if inside : shm.channelCount.toNat < 2000 then
    let slot := change shm.channelConf[shm.channelCount.toNat]
    { shm with channelConf := shm.channelConf.set shm.channelCount.toNat slot }
  else shm

def Queue.withCapacity (queue : Queue) (size : UInt32) : Queue :=
  { queue with header := { queue.header with capacity := size } }

def Write.apply : Write → ConfigState → ConfigState
  | .slot field channel, state => { state with shm := state.shm.setNext (field.copy channel) }
  | .newShm none, state => { state with created := state.created + 1 }
  | .newShm (some id), state => { state with
      segments := Function.update state.segments id (freshQueue 0)
      created := state.created + 1 }
  | .capacity id size, state => { state with
      segments := Function.update state.segments id ((state.segments id).withCapacity size) }
  | .count, state => { state with
      shm := { state.shm with channelCount := state.shm.channelCount + 1 } }

def applyAll (writes : List Write) (state : ConfigState) : ConfigState :=
  writes.foldl (fun state write => write.apply state) state

/-- The fields `AddChannel` writes before it creates the segments. -/
def slotWrites (channel : ChanConfig) : List Write :=
  [.slot .peer0 channel, .slot .peer1 channel, .slot .sendSize channel, .slot .recvSize channel]

/-- What `AddChannel` does with two new segments. -/
def segmentWrites (channel : ChanConfig) (sendShm recvShm : ShmId) : List Write :=
  [.newShm (some sendShm), .slot .sendShmId { channel with sendShmId := sendShm },
    .newShm (some recvShm), .slot .recvShmId { channel with recvShmId := recvShm },
    .capacity sendShm channel.sendSize, .capacity recvShm channel.recvSize, .count]

/-- The accesses of `AddChannel`, when there is a slot left; `created` segments have been asked for. -/
def addWrites (initByKey : ℕ → Option ShmId) (channel : ChanConfig) (created : ℕ) : List Write :=
  slotWrites channel ++
    match initByKey created with
    | none => [.newShm none]
    | some sendShm =>
      match initByKey (created + 1) with
      | none =>
        [.newShm (some sendShm), .slot .sendShmId { channel with sendShmId := sendShm }, .newShm none]
      | some recvShm => segmentWrites channel sendShm recvShm

/-! ### The readers -/

/-- Where a reader stands in `GetChansByProcId`. -/
inductive Reader
  /-- It is about to read `channel_count`. -/
  | counting (procId : ProcId) (idx : ℕ) (found : List ChanConfig)
  /-- It is about to read `peer_id[0]` of the slot. -/
  | first (procId : ProcId) (idx : ℕ) (found : List ChanConfig)
  | second (procId : ProcId) (idx : ℕ) (found : List ChanConfig)
  /-- It has copied all fields but these. -/
  | copying (procId : ProcId) (idx : ℕ) (found : List ChanConfig) (copy : ChanConfig) (left : List Field)
  | done (procId : ProcId) (found : List ChanConfig)

/-- The slot a reader looks at. -/
def GlobalConfigShm.slot (shm : GlobalConfigShm) (idx : ℕ) : ChanConfig := shm.channelConf[idx]?.getD .zero

/-- The next step of a reader. -/
def Reader.next (shm : GlobalConfigShm) : Reader → Reader
  | .counting procId idx found =>
    if idx < shm.channelCount.toNat then .first procId idx found else .done procId found
  | .first procId idx found =>
    if (shm.slot idx).peer0 = procId then .copying procId idx found .zero Field.all
    else .second procId idx found
  | .second procId idx found =>
    if (shm.slot idx).peer1 = procId then .copying procId idx found .zero Field.all
    else .counting procId (idx + 1) found
  | .copying procId idx found copy (field :: left) =>
    .copying procId idx found (field.copy (shm.slot idx) copy) left
  | .copying procId idx found copy [] => .counting procId (idx + 1) (found ++ [copy])
  | .done procId found => .done procId found

/-- One creator, in its loop over the channels asked for, and the readers. -/
structure Publishing where
  state : ConfigState
  /-- The channels asked for that `Create` is done with. -/
  idx : ℕ
  /-- What is left of the call of `AddChannel`. -/
  todo : List Write
  readers : ℕ → Reader

/-- One step of the creator, or of a reader. -/
inductive PublishStep (initByKey : ℕ → Option ShmId) (channels : List ChanConfig) :
    Publishing → Option ℕ → Publishing → Prop
  /-- The channel exists, or `AddChannel` returns at once. -/
  | skip (now : Publishing) (channel : ChanConfig) :
      now.todo = [] → channels[now.idx]? = some channel →
      (now.state.shm.config.channels.any channel.sameChannel = true ∨
        now.state.shm.channelCount ≥ kMaxChannelCount) →
      PublishStep initByKey channels now none { now with idx := now.idx + 1 }
  | add (now : Publishing) (channel : ChanConfig) :
      now.todo = [] → channels[now.idx]? = some channel →
      ¬ now.state.shm.config.channels.any channel.sameChannel = true →
      ¬ now.state.shm.channelCount ≥ kMaxChannelCount →
      PublishStep initByKey channels now none
        { now with todo := addWrites initByKey channel now.state.created }
  | write (now : Publishing) (write : Write) (more : Write) (todo : List Write) :
      now.todo = write :: more :: todo →
      PublishStep initByKey channels now none
        { now with state := write.apply now.state, todo := more :: todo }
  /-- The last access of the call. -/
  | last (now : Publishing) (write : Write) :
      now.todo = [write] →
      PublishStep initByKey channels now none
        { now with state := write.apply now.state, todo := [], idx := now.idx + 1 }
  | read (now : Publishing) (reader : ℕ) :
      PublishStep initByKey channels now (some reader)
        { now with
          readers := Function.update now.readers reader ((now.readers reader).next now.state.shm) }

/-- One call of `Create` on a configuration, against readers that begin. -/
def publishMachine (initByKey : ℕ → Option ShmId) (channels : List ChanConfig) (start : ConfigState) :
    Machine Publishing (Option ℕ) where
  init now := now.state = start ∧ now.idx = 0 ∧ now.todo = [] ∧
    ∀ reader, ∃ procId, now.readers reader = .counting procId 0 []
  step := PublishStep initByKey channels

/-! ### `AddChannel` access by access -/

section Add

variable {initByKey : ℕ → Option ShmId} {state : ConfigState} {channel : ChanConfig}

@[simp]
theorem applyAll_nil : applyAll [] state = state := rfl

@[simp]
theorem applyAll_cons (write : Write) (writes : List Write) :
    applyAll (write :: writes) state = applyAll writes (write.apply state) := rfl

theorem applyAll_append (first second : List Write) :
    applyAll (first ++ second) state = applyAll second (applyAll first state) :=
  List.foldl_append

/-- Until it is counted, nothing that is written is stored. -/
theorem GlobalConfigShm.config_setNext (shm : GlobalConfigShm) (change : ChanConfig → ChanConfig) :
    (shm.setNext change).config = shm.config := by
  unfold setNext
  split_ifs with inside
  · exact GlobalConfigShm.config_set _ inside
  · rfl

theorem GlobalConfigShm.count_setNext (shm : GlobalConfigShm) (change : ChanConfig → ChanConfig) :
    (shm.setNext change).channelCount = shm.channelCount := by
  unfold setNext
  split_ifs <;> rfl

/-- The accesses before the count store nothing. -/
theorem Write.apply_config {write : Write} (early : write ≠ .count) :
    (write.apply state).shm.config = state.shm.config ∧
      (write.apply state).shm.channelCount = state.shm.channelCount := by
  cases write with
  | slot field channel =>
    exact ⟨GlobalConfigShm.config_setNext _ _, GlobalConfigShm.count_setNext _ _⟩
  | newShm id =>
    cases id with
    | none => exact ⟨rfl, rfl⟩
    | some id => exact ⟨rfl, rfl⟩
  | capacity id size => exact ⟨rfl, rfl⟩
  | count => exact absurd rfl early

theorem slot_peers (old channel : ChanConfig) :
    Field.copy channel .recvSize (Field.copy channel .sendSize
      (Field.copy channel .peer1 (Field.copy channel .peer0 old)))
      = newChannel old channel.peer0 channel.peer1 channel.sendSize channel.recvSize := rfl

/-- Two segments that are filled with zeros and then given their capacities. -/
theorem fresh_capacities (segments : Segments) (sendShm recvShm : ShmId) (sendSize recvSize : UInt32) :
    let zeroed := Function.update (Function.update segments sendShm (freshQueue 0)) recvShm (freshQueue 0)
    let sized := Function.update zeroed sendShm ((zeroed sendShm).withCapacity sendSize)
    Function.update sized recvShm ((sized recvShm).withCapacity recvSize) =
      Function.update (Function.update segments sendShm (freshQueue sendSize)) recvShm
        (freshQueue recvSize) := by
  have again : ∀ old size, (freshQueue old).withCapacity size = freshQueue size := fun _ _ => rfl
  funext id
  by_cases same : sendShm = recvShm
  · subst same
    by_cases here : id = sendShm
    · simp [here, again]
    · simp [Function.update_of_ne here]
  · by_cases recv : id = recvShm
    · simp [recv, Function.update_of_ne (Ne.symm same), again]
    · by_cases send : id = sendShm
      · simp [send, Function.update_of_ne same, again]
      · simp [Function.update_of_ne recv, Function.update_of_ne send]

/-- **`AddChannel` in one go** is `addChannel`; only what a segment holds that was given up may differ. -/
theorem addWrites_eq (room : ¬ state.shm.channelCount ≥ kMaxChannelCount) :
    (applyAll (addWrites initByKey channel state.created) state).shm
        = (addRequest initByKey channel state).2.shm ∧
      (applyAll (addWrites initByKey channel state.created) state).created
        = (addRequest initByKey channel state).2.created ∧
      ((addRequest initByKey channel state).1 = .ok () →
        applyAll (addWrites initByKey channel state.created) state
          = (addRequest initByKey channel state).2) ∧
      ((addRequest initByKey channel state).1 ≠ .ok () → ∀ id, initByKey state.created ≠ some id →
        (applyAll (addWrites initByKey channel state.created) state).segments id = state.segments id) := by
  have inside : state.shm.channelCount.toNat < 2000 := Nat.not_le.mp room
  unfold addRequest addChannel addWrites
  rw [dif_neg room]
  cases first : initByKey state.created with
  | none =>
    simp [slotWrites, Write.apply, GlobalConfigShm.setNext, inside, slot_peers]
  | some sendShm =>
    dsimp only
    cases second : initByKey (state.created + 1) with
    | none =>
      simp [slotWrites, Write.apply, GlobalConfigShm.setNext, inside, slot_peers]
      refine ⟨rfl, fun id apart => Function.update_of_ne (Ne.symm apart) _ _⟩
    | some recvShm =>
      simp [slotWrites, segmentWrites, Write.apply, GlobalConfigShm.setNext, inside, slot_peers]
      exact ⟨rfl, fresh_capacities _ _ _ _ _⟩

/-- The count is the last access. -/
theorem addWrites_count {made todo : List Write} {created : ℕ}
    (program : made ++ todo = addWrites initByKey channel created) (more : todo ≠ []) :
    ∀ write ∈ made, write ≠ .count := by
  have last : ∀ write ∈ (addWrites initByKey channel created).dropLast, write ≠ .count := by
    unfold addWrites
    cases initByKey created with
    | none => simp [slotWrites]
    | some sendShm =>
      dsimp only
      cases initByKey (created + 1) with
      | none => simp [slotWrites]
      | some recvShm => simp [slotWrites, segmentWrites]
  intro write member
  refine last write ?_
  rw [← program, List.dropLast_append_of_ne_nil more]
  exact List.mem_append_left _ member

/-- The accesses made so far store nothing. -/
theorem applyAll_config {writes : List Write} (early : ∀ write ∈ writes, write ≠ .count) :
    (applyAll writes state).shm.config = state.shm.config ∧
      (applyAll writes state).shm.channelCount = state.shm.channelCount := by
  induction writes generalizing state with
  | nil => exact ⟨rfl, rfl⟩
  | cons write rest ih =>
    obtain ⟨first, others⟩ := List.forall_mem_cons.mp early
    obtain ⟨config, count⟩ := @Write.apply_config state write first
    obtain ⟨config', count'⟩ := @ih (write.apply state) others
    exact ⟨config'.trans config, count'.trans count⟩

/-- The segment an access changes. -/
def Write.touches : Write → Option ShmId
  | .newShm id => id
  | .capacity id _ => some id
  | _ => none

theorem applyAll_segments {writes : List Write} {id : ShmId}
    (others : ∀ write ∈ writes, write.touches ≠ some id) :
    (applyAll writes state).segments id = state.segments id := by
  induction writes generalizing state with
  | nil => rfl
  | cons write rest ih =>
    obtain ⟨first, later⟩ := List.forall_mem_cons.mp others
    rw [applyAll_cons, ih later]
    cases write with
    | slot | count => rfl
    | newShm shm =>
      cases shm with
      | none => rfl
      | some shm => exact Function.update_of_ne (fun same => first (congrArg some same.symm)) _ _
    | capacity shm size => exact Function.update_of_ne (fun same => first (congrArg some same.symm)) _ _

/-- `AddChannel` keeps to the segments it has just created. -/
theorem addWrites_touches {created : ℕ} : ∀ write ∈ addWrites initByKey channel created, ∀ id,
    write.touches = some id → initByKey created = some id ∨ initByKey (created + 1) = some id := by
  unfold addWrites
  cases first : initByKey created with
  | none => simp [slotWrites, Write.touches]
  | some sendShm =>
    dsimp only
    cases second : initByKey (created + 1) with
    | none => simp [slotWrites, Write.touches]
    | some recvShm => simp +contextual [slotWrites, segmentWrites, Write.touches]

/-- `AddChannel` does not look at what the segments hold. -/
theorem addRequest_segments (segments : Segments) :
    (addRequest initByKey channel { state with segments := segments }).1
        = (addRequest initByKey channel state).1 ∧
      (addRequest initByKey channel { state with segments := segments }).2.shm
        = (addRequest initByKey channel state).2.shm ∧
      (addRequest initByKey channel { state with segments := segments }).2.created
        = (addRequest initByKey channel state).2.created := by
  unfold addRequest addChannel
  dsimp only
  split_ifs with full
  · exact ⟨rfl, rfl, rfl⟩
  · cases initByKey state.created with
    | none => exact ⟨rfl, rfl, rfl⟩
    | some sendShm =>
      dsimp only
      cases initByKey (state.created + 1) with
      | none => exact ⟨rfl, rfl, rfl⟩
      | some recvShm => exact ⟨rfl, rfl, rfl⟩

end Add

/-! ### What is stored while a channel is being added -/

/-- The memory as the calls of `AddChannel` that have returned have left it. -/
def Publishing.base (initByKey : ℕ → Option ShmId) (channels : List ChanConfig) (start : ConfigState)
    (now : Publishing) : ConfigState :=
  createChannels initByKey (channels.take now.idx) start

/-- The same configuration, and the same in all segments of its channels. -/
structure SameStored (state other : ConfigState) : Prop where
  shm : state.shm = other.shm
  created : state.created = other.created
  segments : ∀ id ∈ other.shm.config.shmIds, state.segments id = other.segments id

/-- The creator stands between two calls of `AddChannel`, or in one of them. -/
inductive Published (initByKey : ℕ → Option ShmId) (channels : List ChanConfig) (start : ConfigState)
    (now : Publishing) : Prop
  | between : now.todo = [] → SameStored now.state (now.base initByKey channels start) →
      Published initByKey channels start now
  | amid (channel : ChanConfig) (memory : ConfigState) (made : List Write) :
      channels[now.idx]? = some channel →
      ¬ memory.shm.config.channels.any channel.sameChannel = true →
      ¬ memory.shm.channelCount ≥ kMaxChannelCount →
      SameStored memory (now.base initByKey channels start) →
      made ++ now.todo = addWrites initByKey channel memory.created → now.todo ≠ [] →
      now.state = applyAll made memory → Published initByKey channels start now

section Creator

variable {initByKey : ℕ → Option ShmId} {channels : List ChanConfig} {start state other : ConfigState}
  {now next : Publishing} {channel : ChanConfig}

theorem base_succ (here : channels[now.idx]? = some channel) :
    createChannels initByKey (channels.take (now.idx + 1)) start
      = createChannels initByKey [channel] (now.base initByKey channels start) := by
  rw [List.take_add_one, here, Option.toList_some, createChannels_append]
  rfl

/-- A call of `AddChannel` that stores nothing new in a segment in use. -/
theorem SameStored.add (same : SameStored state other) (segmented : Segmented initByKey other)
    (distinct : ∀ n, Distinct initByKey n) (room : ¬ state.shm.channelCount ≥ kMaxChannelCount) :
    SameStored (applyAll (addWrites initByKey channel state.created) state)
      (addRequest initByKey channel other).2 := by
  obtain ⟨shm, created, done, failed⟩ := @addWrites_eq initByKey state channel room
  have copy : state = { other with segments := state.segments } := by
    obtain ⟨_, _, _⟩ := state
    obtain ⟨rfl, rfl, _⟩ := same
    rfl
  obtain ⟨ret, shm', created'⟩ := @addRequest_segments initByKey other channel state.segments
  rw [← copy] at ret shm' created'
  refine ⟨shm.trans shm', created.trans created', ?_⟩
  rcases @addRequest_cases initByKey other channel with
    ⟨err, refused, none⟩ | ⟨sendShm, recvShm, stored, added⟩
  · intro id member
    rw [none.config] at member
    rw [failed (by rw [ret, refused]; exact nofun) id, none.segments]
    · exact same.segments id member
    · intro given
      rw [same.created] at given
      exact segmented.unused (distinct (other.created + 1)) le_rfl (Nat.lt_succ_self _) given member
  · rw [done (by rw [ret, stored])]
    rcases @addRequest_cases initByKey state channel with
      ⟨err, refused, _⟩ | ⟨sendShm', recvShm', _, added'⟩
    · rw [ret, stored] at refused
      cases refused
    · have first := added'.first
      have second := added'.second
      rw [same.created] at first second
      obtain rfl := Option.some.inj (added.first.symm.trans first)
      obtain rfl := Option.some.inj (added.second.symm.trans second)
      intro id member
      rw [added.segments, added'.segments]
      by_cases recv : id = recvShm
      · rw [recv, Function.update_self, Function.update_self]
      · rw [Function.update_of_ne recv, Function.update_of_ne recv]
        by_cases send : id = sendShm
        · rw [send, Function.update_self, Function.update_self]
        · rw [Function.update_of_ne send, Function.update_of_ne send]
          rw [added.config, GlobalConfig.shmIds, List.flatMap_append, List.mem_append] at member
          refine same.segments id (member.resolve_right fun new => ?_)
          rw [List.flatMap_singleton, List.mem_cons, List.mem_singleton] at new
          exact new.elim send recv

/-- The stored channels are those of the calls that have returned. -/
theorem Published.stored (published : Published initByKey channels start now) :
    now.state.shm.config = (now.base initByKey channels start).shm.config ∧
      now.state.shm.channelCount = (now.base initByKey channels start).shm.channelCount := by
  cases published with
  | between _ same => exact ⟨by rw [same.shm], by rw [same.shm]⟩
  | amid channel memory made _ _ _ same program more here =>
    obtain ⟨config, count⟩ := @applyAll_config memory made (addWrites_count program more)
    rw [here, config, count, same.shm]
    exact ⟨rfl, rfl⟩

/-- **One step of the creator.** -/
theorem Published.step (published : Published initByKey channels start now)
    (segmented : ∀ list, Segmented initByKey (createChannels initByKey list start))
    (distinct : ∀ n, Distinct initByKey n) {label : Option ℕ}
    (taken : PublishStep initByKey channels now label next) : Published initByKey channels start next := by
  cases taken with
  | skip channel idle here full =>
    cases published with
    | amid _ _ _ _ _ _ _ _ more => exact absurd idle more
    | between _ same =>
      refine .between idle ?_
      show SameStored now.state (createChannels initByKey (channels.take (now.idx + 1)) start)
      rw [base_succ here, createChannels, createChannels, ← same.shm]
      split_ifs with stored
      · exact same
      · have refused : (addRequest initByKey channel (now.base initByKey channels start)).2
            = now.base initByKey channels start := by
          unfold addRequest addChannel
          rw [dif_pos (same.shm ▸ full.resolve_left stored)]
        rw [createChannels, refused]
        exact same
  | add channel idle here absent room =>
    cases published with
    | amid _ _ _ _ _ _ _ _ more => exact absurd idle more
    | between _ same =>
      refine .amid channel now.state [] here absent room same rfl ?_ rfl
      exact List.append_ne_nil_of_left_ne_nil (List.cons_ne_nil _ _) _
  | write write more todo pending =>
    cases published with
    | between idle _ => rw [idle] at pending; cases pending
    | amid channel memory made here absent room same program _ state =>
      refine .amid channel memory (made ++ [write]) here absent room same ?_ (List.cons_ne_nil _ _) ?_
      · rw [← program, pending, List.append_assoc]
        rfl
      · rw [applyAll_append, ← state]
        rfl
  | last write pending =>
    cases published with
    | between idle _ => rw [idle] at pending; cases pending
    | amid channel memory made here absent room same program _ state =>
      refine .between rfl ?_
      have all : write.apply now.state = applyAll (addWrites initByKey channel memory.created) memory := by
        rw [← program, pending, applyAll_append, ← state]
        rfl
      show SameStored (write.apply now.state) (createChannels initByKey (channels.take (now.idx + 1)) start)
      rw [base_succ here, createChannels, createChannels, ← same.shm, if_neg absent, all]
      exact same.add (segmented _) distinct room
  | read =>
    cases published with
    | between idle same => exact .between idle same
    | amid channel memory made here absent room same program more state =>
      exact .amid channel memory made here absent room same program more state

/-- What is stored only grows. -/
theorem Published.grows (published : Published initByKey channels start now)
    (published' : Published initByKey channels start next) (less : now.idx ≤ next.idx) :
    now.state.shm.config.channels <+: next.state.shm.config.channels := by
  have split : channels.take now.idx ++ (channels.take next.idx).drop now.idx = channels.take next.idx := by
    have parts := List.take_append_drop now.idx (channels.take next.idx)
    rwa [List.take_take, Nat.min_eq_left less] at parts
  rw [published.stored.1, published'.stored.1, Publishing.base, Publishing.base, ← split,
    createChannels_append]
  exact createChannels_extends _

end Creator

/-! ### What the readers see -/

/-- The channels of the process among these. -/
def ownChans (procId : ProcId) (channels : List ChanConfig) : List ChanConfig :=
  (GlobalConfig.mk channels).getChansByProcId procId

/-- What a reader has found are the channels of its process among those it has passed, and what it has copied
is one of them. -/
inductive Reads (stored : List ChanConfig) : Reader → Prop
  | counting (procId : ProcId) (idx : ℕ) : idx ≤ stored.length →
      Reads stored (.counting procId idx (ownChans procId (stored.take idx)))
  | first (procId : ProcId) (idx : ℕ) : idx < stored.length →
      Reads stored (.first procId idx (ownChans procId (stored.take idx)))
  | second (procId : ProcId) (idx : ℕ) (channel : ChanConfig) : stored[idx]? = some channel →
      channel.peer0 ≠ procId → Reads stored (.second procId idx (ownChans procId (stored.take idx)))
  | copying (procId : ProcId) (idx : ℕ) (channel copy : ChanConfig) (left : List Field) :
      stored[idx]? = some channel → channel.peer0 = procId ∨ channel.peer1 = procId →
      (∀ field ∉ left, field.Same copy channel) →
      Reads stored (.copying procId idx (ownChans procId (stored.take idx)) copy left)
  | done (procId : ProcId) (idx : ℕ) : idx ≤ stored.length →
      Reads stored (.done procId (ownChans procId (stored.take idx)))

section Readers

variable {stored later : List ChanConfig} {reader : Reader} {shm : GlobalConfigShm}

/-- What a reader has seen stays. -/
theorem Reads.mono (reads : Reads stored reader) (grown : stored <+: later) : Reads later reader := by
  have same : ∀ idx ≤ stored.length, stored.take idx = later.take idx := by
    obtain ⟨more, rfl⟩ := grown
    exact fun idx inside => (List.take_append_of_le_length inside).symm
  have longer := grown.length_le
  have at_ : ∀ (idx : ℕ) (channel : ChanConfig), stored[idx]? = some channel →
      idx ≤ stored.length ∧ later[idx]? = some channel := by
    intro idx channel here
    obtain ⟨inside, _⟩ := List.getElem?_eq_some_iff.mp here
    obtain ⟨more, rfl⟩ := grown
    exact ⟨inside.le, (List.getElem?_append_left inside).trans here⟩
  cases reads with
  | counting procId idx inside =>
    rw [same idx inside]
    exact .counting procId idx (inside.trans longer)
  | first procId idx inside =>
    rw [same idx inside.le]
    exact .first procId idx (inside.trans_le longer)
  | second procId idx channel here other =>
    obtain ⟨inside, here'⟩ := at_ idx channel here
    rw [same idx inside]
    exact .second procId idx channel here' other
  | copying procId idx channel copy left here own copied =>
    obtain ⟨inside, here'⟩ := at_ idx channel here
    rw [same idx inside]
    exact .copying procId idx channel copy left here' own copied
  | done procId idx inside =>
    rw [same idx inside]
    exact .done procId idx (inside.trans longer)

/-- A slot below the count holds the channel stored there. -/
theorem GlobalConfigShm.slot_stored {idx : ℕ} {channel : ChanConfig}
    (here : shm.config.channels[idx]? = some channel) : shm.slot idx = channel := by
  unfold config at here
  dsimp only at here
  rw [List.getElem?_take] at here
  split_ifs at here with below
  unfold slot
  rw [← Vector.getElem?_toList, here, Option.getD_some]

theorem GlobalConfigShm.length_config (few : shm.channelCount.toNat ≤ 2000) :
    shm.config.channels.length = shm.channelCount.toNat := by
  unfold config
  rw [List.length_take, Vector.length_toList, Nat.min_eq_left few]

/-- One more channel has been passed. -/
theorem ownChans_succ {procId : ProcId} {idx : ℕ} {channel : ChanConfig}
    (here : stored[idx]? = some channel) : ownChans procId (stored.take (idx + 1)) =
      if channel.peer0 = procId ∨ channel.peer1 = procId then ownChans procId (stored.take idx) ++ [channel]
      else ownChans procId (stored.take idx) := by
  unfold ownChans GlobalConfig.getChansByProcId
  rw [List.take_add_one, here, Option.toList_some, List.filter_append, List.filter_cons, List.filter_nil]
  by_cases own : channel.peer0 = procId ∨ channel.peer1 = procId
  · rw [if_pos own, if_pos (decide_eq_true own)]
  · rw [if_neg own, if_neg (by rwa [decide_eq_true_iff]), List.append_nil]

/-- **One step of a reader.** -/
theorem Reads.next (few : shm.channelCount.toNat ≤ 2000) (reads : Reads shm.config.channels reader) :
    Reads shm.config.channels (reader.next shm) := by
  have length := GlobalConfigShm.length_config few
  cases reads with
  | counting procId idx inside =>
    unfold Reader.next
    dsimp only
    split_ifs with below
    · exact .first procId idx (length ▸ below)
    · exact .done procId idx inside
  | first procId idx inside =>
    have here := List.getElem?_eq_getElem inside
    unfold Reader.next
    dsimp only
    rw [GlobalConfigShm.slot_stored here]
    split_ifs with own
    · exact .copying procId idx _ _ _ here (Or.inl own)
        fun field missing => absurd (by cases field <;> decide) missing
    · exact .second procId idx _ here own
  | second procId idx channel here other =>
    obtain ⟨inside, _⟩ := List.getElem?_eq_some_iff.mp here
    unfold Reader.next
    dsimp only
    rw [GlobalConfigShm.slot_stored here]
    split_ifs with own
    · exact .copying procId idx channel _ _ here (Or.inr own)
        fun field missing => absurd (by cases field <;> decide) missing
    · have passed := @ownChans_succ _ procId idx channel here
      rw [if_neg (not_or.mpr ⟨other, own⟩)] at passed
      rw [← passed]
      exact .counting procId (idx + 1) inside
  | copying procId idx channel copy left here own copied =>
    obtain ⟨inside, _⟩ := List.getElem?_eq_some_iff.mp here
    cases left with
    | nil =>
      have passed := @ownChans_succ _ procId idx channel here
      obtain rfl : copy = channel := Field.ext fun field => copied field List.not_mem_nil
      rw [if_pos own] at passed
      unfold Reader.next
      dsimp only
      rw [← passed]
      exact .counting procId (idx + 1) inside
    | cons field left =>
      unfold Reader.next
      dsimp only
      rw [GlobalConfigShm.slot_stored here]
      refine .copying procId idx channel _ left here own fun other missing => ?_
      by_cases same : other = field
      · subst same
        exact other.same_copy
      · refine Field.same_copy_other same (copied other ?_)
        rw [List.mem_cons, not_or]
        exact ⟨same, missing⟩
  | done procId idx inside => exact .done procId idx inside

end Readers

/-! ### The readers together with the creator -/

/-- What the creator has stored, and what each reader has seen of it. -/
structure Publishing.Inv (initByKey : ℕ → Option ShmId) (channels : List ChanConfig) (start : ConfigState)
    (now : Publishing) : Prop where
  published : Published initByKey channels start now
  reads : ∀ reader, Reads now.state.shm.config.channels (now.readers reader)

section Together

variable {initByKey : ℕ → Option ShmId} {channels : List ChanConfig} {start : ConfigState}
  {now next : Publishing}

theorem PublishStep.idx_le {label : Option ℕ} (taken : PublishStep initByKey channels now label next) :
    now.idx ≤ next.idx := by
  cases taken with
  | skip | last => exact Nat.le_succ _
  | add | write | read => exact le_rfl

theorem publishMachine_inv (distinct : ∀ n, Distinct initByKey n)
    (begins : (configMachine initByKey).Reachable start)
    (reached : (publishMachine initByKey channels start).Reachable now) :
    now.Inv initByKey channels start ∧ now.state.shm.channelCount.toNat ≤ 2000 := by
  have created : ∀ list, (configMachine initByKey).Reachable (createChannels initByKey list start) :=
    fun list => begins.next rfl
  have segmented : ∀ list, Segmented initByKey (createChannels initByKey list start) :=
    fun list => configMachine_segmented (created list) (distinct _)
  have few : ∀ now : Publishing, Published initByKey channels start now →
      now.state.shm.channelCount.toNat ≤ 2000 :=
    fun now published => published.stored.2 ▸ (configMachine_inv (created _)).count
  have base : ∀ first, (publishMachine initByKey channels start).init first →
      first.Inv initByKey channels start := by
    rintro ⟨state, idx, todo, readers⟩ ⟨rfl, rfl, rfl, fresh⟩
    refine ⟨.between rfl ⟨rfl, rfl, fun _ _ => rfl⟩, fun reader => ?_⟩
    obtain ⟨procId, same⟩ := fresh reader
    dsimp only at same ⊢
    rw [same]
    exact .counting procId 0 (Nat.zero_le _)
  have inv := reached.invariant base fun last label next _ inv taken => by
    have published := inv.published.step segmented distinct taken
    refine ⟨published, fun reader => ?_⟩
    have grown := inv.published.grows published (PublishStep.idx_le taken)
    have kept := (inv.reads reader).mono grown
    cases taken with
    | skip | add | write | last => exact kept
    | read own =>
      rcases eq_or_ne reader own with rfl | other
      · dsimp only
        rw [Function.update_self]
        exact (inv.reads reader).next (few _ inv.published)
      · dsimp only
        rw [Function.update_of_ne other]
        exact inv.reads reader
  exact ⟨inv, few _ inv.published⟩

/-- The segments of what is stored hold empty queues of the sizes that are stored. -/
theorem Published.fresh (published : Published initByKey channels start now)
    (segmented : ∀ list, Segmented initByKey (createChannels initByKey list start))
    (distinct : ∀ n, Distinct initByKey n) {channel : ChanConfig}
    (member : channel ∈ now.state.shm.config.channels) :
    now.state.segments channel.sendShmId = freshQueue channel.sendSize ∧
      now.state.segments channel.recvShmId = freshQueue channel.recvSize := by
  have stored := published.stored.1
  rw [stored] at member
  have base : Segmented initByKey (now.base initByKey channels start) := segmented _
  have inside : ∀ id, id = channel.sendShmId ∨ id = channel.recvShmId →
      id ∈ (now.base initByKey channels start).shm.config.shmIds :=
    fun id own => GlobalConfig.mem_shmIds.mpr ⟨channel, member, own⟩
  have kept : ∀ id ∈ (now.base initByKey channels start).shm.config.shmIds,
      now.state.segments id = (now.base initByKey channels start).segments id := by
    cases published with
    | between _ same => exact same.segments
    | amid added memory made _ _ _ same program more here =>
      intro id member
      rw [← same.segments id member, here]
      refine applyAll_segments fun write written touched => ?_
      have new := addWrites_touches write (program ▸ List.mem_append_left _ written) _ touched
      rw [same.created] at new
      rcases new with given | given
      · exact base.unused (distinct _) le_rfl (Nat.lt_succ_self _) given member
      · exact base.unused (distinct _) (Nat.le_succ _) (Nat.lt_succ_self _) given member
  rw [kept _ (inside _ (Or.inl rfl)), kept _ (inside _ (Or.inr rfl))]
  exact base.fresh channel member

end Together

/-- **`GetChansByProcId` is linearizable.** While one process is in `Create`, any number of others call
`GetChansByProcId`, all of them in any order, access by access. A reader that returns has found exactly what
an atomic `GetChansByProcId` finds at its last access, in the configuration that some of the channels asked
for, taken in turn, have made; and both queues of every channel found are created and have their size. -/
theorem getChans_linearizable (initByKey : ℕ → Option ShmId) (distinct : ∀ n, Distinct initByKey n)
    (start : ConfigState) (begins : (configMachine initByKey).Reachable start) (channels : List ChanConfig)
    (now next : Publishing) (reached : (publishMachine initByKey channels start).Reachable now)
    (reader : ℕ) (taken : (publishMachine initByKey channels start).step now (some reader) next)
    (procId : ProcId) (found : List ChanConfig) (running : now.readers reader ≠ .done procId found)
    (returned : next.readers reader = .done procId found) :
    found = now.state.shm.config.getChansByProcId procId ∧
      (∃ n, now.state.shm.config = (create initByKey (channels.take n) (some start.shm) start.segments
        start.created).shm.config) ∧
      ∀ channel ∈ found, now.state.segments channel.sendShmId = freshQueue channel.sendSize ∧
        now.state.segments channel.recvShmId = freshQueue channel.recvSize := by
  obtain ⟨inv, few⟩ := publishMachine_inv distinct begins reached
  have length := GlobalConfigShm.length_config few
  have reads := inv.reads reader
  have all : found = now.state.shm.config.getChansByProcId procId := by
    cases taken with
    | read _ =>
      dsimp only at returned
      rw [Function.update_self] at returned
      generalize now.readers reader = before at reads running returned
      cases reads with
      | counting own idx inside =>
        unfold Reader.next at returned
        dsimp only at returned
        split_ifs at returned with below
        cases returned
        rw [List.take_of_length_le (by omega)]
        rfl
      | first own idx inside =>
        unfold Reader.next at returned
        dsimp only at returned
        split_ifs at returned
      | second own idx channel here other =>
        unfold Reader.next at returned
        dsimp only at returned
        split_ifs at returned
      | copying own idx channel copy left here own copied =>
        cases left with
        | nil => cases returned
        | cons field left => cases returned
      | done own idx inside => exact absurd returned running
  have segmented : ∀ list, Segmented initByKey (createChannels initByKey list start) :=
    fun list => configMachine_segmented (begins.next rfl) (distinct _)
  refine ⟨all, ⟨now.idx, inv.published.stored.1⟩, fun channel member => ?_⟩
  rw [all] at member
  exact inv.published.fresh segmented distinct (List.mem_filter.mp member).1

/-! ### A reader returns -/

/-- A bound on the accesses a reader still makes. -/
def Reader.rank : Reader → ℕ
  | .counting _ idx _ => 10 * (2000 - idx) + 1
  | .first _ idx _ => 10 * (2000 - idx)
  | .second _ idx _ => 10 * (2000 - idx) - 1
  | .copying _ idx _ _ left => 10 * (2000 - idx) + left.length - 8
  | .done _ _ => 0

section Returns

variable {stored : List ChanConfig} {reader : Reader} {shm : GlobalConfigShm}

theorem Reader.rank_next (reads : Reads stored reader) (few : stored.length ≤ 2000) :
    (reader.next shm).rank ≤ reader.rank - 1 := by
  cases reads with
  | counting procId idx inside =>
    unfold Reader.next
    dsimp only
    split_ifs
    · exact le_rfl
    · exact Nat.zero_le _
  | first procId idx inside =>
    unfold Reader.next
    dsimp only
    split_ifs
    · show 10 * (2000 - idx) + 6 - 8 ≤ 10 * (2000 - idx) - 1
      omega
    · exact le_rfl
  | second procId idx channel here other =>
    obtain ⟨inside, _⟩ := List.getElem?_eq_some_iff.mp here
    unfold Reader.next
    dsimp only
    split_ifs
    · show 10 * (2000 - idx) + 6 - 8 ≤ 10 * (2000 - idx) - 1 - 1
      omega
    · show 10 * (2000 - (idx + 1)) + 1 ≤ 10 * (2000 - idx) - 1 - 1
      omega
  | copying procId idx channel copy left here own copied =>
    obtain ⟨inside, _⟩ := List.getElem?_eq_some_iff.mp here
    cases left with
    | nil =>
      show 10 * (2000 - (idx + 1)) + 1 ≤ 10 * (2000 - idx) + 0 - 8 - 1
      omega
    | cons field left =>
      show 10 * (2000 - idx) + left.length - 8 ≤ 10 * (2000 - idx) + (left.length + 1) - 8 - 1
      omega
  | done => exact Nat.zero_le _

/-- A reader with nothing left to do has returned. -/
theorem Reads.returned (reads : Reads stored reader) (few : stored.length ≤ 2000) (none : reader.rank = 0) :
    ∃ procId found, reader = .done procId found := by
  cases reads with
  | counting procId idx inside => exact absurd none (Nat.succ_ne_zero _)
  | first procId idx inside =>
    have zero : 10 * (2000 - idx) = 0 := none
    omega
  | second procId idx channel here other =>
    obtain ⟨inside, _⟩ := List.getElem?_eq_some_iff.mp here
    have zero : 10 * (2000 - idx) - 1 = 0 := none
    omega
  | copying procId idx channel copy left here own copied =>
    obtain ⟨inside, _⟩ := List.getElem?_eq_some_iff.mp here
    have zero : 10 * (2000 - idx) + left.length - 8 = 0 := none
    omega
  | done procId idx inside => exact ⟨procId, _, rfl⟩

end Returns

/-- **`GetChansByProcId` is wait-free.** Whatever the creator and the other readers do meanwhile, a reader has
returned once it has made `20001` accesses to the shared memory. -/
theorem getChans_returns (initByKey : ℕ → Option ShmId) (distinct : ∀ n, Distinct initByKey n)
    (start : ConfigState) (begins : (configMachine initByKey).Reachable start) (channels : List ChanConfig)
    (first now : Publishing) (initial : (publishMachine initByKey channels start).init first)
    (labels : List (Option ℕ)) (run : (publishMachine initByKey channels start).Run first labels now)
    (reader : ℕ) (many : 20001 ≤ labels.count (some reader)) :
    ∃ procId found, now.readers reader = .done procId found := by
  have rank : (now.readers reader).rank ≤ 20001 - labels.count (some reader) := by
    clear many
    induction run with
    | nil =>
      obtain ⟨_, _, _, fresh⟩ := initial
      obtain ⟨procId, same⟩ := fresh reader
      rw [same]
      exact le_rfl
    | @snoc last next labels label before taken ih =>
      obtain ⟨inv, few⟩ := publishMachine_inv distinct begins ⟨_, _, initial, before⟩
      have length := GlobalConfigShm.length_config few
      rw [List.count_append, List.count_singleton]
      cases taken with
      | skip | add | write | last => simpa using ih
      | read own =>
        rcases eq_or_ne reader own with rfl | other
        · have less := @Reader.rank_next _ _ last.state.shm (inv.reads reader) (length.trans_le few)
          dsimp only
          rw [Function.update_self]
          refine less.trans ?_
          rw [if_pos (beq_self_eq_true _)]
          omega
        · dsimp only
          rw [Function.update_of_ne other, if_neg (by simpa using other.symm), Nat.add_zero]
          exact ih
  obtain ⟨inv, few⟩ := publishMachine_inv distinct begins ⟨_, _, initial, run⟩
  have length := GlobalConfigShm.length_config few
  exact (inv.reads reader).returned (length.trans_le few) (by omega)

section Witness

variable {initByKey : ℕ → Option ShmId} {channels : List ChanConfig} {start : ConfigState} {now : Publishing}

/-- The creator may finish its call of `AddChannel` alone. -/
theorem publishMachine_writes (reached : (publishMachine initByKey channels start).Reachable now)
    (more : now.todo ≠ []) : (publishMachine initByKey channels start).Reachable
      { now with state := applyAll now.todo now.state, todo := [], idx := now.idx + 1 } := by
  generalize pending : now.todo = todo at more
  induction todo generalizing now with
  | nil => exact absurd rfl more
  | cons write rest ih =>
    cases rest with
    | nil => exact reached.next (.last now write pending)
    | cons write' rest =>
      exact ih (reached.next (.write now write write' rest pending)) rfl (List.cons_ne_nil _ _)

/-- A reader has taken `n` steps alone. -/
def Publishing.reads (now : Publishing) (reader n : ℕ) : Publishing :=
  let seen := (Reader.next now.state.shm)^[n] (now.readers reader)
  { now with readers := Function.update now.readers reader seen }

theorem Publishing.reads_succ (now : Publishing) (reader n : ℕ) :
    PublishStep initByKey channels (now.reads reader n) (some reader) (now.reads reader (n + 1)) := by
  have step := @PublishStep.read initByKey channels (now.reads reader n) reader
  unfold reads at step ⊢
  dsimp only at step
  rw [Function.update_self, Function.update_idem, ← Function.iterate_succ_apply' (Reader.next now.state.shm)] at step
  exact step

theorem publishMachine_reads (now : Publishing) (reader n : ℕ) :
    (publishMachine initByKey channels start).Run now (List.replicate n (some reader))
      (now.reads reader n) := by
  induction n with
  | zero =>
    have same : now.reads reader 0 = now := by
      show { now with readers := Function.update now.readers reader (now.readers reader) } = now
      rw [Function.update_eq_self]
    rw [same]
    exact .nil now
  | succ n ih =>
    rw [List.replicate_succ']
    exact .snoc ih (now.reads_succ reader n)

/-- One channel is asked for, and every reader looks for those of process `1`. -/
def publishStart : Publishing :=
  ⟨⟨createByKey none, fun _ => freshQueue 0, 0⟩, 0, [], fun _ => .counting 1 0 []⟩

/-- The channel is stored. -/
def publishStored : Publishing :=
  { publishStart with
    state := applyAll (addWrites hostShm (newChannel .zero 1 2 1000 2000) 0) publishStart.state
    idx := 1 }

/-- The tenth access of a reader is its last: it has found the channel. -/
theorem getChans_linearizable_host : ∃ found, (publishStored.reads 0 10).readers 0 = .done 1 found ∧
    found = publishStored.state.shm.config.getChansByProcId 1 ∧ found.length = 1 := by
  have begins : (configMachine hostShm).Reachable publishStart.state := .start ⟨rfl, rfl⟩
  have first : (publishMachine hostShm [newChannel .zero 1 2 1000 2000] publishStart.state).Reachable
      publishStart := .start ⟨rfl, rfl, rfl, fun _ => ⟨1, rfl⟩⟩
  have stored : (publishMachine hostShm [newChannel .zero 1 2 1000 2000] publishStart.state).Reachable
      publishStored :=
    publishMachine_writes (first.next (.add _ _ rfl rfl (by decide) (by decide))) (List.cons_ne_nil _ _)
  have seen := getChans_linearizable hostShm hostShm_distinct publishStart.state begins
    [newChannel .zero 1 2 1000 2000] (publishStored.reads 0 9) (publishStored.reads 0 10)
    (stored.run (publishMachine_reads publishStored 0 9)) 0 (publishStored.reads_succ 0 9) 1 _ nofun rfl
  exact ⟨_, rfl, seen.1, rfl⟩

/-- A reader that finds nothing stored returns, too. -/
theorem getChans_returns_host : ∃ procId found,
    (publishStart.reads 0 20001).readers 0 = .done procId found :=
  getChans_returns hostShm hostShm_distinct publishStart.state (.start ⟨rfl, rfl⟩) [] publishStart
    (publishStart.reads 0 20001) ⟨rfl, rfl, rfl, fun _ => ⟨1, rfl⟩⟩ (List.replicate 20001 (some 0))
    (publishMachine_reads publishStart 0 20001) 0 List.count_replicate_self.ge

end Witness

end Yarf.Channel
