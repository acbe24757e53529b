/-
**A process's set of queues** (`channel.cc`, `channel_impl.h`, `channel_config.h`,
`unlock_queue_impl.h`).

A `CChannel` holds one two-way queue for each peer, in a map keyed by the peer's id, and a cursor that
`Recv` and `Peek` move through the map. A `CUnlockQueue` names the two segments its sides lie in; the
segments themselves are shared with the peers, so they are not part of the channel but of `Segments`.

Ids have 64 bits everywhere but in `CUnlockQueue`, which keeps 32 of them.

Attaching a segment is a system call: `attach` says for which ids `shmat` returns an address other
than null, which is all the source tests. A cursor at the end of the map is `none`; a call that
dereferences it has no result.
-/

import Yarf.Lib.Machine
import Yarf.Channel.UnlockQueue

namespace Yarf.Channel

abbrev ProcId := UInt64

abbrev ShmId := Int32

/-- What the processes share: the queue in each segment. -/
abbrev Segments := ShmId → Queue

/-! ### One two-way queue -/

/-- `CUnlockQueue`: the segment it receives from, the segment it sends to, and the peer. -/
structure CUnlockQueue where
  recver : ShmId
  sender : ShmId
  peerProcId : UInt32
  deriving DecidableEq

namespace CUnlockQueue

/-- `CUnlockQueue::Init` on two attached segments. -/
def init (segments : Segments) (recver : ShmId) (recvCapacity : UInt32) (sender : ShmId)
    (sendCapacity : UInt32) (peerId : UInt32) : Except Err CUnlockQueue :=
  match initSide (some (segments recver)) recvCapacity with
  | .error err => .error err
  | .ok _ =>
    match initSide (some (segments sender)) sendCapacity with
    | .error err => .error err
    | .ok _ => .ok ⟨recver, sender, peerId⟩

/-- `CUnlockQueue::peer_id`. -/
def peerId (queue : CUnlockQueue) : ProcId := queue.peerProcId.toUInt64

def recv (len : UInt32) (queue : CUnlockQueue) (segments : Segments) :
    Except Err (List UInt8) × Segments :=
  let result := Channel.recv (segments queue.recver) len
  (result.1, Function.update segments queue.recver result.2)

def peek (queue : CUnlockQueue) (segments : Segments) : Except Err View × Segments :=
  let result := Channel.peek (segments queue.recver)
  (result.1, Function.update segments queue.recver result.2)

def drop (queue : CUnlockQueue) (segments : Segments) : Except Err Unit × Segments :=
  let result := Channel.drop (segments queue.recver)
  (result.1, Function.update segments queue.recver result.2)

def send (data : Message) (reserve : Reserve) (queue : CUnlockQueue) (segments : Segments) :
    Except Err Unit × Segments :=
  let result := Channel.send (segments queue.sender) data reserve
  (result.1, Function.update segments queue.sender result.2)

end CUnlockQueue

/-! ### The configuration -/

/-- One channel of the configuration: `send` is the queue from `peerId[0]` to `peerId[1]`. -/
structure ChanConfig where
  peerId : Vector ProcId 2
  sendShmId : ShmId
  recvShmId : ShmId
  sendSize : UInt32
  recvSize : UInt32

/-- `peer_id[0]`, the sender of `send`. -/
abbrev ChanConfig.peer0 (config : ChanConfig) : ProcId := config.peerId[0]

/-- `peer_id[1]`, its receiver. -/
abbrev ChanConfig.peer1 (config : ChanConfig) : ProcId := config.peerId[1]

/-- The channels stored, `channel_count` of them. -/
structure GlobalConfig where
  channels : List ChanConfig

/-- `GlobalConfig::GetChansByProcId`. -/
def GlobalConfig.getChansByProcId (config : GlobalConfig) (procId : ProcId) : List ChanConfig :=
  config.channels.filter fun chan => chan.peerId[0] = procId ∨ chan.peerId[1] = procId

/-- `image_config`: the channel as its second peer sees it. -/
def ChanConfig.image (config : ChanConfig) : ChanConfig :=
  { config with
    recvShmId := config.sendShmId
    sendShmId := config.recvShmId
    recvSize := config.sendSize
    sendSize := config.recvSize }

/-- The mirror logic of `CChannel::Init`: the peer, and the channel as this process sees it. -/
def ChanConfig.orient (procId : ProcId) (config : ChanConfig) : Except Err (ProcId × ChanConfig) :=
  if procId = config.peerId[1] then .ok (config.peerId[0], config.image)
  else if procId ≠ config.peerId[0] then .error .kUnexpect
  else .ok (config.peerId[1], config)

/-! ### The channel -/

def kMaxQueueRecvPkgCount : UInt32 := 10

abbrev UnlockQueueSet := Std.TreeMap ProcId CUnlockQueue

/-- `unlock_queues_.begin()`; `none` is `end()`. -/
def UnlockQueueSet.begin (queues : UnlockQueueSet) : Option ProcId := queues.keys.head?

/-- The iterator behind the one at `key`. -/
def UnlockQueueSet.next (queues : UnlockQueueSet) (key : ProcId) : Option ProcId :=
  queues.keys.find? (key < ·)

theorem UnlockQueueSet.mem_of_some {queues : UnlockQueueSet} {key : ProcId} {queue : CUnlockQueue}
    (member : queues[key]? = some queue) : key ∈ queues :=
  Std.TreeMap.mem_iff_isSome_getElem?.mpr (by rw [member, Option.isSome_some])

structure CChannel where
  unlockQueues : UnlockQueueSet
  /-- The key the cursor stands at; `none` at the end of the map. -/
  curRecvQueue : Option ProcId
  curQueueRecvPkgCount : UInt32
  procId : ProcId

namespace CChannel

/-- A channel no `Init` has been called on. -/
def new : CChannel := ⟨∅, none, 0, 0⟩

/-- The body of the loop of `Init`: the queue for one channel of the configuration. -/
def openQueue (attach : ShmId → Bool) (segments : Segments) (procId : ProcId)
    (queues : UnlockQueueSet) (config : ChanConfig) : Except Err (ProcId × CUnlockQueue) :=
  match config.orient procId with
  | .error err => .error err
  | .ok (peerId, config) =>
    if peerId ∈ queues then .error .kChanCfgDuplicateChan
    -- `InitById` returns `-1`
    else if attach config.sendShmId = false then .error .kArg
    else if attach config.recvShmId = false then .error .kArg
    else match CUnlockQueue.init segments config.recvShmId config.recvSize config.sendShmId
        config.sendSize peerId.toUInt32 with
      | .error err => .error err
      | .ok queue => .ok (peerId, queue)

/-- The loop of `Init`. The queues stored before a failure stay. -/
def openQueues (attach : ShmId → Bool) (segments : Segments) (procId : ProcId) :
    List ChanConfig → UnlockQueueSet → Except Err Unit × UnlockQueueSet
  | [], queues => (.ok (), queues)
  | config :: rest, queues =>
    match openQueue attach segments procId queues config with
    | .error err => (.error err, queues)
    | .ok (peerId, queue) => openQueues attach segments procId rest (queues.insert peerId queue)

/-- `CChannel::Init`. `config` is what `InitByKey` finds; without a segment it returns `-1`. -/
def init (attach : ShmId → Bool) (segments : Segments) (config : Option GlobalConfig)
    (procId : ProcId) (chan : CChannel) : Except Err Unit × CChannel :=
  match config with
  | none => (.error .kArg, chan)
  | some config =>
    match openQueues attach segments procId (config.getChansByProcId procId) chan.unlockQueues with
    | (.error err, queues) => (.error err, { chan with unlockQueues := queues })
    | (.ok (), queues) => (.ok (), ⟨queues, queues.begin, 0, procId⟩)

/-- `CChannel::MoveToNextQueue`. -/
def moveToNextQueue (chan : CChannel) : CChannel :=
  match chan.curRecvQueue with
  | none => { chan with curRecvQueue := chan.unlockQueues.begin, curQueueRecvPkgCount := 0 }
  | some key => { chan with
      curRecvQueue := (chan.unlockQueues.next key).or chan.unlockQueues.begin
      curQueueRecvPkgCount := 0 }

/-- What `Recv` and `Peek` do before their loop. -/
def prepare (chan : CChannel) : CChannel :=
  let chan := match chan.curRecvQueue with
    | none => { chan with curRecvQueue := chan.unlockQueues.begin, curQueueRecvPkgCount := 0 }
    | some _ => chan
  if chan.curQueueRecvPkgCount ≥ kMaxQueueRecvPkgCount then chan.moveToNextQueue else chan

/-- The queue the cursor points at. -/
def current (chan : CChannel) : Option CUnlockQueue :=
  chan.curRecvQueue.bind fun key => chan.unlockQueues[key]?

/-- What a call of `Recv` or `Peek` returns and leaves behind. -/
structure Answer (α : Type) where
  ret : Except Err α
  src : ProcId
  chan : CChannel
  segments : Segments

/-- The loop of `Recv` and `Peek`, with the call `op` on the queues; after this round up to `left`
more follow. -/
def poll {α : Type} (op : CUnlockQueue → Segments → Except Err α × Segments) :
    ℕ → CChannel → Segments → Option (Answer α)
  | left, chan, segments =>
    match chan.current with
    | none => none
    | some queue =>
      match op queue segments with
      | (.ok value, segments) => some ⟨.ok value, queue.peerId,
          { chan with curQueueRecvPkgCount := chan.curQueueRecvPkgCount + 1 }, segments⟩
      | (.error err, segments) =>
        if err = .kChanEmpty then
          match left with
          | 0 => some ⟨.error err, queue.peerId, chan.moveToNextQueue, segments⟩
          | left + 1 => poll op left chan.moveToNextQueue segments
        -- another error ends the loop
        else some ⟨.error err, queue.peerId, chan.moveToNextQueue, segments⟩

/-- `CChannel::Recv`. -/
def recv (chan : CChannel) (segments : Segments) (len : UInt32) : Option (Answer (List UInt8)) :=
  poll (CUnlockQueue.recv len) (chan.unlockQueues.size - 1) chan.prepare segments

/-- `CChannel::Peek`. -/
def peek (chan : CChannel) (segments : Segments) : Option (Answer View) :=
  poll CUnlockQueue.peek (chan.unlockQueues.size - 1) chan.prepare segments

/-- `CChannel::Drop`. -/
def drop (chan : CChannel) (segments : Segments) (src : ProcId) : Except Err Unit × Segments :=
  match chan.unlockQueues[src]? with
  | none => (.error .kChanDstNotExist, segments)
  | some queue => queue.drop segments

/-- `CChannel::Send`. -/
def send (chan : CChannel) (segments : Segments) (dst : ProcId) (data : Message) (reserve : Reserve) :
    Except Err Unit × Segments :=
  match chan.unlockQueues[dst]? with
  | none => (.error .kChanDstNotExist, segments)
  | some queue => queue.send data reserve segments

end CChannel

/-! ### Runs -/

/-- A channel and the segments around it. -/
structure System where
  chan : CChannel
  segments : Segments

/-- Who acts. -/
inductive Act
  | send (dst : ProcId) (data : Message)
  | recv (len : UInt32)
  | peek
  | drop (src : ProcId)
  /-- The peers do as they like with the segments. -/
  | peers

/-- One call on the channel, or a change made by the peers. -/
inductive SystemStep : System → Act → System → Prop
  | send (sys : System) (dst : ProcId) (data : Message) (reserve : Reserve) :
      SystemStep sys (.send dst data)
        { sys with segments := (sys.chan.send sys.segments dst data reserve).2 }
  | recv (sys : System) (len : UInt32) (answer : CChannel.Answer (List UInt8)) :
      sys.chan.recv sys.segments len = some answer →
      SystemStep sys (.recv len) ⟨answer.chan, answer.segments⟩
  | peek (sys : System) (answer : CChannel.Answer View) :
      sys.chan.peek sys.segments = some answer →
      SystemStep sys .peek ⟨answer.chan, answer.segments⟩
  | drop (sys : System) (src : ProcId) :
      SystemStep sys (.drop src) { sys with segments := (sys.chan.drop sys.segments src).2 }
  | peers (sys : System) (segments : Segments) : SystemStep sys .peers { sys with segments := segments }

/-- Runs of a channel, whatever its peers do. -/
def systemMachine (start : CChannel) : Lib.Machine System Act where
  init sys := sys.chan = start
  step := SystemStep

/-! ### The loop of `Recv` and `Peek` -/

section Poll

variable {α : Type} {op : CUnlockQueue → Segments → Except Err α × Segments} {left : ℕ}
  {chan : CChannel} {segments : Segments} {answer : CChannel.Answer α}

@[simp]
theorem CChannel.moveToNextQueue_unlockQueues (chan : CChannel) :
    chan.moveToNextQueue.unlockQueues = chan.unlockQueues := by
  unfold moveToNextQueue
  split <;> rfl

@[simp]
theorem CChannel.prepare_unlockQueues (chan : CChannel) :
    chan.prepare.unlockQueues = chan.unlockQueues := by
  unfold prepare
  cases chan.curRecvQueue with
  | none => dsimp only; split_ifs <;> simp
  | some key => dsimp only; split_ifs <;> simp

/-- An operation on a queue that leaves everything as it was when it fails. -/
def Quiet (op : CUnlockQueue → Segments → Except Err α × Segments) : Prop :=
  ∀ queue segments err, (op queue segments).1 = .error err → (op queue segments).2 = segments

theorem Quiet.unchanged (quiet : Quiet op) {queue : CUnlockQueue} {err : Err} {after : Segments}
    (failed : op queue segments = (.error err, after)) : after = segments :=
  (congrArg Prod.snd failed).symm.trans (quiet queue segments err (congrArg Prod.fst failed))

/-- **One round of the loop**: it ends with this queue's answer, or the queue is empty and the loop goes
on at the next one. -/
theorem CChannel.poll_cases (answered : chan.poll op left segments = some answer) :
    ∃ queue, chan.current = some queue ∧
      ((∃ value, op queue segments = (.ok value, answer.segments) ∧ answer = ⟨.ok value, queue.peerId,
          { chan with curQueueRecvPkgCount := chan.curQueueRecvPkgCount + 1 }, answer.segments⟩) ∨
        (∃ err, op queue segments = (.error err, answer.segments) ∧
          answer = ⟨.error err, queue.peerId, chan.moveToNextQueue, answer.segments⟩) ∨
        ∃ more after, left = more + 1 ∧ op queue segments = (.error .kChanEmpty, after) ∧
          chan.moveToNextQueue.poll op more after = some answer) := by
  unfold poll at answered
  cases here : chan.current with
  | none =>
    rw [here] at answered
    cases answered
  | some queue =>
    refine ⟨queue, rfl, ?_⟩
    rw [here] at answered
    dsimp only at answered
    rcases result : op queue segments with ⟨ret, after⟩
    rw [result] at answered
    cases ret with
    | ok value =>
      cases answered
      exact Or.inl ⟨value, rfl, rfl⟩
    | error err =>
      by_cases empty : err = .kChanEmpty
      · cases left with
        | zero =>
          simp only [if_pos empty] at answered
          cases answered
          exact Or.inr (Or.inl ⟨err, rfl, rfl⟩)
        | succ more =>
          simp only [if_pos empty] at answered
          exact Or.inr (Or.inr ⟨more, after, rfl, by rw [empty], answered⟩)
      · simp only [if_neg empty] at answered
        cases answered
        exact Or.inr (Or.inl ⟨err, rfl, rfl⟩)

/-- **The rounds of the loop.** What is to be shown of the state a call starts from is shown where the
answer is given, and carried back over the rounds that find an empty queue. -/
theorem CChannel.poll_induction {motive : CChannel → Segments → Prop}
    (answers : ∀ (chan : CChannel) (segments : Segments) (queue : CUnlockQueue) (value : α),
      chan.current = some queue → op queue segments = (.ok value, answer.segments) →
      answer = ⟨.ok value, queue.peerId,
        { chan with curQueueRecvPkgCount := chan.curQueueRecvPkgCount + 1 }, answer.segments⟩ →
      motive chan segments)
    (fails : ∀ (chan : CChannel) (segments : Segments) (queue : CUnlockQueue) (err : Err),
      chan.current = some queue → op queue segments = (.error err, answer.segments) →
      answer = ⟨.error err, queue.peerId, chan.moveToNextQueue, answer.segments⟩ →
      motive chan segments)
    (goesOn : ∀ (chan : CChannel) (segments after : Segments) (queue : CUnlockQueue),
      chan.current = some queue → op queue segments = (.error .kChanEmpty, after) →
      motive chan.moveToNextQueue after → motive chan segments)
    (answered : chan.poll op left segments = some answer) : motive chan segments := by
  induction left generalizing chan segments with
  | zero =>
    obtain ⟨queue, here, ⟨value, done, whole⟩ | ⟨err, done, whole⟩ | ⟨_, _, none, _⟩⟩ :=
      poll_cases answered
    · exact answers chan segments queue value here done whole
    · exact fails chan segments queue err here done whole
    · cases none
  | succ left ih =>
    obtain ⟨queue, here, ⟨value, done, whole⟩ | ⟨err, done, whole⟩ | ⟨_, after, same, empty, rest⟩⟩ :=
      poll_cases answered
    · exact answers chan segments queue value here done whole
    · exact fails chan segments queue err here done whole
    · cases same
      exact goesOn chan segments after queue here empty (ih rest)

/-- The queue under the cursor answers. -/
theorem CChannel.poll_of_ok {queue : CUnlockQueue} {value : α} {after : Segments}
    (here : chan.current = some queue) (done : op queue segments = (.ok value, after)) :
    chan.poll op left segments = some ⟨.ok value, queue.peerId,
      { chan with curQueueRecvPkgCount := chan.curQueueRecvPkgCount + 1 }, after⟩ := by
  unfold poll
  rw [here]
  dsimp only
  rw [done]

/-- The queue under the cursor fails. -/
theorem CChannel.poll_of_error {queue : CUnlockQueue} {err : Err} {after : Segments}
    (here : chan.current = some queue) (failed : op queue segments = (.error err, after))
    (full : err ≠ .kChanEmpty) :
    chan.poll op left segments = some ⟨.error err, queue.peerId, chan.moveToNextQueue, after⟩ := by
  unfold poll
  rw [here]
  dsimp only
  rw [failed]
  dsimp only
  rw [if_neg full]

/-- The queue under the cursor is empty, and rounds are left. -/
theorem CChannel.poll_of_empty {queue : CUnlockQueue} {after : Segments}
    (here : chan.current = some queue) (empty : op queue segments = (.error .kChanEmpty, after)) :
    chan.poll op (left + 1) segments = chan.moveToNextQueue.poll op left after := by
  rw [poll]
  dsimp only
  rw [here]
  dsimp only
  rw [empty]
  dsimp only
  rw [if_pos rfl]

/-- The queue under the cursor is empty in the last round. -/
theorem CChannel.poll_of_empty_last {queue : CUnlockQueue} {after : Segments}
    (here : chan.current = some queue) (empty : op queue segments = (.error .kChanEmpty, after)) :
    chan.poll op 0 segments
      = some ⟨.error .kChanEmpty, queue.peerId, chan.moveToNextQueue, after⟩ := by
  rw [poll]
  dsimp only
  rw [here]
  dsimp only
  rw [empty]
  dsimp only
  rw [if_pos rfl]

/-- The loop never changes the set of queues. -/
theorem CChannel.poll_unlockQueues (answered : chan.poll op left segments = some answer) :
    answer.chan.unlockQueues = chan.unlockQueues := by
  refine poll_induction (motive := fun chan _ => answer.chan.unlockQueues = chan.unlockQueues)
    ?_ ?_ ?_ answered
  · intro chan segments queue value _ _ whole
    rw [whole]
  · intro chan segments queue err _ _ whole
    rw [whole]
    exact chan.moveToNextQueue_unlockQueues
  · intro chan segments after queue _ _ rest
    rw [rest, moveToNextQueue_unlockQueues]

theorem CChannel.current_eq_some {queue : CUnlockQueue} (here : chan.current = some queue) :
    ∃ key, chan.curRecvQueue = some key ∧ chan.unlockQueues[key]? = some queue :=
  Option.bind_eq_some_iff.mp here

/-- **A successful call** is answered by the queue under the cursor it leaves behind, on the segments
as they were. -/
theorem CChannel.poll_ok (quiet : Quiet op) {value : α}
    (answered : chan.poll op left segments = some answer) (ok : answer.ret = .ok value) :
    ∃ key queue, answer.chan.curRecvQueue = some key ∧ chan.unlockQueues[key]? = some queue ∧
      answer.src = queue.peerId ∧ op queue segments = (.ok value, answer.segments) := by
  refine poll_induction (motive := fun chan segments => ∃ key queue,
    answer.chan.curRecvQueue = some key ∧ chan.unlockQueues[key]? = some queue ∧
      answer.src = queue.peerId ∧ op queue segments = (.ok value, answer.segments)) ?_ ?_ ?_ answered
  · intro chan segments queue found here done whole
    rw [whole] at ok ⊢
    cases ok
    obtain ⟨key, cursor, member⟩ := current_eq_some here
    exact ⟨key, queue, cursor, member, rfl, done⟩
  · intro chan segments queue err _ _ whole
    rw [whole] at ok
    cases ok
  · intro chan segments after queue _ empty rest
    rw [quiet.unchanged empty, chan.moveToNextQueue_unlockQueues] at rest
    exact rest

/-- **A failed call** leaves the segments as they were. -/
theorem CChannel.poll_error (quiet : Quiet op) {err : Err}
    (answered : chan.poll op left segments = some answer) (failed : answer.ret = .error err) :
    answer.segments = segments := by
  refine poll_induction (motive := fun _ segments => answer.segments = segments) ?_ ?_ ?_ answered
  · intro chan segments queue found _ _ whole
    rw [whole] at failed
    cases failed
  · intro chan segments queue _ _ done _
    exact quiet.unchanged done
  · intro chan segments after queue _ empty rest
    exact rest.trans (quiet.unchanged empty)

end Poll

/-! ### `Init` -/

section Init

variable {attach : ShmId → Bool} {segments : Segments} {config : GlobalConfig} {procId : ProcId}
  {chan : CChannel}

/-- `Init` returns what its loop returns. -/
theorem CChannel.init_ret : (init attach segments (some config) procId chan).1 =
    (openQueues attach segments procId (config.getChansByProcId procId) chan.unlockQueues).1 := by
  unfold init
  dsimp only
  rcases openQueues attach segments procId (config.getChansByProcId procId) chan.unlockQueues with
    ⟨ret, queues⟩
  cases ret with
  | error err => rfl
  | ok _ => rfl

/-- Whatever it returns, the queues its loop has opened stay. -/
theorem CChannel.init_unlockQueues : (init attach segments (some config) procId chan).2.unlockQueues =
    (openQueues attach segments procId (config.getChansByProcId procId) chan.unlockQueues).2 := by
  unfold init
  dsimp only
  rcases openQueues attach segments procId (config.getChansByProcId procId) chan.unlockQueues with
    ⟨ret, queues⟩
  cases ret with
  | error err => rfl
  | ok _ => rfl

/-- What `Init` returned and the queues it left are those of its loop. -/
theorem CChannel.openQueues_of_init {ret : Except Err Unit} {after : CChannel}
    (opened : init attach segments (some config) procId chan = (ret, after)) :
    openQueues attach segments procId (config.getChansByProcId procId) chan.unlockQueues
      = (ret, after.unlockQueues) := by
  refine Prod.ext ?_ ?_
  · rw [← init_ret, opened]
  · rw [← init_unlockQueues, opened]

end Init

end Yarf.Channel
