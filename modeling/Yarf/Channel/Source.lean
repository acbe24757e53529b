/-
**Who sent it.**

`Recv` and `Peek` report the sender through the id stored in the queue, which has 32 bits; `Send` and
`Drop` look their peer up under the key of the map, which has 64. After a successful `Init` the stored
id is the key without its high half (`Tagged`), in every run (`systemMachine_tagged`).

`source_identity_iff`: a call answered from the queue of a peer names that peer exactly when the
peer's id is below `2 ^ 32`.
-/

import Yarf.Channel.Channel

namespace Yarf.Channel

open Lib

/-! ### After `Init` -/

/-- The queue of process `procId` for the peer `key`, as some channel of the configuration has it. -/
def Configured (config : GlobalConfig) (procId key : ProcId) (queue : CUnlockQueue) : Prop :=
  ∃ chan ∈ config.channels,
    chan.peer1 = procId ∧ chan.peer0 = key ∧ queue.recver = chan.sendShmId ∧
        queue.sender = chan.recvShmId ∨
      chan.peer0 = procId ∧ chan.peer1 = key ∧ queue.recver = chan.recvShmId ∧
        queue.sender = chan.sendShmId

/-- Every queue is the configured one for its key, and carries the low half of the key. -/
def Tagged (config : GlobalConfig) (procId : ProcId) (queues : UnlockQueueSet) : Prop :=
  ∀ key queue, queues[key]? = some queue →
    Configured config procId key queue ∧ queue.peerProcId = key.toUInt32

section Init

variable {attach : ShmId → Bool} {segments : Segments} {config : GlobalConfig} {procId : ProcId}
  {queues : UnlockQueueSet}

theorem CUnlockQueue.init_ok {recver sender : ShmId} {recvCapacity sendCapacity peerId : UInt32}
    {queue : CUnlockQueue}
    (opened : CUnlockQueue.init segments recver recvCapacity sender sendCapacity peerId = .ok queue) :
    queue = ⟨recver, sender, peerId⟩ := by
  unfold init at opened
  cases first : initSide (some (segments recver)) recvCapacity with
  | error err =>
    rw [first] at opened
    cases opened
  | ok _ =>
    rw [first] at opened
    cases second : initSide (some (segments sender)) sendCapacity with
    | error err =>
      rw [second] at opened
      cases opened
    | ok _ =>
      rw [second] at opened
      cases opened
      rfl

/-- The two views of a channel. -/
theorem ChanConfig.orient_ok {chan view : ChanConfig} {peerId : ProcId}
    (oriented : chan.orient procId = .ok (peerId, view)) :
    chan.peer1 = procId ∧ peerId = chan.peer0 ∧ view = chan.image ∨
      chan.peer0 = procId ∧ peerId = chan.peer1 ∧ view = chan := by
  unfold orient at oriented
  by_cases second : procId = chan.peer1
  · rw [if_pos second] at oriented
    cases oriented
    exact Or.inl ⟨second.symm, rfl, rfl⟩
  · rw [if_neg second] at oriented
    by_cases first : procId ≠ chan.peer0
    · rw [if_pos first] at oriented
      cases oriented
    · rw [if_neg first] at oriented
      cases oriented
      exact Or.inr ⟨(not_not.mp first).symm, rfl, rfl⟩

/-- The queue that `Init` makes of a channel, and the key it goes under. -/
theorem CChannel.openQueue_opens {chan : ChanConfig} {key : ProcId} {queue : CUnlockQueue}
    (opened : openQueue attach segments procId queues chan = .ok (key, queue)) :
    key ∉ queues ∧ ∃ view, chan.orient procId = .ok (key, view) ∧
      queue = ⟨view.recvShmId, view.sendShmId, key.toUInt32⟩ := by
  unfold openQueue at opened
  cases oriented : chan.orient procId with
  | error err =>
    rw [oriented] at opened
    cases opened
  | ok result =>
    obtain ⟨peer, view⟩ := result
    rw [oriented] at opened
    simp only at opened
    split_ifs at opened with used
    cases built : CUnlockQueue.init segments view.recvShmId view.recvSize view.sendShmId view.sendSize
        peer.toUInt32 with
    | error err =>
      rw [built] at opened
      cases opened
    | ok made =>
      rw [built] at opened
      cases opened
      exact ⟨used, view, rfl, CUnlockQueue.init_ok built⟩

/-- **One queue of `Init`**: the peer's id loses its high half on the way in. -/
theorem CChannel.openQueue_ok {chan : ChanConfig} (member : chan ∈ config.channels)
    {peerId : ProcId} {queue : CUnlockQueue}
    (opened : openQueue attach segments procId queues chan = .ok (peerId, queue)) :
    Configured config procId peerId queue ∧ queue.peerProcId = peerId.toUInt32 := by
  obtain ⟨_, view, oriented, rfl⟩ := openQueue_opens opened
  refine ⟨⟨chan, member, ?_⟩, rfl⟩
  rcases ChanConfig.orient_ok oriented with ⟨own, rfl, rfl⟩ | ⟨own, rfl, rfl⟩
  · exact Or.inl ⟨own, rfl, rfl, rfl⟩
  · exact Or.inr ⟨own, rfl, rfl, rfl⟩

/-- A new queue under its key. -/
theorem Tagged.insert (tagged : Tagged config procId queues) {key : ProcId} {queue : CUnlockQueue}
    (own : Configured config procId key queue ∧ queue.peerProcId = key.toUInt32) :
    Tagged config procId (queues.insert key queue) := by
  intro other found member
  rw [Std.TreeMap.getElem?_insert] at member
  split_ifs at member with same
  · cases member
    rw [← Std.LawfulEqCmp.eq_of_compare same]
    exact own
  · exact tagged other found member

theorem CChannel.openQueues_tagged {chans : List ChanConfig} (inside : ∀ chan ∈ chans, chan ∈ config.channels)
    (tagged : Tagged config procId queues) :
    Tagged config procId (openQueues attach segments procId chans queues).2 := by
  induction chans generalizing queues with
  | nil => exact tagged
  | cons chan rest ih =>
    unfold openQueues
    cases opened : openQueue attach segments procId queues chan with
    | error err => exact tagged
    | ok result =>
      have own := openQueue_ok (inside chan List.mem_cons_self) opened
      exact ih (fun other member => inside other (List.mem_cons_of_mem _ member)) (tagged.insert own)

/-- **After the first `Init`** every queue carries the low half of its key; a failed one leaves the
queues it had opened. -/
theorem CChannel.init_tagged {start : CChannel} {ret : Except Err Unit}
    (opened : init attach segments (some config) procId new = (ret, start)) :
    Tagged config procId start.unlockQueues := by
  have none : Tagged config procId new.unlockQueues := by
    intro key queue member
    have empty : (∅ : UnlockQueueSet)[key]? = none := Std.TreeMap.getElem?_emptyc
    exact absurd (empty.symm.trans member) (by simp)
  have inside : ∀ chan ∈ config.getChansByProcId procId, chan ∈ config.channels :=
    fun chan member => (List.mem_filter.mp member).1
  have tagged := @openQueues_tagged attach segments config procId new.unlockQueues _ inside none
  rwa [openQueues_of_init opened] at tagged

end Init

/-! ### In every run -/

section Runs

variable {config : GlobalConfig} {procId : ProcId} {start : CChannel} {sys : System}

theorem SystemStep.unlockQueues {act : Act} {after : System} (taken : SystemStep sys act after) :
    after.chan.unlockQueues = sys.chan.unlockQueues := by
  cases taken with
  | send | drop | peers => rfl
  | recv len answer answered =>
    exact (CChannel.poll_unlockQueues answered).trans sys.chan.prepare_unlockQueues
  | peek answer answered =>
    exact (CChannel.poll_unlockQueues answered).trans sys.chan.prepare_unlockQueues

/-- What holds of the queues after `Init` holds in every run. -/
theorem systemMachine_unlockQueues (reached : (systemMachine start).Reachable sys) :
    sys.chan.unlockQueues = start.unlockQueues := by
  have base : ∀ first, (systemMachine start).init first → first.chan.unlockQueues = start.unlockQueues := by
    intro first begins
    rw [show first.chan = start from begins]
  refine reached.invariant base ?_
  intro last act next _ same taken
  exact (SystemStep.unlockQueues taken).trans same

end Runs

/-! ### The source reported -/

/-- The source a call reported is the key of the queue that answered; `Drop` and `Send` on it act on
that queue. -/
structure Identifies {α : Type} (answer : CChannel.Answer α) (key : ProcId) (queue : CUnlockQueue) :
    Prop where
  key : answer.src = key
  drop : ∀ segments, answer.chan.drop segments answer.src = queue.drop segments
  send : ∀ segments data reserve,
    answer.chan.send segments answer.src data reserve = queue.send data reserve segments

section Source

variable {config : GlobalConfig} {procId : ProcId} {sys : System}

/-- 32 bits hold an id exactly when it is below `2 ^ 32`. -/
theorem toUInt64_toUInt32_eq_iff (key : ProcId) : key.toUInt32.toUInt64 = key ↔ key.toNat < 2 ^ 32 := by
  rw [← UInt64.toNat_inj, UInt32.toNat_toUInt64, UInt64.toNat_toUInt32]
  have := key.toNat_lt
  omega

/-- The queue that answered is named exactly when its key fits in 32 bits. -/
theorem identifies_iff (tagged : Tagged config procId sys.chan.unlockQueues) {α : Type}
    {answer : CChannel.Answer α} {key : ProcId} {queue : CUnlockQueue}
    (member : sys.chan.unlockQueues[key]? = some queue)
    (kept : answer.chan.unlockQueues = sys.chan.unlockQueues) (src : answer.src = queue.peerId) :
    Identifies answer key queue ↔ key.toNat < 2 ^ 32 := by
  obtain ⟨_, tag⟩ := tagged key queue member
  have value : answer.src = key.toUInt32.toUInt64 := by
    rw [src, CUnlockQueue.peerId, tag]
  rw [← toUInt64_toUInt32_eq_iff]
  constructor
  · exact fun named => value.symm.trans named.key
  · intro same
    have here : answer.chan.unlockQueues[answer.src]? = some queue := by
      rw [value, same, kept]
      exact member
    refine ⟨value.trans same, fun segments => ?_, fun segments data reserve => ?_⟩
    · rw [CChannel.drop, here]
    · rw [CChannel.send, here]

theorem recv_quiet (len : UInt32) : Quiet (CUnlockQueue.recv len) := by
  intro queue segments err failed
  have failed' : (recv (segments queue.recver) len).1 = .error err := failed
  have same : (recv (segments queue.recver) len).2 = segments queue.recver := by
    unfold recv at failed' ⊢
    cases found : (segments queue.recver).nextPack with
    | error err => rfl
    | ok pack =>
      rw [found] at failed'
      dsimp only at failed' ⊢
      split_ifs at failed' ⊢
      rfl
  show Function.update segments queue.recver (recv (segments queue.recver) len).2 = segments
  rw [same, Function.update_eq_self]

theorem peek_unchanged (queue : Queue) : (peek queue).2 = queue := by
  unfold peek
  cases queue.nextPack <;> rfl

theorem CUnlockQueue.peek_segments (queue : CUnlockQueue) (segments : Segments) :
    (queue.peek segments).2 = segments := by
  show Function.update segments queue.recver (Channel.peek (segments queue.recver)).2 = segments
  rw [peek_unchanged, Function.update_eq_self]

theorem peek_quiet : Quiet CUnlockQueue.peek :=
  fun queue segments _ _ => queue.peek_segments segments

/-- After a successful `Peek`, `Drop` on the same queue removes the packet `Peek` showed. -/
theorem CUnlockQueue.drop_of_peek {queue : CUnlockQueue} {segments : Segments} {view : View}
    (shown : (queue.peek segments).1 = .ok view) :
    ∃ pack, (segments queue.recver).nextPack = .ok pack ∧ view = pack.view ∧
      queue.drop segments = (.ok (), Function.update segments queue.recver
        ((segments queue.recver).advance pack)) := by
  have shown' : (Channel.peek (segments queue.recver)).1 = .ok view := shown
  cases found : (segments queue.recver).nextPack with
  | error err =>
    rw [peek_of_error found] at shown'
    cases shown'
  | ok pack =>
    rw [peek_of_ok found] at shown'
    cases shown'
    refine ⟨pack, rfl, rfl, ?_⟩
    unfold drop
    rw [drop_of_ok found]

end Source

/-- **Source identity.** After every successful `Init`, in every run and whatever the peers do: a
`Recv` or `Peek` that returns `kOk` is answered from the queue of a configured peer `key`, and the
source it reports identifies that peer, so that `Send` and `Drop` on it act on that queue and `Drop`
after `Peek` removes exactly the message shown, if and only if the peer's id is below `2 ^ 32`. -/
theorem source_identity_iff (attach : ShmId → Bool) (segments : Segments) (config : GlobalConfig)
    (procId : ProcId) (start : CChannel)
    (opened : CChannel.init attach segments (some config) procId .new = (.ok (), start))
    (sys : System) (reached : (systemMachine start).Reachable sys) :
    (∀ len answer bytes, sys.chan.recv sys.segments len = some answer → answer.ret = .ok bytes →
      ∃ key queue, answer.chan.curRecvQueue = some key ∧ sys.chan.unlockQueues[key]? = some queue ∧
        Configured config procId key queue ∧
        queue.recv len sys.segments = (.ok bytes, answer.segments) ∧
        (Identifies answer key queue ↔ key.toNat < 2 ^ 32)) ∧
    ∀ answer view, sys.chan.peek sys.segments = some answer → answer.ret = .ok view →
      ∃ key queue, answer.chan.curRecvQueue = some key ∧ sys.chan.unlockQueues[key]? = some queue ∧
        Configured config procId key queue ∧
        queue.peek sys.segments = (.ok view, answer.segments) ∧
        ((Identifies answer key queue ∧ ∃ pack, (answer.segments queue.recver).nextPack = .ok pack ∧
            view = pack.view ∧
            answer.chan.drop answer.segments answer.src = (.ok (), Function.update answer.segments
              queue.recver ((answer.segments queue.recver).advance pack))) ↔ key.toNat < 2 ^ 32) := by
  have tagged : Tagged config procId sys.chan.unlockQueues := by
    rw [systemMachine_unlockQueues reached]
    exact CChannel.init_tagged opened
  constructor
  · intro len answer bytes answered ok
    obtain ⟨key, queue, cursor, member, src, done⟩ :=
      CChannel.poll_ok (recv_quiet len) answered ok
    have kept := CChannel.poll_unlockQueues answered
    rw [CChannel.prepare_unlockQueues] at member kept
    exact ⟨key, queue, cursor, member, (tagged key queue member).1, done,
      identifies_iff tagged member kept src⟩
  · intro answer view answered ok
    obtain ⟨key, queue, cursor, member, src, done⟩ := CChannel.poll_ok peek_quiet answered ok
    have kept := CChannel.poll_unlockQueues answered
    rw [CChannel.prepare_unlockQueues] at member kept
    have named := identifies_iff tagged member kept src
    have same : answer.segments = sys.segments := by
      rw [← queue.peek_segments sys.segments, done]
    refine ⟨key, queue, cursor, member, (tagged key queue member).1, done,
      ⟨fun both => named.mp both.1, fun fits => ⟨named.mpr fits, ?_⟩⟩⟩
    obtain ⟨pack, found, shown, dropped⟩ := CUnlockQueue.drop_of_peek (congrArg Prod.fst done)
    rw [(named.mpr fits).drop, same]
    exact ⟨pack, found, shown, dropped⟩

/-- A process `1` with one peer. -/
def pairConfig (peer : ProcId) : GlobalConfig := ⟨[⟨#v[1, peer], 10, 11, 1000, 1000⟩]⟩

/-- Segments of `1000` bytes behind the header, each with one empty message in it. -/
def pairSegments : Segments := fun _ =>
  (send ⟨resetHead (1000 + kUnlockQueueHeadSize), fun _ => 0⟩ ⟨[], by decide⟩
    (Vector.replicate 24 0)).2

/-- The channel of process `1` after `Init`. -/
def pairChannel (peer : ProcId) : CChannel :=
  (CChannel.init (fun _ => true) pairSegments (some (pairConfig peer)) 1 .new).2

/-- A peer below `2 ^ 32` is identified by the first `Peek` after `Init`. -/
theorem source_identity_iff_pair :
    ∃ answer queue, (pairChannel 2).peek pairSegments = some answer ∧
      answer.ret = .ok ⟨48, 0⟩ ∧ Identifies answer 2 queue := by
  obtain ⟨key, queue, cursor, _, _, _, named⟩ :=
    (source_identity_iff (fun _ => true) pairSegments (pairConfig 2) 1 (pairChannel 2) rfl
      ⟨pairChannel 2, pairSegments⟩ (.start rfl)).2 _ _ rfl rfl
  cases (cursor : some 2 = some key)
  exact ⟨_, queue, rfl, rfl, (named.mpr (by decide)).1⟩

/-- A peer above `2 ^ 32`: `Peek` reports another source, and `Drop` does not find it. -/
theorem source_identity_fails_wide :
    CChannel.init (fun _ => true) pairSegments (some (pairConfig 4294967296)) 1 .new
        = (.ok (), pairChannel 4294967296) ∧
      ∃ answer, (pairChannel 4294967296).peek pairSegments = some answer ∧
        answer.ret = .ok ⟨48, 0⟩ ∧ answer.chan.curRecvQueue = some 4294967296 ∧ answer.src = 0 ∧
        (answer.chan.drop answer.segments answer.src).1 = .error .kChanDstNotExist := by
  refine ⟨rfl, _, rfl, ?_, ?_, ?_, ?_⟩
  · rfl
  · rfl
  · rfl
  · rfl

end Yarf.Channel
