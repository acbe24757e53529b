/-
**The two ends of a channel.**

A stored channel has two segments. Its second peer sees it mirrored: it receives from the segment the
first one sends to, and the other way round. With no two channels between the same processes and no
segment used twice (`Segmented`), each segment has one sender and one receiver (`Line`), and what all
processes do to it is a run of one queue (`line_projection`).

`wired_iff`: the two ends of a stored channel fit exactly when the two peers are different processes.
A process with a channel to itself has the mirrored end only: it sends to a segment it never reads.
-/

import Yarf.Channel.Config
import Yarf.Channel.Fifo

namespace Yarf.Channel

open Lib

/-! ### The segments of a configuration -/

/-- The segments of all channels. -/
def GlobalConfig.shmIds (config : GlobalConfig) : List ShmId :=
  config.channels.flatMap fun channel => [channel.sendShmId, channel.recvShmId]

/-- The first `n` segments asked for, as far as they were created, have different ids. -/
def Distinct (initByKey : ℕ → Option ShmId) (n : ℕ) : Prop :=
  ∀ k l id, k < n → l < n → initByKey k = some id → initByKey l = some id → k = l

/-- Every stored channel has its own two segments, each with the capacity the channel gives it. -/
structure Segmented (initByKey : ℕ → Option ShmId) (state : ConfigState) : Prop where
  ids : state.shm.config.shmIds.Nodup
  created : ∀ id ∈ state.shm.config.shmIds, ∃ k < state.created, initByKey k = some id
  fresh : ∀ channel ∈ state.shm.config.channels,
    state.segments channel.sendShmId = freshQueue channel.sendSize ∧
      state.segments channel.recvShmId = freshQueue channel.recvSize

section Segments

variable {initByKey : ℕ → Option ShmId} {state after : ConfigState} {config : GlobalConfig}
  {channel entry : ChanConfig} {id : ShmId}

theorem Distinct.mono {m n : ℕ} (distinct : Distinct initByKey n) (less : m ≤ n) :
    Distinct initByKey m :=
  fun k l id kLt lLt => distinct k l id (by omega) (by omega)

theorem GlobalConfig.mem_shmIds :
    id ∈ config.shmIds ↔ ∃ channel ∈ config.channels, id = channel.sendShmId ∨ id = channel.recvShmId := by
  rw [shmIds, List.mem_flatMap]
  exact exists_congr fun channel => and_congr_right fun _ => by
    rw [List.mem_cons, List.mem_singleton]

theorem Segmented.refused (segmented : Segmented initByKey state) (refused : Refused state after) :
    Segmented initByKey after := by
  refine ⟨refused.config ▸ segmented.ids, ?_, ?_⟩
  · intro id member
    rw [refused.config] at member
    obtain ⟨k, below, created⟩ := segmented.created id member
    exact ⟨k, lt_of_lt_of_le below refused.created, created⟩
  · intro channel member
    rw [refused.config] at member
    rw [refused.segments]
    exact segmented.fresh channel member

/-- A segment created later is not among those in use. -/
theorem Segmented.unused {n total : ℕ} {id : ShmId} (segmented : Segmented initByKey state)
    (distinct : Distinct initByKey total) (later : state.created ≤ n) (inside : n < total)
    (created : initByKey n = some id) : id ∉ state.shm.config.shmIds := by
  intro member
  obtain ⟨k, below, first⟩ := segmented.created id member
  have same := distinct k n id (below.trans_le (later.trans inside.le)) inside first created
  exact absurd (same ▸ below) (Nat.not_lt.mpr later)

/-- The two segments of a new channel are not those of the others. -/
theorem Segmented.added {sendShm recvShm : ShmId} (segmented : Segmented initByKey state)
    (added : Added initByKey channel sendShm recvShm state after)
    (distinct : Distinct initByKey after.created) : Segmented initByKey after := by
  rw [added.created] at distinct
  have newSend := segmented.unused distinct le_rfl (by omega) added.first
  have newRecv := segmented.unused distinct (Nat.le_succ _) (by omega) added.second
  have apart : sendShm ≠ recvShm := by
    intro same
    have clash := distinct _ _ _ (by omega) (by omega) added.first (same ▸ added.second)
    omega
  have shmIds : after.shm.config.shmIds = state.shm.config.shmIds ++ [sendShm, recvShm] := by
    rw [added.config, GlobalConfig.shmIds, List.flatMap_append]
    rfl
  refine ⟨?_, ?_, ?_⟩
  · rw [shmIds, List.nodup_append]
    refine ⟨segmented.ids, ?_, ?_⟩
    · rw [List.nodup_cons, List.mem_singleton]
      exact ⟨apart, List.nodup_singleton _⟩
    · intro old member new inside same
      subst same
      rw [List.mem_cons, List.mem_singleton] at inside
      rcases inside with rfl | rfl
      · exact newSend member
      · exact newRecv member
  · intro id member
    rw [shmIds, List.mem_append, List.mem_cons, List.mem_singleton] at member
    rw [added.created]
    rcases member with old | rfl | rfl
    · obtain ⟨k, below, created⟩ := segmented.created id old
      exact ⟨k, by omega, created⟩
    · exact ⟨_, by omega, added.first⟩
    · exact ⟨_, by omega, added.second⟩
  · intro other member
    rw [added.config, List.mem_append, List.mem_singleton] at member
    rw [added.segments]
    rcases member with old | rfl
    · have sendOther : other.sendShmId ∈ state.shm.config.shmIds :=
        GlobalConfig.mem_shmIds.mpr ⟨other, old, Or.inl rfl⟩
      have recvOther : other.recvShmId ∈ state.shm.config.shmIds :=
        GlobalConfig.mem_shmIds.mpr ⟨other, old, Or.inr rfl⟩
      rw [Function.update_of_ne (ne_of_mem_of_not_mem sendOther newRecv),
        Function.update_of_ne (ne_of_mem_of_not_mem sendOther newSend),
        Function.update_of_ne (ne_of_mem_of_not_mem recvOther newRecv),
        Function.update_of_ne (ne_of_mem_of_not_mem recvOther newSend)]
      exact segmented.fresh other old
    · dsimp only
      rw [Function.update_of_ne apart, Function.update_self, Function.update_self]
      exact ⟨rfl, rfl⟩

/-- **After every sequence of calls of `Create`** that was given different segments. -/
theorem configMachine_segmented (reached : (configMachine initByKey).Reachable state) :
    Distinct initByKey state.created → Segmented initByKey state := by
  have base : ∀ start, (configMachine initByKey).init start →
      Distinct initByKey start.created → Segmented initByKey start := by
    intro start begins _
    have fresh : start.shm = .fresh := begins.1
    have none : start.shm.config.channels = [] := by rw [fresh]; rfl
    have ids : start.shm.config.shmIds = [] := by rw [GlobalConfig.shmIds, none]; rfl
    refine ⟨?_, ?_, ?_⟩
    · rw [ids]
      exact List.nodup_nil
    · rw [ids]
      exact nofun
    · rw [none]
      exact nofun
  refine reached.invariant base ?_
  intro last channels next _ inv taken
  rw [show next = createChannels initByKey channels last from taken]
  refine createChannels_induction
    (fun after => Distinct initByKey after.created → Segmented initByKey after) channels ?_ ?_ inv
  · intro state after before refused distinct
    exact (before (distinct.mono refused.created)).refused refused
  · intro channel sendShm recvShm state after before _ added distinct
    have less : state.created ≤ after.created := by rw [added.created]; omega
    exact (before (distinct.mono less)).added added distinct

/-- A segment belongs to one channel, and is one of its two. -/
theorem GlobalConfig.shm_unique (ids : config.shmIds.Nodup) (member : channel ∈ config.channels)
    (inside : entry ∈ config.channels)
    (own : id = channel.sendShmId ∨ id = channel.recvShmId)
    (other : id = entry.sendShmId ∨ id = entry.recvShmId) : channel = entry := by
  by_contra apart
  have symmetric : Std.Symm (Function.onFun List.Disjoint
      fun channel : ChanConfig => [channel.sendShmId, channel.recvShmId]) :=
    ⟨fun _ _ disjoint => List.Disjoint.symm disjoint⟩
  have disjoint := (List.nodup_flatMap.mp ids).2.forall member inside apart
  have first : id ∈ [channel.sendShmId, channel.recvShmId] := by simpa using own
  have second : id ∈ [entry.sendShmId, entry.recvShmId] := by simpa using other
  exact disjoint first second

theorem GlobalConfig.shm_apart (ids : config.shmIds.Nodup) (member : channel ∈ config.channels) :
    channel.sendShmId ≠ channel.recvShmId := by
  have both := (List.nodup_flatMap.mp ids).1 channel member
  rw [List.nodup_cons, List.mem_singleton] at both
  exact both.1

end Segments

/-! ### The ends a process has after `Init` -/

/-- The end of a channel that a process has: the peer and the channel as it sees it, and its queue. -/
structure HasEnd (chan : CChannel) (procId key : ProcId) (channel view : ChanConfig) : Prop where
  oriented : channel.orient procId = .ok (key, view)
  queue : chan.unlockQueues[key]? = some ⟨view.recvShmId, view.sendShmId, key.toUInt32⟩

section Ends

variable {attach : ShmId → Bool} {segments : Segments} {config : GlobalConfig} {procId key : ProcId}
  {queues result : UnlockQueueSet} {channel : ChanConfig}

/-- The loop of `Init` keeps the queues it has and opens one for each channel. -/
theorem CChannel.openQueues_complete {channels : List ChanConfig}
    (opened : openQueues attach segments procId channels queues = (.ok (), result)) :
    (∀ (key : ProcId) queue, queues[key]? = some queue → result[key]? = some queue) ∧
      ∀ channel ∈ channels, ∃ (key : ProcId) (view : ChanConfig), channel.orient procId = .ok (key, view) ∧
        result[key]? = some ⟨view.recvShmId, view.sendShmId, key.toUInt32⟩ := by
  induction channels generalizing queues with
  | nil =>
    cases opened
    exact ⟨fun _ _ member => member, nofun⟩
  | cons channel rest ih =>
    unfold openQueues at opened
    cases first : openQueue attach segments procId queues channel with
    | error err =>
      rw [first] at opened
      cases opened
    | ok found =>
      obtain ⟨key, queue⟩ := found
      rw [first] at opened
      obtain ⟨fresh, view, oriented, built⟩ := openQueue_opens first
      obtain ⟨kept, others⟩ := ih opened
      refine ⟨?_, ?_⟩
      · intro other old member
        refine kept other old ?_
        rw [Std.TreeMap.getElem?_insert, if_neg]
        · exact member
        · intro same
          rw [Std.LawfulEqCmp.eq_of_compare same] at fresh
          exact fresh (UnlockQueueSet.mem_of_some member)
      · intro other member
        rcases List.mem_cons.mp member with rfl | later
        · refine ⟨key, view, oriented, kept key _ ?_⟩
          rw [Std.TreeMap.getElem?_insert_self, built]
        · exact others other later

/-- **After a successful `Init`** a process has its end of every channel it takes part in. -/
theorem CChannel.init_hasEnd {start : CChannel}
    (opened : init attach segments (some config) procId new = (.ok (), start))
    (member : channel ∈ config.channels)
    (own : channel.peer0 = procId ∨ channel.peer1 = procId) :
    ∃ key view, HasEnd start procId key channel view := by
  have inside : channel ∈ config.getChansByProcId procId :=
    List.mem_filter.mpr ⟨member, decide_eq_true own⟩
  obtain ⟨key, view, oriented, queue⟩ :=
    (openQueues_complete (openQueues_of_init opened)).2 channel inside
  exact ⟨key, view, oriented, queue⟩

end Ends

/-! ### The processes together -/

/-- The channels of all processes, and the segments between them. -/
structure Network where
  chans : ProcId → CChannel
  segments : Segments

/-- A call, the peer it dealt with, and what it returned; `Peek` is observed through the bytes it points
at. -/
inductive NetworkCall
  | send (dst : ProcId) (data : Message) (ret : Except Err Unit)
  | recv (len : UInt32) (src : Option ProcId) (ret : Except Err (List UInt8))
  | peek (src : Option ProcId) (ret : Except Err (List UInt8))
  | drop (src : ProcId) (ret : Except Err Unit)

/-- The ring behind the queue at the cursor. -/
def CChannel.currentBuff (chan : CChannel) (segments : Segments) : ℕ → UInt8 :=
  chan.current.elim (fun _ => 0) fun queue => (segments queue.recver).buff

/-- One call of one process. -/
inductive NetworkStep : Network → ProcId × NetworkCall → Network → Prop
  | send (net : Network) (procId dst : ProcId) (data : Message) (reserve : Reserve) :
      NetworkStep net (procId, .send dst data ((net.chans procId).send net.segments dst data reserve).1)
        { net with segments := ((net.chans procId).send net.segments dst data reserve).2 }
  | recv (net : Network) (procId : ProcId) (len : UInt32) (answer : CChannel.Answer (List UInt8)) :
      (net.chans procId).recv net.segments len = some answer →
      NetworkStep net (procId, .recv len answer.chan.curRecvQueue answer.ret)
        ⟨Function.update net.chans procId answer.chan, answer.segments⟩
  | peek (net : Network) (procId : ProcId) (answer : CChannel.Answer View) :
      (net.chans procId).peek net.segments = some answer →
      NetworkStep net (procId, .peek answer.chan.curRecvQueue
          (answer.ret.map fun view => view.bytes (answer.chan.currentBuff answer.segments)))
        ⟨Function.update net.chans procId answer.chan, answer.segments⟩
  | drop (net : Network) (procId src : ProcId) :
      NetworkStep net (procId, .drop src ((net.chans procId).drop net.segments src).1)
        { net with segments := ((net.chans procId).drop net.segments src).2 }

/-- All processes on one configuration: each has called `Init` for the first time, with whatever result,
or not yet. -/
def networkMachine (config : GlobalConfig) : Machine Network (ProcId × NetworkCall) where
  init net := ∀ procId, net.chans procId = .new ∨ ∃ attach segments ret,
    CChannel.init attach segments (some config) procId .new = (ret, net.chans procId)
  step := NetworkStep

/-- What a call that succeeded did to the line from `sender` to `receiver`. -/
def lineEvent (sender receiver : ProcId) : ProcId × NetworkCall → Option Event
  | (procId, .send dst data (.ok ())) =>
    if procId = sender ∧ dst = receiver then some (.send data (.ok ())) else none
  | (procId, .recv len src (.ok bytes)) =>
    if procId = receiver ∧ src = some sender then some (.recv len (.ok bytes)) else none
  | (procId, .peek src (.ok bytes)) =>
    if procId = receiver ∧ src = some sender then some (.peek (.ok bytes)) else none
  | (procId, .drop src (.ok ())) =>
    if procId = receiver ∧ src = sender then some (.drop (.ok ())) else none
  | _ => none

/-- The segment `id` is the line from `sender` to `receiver`: nobody else writes to it, and nobody else
reads from it. -/
def Line (id : ShmId) (sender receiver : ProcId) (net : Network) : Prop :=
  ∀ (procId key : ProcId) queue, (net.chans procId).unlockQueues[key]? = some queue →
    (queue.sender = id ↔ procId = sender ∧ key = receiver) ∧
      (queue.recver = id ↔ procId = receiver ∧ key = sender)

section Lines

variable {config : GlobalConfig} {id : ShmId} {sender receiver : ProcId} {last next : Network}
  {label : ProcId × NetworkCall}

theorem update_unlockQueues {chans : ProcId → CChannel} {caller : ProcId} {chan : CChannel}
    (kept : chan.unlockQueues = (chans caller).unlockQueues) (procId : ProcId) :
    (Function.update chans caller chan procId).unlockQueues = (chans procId).unlockQueues := by
  rcases eq_or_ne procId caller with rfl | other
  · rw [Function.update_self, kept]
  · rw [Function.update_of_ne other]

theorem NetworkStep.unlockQueues (taken : NetworkStep last label next) (procId : ProcId) :
    (next.chans procId).unlockQueues = (last.chans procId).unlockQueues := by
  cases taken with
  | send | drop => rfl
  | recv caller len answer answered | peek caller answer answered =>
    exact update_unlockQueues
      ((CChannel.poll_unlockQueues answered).trans (last.chans caller).prepare_unlockQueues) procId

theorem Line.step (line : Line id sender receiver last) (taken : NetworkStep last label next) :
    Line id sender receiver next := by
  intro procId key queue member
  rw [taken.unlockQueues procId] at member
  exact line procId key queue member

/-- A failed `Send` leaves the queue as it was. -/
theorem send_of_failed {queue : Queue} {data : Message} {reserve : Reserve} {err : Err}
    (failed : (send queue data reserve).1 = .error err) : (send queue data reserve).2 = queue := by
  refine (QueueStep.send queue data reserve le_rfl).unchanged ?_
  rw [Event.Passive, failed]
  exact nofun

theorem drop_of_failed {queue : Queue} {err : Err} (failed : (drop queue).1 = .error err) :
    (drop queue).2 = queue := by
  refine (@QueueStep.drop 0 queue).unchanged ?_
  rw [Event.Passive, failed]
  exact nofun

/-- A call that succeeds on the queue at `touched` is seen on the line at `id` when the two are one. -/
theorem seen_at {names : Prop} [Decidable names] {touched : ShmId} {segments : Segments} {event : Event}
    {after : Queue} (role : touched = id ↔ names)
    (step : QueueStep (2 ^ 32) (segments touched) event after) :
    (∃ seen, (if names then some event else none) = some seen ∧
      QueueStep (2 ^ 32) (segments id) seen (Function.update segments touched after id)) ∨
    (if names then some event else none) = none ∧
      Function.update segments touched after id = segments id := by
  by_cases here : touched = id
  · refine Or.inl ⟨event, if_pos (role.mp here), ?_⟩
    subst here
    rw [Function.update_self]
    exact step
  · refine Or.inr ⟨if_neg (mt role.mpr here), ?_⟩
    rw [Function.update_of_ne (Ne.symm here)]

/-- **One call** seen on a line: a step of its queue, or nothing. -/
theorem Line.seen (line : Line id sender receiver last) (taken : NetworkStep last label next) :
    (∃ event, lineEvent sender receiver label = some event ∧
      QueueStep (2 ^ 32) (last.segments id) event (next.segments id)) ∨
    lineEvent sender receiver label = none ∧ next.segments id = last.segments id := by
  cases taken with
  | send procId dst data reserve =>
    unfold CChannel.send
    cases found : (last.chans procId).unlockQueues[dst]? with
    | none => exact Or.inr ⟨rfl, rfl⟩
    | some queue =>
      dsimp only [CUnlockQueue.send]
      cases ret : (send (last.segments queue.sender) data reserve).1 with
      | error err =>
        refine Or.inr ⟨rfl, ?_⟩
        rw [send_of_failed ret, Function.update_eq_self]
      | ok _ =>
        have step := QueueStep.send (last.segments queue.sender) data reserve data.fits.le
        rw [ret] at step
        exact seen_at (line procId dst queue found).1 step
  | recv procId len answer answered =>
    dsimp only
    cases ret : answer.ret with
    | error err =>
      rw [CChannel.poll_error (recv_quiet len) answered ret]
      exact Or.inr ⟨rfl, rfl⟩
    | ok bytes =>
      obtain ⟨key, queue, cursor, member, _, done⟩ := CChannel.poll_ok (recv_quiet len) answered ret
      rw [CChannel.prepare_unlockQueues] at member
      have role := (line procId key queue member).2
      have value : (recv (last.segments queue.recver) len).1 = .ok bytes := congrArg Prod.fst done
      have segments : Function.update last.segments queue.recver
          (recv (last.segments queue.recver) len).2 = answer.segments := congrArg Prod.snd done
      have step := @QueueStep.recv (2 ^ 32) (last.segments queue.recver) len
      rw [value] at step
      rw [cursor, ← segments]
      exact seen_at (role.trans (and_congr_right fun _ => Option.some_inj.symm)) step
  | peek procId answer answered =>
    dsimp only
    cases ret : answer.ret with
    | error err =>
      rw [CChannel.poll_error peek_quiet answered ret]
      exact Or.inr ⟨rfl, rfl⟩
    | ok view =>
      obtain ⟨key, queue, cursor, member, _, done⟩ := CChannel.poll_ok peek_quiet answered ret
      have kept := CChannel.poll_unlockQueues answered
      have current : answer.chan.current = some queue := by
        rw [CChannel.current, cursor, Option.bind_some, kept, member]
      rw [CChannel.prepare_unlockQueues] at member
      have role := (line procId key queue member).2
      have value : (peek (last.segments queue.recver)).1 = .ok view := congrArg Prod.fst done
      have segments : answer.segments = last.segments := by
        rw [← queue.peek_segments last.segments, done]
      have step := @QueueStep.peek (2 ^ 32) (last.segments queue.recver)
      rw [value, peek_unchanged] at step
      have seen := seen_at (role.trans (and_congr_right fun _ => Option.some_inj.symm)) step
      rw [Function.update_eq_self] at seen
      rw [cursor, segments, CChannel.currentBuff, current, Option.elim_some]
      exact seen
  | drop procId src =>
    unfold CChannel.drop
    cases found : (last.chans procId).unlockQueues[src]? with
    | none => exact Or.inr ⟨rfl, rfl⟩
    | some queue =>
      dsimp only [CUnlockQueue.drop]
      cases ret : (drop (last.segments queue.recver)).1 with
      | error err =>
        refine Or.inr ⟨rfl, ?_⟩
        rw [drop_of_failed ret, Function.update_eq_self]
      | ok _ =>
        have step := @QueueStep.drop (2 ^ 32) (last.segments queue.recver)
        rw [ret] at step
        exact seen_at (line procId src queue found).2 step

/-- **Everything the processes do** to a line is a run of its queue, with the successful sends of the one
end and the successful receives of the other. -/
theorem line_projection (start : Queue) :
    Projection (networkMachine config) (queueMachine start (2 ^ 32)) (Line id sender receiver)
      (fun net => net.segments id) (lineEvent sender receiver) := by
  refine ⟨fun _ _ _ line taken => line.step taken, ?_, ?_⟩
  · intro last label next event line taken seen
    rcases line.seen taken with ⟨found, same, step⟩ | ⟨none, _⟩
    · cases same.symm.trans seen
      exact step
    · cases none.symm.trans seen
  · intro last label next line taken unseen
    rcases line.seen taken with ⟨found, same, _⟩ | ⟨_, kept⟩
    · cases same.symm.trans unseen
    · exact kept

end Lines

/-! ### The two ends of a stored channel -/

section Stored

variable {config : GlobalConfig} {entry : ChanConfig} {procId key : ProcId} {queue : CUnlockQueue}

theorem GlobalConfig.pair_unique {channel : ChanConfig}
    (pairs : (config.channels.map ChanConfig.pair).Nodup) (member : channel ∈ config.channels)
    (inside : entry ∈ config.channels) (same : channel.pair = entry.pair) : channel = entry :=
  List.inj_on_of_nodup_map pairs member inside same

/-- A queue of some process is the one end of the channel, or the other, or of another channel. -/
theorem Configured.roles (pairs : (config.channels.map ChanConfig.pair).Nodup)
    (ids : config.shmIds.Nodup) (inside : entry ∈ config.channels)
    (own : Configured config procId key queue) :
    (entry.peer1 = procId ∧ entry.peer0 = key ∧ queue.recver = entry.sendShmId ∧
        queue.sender = entry.recvShmId) ∨
      (entry.peer0 = procId ∧ entry.peer1 = key ∧ queue.recver = entry.recvShmId ∧
        queue.sender = entry.sendShmId) ∨
      s(procId, key) ≠ entry.pair ∧ (queue.recver ≠ entry.sendShmId ∧ queue.recver ≠ entry.recvShmId) ∧
        queue.sender ≠ entry.sendShmId ∧ queue.sender ≠ entry.recvShmId := by
  obtain ⟨channel, member, roles⟩ := own
  by_cases same : channel = entry
  · subst same
    rcases roles with ⟨second, first, recver, sender⟩ | ⟨first, second, recver, sender⟩
    · exact Or.inl ⟨second, first, recver, sender⟩
    · exact Or.inr (Or.inl ⟨first, second, recver, sender⟩)
  · have apart : ∀ id, id = channel.sendShmId ∨ id = channel.recvShmId →
        id ≠ entry.sendShmId ∧ id ≠ entry.recvShmId := by
      intro id mine
      exact not_or.mp fun theirs => same (GlobalConfig.shm_unique ids member inside mine theirs)
    have pair : channel.pair ≠ entry.pair :=
      fun equal => same (GlobalConfig.pair_unique pairs member inside equal)
    refine Or.inr (Or.inr ?_)
    rcases roles with ⟨second, first, recver, sender⟩ | ⟨first, second, recver, sender⟩
    · rw [ChanConfig.pair, first, second, Sym2.eq_swap] at pair
      exact ⟨pair, apart _ (Or.inl recver), apart _ (Or.inr sender)⟩
    · rw [ChanConfig.pair, first, second] at pair
      exact ⟨pair, apart _ (Or.inr recver), apart _ (Or.inl sender)⟩

/-- **Each segment is a line** from one peer to the other, when these are two. -/
theorem stored_lines {net : Network} (pairs : (config.channels.map ChanConfig.pair).Nodup)
    (ids : config.shmIds.Nodup) (inside : entry ∈ config.channels)
    (two : entry.peer0 ≠ entry.peer1)
    (tagged : ∀ procId, Tagged config procId (net.chans procId).unlockQueues) :
    Line entry.sendShmId entry.peer0 entry.peer1 net ∧
      Line entry.recvShmId entry.peer1 entry.peer0 net := by
  have segments := GlobalConfig.shm_apart ids inside
  constructor
  · intro procId key queue member
    rcases (tagged procId key queue member).1.roles pairs ids inside with
      ⟨rfl, rfl, recver, sender⟩ | ⟨rfl, rfl, recver, sender⟩ | ⟨other, ⟨recver, _⟩, sender, _⟩
    · rw [recver, sender]
      exact ⟨iff_of_false segments.symm fun names => two names.2,
        iff_of_true rfl ⟨rfl, rfl⟩⟩
    · rw [recver, sender]
      exact ⟨iff_of_true rfl ⟨rfl, rfl⟩, iff_of_false segments.symm fun names => two names.1⟩
    · refine ⟨iff_of_false sender ?_, iff_of_false recver ?_⟩
      · rintro ⟨rfl, rfl⟩
        exact other rfl
      · rintro ⟨rfl, rfl⟩
        exact other Sym2.eq_swap
  · intro procId key queue member
    rcases (tagged procId key queue member).1.roles pairs ids inside with
      ⟨rfl, rfl, recver, sender⟩ | ⟨rfl, rfl, recver, sender⟩ | ⟨other, ⟨_, recver⟩, _, sender⟩
    · rw [recver, sender]
      exact ⟨iff_of_true rfl ⟨rfl, rfl⟩, iff_of_false segments fun names => two names.2⟩
    · rw [recver, sender]
      exact ⟨iff_of_false segments fun names => two names.1, iff_of_true rfl ⟨rfl, rfl⟩⟩
    · refine ⟨iff_of_false sender ?_, iff_of_false recver ?_⟩
      · rintro ⟨rfl, rfl⟩
        exact other Sym2.eq_swap
      · rintro ⟨rfl, rfl⟩
        exact other rfl

/-- Every queue of every process is a configured one. -/
theorem networkMachine_tagged {net : Network} (begins : (networkMachine config).init net)
    (procId : ProcId) : Tagged config procId (net.chans procId).unlockQueues := by
  rcases begins procId with new | ⟨attach, segments, ret, opened⟩
  · rw [new]
    intro key queue member
    exact absurd (UnlockQueueSet.mem_of_some member) Std.TreeMap.not_mem_emptyc
  · exact CChannel.init_tagged opened

/-- What a process sees of its end. -/
theorem HasEnd.view_cases {chan : CChannel} {view : ChanConfig}
    (has : HasEnd chan procId key entry view) :
    entry.peer1 = procId ∧ key = entry.peer0 ∧ view = entry.image ∨
      entry.peer0 = procId ∧ key = entry.peer1 ∧ view = entry :=
  ChanConfig.orient_ok has.oriented

end Stored

/-- The two ends of a stored channel fit: what one peer sends to the other is what the other receives
from it, through segments that no other processes use. -/
structure Wired (state : ConfigState) (entry : ChanConfig) (first second : CChannel) : Prop where
  /-- Each sends to the segment the other receives from, with the same size, which is the capacity of
  the segment. -/
  ends : ∃ view image, HasEnd first entry.peer0 entry.peer1 entry view ∧
    HasEnd second entry.peer1 entry.peer0 entry image ∧
    (view.sendShmId = image.recvShmId ∧ view.sendSize = image.recvSize ∧
      state.segments view.sendShmId = freshQueue view.sendSize) ∧
    image.sendShmId = view.recvShmId ∧ image.sendSize = view.recvSize ∧
      state.segments image.sendShmId = freshQueue image.sendSize
  /-- Only these two processes have a queue on one of the segments, and only for each other. -/
  own : ∀ attach segments procId chan key queue,
    CChannel.init attach segments (some state.shm.config) procId .new = (.ok (), chan) →
    chan.unlockQueues[key]? = some queue →
    (queue.sender = entry.sendShmId ∨ queue.sender = entry.recvShmId ∨
      queue.recver = entry.sendShmId ∨ queue.recver = entry.recvShmId) →
    s(procId, key) = entry.pair
  /-- In every run of all processes each segment goes through a run of one queue: the messages the one
  peer sent to the other, and the messages the other received from it. -/
  delivers : ∀ start calls last, (networkMachine state.shm.config).init start →
    (networkMachine state.shm.config).Run start calls last →
    (queueMachine (start.segments entry.sendShmId) (2 ^ 32)).Run (start.segments entry.sendShmId)
        (calls.filterMap (lineEvent entry.peer0 entry.peer1)) (last.segments entry.sendShmId) ∧
      (queueMachine (start.segments entry.recvShmId) (2 ^ 32)).Run (start.segments entry.recvShmId)
        (calls.filterMap (lineEvent entry.peer1 entry.peer0)) (last.segments entry.recvShmId)

/-- A process sends its messages to itself where it does not look for them. -/
theorem not_wired_of_self {initByKey : ℕ → Option ShmId} {state : ConfigState} {entry : ChanConfig}
    {first second : CChannel} (segmented : Segmented initByKey state)
    (inside : entry ∈ state.shm.config.channels) (self : entry.peer0 = entry.peer1) :
    ¬Wired state entry first second := by
  intro wired
  obtain ⟨view, image, one, two, ⟨sends, _⟩, _⟩ := wired.ends
  have mirrored : ∀ key view, entry.orient entry.peer1 = .ok (key, view) → view = entry.image := by
    intro key view oriented
    rw [ChanConfig.orient, if_pos rfl] at oriented
    cases oriented
    rfl
  have left := mirrored _ _ (self ▸ one.oriented)
  have right := mirrored _ _ two.oriented
  rw [left, right] at sends
  exact GlobalConfig.shm_apart segmented.ids inside sends.symm

/-- **Channel wiring.** After every sequence of calls of `Create` on a fresh segment that was given
queue segments with different ids, for every stored channel and every successful first `Init` of its
two peers: the two ends fit if and only if the peers are two different processes. -/
theorem wired_iff (initByKey : ℕ → Option ShmId) (state : ConfigState)
    (reached : (configMachine initByKey).Reachable state)
    (distinct : Distinct initByKey state.created) (entry : ChanConfig)
    (inside : entry ∈ state.shm.config.channels) (attach attach' : ShmId → Bool)
    (segments segments' : Segments) (first second : CChannel)
    (openedFirst : CChannel.init attach segments (some state.shm.config) entry.peer0 .new =
      (.ok (), first))
    (openedSecond : CChannel.init attach' segments' (some state.shm.config) entry.peer1 .new =
      (.ok (), second)) :
    Wired state entry first second ↔ entry.peer0 ≠ entry.peer1 := by
  have segmented := configMachine_segmented reached distinct
  have inv := configMachine_inv reached
  constructor
  · exact fun wired self => not_wired_of_self segmented inside self wired
  · intro two
    refine ⟨?_, ?_, ?_⟩
    · obtain ⟨key, view, one⟩ := CChannel.init_hasEnd openedFirst inside (Or.inl rfl)
      obtain ⟨key', image, other⟩ := CChannel.init_hasEnd openedSecond inside (Or.inr rfl)
      obtain ⟨send, recv⟩ := segmented.fresh entry inside
      rcases one.view_cases with ⟨same, _⟩ | ⟨_, rfl, rfl⟩
      · exact absurd same.symm two
      · rcases other.view_cases with ⟨_, rfl, rfl⟩ | ⟨same, _⟩
        · exact ⟨_, _, one, other, ⟨rfl, rfl, send⟩, rfl, rfl, recv⟩
        · exact absurd same two
    · intro attach segments procId chan key queue opened member uses
      have own := (CChannel.init_tagged opened key queue member).1
      rcases own.roles inv.pairs segmented.ids inside with
        ⟨rfl, rfl, _⟩ | ⟨rfl, rfl, _⟩ | ⟨_, ⟨recver, recver'⟩, sender, sender'⟩
      · exact Sym2.eq_swap
      · rfl
      · rcases uses with same | same | same | same
        · exact absurd same sender
        · exact absurd same sender'
        · exact absurd same recver
        · exact absurd same recver'
    · intro start calls last begins run
      obtain ⟨there, back⟩ := stored_lines inv.pairs segmented.ids inside two
        (networkMachine_tagged begins)
      exact ⟨(line_projection _).run there run, (line_projection _).run back run⟩

/-- The first two segments have different ids. -/
theorem countingShm_distinct : Distinct countingShm 2 := by
  have different : ∀ k < 2, ∀ l < 2, countingShm k = countingShm l → k = l := by decide
  intro k l id kLt lLt first second
  exact different k kLt l lLt (first.trans second.symm)

/-- Up to `4096` segments, with the ids `0`, `1`, `2` and so on. -/
def hostShm (k : ℕ) : Option ShmId := if k < 4096 then some (Int32.ofNat k) else none

theorem hostShm_distinct (n : ℕ) : Distinct hostShm n := by
  have id : ∀ k id, hostShm k = some id → k < 4096 ∧ id.toInt = k := by
    intro k id created
    unfold hostShm at created
    split_ifs at created with below
    obtain rfl := Option.some.inj created
    exact ⟨below, Int32.toInt_ofNat_of_lt (by omega)⟩
  intro k l shm _ _ first second
  have here := (id k shm first).2
  have there := (id l shm second).2
  omega

/-- A channel between two processes is wired. -/
theorem wired_iff_twice :
    ∃ entry first second, twiceAsked.shm.config.channels = [entry] ∧
      Wired twiceAsked entry first second := by
  have start : (configMachine countingShm).Reachable
      ⟨createByKey none, fun _ => freshQueue 0, 0⟩ := .start ⟨rfl, rfl⟩
  have wired := (wired_iff countingShm twiceAsked (start.next rfl) countingShm_distinct
    ⟨#v[1, 2], 0, 1, 1000, 2000⟩ List.mem_cons_self (fun _ => true) (fun _ => true)
    twiceAsked.segments twiceAsked.segments _ _ rfl rfl).mpr (by decide)
  exact ⟨_, _, _, rfl, wired⟩

/-- The configuration with a channel from process `1` to itself. -/
def selfAsked : ConfigState :=
  create countingShm [⟨#v[1, 1], 0, 0, 1000, 1000⟩] (some (createByKey none))
    (fun _ => freshQueue 0) 0

def selfChannel : CChannel :=
  (CChannel.init (fun _ => true) selfAsked.segments (some selfAsked.shm.config) 1 .new).2

/-- `Create` stores a channel from a process to itself and `Init` opens it, but the ends do not fit:
`Send` accepts a message, and `Recv` finds none. -/
theorem wired_fails_self :
    ∃ entry, selfAsked.shm.config.channels = [entry] ∧
      CChannel.init (fun _ => true) selfAsked.segments (some selfAsked.shm.config) 1 .new =
        (.ok (), selfChannel) ∧
      ¬Wired selfAsked entry selfChannel selfChannel ∧
      ∃ answer, (selfChannel.send selfAsked.segments 1 ⟨[7], by decide⟩ (Vector.replicate 24 0)).1 =
          .ok () ∧
        selfChannel.recv (selfChannel.send selfAsked.segments 1 ⟨[7], by decide⟩
          (Vector.replicate 24 0)).2 100 = some answer ∧ answer.ret = .error .kChanEmpty := by
  have start : (configMachine countingShm).Reachable
      ⟨createByKey none, fun _ => freshQueue 0, 0⟩ := .start ⟨rfl, rfl⟩
  have reached : (configMachine countingShm).Reachable selfAsked := start.next rfl
  have segmented := configMachine_segmented reached countingShm_distinct
  exact ⟨⟨#v[1, 1], 0, 1, 1000, 1000⟩, rfl, rfl,
    not_wired_of_self segmented List.mem_cons_self rfl, _, rfl, rfl, rfl⟩

end Yarf.Channel
