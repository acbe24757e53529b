/-
**The multiplexed receive** (`CChannel::Recv`, `CChannel::Peek`).

A call looks at the queues in the order of the map, from the cursor on and around (`cyclic`); a cursor
whose queue has delivered `kMaxQueueRecvPkgCount` packets in a row is moved on first (`startKey`). The
loop is a scan of that order (`poll_scan`): it ends at the first queue that is not empty, with the answer
of that queue alone.

`multiplex_exact`: that is what `Recv` and `Peek` return, for every number of queues, every cursor, every
packet count and every content of the queues.
-/

import Mathlib.Data.List.Rotate
import Yarf.Channel.Service

namespace Yarf.Channel

open Lib

/-! ### The order of a call -/

/-- The keys in the order of the map, from `start` on and around. -/
def UnlockQueueSet.cyclic (queues : UnlockQueueSet) (start : ProcId) : List ProcId :=
  queues.keys.rotate (queues.place start)

/-- Each key is the one `MoveToNextQueue` comes to from the key before it. -/
def UnlockQueueSet.Walk (queues : UnlockQueueSet) (order : List ProcId) : Prop :=
  order.IsChain fun key after => (queues.next key).or queues.begin = some after

section Order

variable {queues : UnlockQueueSet} {start : ProcId}

theorem UnlockQueueSet.length_cyclic (start : ProcId) : (queues.cyclic start).length = queues.size := by
  rw [cyclic, List.length_rotate, Std.TreeMap.length_keys]

theorem UnlockQueueSet.mem_cyclic {key : ProcId} : key ∈ queues.cyclic start ↔ key ∈ queues := by
  rw [cyclic, List.mem_rotate, Std.TreeMap.mem_keys]

theorem UnlockQueueSet.nodup_cyclic (start : ProcId) : (queues.cyclic start).Nodup :=
  List.nodup_rotate.mpr Std.TreeMap.nodup_keys

/-- The order begins with `start`. -/
theorem UnlockQueueSet.cyclic_eq_cons (member : start ∈ queues) :
    ∃ rest, queues.cyclic start = start :: rest := by
  have inside : queues.place start < queues.keys.length :=
    List.idxOf_lt_length_of_mem (Std.TreeMap.mem_keys.mpr member)
  refine ⟨(queues.cyclic start).tail, (List.cons_head?_tail ?_).symm⟩
  rw [cyclic, List.head?_rotate inside, List.getElem?_eq_getElem inside]
  exact congrArg some (List.getElem_idxOf inside)

theorem UnlockQueueSet.place_cyclic {i : ℕ} (inside : i < (queues.cyclic start).length) :
    queues.place (queues.cyclic start)[i] = slot queues.size (queues.place start) i := by
  have size : queues.keys.length = queues.size := Std.TreeMap.length_keys
  have bound : (i + queues.place start) % queues.keys.length < queues.keys.length :=
    Nat.mod_lt _ (by rw [length_cyclic] at inside; omega)
  have value : (queues.cyclic start)[i]
      = queues.keys[(i + queues.place start) % queues.keys.length] := List.getElem_rotate _ _ _ inside
  rw [value, place_getElem bound, slot, Nat.add_comm, size]

/-- **The cursor walks the order.** -/
theorem UnlockQueueSet.walk_cyclic (start : ProcId) : queues.Walk (queues.cyclic start) := by
  refine List.isChain_iff_getElem.mpr fun i inside => ?_
  have member := mem_cyclic.mp (List.getElem_mem (Nat.lt_of_succ_lt inside))
  obtain ⟨next, other, found, place⟩ := next_place member
  rw [found]
  refine congrArg some (place_inj other (mem_cyclic.mp (List.getElem_mem inside)) ?_)
  rw [place, place_cyclic, place_cyclic, slot_slot]

end Order

/-! ### Where a call begins -/

/-- The key a call looks at first: the one the cursor stands at, or the next one when its queue has had its
turn. -/
def CChannel.startKey (chan : CChannel) : Option ProcId :=
  match chan.curRecvQueue with
  | none => chan.unlockQueues.begin
  | some key =>
    if 10 ≤ chan.curQueueRecvPkgCount.toNat then
      (chan.unlockQueues.next key).or chan.unlockQueues.begin
    else some key

/-- The packets in a row that the queue looked at first has delivered. -/
def CChannel.startCount (chan : CChannel) : UInt32 :=
  match chan.curRecvQueue with
  | none => 0
  | some _ => if 10 ≤ chan.curQueueRecvPkgCount.toNat then 0 else chan.curQueueRecvPkgCount

/-- The cursor stands at a queue or at the end. -/
def CChannel.CursorValid (chan : CChannel) : Prop :=
  ∀ key, chan.curRecvQueue = some key → key ∈ chan.unlockQueues

section Start

variable {chan : CChannel} {key start : ProcId}

theorem UnlockQueueSet.begin_mem {queues : UnlockQueueSet} (member : key ∈ queues) :
    ∃ first ∈ queues, queues.begin = some first := by
  have inside := Std.TreeMap.mem_keys.mpr member
  unfold begin
  cases keys : queues.keys with
  | nil =>
    rw [keys] at inside
    cases inside
  | cons first rest => exact ⟨first, Std.TreeMap.mem_keys.mp (keys ▸ List.mem_cons_self), rfl⟩

/-- A channel with a queue has a queue to begin with. -/
theorem CChannel.CursorValid.startKey (valid : chan.CursorValid) (member : key ∈ chan.unlockQueues) :
    ∃ start ∈ chan.unlockQueues, chan.startKey = some start := by
  unfold CChannel.startKey
  cases at_cursor : chan.curRecvQueue with
  | none => exact UnlockQueueSet.begin_mem member
  | some cursor =>
    have here := valid cursor at_cursor
    dsimp only
    split_ifs
    · obtain ⟨next, inside, found, _⟩ := UnlockQueueSet.next_place here
      exact ⟨next, inside, found⟩
    · exact ⟨cursor, here, rfl⟩

/-- What `Recv` and `Peek` do before their loop. -/
theorem CChannel.prepare_eq (begins : chan.startKey = some start) :
    chan.prepare =
      { chan with curRecvQueue := some start, curQueueRecvPkgCount := chan.startCount } := by
  unfold startKey at begins
  unfold prepare startCount
  cases at_cursor : chan.curRecvQueue with
  | none =>
    rw [at_cursor] at begins
    dsimp only at begins ⊢
    rw [if_neg (by decide), begins]
  | some cursor =>
    rw [at_cursor] at begins
    dsimp only at begins ⊢
    have limit : chan.curQueueRecvPkgCount ≥ kMaxQueueRecvPkgCount
        ↔ 10 ≤ chan.curQueueRecvPkgCount.toNat := UInt32.le_iff_toNat_le
    by_cases full : 10 ≤ chan.curQueueRecvPkgCount.toNat
    · rw [if_pos full] at begins ⊢
      rw [if_pos (limit.mpr full)]
      unfold moveToNextQueue
      rw [at_cursor]
      dsimp only
      rw [begins]
    · rw [if_neg full] at begins ⊢
      rw [if_neg (limit.not.mpr full), ← begins, ← at_cursor]

end Start

/-! ### The loop is a scan -/

/-- Nothing is pending in the queue. -/
def Queue.Empty (queue : Queue) : Prop := queue.header.tail = queue.header.head

instance (queue : Queue) : Decidable queue.Empty := inferInstanceAs (Decidable (_ = _))

/-- Something is pending in the queue of `key`. -/
def CChannel.pending (chan : CChannel) (segments : Segments) (key : ProcId) : Bool :=
  match chan.unlockQueues[key]? with
  | none => false
  | some queue => !decide (segments queue.recver).Empty

/-- An operation of the receiver: it tells an empty queue, a failure changes nothing, and it keeps to the
segment it receives from. -/
structure Receives {α : Type} (op : CUnlockQueue → Segments → Except Err α × Segments) : Prop where
  quiet : Quiet op
  empty : ∀ queue segments,
    (op queue segments).1 = .error .kChanEmpty ↔ (segments queue.recver).Empty
  others : ∀ queue segments shm, shm ≠ queue.recver → (op queue segments).2 shm = segments shm

/-- The keys of the queues that the loop of `Recv` and `Peek` calls `op` on, in turn. -/
def CChannel.tried {α : Type} (op : CUnlockQueue → Segments → Except Err α × Segments) :
    ℕ → CChannel → Segments → List ProcId
  | left, chan, segments =>
    match chan.current with
    | none => []
    | some queue => chan.curRecvQueue.toList ++
      match op queue segments with
      | (.ok _, _) => []
      | (.error err, segments) =>
        if err = .kChanEmpty then
          match left with
          | 0 => []
          | left + 1 => tried op left chan.moveToNextQueue segments
        else []

/-- What the round on this queue returns when the loop ends with it. -/
def CChannel.finish {α : Type} (chan : CChannel) (queue : CUnlockQueue)
    (result : Except Err α × Segments) : Answer α :=
  match result with
  | (.ok value, segments) => ⟨.ok value, queue.peerId,
      { chan with curQueueRecvPkgCount := chan.curQueueRecvPkgCount + 1 }, segments⟩
  | (.error err, segments) => ⟨.error err, queue.peerId, chan.moveToNextQueue, segments⟩

/-- The cursor moved on from `start` to `key`. -/
def CChannel.standAt (chan : CChannel) (start key : ProcId) : CChannel :=
  { chan with
    curRecvQueue := some key
    curQueueRecvPkgCount := if key = start then chan.curQueueRecvPkgCount else 0 }

/-- The cursor moved on from `key`. -/
def CChannel.behind (chan : CChannel) (key : ProcId) : CChannel :=
  { chan with
    curRecvQueue := (chan.unlockQueues.next key).or chan.unlockQueues.begin
    curQueueRecvPkgCount := 0 }

section Scan

variable {α : Type} {op : CUnlockQueue → Segments → Except Err α × Segments} {chan : CChannel}
  {segments : Segments}

theorem CChannel.pending_eq_false {key : ProcId} {queue : CUnlockQueue}
    (member : chan.unlockQueues[key]? = some queue) :
    chan.pending segments key = false ↔ (segments queue.recver).Empty := by
  unfold pending
  rw [member]
  simp

theorem CChannel.pending_eq_true {key : ProcId} {queue : CUnlockQueue}
    (member : chan.unlockQueues[key]? = some queue) :
    chan.pending segments key = true ↔ ¬ (segments queue.recver).Empty := by
  rw [← pending_eq_false member, Bool.not_eq_false]

/-- Where something is pending, the loop ends. -/
theorem CChannel.poll_pending (receives : Receives op) {queue : CUnlockQueue}
    (here : chan.current = some queue) (some : ¬ (segments queue.recver).Empty) (left : ℕ) :
    chan.poll op left segments = .some (chan.finish queue (op queue segments)) := by
  rcases result : op queue segments with ⟨ret, after⟩
  have full : ret ≠ .error .kChanEmpty := by
    intro empty
    exact some ((receives.empty queue segments).mp (by rw [result, empty]))
  cases ret with
  | ok value => exact poll_of_ok here result
  | error err => exact poll_of_error here result fun same => full (congrArg _ same)

/-- The result of an operation on an empty queue. -/
theorem Receives.of_empty (receives : Receives op) {queue : CUnlockQueue}
    (none : (segments queue.recver).Empty) : op queue segments = (.error .kChanEmpty, segments) := by
  have failed := (receives.empty queue segments).mpr none
  exact Prod.ext failed (receives.quiet queue segments _ failed)

theorem CChannel.tried_pending (receives : Receives op) {key : ProcId} {queue : CUnlockQueue}
    (at_cursor : chan.curRecvQueue = some key) (here : chan.current = some queue)
    (some : ¬ (segments queue.recver).Empty) (left : ℕ) : chan.tried op left segments = [key] := by
  unfold tried
  rw [here, at_cursor]
  dsimp only
  rcases result : op queue segments with ⟨ret, after⟩
  cases ret with
  | ok value => rfl
  | error err =>
    have full : err ≠ .kChanEmpty := by
      intro empty
      exact some ((receives.empty queue segments).mp (by rw [result, empty]))
    dsimp only
    rw [if_neg full]
    rfl

theorem CChannel.tried_empty (receives : Receives op) {key : ProcId} {queue : CUnlockQueue}
    (at_cursor : chan.curRecvQueue = some key) (here : chan.current = some queue)
    (none : (segments queue.recver).Empty) (left : ℕ) :
    chan.tried op left segments = key :: match left with
      | 0 => []
      | left + 1 => chan.moveToNextQueue.tried op left segments := by
  rw [tried, here, at_cursor]
  dsimp only
  rw [receives.of_empty none]
  dsimp only
  rw [if_pos rfl]
  cases left <;> rfl

theorem CChannel.exists_current {key : ProcId} (at_cursor : chan.curRecvQueue = some key)
    (member : key ∈ chan.unlockQueues) :
    ∃ queue, chan.unlockQueues[key]? = some queue ∧ chan.current = some queue := by
  have found := Std.TreeMap.getElem?_eq_some_getElem member
  exact ⟨_, found, by rw [current, at_cursor, Option.bind_some, found]⟩

theorem CChannel.moveToNextQueue_eq {key : ProcId} (at_cursor : chan.curRecvQueue = some key) :
    chan.moveToNextQueue = chan.behind key := by
  unfold moveToNextQueue
  rw [at_cursor]
  rfl

/-- What the loop does with the keys from the cursor on: it calls their queues in turn, and ends with the
first in which something is pending. -/
def CChannel.Scans {α : Type} (op : CUnlockQueue → Segments → Except Err α × Segments) (chan : CChannel)
    (segments : Segments) (start : ProcId) (rest : List ProcId) : Prop :=
  chan.tried op rest.length segments <+: start :: rest ∧
    match (start :: rest).find? (chan.pending segments) with
    | some key => ∃ queue, chan.unlockQueues[key]? = some queue ∧
        chan.poll op rest.length segments
          = some ((chan.standAt start key).finish queue (op queue segments))
    | none => ∃ last queue, (start :: rest).getLast? = some last ∧
        chan.unlockQueues[last]? = some queue ∧ chan.poll op rest.length segments
          = some ⟨.error .kChanEmpty, queue.peerId, chan.behind last, segments⟩

/-- The scan ends at the cursor. -/
theorem CChannel.scans_here (receives : Receives op) {start : ProcId} {queue : CUnlockQueue}
    (at_cursor : chan.curRecvQueue = some start) (member : chan.unlockQueues[start]? = some queue)
    (here : chan.current = some queue) (some : ¬ (segments queue.recver).Empty) (rest : List ProcId) :
    chan.Scans op segments start rest := by
  have found : chan.pending segments start = true := (pending_eq_true member).mpr some
  have same : chan.standAt start start = chan := by
    rw [standAt, if_pos rfl, ← at_cursor]
  unfold Scans
  rw [List.find?_cons_of_pos found, tried_pending receives at_cursor here some]
  refine ⟨List.prefix_append [start] rest, queue, member, ?_⟩
  rw [same]
  exact poll_pending receives here some _

/-- **The loop is a scan** of the order from the cursor on. -/
theorem CChannel.poll_scan (receives : Receives op) {start : ProcId} {rest : List ProcId}
    (walk : chan.unlockQueues.Walk (start :: rest)) (nodup : (start :: rest).Nodup)
    (members : ∀ key ∈ start :: rest, key ∈ chan.unlockQueues)
    (at_cursor : chan.curRecvQueue = some start) : chan.Scans op segments start rest := by
  induction rest generalizing chan start with
  | nil =>
    obtain ⟨queue, member, here⟩ := exists_current at_cursor (members start List.mem_cons_self)
    by_cases none : (segments queue.recver).Empty
    · have skipped : ¬ chan.pending segments start = true := by
        rw [Bool.not_eq_true, pending_eq_false member]
        exact none
      unfold Scans
      rw [List.find?_cons_of_neg skipped, tried_empty receives at_cursor here none]
      refine ⟨List.prefix_rfl, start, queue, rfl, member, ?_⟩
      rw [← moveToNextQueue_eq at_cursor]
      exact poll_of_empty_last here (receives.of_empty none)
    · exact scans_here receives at_cursor member here none []
  | cons next rest ih =>
    obtain ⟨queue, member, here⟩ := exists_current at_cursor (members start List.mem_cons_self)
    by_cases none : (segments queue.recver).Empty
    · have skipped : ¬ chan.pending segments start = true := by
        rw [Bool.not_eq_true, pending_eq_false member]
        exact none
      -- the cursor moves on to the next key
      obtain ⟨after, later⟩ := List.isChain_cons_cons.mp walk
      obtain ⟨fresh, distinct⟩ := List.nodup_cons.mp nodup
      have moved : chan.moveToNextQueue =
          { chan with curRecvQueue := some next, curQueueRecvPkgCount := 0 } := by
        rw [moveToNextQueue_eq at_cursor, behind, after]
      obtain ⟨prefix_, scan⟩ := @ih { chan with curRecvQueue := some next, curQueueRecvPkgCount := 0 }
        next later distinct (fun key inside => members key (List.mem_cons_of_mem _ inside)) rfl
      have same : CChannel.pending { chan with curRecvQueue := some next, curQueueRecvPkgCount := 0 }
          segments = chan.pending segments := rfl
      rw [same] at scan
      unfold Scans
      rw [List.find?_cons_of_neg skipped, tried_empty receives at_cursor here none, List.length_cons,
        poll_of_empty here (receives.of_empty none), moved]
      refine ⟨List.cons_prefix_cons.mpr ⟨rfl, prefix_⟩, ?_⟩
      cases found : (next :: rest).find? (chan.pending segments) with
      | none =>
        rw [found] at scan
        rw [List.getLast?_cons_cons]
        exact scan
      | some key =>
        rw [found] at scan
        obtain ⟨answering, inside, answered⟩ := scan
        have apart : key ≠ start := fun equal => fresh (equal ▸ List.mem_of_find?_eq_some found)
        refine ⟨answering, inside, answered.trans ?_⟩
        rw [standAt, standAt, if_neg apart, ite_self]
    · exact scans_here receives at_cursor member here none (next :: rest)

end Scan

/-! ### A call -/

section Call

variable {α : Type} {op : CUnlockQueue → Segments → Except Err α × Segments} {chan : CChannel}
  {segments : Segments} {peer start : ProcId}

/-- The queue that a call is answered from. -/
def CChannel.serving (chan : CChannel) (segments : Segments) (start : ProcId) : Option ProcId :=
  (chan.unlockQueues.cyclic start).find? (chan.pending segments)

/-- The cursor of a call that is answered by the queue of `key`. -/
def CChannel.served (chan : CChannel) (start key : ProcId) : CChannel :=
  { chan with
    curRecvQueue := some key
    curQueueRecvPkgCount := if key = start then chan.startCount else 0 }

/-- The keys of the queues a call tries. -/
def CChannel.callTried {α : Type} (op : CUnlockQueue → Segments → Except Err α × Segments)
    (chan : CChannel) (segments : Segments) : List ProcId :=
  chan.prepare.tried op (chan.unlockQueues.size - 1) segments

/-- **A call** scans the whole order once. -/
theorem CChannel.call_scan (receives : Receives op) (valid : chan.CursorValid)
    (member : peer ∈ chan.unlockQueues) :
    ∃ start ∈ chan.unlockQueues, chan.startKey = some start ∧
      chan.callTried op segments <+: chan.unlockQueues.cyclic start ∧
      match chan.serving segments start with
      | some key => ∃ queue, chan.unlockQueues[key]? = some queue ∧
          chan.prepare.poll op (chan.unlockQueues.size - 1) segments
            = some ((chan.served start key).finish queue (op queue segments))
      | none => ∃ last queue, (chan.unlockQueues.cyclic start).getLast? = some last ∧
          chan.unlockQueues[last]? = some queue ∧
          chan.prepare.poll op (chan.unlockQueues.size - 1) segments
            = some ⟨.error .kChanEmpty, queue.peerId, chan.behind last, segments⟩ := by
  obtain ⟨start, inside, begins⟩ := valid.startKey member
  obtain ⟨rest, order⟩ := UnlockQueueSet.cyclic_eq_cons inside
  have length : rest.length = chan.unlockQueues.size - 1 := by
    rw [← UnlockQueueSet.length_cyclic start, order, List.length_cons, Nat.add_sub_cancel]
  have prepared := prepare_eq begins
  have queues := chan.prepare_unlockQueues
  obtain ⟨prefix_, scan⟩ : chan.prepare.Scans op segments start rest := by
    refine poll_scan receives ?_ ?_ ?_ ?_
    · rw [queues, ← order]
      exact UnlockQueueSet.walk_cyclic start
    · rw [← order]
      exact UnlockQueueSet.nodup_cyclic start
    · intro key member
      rw [← order] at member
      rw [queues]
      exact UnlockQueueSet.mem_cyclic.mp member
    · rw [prepared]
  have same : chan.prepare.pending segments = chan.pending segments := by
    unfold pending
    rw [queues]
  rw [length] at prefix_ scan
  rw [same, ← order] at scan
  refine ⟨start, inside, begins, order ▸ prefix_, ?_⟩
  unfold serving
  cases found : (chan.unlockQueues.cyclic start).find? (chan.pending segments) with
  | none =>
    rw [found] at scan
    obtain ⟨last, queue, ends, here, answered⟩ := scan
    refine ⟨last, queue, ends, queues ▸ here, answered.trans ?_⟩
    rw [prepared]
    rfl
  | some key =>
    rw [found] at scan
    obtain ⟨queue, here, answered⟩ := scan
    refine ⟨queue, queues ▸ here, answered.trans ?_⟩
    rw [prepared]
    rfl

/-- Every queue is empty. -/
def CChannel.AllEmpty (chan : CChannel) (segments : Segments) : Prop :=
  ∀ (key : ProcId) (queue : CUnlockQueue), chan.unlockQueues[key]? = some queue →
    (segments queue.recver).Empty

/-- What `Recv` or `Peek` owes its caller, for the queue-level operation `op` and the order from `start`. -/
structure CChannel.Exact (op : CUnlockQueue → Segments → Except Err α × Segments) (chan : CChannel)
    (segments : Segments) (start : ProcId) (answer : Answer α) : Prop where
  /-- Empty only when every queue is. -/
  empty : answer.ret = .error .kChanEmpty ↔ chan.AllEmpty segments
  unchanged : answer.ret = .error .kChanEmpty → answer.segments = segments
  /-- Else the operation on the first queue that is not empty, and on no other. -/
  first : answer.ret ≠ .error .kChanEmpty → ∃ key queue, chan.serving segments start = some key ∧
    chan.unlockQueues[key]? = some queue ∧ answer.ret = (op queue segments).1 ∧
    answer.src = queue.peerId ∧ answer.segments = (op queue segments).2 ∧
    ∀ shm, shm ≠ queue.recver → answer.segments shm = segments shm

theorem CChannel.serving_eq_none :
    chan.serving segments start = none ↔ chan.AllEmpty segments := by
  unfold serving
  rw [List.find?_eq_none]
  constructor
  · intro none key queue member
    have skipped := none key (UnlockQueueSet.mem_cyclic.mpr (UnlockQueueSet.mem_of_some member))
    rwa [Bool.not_eq_true, pending_eq_false member] at skipped
  · intro none key inside
    obtain ⟨queue, member⟩ : ∃ queue, chan.unlockQueues[key]? = some queue :=
      ⟨_, Std.TreeMap.getElem?_eq_some_getElem (UnlockQueueSet.mem_cyclic.mp inside)⟩
    rw [Bool.not_eq_true, pending_eq_false member]
    exact none key queue member

/-- The queue a call is answered from has something pending. -/
theorem CChannel.serving_eq_some {key : ProcId} {queue : CUnlockQueue}
    (found : chan.serving segments start = some key) (member : chan.unlockQueues[key]? = some queue) :
    ¬ (segments queue.recver).Empty :=
  (pending_eq_true member).mp (List.find?_some found)

theorem CChannel.finish_ret (queue : CUnlockQueue) (result : Except Err α × Segments) :
    (chan.finish queue result).ret = result.1 ∧ (chan.finish queue result).src = queue.peerId ∧
      (chan.finish queue result).segments = result.2 := by
  obtain ⟨ret, after⟩ := result
  cases ret <;> exact ⟨rfl, rfl, rfl⟩

/-- **A call is exact**, for any operation of the receiver. -/
theorem CChannel.call_exact (receives : Receives op) (valid : chan.CursorValid)
    (member : peer ∈ chan.unlockQueues) :
    ∃ start ∈ chan.unlockQueues, chan.startKey = some start ∧
      (chan.callTried op segments <+: chan.unlockQueues.cyclic start ∧
        (chan.callTried op segments).Nodup ∧
        (chan.callTried op segments).length ≤ chan.unlockQueues.size) ∧
      ∃ answer, chan.prepare.poll op (chan.unlockQueues.size - 1) segments = some answer ∧
        chan.Exact op segments start answer := by
  obtain ⟨start, inside, begins, prefix_, scan⟩ := @call_scan α op chan segments peer receives valid member
  refine ⟨start, inside, begins, ⟨prefix_, ?_, ?_⟩, ?_⟩
  · exact (UnlockQueueSet.nodup_cyclic start).sublist prefix_.sublist
  · exact prefix_.length_le.trans_eq (UnlockQueueSet.length_cyclic start)
  · cases found : chan.serving segments start with
    | none =>
      rw [found] at scan
      obtain ⟨last, queue, _, _, answered⟩ := scan
      refine ⟨_, answered, ?_, fun _ => rfl, fun full => absurd rfl full⟩
      exact iff_of_true rfl (serving_eq_none.mp found)
    | some key =>
      rw [found] at scan
      obtain ⟨queue, here, answered⟩ := scan
      have some := serving_eq_some found here
      obtain ⟨ret, src, after⟩ := @finish_ret α (chan.served start key) queue (op queue segments)
      have full : (op queue segments).1 ≠ .error .kChanEmpty :=
        (receives.empty queue segments).not.mpr some
      refine ⟨_, answered, ?_, ?_, fun _ => ⟨key, queue, found, here, ret, src, after, ?_⟩⟩
      · rw [ret]
        exact iff_of_false full fun all => some (all key queue here)
      · rw [ret]
        exact fun empty => absurd empty full
      · intro shm apart
        rw [after]
        exact receives.others queue segments shm apart

end Call

/-! ### `Recv` and `Peek` -/

/-- `GetNextPack` reports an empty queue exactly when head and tail meet. -/
theorem nextPack_eq_empty_iff (queue : Queue) : queue.nextPack = .error .kChanEmpty ↔ queue.Empty := by
  unfold Queue.nextPack getNextPack Queue.Empty
  by_cases same : queue.header.tail = queue.header.head
  · rw [if_pos same]
    exact iff_of_true rfl same
  · rw [if_neg same]
    refine iff_of_false (fun wrong => ?_) same
    unfold seek checkPack at wrong
    dsimp only at wrong
    split at wrong
    case h_1 err sought =>
      cases wrong
      split_ifs at sought
      · cases sought
      · cases sought
    case h_2 curHead sought =>
      split_ifs at wrong
      · cases wrong
      · cases wrong

theorem update_others (segments : Segments) (queue : CUnlockQueue) (after : Queue) (shm : ShmId)
    (apart : shm ≠ queue.recver) : Function.update segments queue.recver after shm = segments shm :=
  Function.update_of_ne apart after segments

theorem recv_receives (len : UInt32) : Receives (CUnlockQueue.recv len) := by
  refine ⟨recv_quiet len, fun queue segments => ?_, fun queue segments shm apart =>
    update_others segments queue _ shm apart⟩
  show (recv (segments queue.recver) len).1 = _ ↔ _
  rw [← nextPack_eq_empty_iff]
  cases found : (segments queue.recver).nextPack with
  | error err => rw [recv_of_error len found, Except.error.injEq, Except.error.injEq]
  | ok pack =>
    by_cases short : len < pack.packHead.bodyLen.toUInt32
    · rw [recv_of_short found short]
      exact iff_of_false nofun nofun
    · rw [recv_of_ok found short]
      exact iff_of_false nofun nofun

theorem peek_receives : Receives CUnlockQueue.peek := by
  refine ⟨peek_quiet, fun queue segments => ?_, fun queue segments shm apart =>
    update_others segments queue _ shm apart⟩
  show (peek (segments queue.recver)).1 = _ ↔ _
  rw [← nextPack_eq_empty_iff]
  cases found : (segments queue.recver).nextPack with
  | error err => rw [peek_of_error found, Except.error.injEq, Except.error.injEq]
  | ok pack =>
    rw [peek_of_ok found]
    exact iff_of_false nofun nofun

/-- **Multiplexed receive is exact.** For every channel with at least one peer, wherever its cursor stands,
whatever its packet count and whatever the queues hold: `Recv` and `Peek` return `kChanEmpty` exactly when
every queue is empty; else they return code, source and data of the queue-level operation on the first
queue that is not empty, in the order of the map from the cursor on, or from its successor when the count
has reached ten. No other segment changes, and a call tries each queue at most once. -/
theorem multiplex_exact (chan : CChannel) (valid : chan.CursorValid) (peer : ProcId)
    (member : peer ∈ chan.unlockQueues) (segments : Segments) (len : UInt32) :
    ∃ start ∈ chan.unlockQueues, chan.startKey = some start ∧
      (∃ answer, chan.recv segments len = some answer ∧
        chan.Exact (CUnlockQueue.recv len) segments start answer) ∧
      (∃ answer, chan.peek segments = some answer ∧
        chan.Exact CUnlockQueue.peek segments start answer) ∧
      (chan.callTried (CUnlockQueue.recv len) segments).Nodup ∧
      (chan.callTried (CUnlockQueue.recv len) segments).length ≤ chan.unlockQueues.size ∧
      (chan.callTried CUnlockQueue.peek segments).Nodup ∧
      (chan.callTried CUnlockQueue.peek segments).length ≤ chan.unlockQueues.size := by
  obtain ⟨start, inside, begins, ⟨_, once, few⟩, received⟩ :=
    CChannel.call_exact (recv_receives len) valid member
  obtain ⟨start', _, begins', ⟨_, once', few'⟩, peeked⟩ :=
    CChannel.call_exact peek_receives valid member
  cases begins.symm.trans begins'
  exact ⟨start, inside, begins, received, peeked, once, few, once', few'⟩

/-- Segments of which only the one that process `1` receives from for its peer `5` holds a message. -/
def starSegments : Segments :=
  Function.update (fun _ => ⟨resetHead (1000 + kUnlockQueueHeadSize), fun _ => 0⟩) 21
    (pairSegments 21)

/-- The cursor stands at the empty queue of peer `4`, and the call is answered from that of peer `5`. -/
theorem multiplex_exact_star :
    ∃ answer, starChannel.recv starSegments 100 = some answer ∧ answer.ret = .ok [] ∧ answer.src = 5 := by
  have opened : CChannel.init (fun _ => true) pairSegments (some starConfig) 1 .new
      = (.ok (), starChannel) := rfl
  obtain ⟨start, _, begins, ⟨answer, answered, exact_⟩, _⟩ := multiplex_exact starChannel
    (CChannel.init_placed opened).cursor 4 (by decide) starSegments 100
  cases (begins : some 4 = some start)
  have full : answer.ret ≠ .error .kChanEmpty := by
    rw [Ne, exact_.empty]
    exact fun all => absurd (all 5 ⟨21, 20, 5⟩ rfl) (by decide)
  obtain ⟨key, queue, found, member, ret, src, _⟩ := exact_.first full
  cases (found : some 5 = some key)
  cases (member : some ⟨21, 20, 5⟩ = some queue)
  exact ⟨answer, answered, ret, src⟩

end Yarf.Channel
