/-
**No peer is starved.**

`Recv` and `Peek` look for a packet from the queue under the cursor on. How far the cursor is from the
queue of a peer, in the order of the map (`CChannel.distance`), together with the packets the queue
under the cursor may still deliver (`CChannel.patience`), falls with every call that another queue
answers.

`no_starvation`: while the queue of a peer would answer every call and answers none, the calls return
`kOk` at most `10 * (n - 1)` times, an error at most `n - 1` times, and `kChanEmpty` never.
-/

import Yarf.Lib.Cyclic
import Yarf.Channel.Source

namespace Yarf.Channel

open Lib

/-! ### The order of the queues -/

section Order

variable {queues : UnlockQueueSet} {cursor key : ProcId}

theorem UnlockQueueSet.keys_sorted (queues : UnlockQueueSet) : queues.keys.Pairwise (· < ·) :=
  (Std.TreeMap.ordered_keys (t := queues)).imp fun less => Std.compare_eq_lt.mp less

theorem UnlockQueueSet.keys_mono {i j : ℕ} (order : j ≤ i) (inside : i < queues.keys.length) :
    queues.keys[j] ≤ queues.keys[i] := by
  have sorted := List.pairwise_iff_getElem.mp queues.keys_sorted
  rcases order.lt_or_eq with earlier | rfl
  · exact UInt64.le_of_lt (sorted j i _ inside earlier)
  · exact UInt64.le_refl _

/-- The iterator behind the one at index `i` is at index `i + 1`. -/
theorem UnlockQueueSet.next_getElem {i : ℕ} (inside : i + 1 < queues.keys.length) :
    queues.next queues.keys[i] = some queues.keys[i + 1] := by
  have sorted := List.pairwise_iff_getElem.mp queues.keys_sorted
  refine List.find?_eq_some_iff_getElem.mpr
    ⟨decide_eq_true (sorted i (i + 1) (by omega) inside (by omega)), i + 1, inside, rfl, ?_⟩
  intro j before
  rw [Bool.not_eq_true', decide_eq_false_iff_not]
  exact UInt64.not_lt.mpr (keys_mono (Nat.le_of_lt_succ before) (Nat.lt_of_succ_lt inside))

/-- Behind the last queue there is none. -/
theorem UnlockQueueSet.next_last {i : ℕ} (last : i + 1 = queues.keys.length) :
    queues.next queues.keys[i] = none := by
  refine List.find?_eq_none.mpr ?_
  intro other member
  obtain ⟨j, inside, rfl⟩ := List.getElem_of_mem member
  rw [decide_eq_true_eq, UInt64.not_lt]
  exact keys_mono (Nat.le_of_lt_succ (inside.trans_eq last.symm)) ((Nat.lt_succ_self i).trans_eq last)

/-- The place of a queue in the map. -/
def UnlockQueueSet.place (queues : UnlockQueueSet) (key : ProcId) : ℕ := queues.keys.idxOf key

theorem UnlockQueueSet.place_lt (member : key ∈ queues) : queues.place key < queues.size := by
  rw [← Std.TreeMap.length_keys]
  exact List.idxOf_lt_length_of_mem (Std.TreeMap.mem_keys.mpr member)

theorem UnlockQueueSet.place_getElem {i : ℕ} (inside : i < queues.keys.length) :
    queues.place queues.keys[i] = i :=
  List.Nodup.idxOf_getElem Std.TreeMap.nodup_keys i inside

theorem UnlockQueueSet.place_inj (member : cursor ∈ queues) (other : key ∈ queues)
    (same : queues.place cursor = queues.place key) : cursor = key := by
  have first := List.idxOf_lt_length_of_mem (Std.TreeMap.mem_keys.mpr member)
  have second := List.idxOf_lt_length_of_mem (Std.TreeMap.mem_keys.mpr other)
  calc cursor = queues.keys[queues.place cursor] := (List.getElem_idxOf first).symm
    _ = queues.keys[queues.place key] := getElem_congr_idx same
    _ = key := List.getElem_idxOf second

/-- **One step of the cursor**: to the next place of the ring. -/
theorem UnlockQueueSet.next_place (member : cursor ∈ queues) :
    ∃ next ∈ queues, (queues.next cursor).or queues.begin = some next ∧
      queues.place next = slot queues.size (queues.place cursor) 1 := by
  have size : queues.keys.length = queues.size := Std.TreeMap.length_keys
  have inside : queues.place cursor < queues.keys.length := size ▸ place_lt member
  have here : queues.keys[queues.place cursor] = cursor := List.getElem_idxOf inside
  rcases Nat.lt_or_ge (queues.place cursor + 1) queues.keys.length with more | last
  · refine ⟨queues.keys[queues.place cursor + 1], Std.TreeMap.mem_keys.mp (List.getElem_mem more), ?_,
      ?_⟩
    · rw [← congrArg queues.next here, next_getElem more, Option.some_or]
    · rw [place_getElem more, slot_of_lt (size ▸ more)]
  · have positive : 0 < queues.keys.length := by omega
    refine ⟨queues.keys[0], Std.TreeMap.mem_keys.mp (List.getElem_mem positive), ?_, ?_⟩
    · rw [← congrArg queues.next here, next_last (by omega), Option.none_or, begin,
        List.head?_eq_getElem?, List.getElem?_eq_getElem positive]
    · rw [place_getElem positive, slot_of_le (by omega) (by omega)]
      omega

/-- How many queues the cursor has to pass before it stands at `key`. -/
def UnlockQueueSet.ahead (queues : UnlockQueueSet) (cursor key : ProcId) : ℕ :=
  gap queues.size (queues.place cursor) (queues.place key)

theorem UnlockQueueSet.ahead_lt (cursor : ProcId) (member : key ∈ queues) :
    queues.ahead cursor key + 1 ≤ queues.size :=
  gap_lt _ _ (lt_of_le_of_lt (Nat.zero_le _) (place_lt member))

theorem UnlockQueueSet.ahead_pos (member : cursor ∈ queues) (other : key ∈ queues)
    (apart : cursor ≠ key) : 0 < queues.ahead cursor key := by
  refine Nat.pos_of_ne_zero fun zero => apart (place_inj member other ?_)
  have walked := slot_gap (place_lt member) (place_lt other)
  rw [show gap queues.size (queues.place cursor) (queues.place key) = 0 from zero,
    slot_zero (place_lt member)] at walked
  exact walked

/-- Each step brings the cursor closer, until it is there. -/
theorem UnlockQueueSet.ahead_next {next : ProcId} (member : cursor ∈ queues) (other : key ∈ queues)
    (apart : cursor ≠ key) (place : queues.place next = slot queues.size (queues.place cursor) 1) :
    queues.ahead next key + 1 = queues.ahead cursor key := by
  have positive := ahead_pos member other apart
  have bound := ahead_lt cursor other
  obtain ⟨rest, walk⟩ := Nat.exists_eq_add_of_lt positive
  have target : queues.place key = slot queues.size (queues.place next) rest := by
    rw [place, slot_slot, ← slot_gap (place_lt member) (place_lt other)]
    exact congrArg _ (by rw [show gap _ _ _ = _ from walk]; omega)
  have start : queues.place next < queues.size := place ▸ slot_lt _ _ (by omega)
  rw [show queues.ahead next key = _ from rfl, ahead, target, gap_slot start (by omega), walk]
  omega

end Order

/-! ### The cursor -/

/-- The cursor stands at a queue or at the end, and its queue has delivered at most
`kMaxQueueRecvPkgCount` packets in a row. -/
structure CChannel.Placed (chan : CChannel) : Prop where
  cursor : ∀ key, chan.curRecvQueue = some key → key ∈ chan.unlockQueues
  count : chan.curQueueRecvPkgCount.toNat ≤ 10

/-- The cursor stands at a queue that may deliver one more packet. -/
structure CChannel.Prepared (chan : CChannel) (cursor : ProcId) : Prop where
  at_cursor : chan.curRecvQueue = some cursor
  member : cursor ∈ chan.unlockQueues
  count : chan.curQueueRecvPkgCount.toNat < 10

/-- How many queues the cursor has to pass before it stands at `key`. -/
def CChannel.distance (chan : CChannel) (key : ProcId) : ℕ :=
  chan.curRecvQueue.elim 0 fun cursor => chan.unlockQueues.ahead cursor key

/-- The packets the queues before `key` may still deliver. -/
def CChannel.patience (chan : CChannel) (key : ProcId) : ℕ :=
  10 * chan.distance key - chan.curQueueRecvPkgCount.toNat

section Cursor

variable {chan : CChannel} {cursor key : ProcId}

theorem CChannel.Prepared.distance (prepared : chan.Prepared cursor) (key : ProcId) :
    chan.distance key = chan.unlockQueues.ahead cursor key := by
  rw [CChannel.distance, prepared.at_cursor, Option.elim_some]

theorem CChannel.Prepared.placed (prepared : chan.Prepared cursor) : chan.Placed := by
  refine ⟨fun other same => ?_, prepared.count.le⟩
  cases prepared.at_cursor.symm.trans same
  exact prepared.member

/-- A prepared channel stays as it is. -/
theorem CChannel.Prepared.prepare (prepared : chan.Prepared cursor) : chan.prepare = chan := by
  have few : ¬chan.curQueueRecvPkgCount ≥ kMaxQueueRecvPkgCount := by
    rw [ge_iff_le, UInt32.le_iff_toNat_le]
    exact Nat.not_le.mpr prepared.count
  unfold CChannel.prepare
  rw [prepared.at_cursor]
  dsimp only
  rw [if_neg few]

/-- **`MoveToNextQueue`** prepares the channel, one queue closer to every other one. -/
theorem CChannel.moveToNextQueue_prepared (at_cursor : chan.curRecvQueue = some cursor)
    (member : cursor ∈ chan.unlockQueues) :
    ∃ next, chan.moveToNextQueue.Prepared next ∧ chan.moveToNextQueue.curQueueRecvPkgCount = 0 ∧
      ∀ key ∈ chan.unlockQueues, cursor ≠ key →
        chan.moveToNextQueue.distance key + 1 = chan.distance key := by
  obtain ⟨next, inside, found, place⟩ := UnlockQueueSet.next_place member
  have moved : chan.moveToNextQueue =
      { chan with curRecvQueue := some next, curQueueRecvPkgCount := 0 } := by
    unfold moveToNextQueue
    rw [at_cursor]
    dsimp only
    rw [found]
  rw [moved]
  refine ⟨next, ⟨rfl, inside, Nat.zero_lt_succ 9⟩, rfl, ?_⟩
  intro key other apart
  rw [distance, distance, at_cursor]
  exact UnlockQueueSet.ahead_next member other apart place

/-- **Before the loop** of a call the cursor stands at a queue that may deliver. -/
theorem CChannel.Placed.prepare (placed : chan.Placed) (some : key ∈ chan.unlockQueues) :
    ∃ cursor, chan.prepare.Prepared cursor := by
  cases at_cursor : chan.curRecvQueue with
  | none =>
    have first : ∃ head, chan.unlockQueues.begin = .some head ∧ head ∈ chan.unlockQueues := by
      rcases keys : chan.unlockQueues.keys with _ | ⟨head, rest⟩
      · have inside := Std.TreeMap.mem_keys.mpr some
        rw [keys] at inside
        cases inside
      · exact ⟨head, by rw [UnlockQueueSet.begin, keys, List.head?_cons],
          Std.TreeMap.mem_keys.mp (keys ▸ List.mem_cons_self)⟩
    obtain ⟨head, found, inside⟩ := first
    have reset : chan.prepare =
        { chan with curRecvQueue := .some head, curQueueRecvPkgCount := 0 } := by
      unfold CChannel.prepare
      rw [at_cursor]
      dsimp only
      rw [if_neg (by decide), found]
    rw [reset]
    exact ⟨head, rfl, inside, Nat.zero_lt_succ 9⟩
  | some cursor =>
    have member := placed.cursor cursor at_cursor
    by_cases full : chan.curQueueRecvPkgCount ≥ kMaxQueueRecvPkgCount
    · have moved : chan.prepare = chan.moveToNextQueue := by
        unfold CChannel.prepare
        rw [at_cursor]
        dsimp only
        rw [if_pos full]
      rw [moved]
      obtain ⟨next, prepared, _⟩ := moveToNextQueue_prepared at_cursor member
      exact ⟨next, prepared⟩
    · refine ⟨cursor, ?_⟩
      have few : chan.curQueueRecvPkgCount.toNat < 10 := by
        rw [ge_iff_le, UInt32.le_iff_toNat_le] at full
        exact Nat.not_le.mp full
      rw [CChannel.Prepared.prepare ⟨at_cursor, member, few⟩]
      exact ⟨at_cursor, member, few⟩

/-- The packet is counted. -/
theorem CChannel.Prepared.counted (prepared : chan.Prepared cursor) :
    (chan.curQueueRecvPkgCount + 1).toNat = chan.curQueueRecvPkgCount.toNat + 1 := by
  have few := prepared.count
  rw [UInt32.toNat_add, UInt32.toNat_one]
  omega

theorem CChannel.Prepared.counted_placed (prepared : chan.Prepared cursor) :
    CChannel.Placed { chan with curQueueRecvPkgCount := chan.curQueueRecvPkgCount + 1 } := by
  have counted := prepared.counted
  have few := prepared.count
  exact ⟨prepared.placed.cursor, by rw [counted]; omega⟩

/-- What a channel has left before `key` is served, after a call that another queue answered. -/
structure CChannel.Closer (chan : CChannel) (key : ProcId) (oks errors : ℕ) (after : CChannel) :
    Prop where
  placed : after.Placed
  unlockQueues : after.unlockQueues = chan.unlockQueues
  patience : after.prepare.patience key + oks ≤ chan.patience key
  distance : after.prepare.distance key + errors ≤ chan.distance key

/-- Another queue has delivered a packet. -/
theorem CChannel.Prepared.deliver (prepared : chan.Prepared cursor) (member : key ∈ chan.unlockQueues)
    (apart : cursor ≠ key) :
    chan.Closer key 1 0 { chan with curQueueRecvPkgCount := chan.curQueueRecvPkgCount + 1 } := by
  have few := prepared.count
  have near := prepared.distance key
  have away := UnlockQueueSet.ahead_pos prepared.member member apart
  have step := prepared.counted
  have placed := prepared.counted_placed
  generalize done : { chan with curQueueRecvPkgCount := chan.curQueueRecvPkgCount + 1 } = after
    at placed ⊢
  have at_cursor : after.curRecvQueue = some cursor := by rw [← done, ← prepared.at_cursor]
  have queues : after.unlockQueues = chan.unlockQueues := by rw [← done]
  have count : after.curQueueRecvPkgCount.toNat = chan.curQueueRecvPkgCount.toNat + 1 := by
    rw [← step, ← done]
  have far : after.distance key = chan.distance key := by
    rw [near, CChannel.distance, at_cursor, queues, Option.elim_some]
  have inside : cursor ∈ after.unlockQueues := queues ▸ prepared.member
  by_cases full : chan.curQueueRecvPkgCount.toNat + 1 < 10
  · have same : after.prepare = after :=
      CChannel.Prepared.prepare ⟨at_cursor, inside, count ▸ full⟩
    refine ⟨placed, queues, ?_, ?_⟩
    · rw [same, patience, patience, far, count]
      omega
    · rw [same, far, Nat.add_zero]
  · obtain ⟨next, moved, zero, closer⟩ := moveToNextQueue_prepared at_cursor inside
    have same : after.prepare = after.moveToNextQueue := by
      have enough : after.curQueueRecvPkgCount ≥ kMaxQueueRecvPkgCount := by
        rw [ge_iff_le, UInt32.le_iff_toNat_le, count]
        exact Nat.not_lt.mp full
      unfold CChannel.prepare
      rw [at_cursor]
      dsimp only
      rw [if_pos enough]
    have less := closer key (queues ▸ member) apart
    refine ⟨placed, queues, ?_, ?_⟩
    · rw [same, patience, patience, zero, UInt32.toNat_zero]
      omega
    · rw [same]
      omega

/-- The cursor has passed another queue. -/
theorem CChannel.Prepared.pass (prepared : chan.Prepared cursor) (member : key ∈ chan.unlockQueues)
    (apart : cursor ≠ key) :
    ∃ next, chan.moveToNextQueue.Prepared next ∧ chan.Closer key 0 1 chan.moveToNextQueue := by
  obtain ⟨next, moved, zero, closer⟩ := moveToNextQueue_prepared prepared.at_cursor prepared.member
  have few := prepared.count
  have less := closer key member apart
  refine ⟨next, moved, moved.placed, chan.moveToNextQueue_unlockQueues, ?_, ?_⟩
  · rw [moved.prepare, patience, patience, zero, UInt32.toNat_zero]
    omega
  · rw [moved.prepare]
    omega

/-- Queues passed on the way to one that answers do not count. -/
theorem CChannel.Closer.trans {oks errors : ℕ} {moved after : CChannel}
    (passed : chan.Closer key 0 1 moved) (prepared : moved.Prepared cursor)
    (closer : moved.Closer key oks errors after) : chan.Closer key oks errors after := by
  have first := passed.patience
  have second := passed.distance
  rw [prepared.prepare] at first second
  refine ⟨closer.placed, closer.unlockQueues.trans passed.unlockQueues, ?_, ?_⟩
  · exact le_trans closer.patience (le_trans (Nat.le_add_right _ 0) first)
  · exact le_trans closer.distance (le_trans (Nat.le_add_right _ 1) second)

end Cursor

/-! ### Calls while the peers send -/

/-- What the peers do before a call gets to a queue; a call gets to each queue once at most. -/
abbrev Moves := CUnlockQueue → Segments → Segments

/-- An operation on a queue, after the peers have moved. -/
def amid {α : Type} (moves : Moves) (op : CUnlockQueue → Segments → Except Err α × Segments)
    (queue : CUnlockQueue) (segments : Segments) : Except Err α × Segments :=
  op queue (moves queue segments)

/-- `CChannel::Recv` among the peers. -/
def CChannel.recvAmid (moves : Moves) (chan : CChannel) (segments : Segments) (len : UInt32) :
    Option (Answer (List UInt8)) :=
  poll (amid moves (CUnlockQueue.recv len)) (chan.unlockQueues.size - 1) chan.prepare segments

/-- `CChannel::Peek` among the peers. -/
def CChannel.peekAmid (moves : Moves) (chan : CChannel) (segments : Segments) :
    Option (Answer View) :=
  poll (amid moves CUnlockQueue.peek) (chan.unlockQueues.size - 1) chan.prepare segments

theorem CChannel.recvAmid_still (chan : CChannel) :
    chan.recvAmid (fun _ segments => segments) = chan.recv := rfl

theorem CChannel.peekAmid_still (chan : CChannel) :
    chan.peekAmid (fun _ segments => segments) = chan.peek := rfl

/-- The operation on this queue would return `kOk`. -/
def Ready {α : Type} (op : CUnlockQueue → Segments → Except Err α × Segments) (queue : CUnlockQueue)
    (segments : Segments) : Prop :=
  ∃ value, (op queue segments).1 = .ok value

/-- The queue is deliverable when the call starts and stays so under what the peers do. -/
structure Deliverable {α : Type} (op : CUnlockQueue → Segments → Except Err α × Segments)
    (queue : CUnlockQueue) (moves : Moves) (segments : Segments) : Prop where
  now : Ready op queue segments
  stays : ∀ other before, Ready op queue before → Ready op queue (moves other before)

/-- What a step tells an observer; `source` is the queue that answered. -/
inductive Report
  | quiet
  | ok (source : Option ProcId)
  | error (err : Err)
  deriving DecidableEq

def Report.isOk : Report → Bool
  | .ok _ => true
  | _ => false

def Report.isError : Report → Bool
  | .error _ => true
  | _ => false

def CChannel.Answer.report {α : Type} (answer : CChannel.Answer α) : Report :=
  match answer.ret with
  | .ok _ => .ok answer.chan.curRecvQueue
  | .error err => .error err

section Call

variable {α : Type} {op : CUnlockQueue → Segments → Except Err α × Segments} {moves : Moves}
  {left : ℕ} {chan : CChannel} {segments : Segments} {answer : CChannel.Answer α}
  {cursor key : ProcId} {queue : CUnlockQueue}

/-- A call leaves the cursor at a queue. -/
theorem CChannel.poll_placed (prepared : chan.Prepared cursor)
    (answered : chan.poll op left segments = some answer) : answer.chan.Placed := by
  refine poll_induction (motive := fun chan _ => ∀ cursor, chan.Prepared cursor → answer.chan.Placed)
    ?_ ?_ ?_ answered cursor prepared
  · intro chan segments queue value _ _ whole cursor prepared
    rw [whole]
    exact prepared.counted_placed
  · intro chan segments queue err _ _ whole cursor prepared
    obtain ⟨next, moved, _⟩ := moveToNextQueue_prepared prepared.at_cursor prepared.member
    rw [whole]
    exact moved.placed
  · intro chan segments after queue _ _ rest cursor prepared
    obtain ⟨next, moved, _⟩ := moveToNextQueue_prepared prepared.at_cursor prepared.member
    exact rest next moved

/-- A call made while the queue of `key` is deliverable: `key` is served, or the cursor comes closer. -/
inductive CChannel.Served (chan : CChannel) (key : ProcId) (answer : CChannel.Answer α) : Prop
  | here : answer.report = .ok (some key) → Served chan key answer
  | packet (source : Option ProcId) :
      answer.report = .ok source → chan.Closer key 1 0 answer.chan → Served chan key answer
  | failure (err : Err) : answer.report = .error err → err ≠ .kChanEmpty →
      chan.Closer key 0 1 answer.chan → Served chan key answer

theorem CChannel.Served.trans {moved : CChannel} (passed : chan.Closer key 0 1 moved)
    (prepared : moved.Prepared cursor) (served : moved.Served key answer) :
    chan.Served key answer := by
  cases served with
  | here report => exact .here report
  | packet source report closer => exact .packet source report (passed.trans prepared closer)
  | failure err report full closer => exact .failure err report full (passed.trans prepared closer)

theorem CChannel.Prepared.current (prepared : chan.Prepared cursor) :
    ∃ queue, chan.unlockQueues[cursor]? = some queue ∧ chan.current = some queue := by
  have some := Std.TreeMap.getElem?_eq_some_getElem prepared.member
  exact ⟨_, some, by rw [CChannel.current, prepared.at_cursor, Option.bind_some, some]⟩

/-- The cursor stands at the queue of `key`. -/
theorem CChannel.poll_here (member : chan.unlockQueues[key]? = some queue)
    (prepared : chan.Prepared key) (deliverable : Deliverable op queue moves segments) (left : ℕ) :
    ∃ answer, chan.poll (amid moves op) left segments = some answer ∧ chan.Served key answer := by
  obtain ⟨found, same, current⟩ := prepared.current
  cases member.symm.trans same
  obtain ⟨value, done⟩ := deliverable.stays queue segments deliverable.now
  have answered : amid moves op queue segments = (.ok value, (op queue (moves queue segments)).2) :=
    Prod.ext done rfl
  refine ⟨_, poll_of_ok current answered, .here ?_⟩
  rw [Answer.report]
  exact congrArg Report.ok prepared.at_cursor

/-- **One call.** The rounds left reach the queue of `key`, and the rounds before it stop at another
answer or bring the cursor closer. -/
theorem CChannel.poll_served (quiet : Quiet op) (member : chan.unlockQueues[key]? = some queue)
    (prepared : chan.Prepared cursor) (deliverable : Deliverable op queue moves segments)
    (near : chan.distance key ≤ left) :
    ∃ answer, chan.poll (amid moves op) left segments = some answer ∧ chan.Served key answer := by
  induction left generalizing chan cursor segments with
  | zero =>
    have inside : key ∈ chan.unlockQueues := UnlockQueueSet.mem_of_some member
    by_cases apart : cursor = key
    · subst apart
      exact poll_here member prepared deliverable 0
    · have away := UnlockQueueSet.ahead_pos prepared.member inside apart
      rw [← prepared.distance] at away
      omega
  | succ left ih =>
    have inside : key ∈ chan.unlockQueues := UnlockQueueSet.mem_of_some member
    by_cases apart : cursor = key
    · subst apart
      exact poll_here member prepared deliverable (left + 1)
    · obtain ⟨other, _, current⟩ := prepared.current
      obtain ⟨next, moved, passed⟩ := prepared.pass inside apart
      have ready := deliverable.stays other segments deliverable.now
      rcases done : op other (moves other segments) with ⟨ret, after⟩
      cases ret with
      | ok value =>
        refine ⟨_, poll_of_ok current done, .packet _ rfl ?_⟩
        exact prepared.deliver inside apart
      | error err =>
        by_cases empty : err = .kChanEmpty
        · subst empty
          -- an empty queue is left as it was, so the queue of `key` stays deliverable
          have unchanged : after = moves other segments :=
            quiet.unchanged done
          have later : Deliverable op queue moves after := ⟨unchanged ▸ ready, deliverable.stays⟩
          have less : chan.moveToNextQueue.distance key ≤ left := by
            have step := passed.distance
            rw [moved.prepare] at step
            omega
          obtain ⟨answer, answered, served⟩ :=
            ih (chan.moveToNextQueue_unlockQueues.symm ▸ member) moved later less
          have round : chan.poll (amid moves op) (left + 1) segments =
              chan.moveToNextQueue.poll (amid moves op) left after := poll_of_empty current done
          exact ⟨answer, round.trans answered, served.trans passed moved⟩
        · exact ⟨_, poll_of_error current done empty, .failure err rfl empty passed⟩

/-- A call of the channel while the queue of `key` is deliverable. -/
theorem CChannel.Placed.served (placed : chan.Placed) (quiet : Quiet op)
    (member : chan.unlockQueues[key]? = some queue)
    (deliverable : Deliverable op queue moves segments) :
    ∃ answer, chan.prepare.poll (amid moves op) (chan.unlockQueues.size - 1) segments = some answer ∧
      chan.prepare.Served key answer := by
  have inside : key ∈ chan.unlockQueues := UnlockQueueSet.mem_of_some member
  obtain ⟨cursor, prepared⟩ := placed.prepare inside
  refine poll_served quiet (chan.prepare_unlockQueues.symm ▸ member) prepared deliverable ?_
  have bound := UnlockQueueSet.ahead_lt cursor inside
  rw [prepared.distance, prepare_unlockQueues]
  omega

end Call

/-! ### Runs while a queue waits -/

/-- A call of the owner, or a change made by the peers. In every call the queue `awaited` is
deliverable. -/
inductive ServiceStep (awaited : Option CUnlockQueue) : System → Report → System → Prop
  | recv (sys : System) (moves : Moves) (len : UInt32) (answer : CChannel.Answer (List UInt8)) :
      (∀ queue ∈ awaited, Deliverable (CUnlockQueue.recv len) queue moves sys.segments) →
      sys.chan.recvAmid moves sys.segments len = some answer →
      ServiceStep awaited sys answer.report ⟨answer.chan, answer.segments⟩
  | peek (sys : System) (moves : Moves) (answer : CChannel.Answer View) :
      (∀ queue ∈ awaited, Deliverable CUnlockQueue.peek queue moves sys.segments) →
      sys.chan.peekAmid moves sys.segments = some answer →
      ServiceStep awaited sys answer.report ⟨answer.chan, answer.segments⟩
  | drop (sys : System) (src : ProcId) :
      ServiceStep awaited sys .quiet
        { sys with segments := (sys.chan.drop sys.segments src).2 }
  | send (sys : System) (dst : ProcId) (data : Message) (reserve : Reserve) :
      ServiceStep awaited sys .quiet
        { sys with segments := (sys.chan.send sys.segments dst data reserve).2 }
  | peers (sys : System) (segments : Segments) :
      ServiceStep awaited sys .quiet { sys with segments := segments }

/-- Runs of a channel in which `awaited` is deliverable whenever a call is made. -/
def serviceMachine (awaited : Option CUnlockQueue) (start : CChannel) : Machine System Report where
  init sys := sys.chan = start
  step := ServiceStep awaited

section Service

variable {start : CChannel} {sys after : System} {key : ProcId} {queue : CUnlockQueue}

/-- `Init` puts the cursor at the first queue. -/
theorem CChannel.init_placed {attach : ShmId → Bool} {segments : Segments}
    {config : Option GlobalConfig} {procId : ProcId} {before : CChannel}
    (opened : init attach segments config procId before = (.ok (), start)) : start.Placed := by
  unfold init at opened
  cases config with
  | none => cases opened
  | some config =>
    rcases result : openQueues attach segments procId (config.getChansByProcId procId)
      before.unlockQueues with ⟨ret, queues⟩
    simp only [result] at opened
    cases ret with
    | error err => cases opened
    | ok _ =>
      cases opened
      refine ⟨fun key first => ?_, Nat.zero_le 10⟩
      exact Std.TreeMap.mem_keys.mp (List.mem_of_head? first)

/-- What every run keeps. -/
theorem ServiceStep.placed {awaited : Option CUnlockQueue} {report : Report}
    (placed : sys.chan.Placed) (member : key ∈ sys.chan.unlockQueues)
    (taken : ServiceStep awaited sys report after) :
    after.chan.Placed ∧ after.chan.unlockQueues = sys.chan.unlockQueues := by
  obtain ⟨cursor, prepared⟩ := placed.prepare member
  cases taken with
  | recv moves len answer _ answered | peek moves answer _ answered =>
    exact ⟨CChannel.poll_placed prepared answered,
      (CChannel.poll_unlockQueues answered).trans sys.chan.prepare_unlockQueues⟩
  | drop | send | peers => exact ⟨placed, rfl⟩

theorem serviceMachine_placed {awaited : Option CUnlockQueue} (placed : start.Placed)
    (member : key ∈ start.unlockQueues) (reached : (serviceMachine awaited start).Reachable sys) :
    sys.chan.Placed ∧ sys.chan.unlockQueues = start.unlockQueues := by
  have base : ∀ first, (serviceMachine awaited start).init first →
      first.chan.Placed ∧ first.chan.unlockQueues = start.unlockQueues := by
    intro first begins
    rw [show first.chan = start from begins]
    exact ⟨placed, rfl⟩
  refine reached.invariant base ?_
  intro last report next _ inv taken
  obtain ⟨kept, same⟩ := ServiceStep.placed inv.1 (inv.2.symm ▸ member) taken
  exact ⟨kept, same.trans inv.2⟩

/-- What the reports so far leave of the patience of `key`, out of `oks` packets and `errors` failures. -/
structure Awaiting (start : CChannel) (key : ProcId) (oks errors : ℕ) (reports : List Report)
    (sys : System) : Prop where
  placed : sys.chan.Placed
  unlockQueues : sys.chan.unlockQueues = start.unlockQueues
  oks : reports.countP Report.isOk + sys.chan.prepare.patience key ≤ oks
  errors : reports.countP Report.isError + sys.chan.prepare.distance key ≤ errors
  nonempty : .error .kChanEmpty ∉ reports

/-- A call that brought the cursor closer has paid for its report. -/
theorem Awaiting.closer {α : Type} {oks errors : ℕ} {reports : List Report}
    {answer : CChannel.Answer α} {report : Report} (inv : Awaiting start key oks errors reports sys)
    (closer : sys.chan.prepare.Closer key ([report].countP Report.isOk)
      ([report].countP Report.isError) answer.chan) (other : report ≠ .error .kChanEmpty) :
    Awaiting start key oks errors (reports ++ [report]) ⟨answer.chan, answer.segments⟩ := by
  have queues : sys.chan.prepare.unlockQueues = start.unlockQueues :=
    sys.chan.prepare_unlockQueues.trans inv.unlockQueues
  have packets := inv.oks
  have failures := inv.errors
  have less := closer.patience
  have near := closer.distance
  refine ⟨closer.placed, closer.unlockQueues.trans queues, ?_, ?_, ?_⟩
  · rw [List.countP_append]
    show _ + _ + answer.chan.prepare.patience key ≤ oks
    omega
  · rw [List.countP_append]
    show _ + _ + answer.chan.prepare.distance key ≤ errors
    omega
  · rw [List.mem_append, List.mem_singleton]
    exact fun either => either.elim inv.nonempty fun same => other same.symm

/-- A call that did not serve `key`. -/
theorem Awaiting.served {α : Type} {oks errors : ℕ} {reports : List Report}
    {answer : CChannel.Answer α} (inv : Awaiting start key oks errors reports sys)
    (served : sys.chan.prepare.Served key answer) (elsewhere : answer.report ≠ .ok (some key)) :
    Awaiting start key oks errors (reports ++ [answer.report]) ⟨answer.chan, answer.segments⟩ := by
  cases served with
  | here report => exact absurd report elsewhere
  | packet source report closer =>
    rw [report]
    exact inv.closer closer nofun
  | failure err report full closer =>
    rw [report]
    exact inv.closer closer fun same => full (Report.error.inj same)

/-- A run that never serves `key` uses up its patience. -/
theorem serviceMachine_awaiting {reports : List Report} (member : start.unlockQueues[key]? = some queue)
    (placed : sys.chan.Placed) (queues : sys.chan.unlockQueues = start.unlockQueues)
    (run : (serviceMachine (some queue) start).Run sys reports after)
    (unanswered : .ok (some key) ∉ reports) :
    Awaiting start key (10 * (start.unlockQueues.size - 1)) (start.unlockQueues.size - 1) reports
      after := by
  have inside : key ∈ start.unlockQueues := UnlockQueueSet.mem_of_some member
  induction run with
  | nil =>
    obtain ⟨cursor, prepared⟩ := placed.prepare (queues.symm ▸ inside)
    have bound := UnlockQueueSet.ahead_lt cursor inside
    have near := prepared.distance key
    rw [CChannel.prepare_unlockQueues, queues] at near
    refine ⟨placed, queues, ?_, ?_, List.not_mem_nil⟩
    · rw [List.countP_nil, CChannel.patience]
      omega
    · rw [List.countP_nil]
      omega
  | snoc before taken ih =>
    rw [List.mem_append, List.mem_singleton, not_or] at unanswered
    have inv := ih unanswered.1
    have found := inv.unlockQueues.symm ▸ member
    cases taken with
    | recv moves len answer deliverable answered =>
      obtain ⟨_, same, served⟩ := inv.placed.served (recv_quiet len) found (deliverable queue rfl)
      cases answered.symm.trans same
      exact inv.served served (Ne.symm unanswered.2)
    | peek moves answer deliverable answered =>
      obtain ⟨_, same, served⟩ := inv.placed.served peek_quiet found (deliverable queue rfl)
      cases answered.symm.trans same
      exact inv.served served (Ne.symm unanswered.2)
    | drop | send | peers =>
      refine ⟨inv.placed, inv.unlockQueues, ?_, ?_, ?_⟩
      · rw [List.countP_append]
        exact inv.oks
      · rw [List.countP_append]
        exact inv.errors
      · rw [List.mem_append, List.mem_singleton]
        exact fun either => either.elim inv.nonempty (fun same => by cases same)

end Service

/-- **No peer is starved.** After every successful `Init`, at every moment of every run and for every
peer `key`: in a run from that moment whose calls are all made while the queue of `key` is deliverable,
as long as no call has been answered from it, `kOk` is returned at most `10 * (n - 1)` times and an
error at most `n - 1` times, `kChanEmpty` is not returned, and the next such call returns. -/
theorem no_starvation (attach : ShmId → Bool) (segments : Segments) (config : Option GlobalConfig)
    (procId : ProcId) (before start : CChannel)
    (opened : CChannel.init attach segments config procId before = (.ok (), start))
    (sys : System) (reached : (serviceMachine none start).Reachable sys)
    (key : ProcId) (queue : CUnlockQueue) (member : start.unlockQueues[key]? = some queue)
    (reports : List Report) (after : System)
    (run : (serviceMachine (some queue) start).Run sys reports after)
    (unanswered : .ok (some key) ∉ reports) :
    reports.countP Report.isOk ≤ 10 * (start.unlockQueues.size - 1) ∧
      reports.countP Report.isError ≤ start.unlockQueues.size - 1 ∧
      .error .kChanEmpty ∉ reports ∧
      (∀ len moves, Deliverable (CUnlockQueue.recv len) queue moves after.segments →
        ∃ answer, after.chan.recvAmid moves after.segments len = some answer) ∧
      ∀ moves, Deliverable CUnlockQueue.peek queue moves after.segments →
        ∃ answer, after.chan.peekAmid moves after.segments = some answer := by
  have inside : key ∈ start.unlockQueues := UnlockQueueSet.mem_of_some member
  obtain ⟨placed, queues⟩ := serviceMachine_placed (CChannel.init_placed opened) inside reached
  have inv := serviceMachine_awaiting member placed queues run unanswered
  have found := inv.unlockQueues.symm ▸ member
  refine ⟨le_trans (Nat.le_add_right _ _) inv.oks, le_trans (Nat.le_add_right _ _) inv.errors,
    inv.nonempty, ?_, ?_⟩
  · intro len moves deliverable
    obtain ⟨answer, answered, _⟩ := inv.placed.served (recv_quiet len) found deliverable
    exact ⟨answer, answered⟩
  · intro moves deliverable
    obtain ⟨answer, answered, _⟩ := inv.placed.served peek_quiet found deliverable
    exact ⟨answer, answered⟩

/-- A process `1` with two peers. -/
def starConfig : GlobalConfig :=
  ⟨[⟨#v[1, 4], 10, 11, 1000, 1000⟩, ⟨#v[1, 5], 20, 21, 1000, 1000⟩]⟩

def starChannel : CChannel :=
  (CChannel.init (fun _ => true) pairSegments (some starConfig) 1 .new).2

/-- One of the two peers is served while the other waits. -/
theorem no_starvation_star :
    [Report.ok (some 4)].countP Report.isOk ≤ 10 * (starChannel.unlockQueues.size - 1) := by
  have deliverable : ∀ queue ∈ some (⟨21, 20, 5⟩ : CUnlockQueue),
      Deliverable CUnlockQueue.peek queue (fun _ segments => segments) pairSegments := by
    intro queue same
    cases same
    exact ⟨⟨_, rfl⟩, fun _ _ ready => ready⟩
  have step := ServiceStep.peek ⟨starChannel, pairSegments⟩ _ _ deliverable rfl
  exact (no_starvation (fun _ => true) pairSegments (some starConfig) 1 .new starChannel rfl
    ⟨starChannel, pairSegments⟩ (.start rfl) 5 ⟨21, 20, 5⟩ rfl [.ok (some 4)] _
    (.snoc (.nil _) step) (by decide)).1

end Yarf.Channel
