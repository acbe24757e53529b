/-
**What `Peek` announces.**

`Peek` counts the packet it shows like one that is received, and the queue gives way to the next one at the
start of the call after the tenth. So a second call answers from the same queue, unless the first was the
tenth of its queue and another queue holds something.

* `call_again` — where a second call is answered from;
* `announces_iff` — in every run, exactly when the next call of `Peek` or `Recv` delivers what `Peek` has
  shown.
-/

import Yarf.Channel.Multiplex

namespace Yarf.Channel

open Lib

/-! ### Two calls in a row -/

/-- The packet that the next call of `Peek` shows is the tenth in a row from its queue, and another queue
holds something. -/
def CChannel.TurnEnds (chan : CChannel) (segments : Segments) : Prop :=
  chan.curQueueRecvPkgCount = 9 ∧
    ∃ key queue, chan.curRecvQueue = some key ∧ chan.unlockQueues[key]? = some queue ∧
      (∃ pack, (segments queue.recver).nextPack = .ok pack) ∧
      ∃ other ∈ chan.unlockQueues, other ≠ key ∧ chan.pending segments other = true

section Order

variable {queues : UnlockQueueSet} {start after : ProcId} {rest : List ProcId}

/-- Behind `start` the order begins with the others and ends with `start`. -/
theorem UnlockQueueSet.cyclic_next (member : start ∈ queues) (order : queues.cyclic start = start :: rest)
    (next : (queues.next start).or queues.begin = some after) :
    queues.cyclic after = rest ++ [start] := by
  obtain ⟨found, _, same, place⟩ := next_place member
  cases next.symm.trans same
  have turned : queues.cyclic after = (queues.cyclic start).rotate 1 := by
    rw [cyclic, cyclic, place, List.rotate_rotate, slot, ← Std.TreeMap.length_keys, List.rotate_mod]
  rw [turned, order, List.rotate_cons_succ, List.rotate_zero]

end Order

section Serving

variable {chan : CChannel} {segments : Segments} {start key other : ProcId}

/-- The only queue that holds something is the one that answers. -/
theorem CChannel.serving_only (member : key ∈ chan.unlockQueues) (holds : chan.pending segments key = true)
    (only : ∀ other ∈ chan.unlockQueues, other ≠ key → ¬ chan.pending segments other = true) :
    chan.serving segments start = some key := by
  cases found : chan.serving segments start with
  | none =>
    have skipped := List.find?_eq_none.mp found key (UnlockQueueSet.mem_cyclic.mpr member)
    exact absurd holds skipped
  | some first =>
    have inside := UnlockQueueSet.mem_cyclic.mp (List.mem_of_find?_eq_some found)
    by_contra apart
    exact only first inside (fun same => apart (congrArg some same)) (List.find?_some found)

/-- A queue at the start of the order answers if it holds something. -/
theorem CChannel.serving_start (member : start ∈ chan.unlockQueues)
    (holds : chan.pending segments start = true) : chan.serving segments start = some start := by
  obtain ⟨rest, order⟩ := UnlockQueueSet.cyclic_eq_cons member
  rw [serving, order, List.find?_cons_of_pos holds]

/-- From the key behind `key` on, another queue that holds something comes first. -/
theorem CChannel.serving_next (member : key ∈ chan.unlockQueues)
    (next : (chan.unlockQueues.next key).or chan.unlockQueues.begin = some start)
    (inside : other ∈ chan.unlockQueues) (apart : other ≠ key)
    (holds : chan.pending segments other = true) :
    ∃ first, chan.serving segments start = some first ∧ first ≠ key := by
  obtain ⟨rest, order⟩ := UnlockQueueSet.cyclic_eq_cons member
  have fresh : key ∉ rest := (List.nodup_cons.mp (order ▸ UnlockQueueSet.nodup_cyclic key)).1
  have within : other ∈ rest := by
    have listed : other ∈ chan.unlockQueues.cyclic key := UnlockQueueSet.mem_cyclic.mpr inside
    rw [order] at listed
    exact (List.mem_cons.mp listed).resolve_left apart
  cases found : rest.find? (chan.pending segments) with
  | none => exact absurd holds (List.find?_eq_none.mp found other within)
  | some first =>
    refine ⟨first, ?_, fun same => fresh (same ▸ List.mem_of_find?_eq_some found)⟩
    rw [serving, UnlockQueueSet.cyclic_next member order next, List.find?_append, found, Option.some_or]

end Serving

/-! ### After a `Peek` that was answered -/

/-- The channel after a call that the queue of `key` has answered with a packet. -/
def CChannel.counted (chan : CChannel) (start key : ProcId) : CChannel :=
  { chan.served start key with
    curQueueRecvPkgCount := (chan.served start key).curQueueRecvPkgCount + 1 }

section Again

variable {chan : CChannel} {segments : Segments} {start key : ProcId}

theorem CChannel.startCount_lt (chan : CChannel) : chan.startCount.toNat < 10 := by
  unfold startCount
  cases chan.curRecvQueue with
  | none => exact Nat.zero_lt_succ 9
  | some _ =>
    dsimp only
    split_ifs with full
    · exact Nat.zero_lt_succ 9
    · exact Nat.not_le.mp full

theorem CChannel.served_count_lt (chan : CChannel) (start key : ProcId) :
    (chan.served start key).curQueueRecvPkgCount.toNat < 10 := by
  unfold served
  dsimp only
  split_ifs
  · exact chan.startCount_lt
  · exact Nat.zero_lt_succ 9

theorem CChannel.counted_count (chan : CChannel) (start key : ProcId) :
    (chan.counted start key).curQueueRecvPkgCount.toNat
      = (chan.served start key).curQueueRecvPkgCount.toNat + 1 := by
  have few := chan.served_count_lt start key
  show (_ + 1 : UInt32).toNat = _
  rw [UInt32.toNat_add, UInt32.toNat_one]
  omega

/-- The tenth packet was counted on a cursor that stood at nine. -/
theorem CChannel.served_count_nine (begins : chan.startKey = some start)
    (nine : (chan.served start key).curQueueRecvPkgCount.toNat = 9) :
    key = start ∧ chan.curQueueRecvPkgCount = 9 ∧ chan.curRecvQueue = some start := by
  unfold served at nine
  dsimp only at nine
  split_ifs at nine with same
  · unfold startCount at nine
    unfold startKey at begins
    cases at_cursor : chan.curRecvQueue with
    | none =>
      rw [at_cursor] at nine
      cases nine
    | some cursor =>
      rw [at_cursor] at nine begins
      dsimp only at nine begins
      split_ifs at nine begins with full
      · cases nine
      · exact ⟨same, UInt32.toNat_inj.mp nine, begins⟩
  · cases nine

/-- **Where a second call is answered from**: where the first was, unless its turn has ended. -/
theorem CChannel.call_again (begins : chan.startKey = some start)
    (answered : chan.serving segments start = some key)
    (turn : chan.curQueueRecvPkgCount = 9 → chan.curRecvQueue = some key →
      ∀ other ∈ chan.unlockQueues, other ≠ key → ¬ chan.pending segments other = true)
    {start' : ProcId} (begins' : (chan.counted start key).startKey = some start') :
    (chan.counted start key).serving segments start' = some key := by
  have member : key ∈ chan.unlockQueues :=
    UnlockQueueSet.mem_cyclic.mp (List.mem_of_find?_eq_some answered)
  have holds : chan.pending segments key = true := List.find?_some answered
  by_cases full : 10 ≤ (chan.counted start key).curQueueRecvPkgCount.toNat
  · -- the tenth packet: only this queue holds anything
    have few := chan.served_count_lt start key
    rw [counted_count] at full
    obtain ⟨rfl, nine, at_cursor⟩ := served_count_nine begins
      (by omega : (chan.served start key).curQueueRecvPkgCount.toNat = 9)
    exact @serving_only (chan.counted key key) segments start' key member holds (turn nine at_cursor)
  · have same : key = start' := by
      have first : (chan.counted start key).startKey = some key := if_neg full
      exact Option.some.inj (first.symm.trans begins')
    rw [← same]
    exact @serving_start (chan.counted start key) segments key member holds

end Again

/-! ### The calls -/

section Calls

variable {chan : CChannel} {segments : Segments} {start key : ProcId} {queue : CUnlockQueue}

/-- A call that is answered from the queue of `key`. -/
theorem CChannel.call_serves {α : Type} {op : CUnlockQueue → Segments → Except Err α × Segments}
    (receives : Receives op) (valid : chan.CursorValid) (begins : chan.startKey = some start)
    (found : chan.serving segments start = some key) (member : chan.unlockQueues[key]? = some queue) :
    chan.prepare.poll op (chan.unlockQueues.size - 1) segments
      = some ((chan.served start key).finish queue (op queue segments)) := by
  obtain ⟨first, _, same, _, scan⟩ := @call_scan α op chan segments key receives valid
    (UnlockQueueSet.mem_of_some member)
  cases begins.symm.trans same
  rw [found] at scan
  obtain ⟨_, here, answered⟩ := scan
  cases member.symm.trans here
  exact answered

/-- `Peek` on a queue that holds a packet. -/
theorem CChannel.peek_serves (valid : chan.CursorValid) (begins : chan.startKey = some start)
    (found : chan.serving segments start = some key) (member : chan.unlockQueues[key]? = some queue)
    {pack : NextPack} (holds : (segments queue.recver).nextPack = .ok pack) :
    chan.peek segments = some ⟨.ok pack.view, queue.peerId, chan.counted start key, segments⟩ := by
  have answered := call_serves peek_receives valid begins found member
  have done : queue.peek segments = (.ok pack.view, segments) := by
    refine Prod.ext ?_ (queue.peek_segments segments)
    show (Channel.peek (segments queue.recver)).1 = _
    rw [peek_of_ok holds]
  rw [done] at answered
  exact answered

/-- `Recv` on a queue that holds a packet the buffer is long enough for. -/
theorem CChannel.recv_serves (valid : chan.CursorValid) (begins : chan.startKey = some start)
    (found : chan.serving segments start = some key) (member : chan.unlockQueues[key]? = some queue)
    {pack : NextPack} (holds : (segments queue.recver).nextPack = .ok pack) {len : UInt32}
    (enough : ¬ len < pack.packHead.bodyLen.toUInt32) :
    chan.recv segments len = some ⟨.ok (pack.view.bytes (segments queue.recver).buff), queue.peerId,
      chan.counted start key,
      Function.update segments queue.recver ((segments queue.recver).advance pack)⟩ := by
  have answered := call_serves (recv_receives len) valid begins found member
  have done : queue.recv len segments = (.ok (pack.view.bytes (segments queue.recver).buff),
      Function.update segments queue.recver ((segments queue.recver).advance pack)) := by
    unfold CUnlockQueue.recv
    rw [recv_of_ok holds enough]
  rw [done] at answered
  exact answered

/-- A `Peek` that returned `kOk`. -/
theorem CChannel.peek_ok (valid : chan.CursorValid) {peer : ProcId} (member : peer ∈ chan.unlockQueues)
    {peeked : Answer View} (answered : chan.peek segments = some peeked) {view : View}
    (ok : peeked.ret = .ok view) :
    ∃ start key queue pack, chan.startKey = some start ∧ chan.serving segments start = some key ∧
      chan.unlockQueues[key]? = some queue ∧ (segments queue.recver).nextPack = .ok pack ∧
      view = pack.view ∧
      peeked = ⟨.ok pack.view, queue.peerId, chan.counted start key, segments⟩ := by
  obtain ⟨start, _, begins, _, scan⟩ := @call_scan _ _ chan segments peer peek_receives valid member
  cases found : chan.serving segments start with
  | none =>
    rw [found] at scan
    obtain ⟨last, queue, _, _, same⟩ := scan
    cases answered.symm.trans same
    cases ok
  | some key =>
    rw [found] at scan
    obtain ⟨queue, here, same⟩ := scan
    cases answered.symm.trans same
    have shown : (queue.peek segments).1 = .ok view :=
      (finish_ret queue (queue.peek segments)).1.symm.trans ok
    obtain ⟨pack, holds, rfl, _⟩ := CUnlockQueue.drop_of_peek shown
    have whole : queue.peek segments = (.ok pack.view, segments) :=
      Prod.ext shown (queue.peek_segments segments)
    exact ⟨start, key, queue, pack, begins, found, here, holds, rfl, by rw [whole]; rfl⟩

end Calls

/-! ### What is announced -/

/-- The message a successful `Peek` shows, under the source it reports. -/
def CChannel.shown (chan : CChannel) (answer : Answer View) : Option (ProcId × List UInt8) :=
  match answer.ret with
  | .error _ => none
  | .ok view => (chan.unlockQueues[answer.src]?).map fun queue =>
      (answer.src, view.bytes (answer.segments queue.recver).buff)

/-- What the next `Peek` shows is shown again by a second one, and delivered by a `Recv` whose buffer is long
enough. -/
def CChannel.Announces (chan : CChannel) (segments : Segments) : Prop :=
  ∀ peeked src message, chan.peek segments = some peeked →
    chan.shown peeked = some (src, message) →
    (∃ again, peeked.chan.peek peeked.segments = some again ∧
      peeked.chan.shown again = some (src, message)) ∧
    ∀ len : UInt32, message.length ≤ len.toNat →
      ∃ received, peeked.chan.recv peeked.segments len = some received ∧ received.src = src ∧
        received.ret = .ok message

/-- Every queue carries the whole id of its peer. -/
def CChannel.Named (chan : CChannel) : Prop :=
  ∀ (key : ProcId) (queue : CUnlockQueue), chan.unlockQueues[key]? = some queue → queue.peerId = key

section Announced

variable {chan : CChannel} {segments : Segments} {start key : ProcId} {queue : CUnlockQueue}

theorem CChannel.shown_serves (named : chan.Named) (member : chan.unlockQueues[key]? = some queue)
    (after : CChannel) (pack : NextPack) :
    chan.shown ⟨.ok pack.view, queue.peerId, after, segments⟩
      = some (key, pack.view.bytes (segments queue.recver).buff) := by
  have same := named key queue member
  unfold shown
  dsimp only
  rw [same, member, Option.map_some]

theorem CChannel.ret_of_shown {answer : Answer View} {src : ProcId} {message : List UInt8}
    (shown : chan.shown answer = some (src, message)) : ∃ view, answer.ret = .ok view := by
  unfold CChannel.shown at shown
  cases ret : answer.ret with
  | error err =>
    rw [ret] at shown
    cases shown
  | ok view => exact ⟨view, rfl⟩

theorem CChannel.counted_valid (chan : CChannel) (start : ProcId) (member : key ∈ chan.unlockQueues) :
    (chan.counted start key).CursorValid := by
  intro cursor same
  cases same
  exact member

/-- **Behind the packet that ends its turn** the next call is answered from another queue. -/
theorem CChannel.TurnEnds.not_announces (ends : chan.TurnEnds segments) (valid : chan.CursorValid)
    (named : chan.Named) : ¬ chan.Announces segments := by
  intro announces
  obtain ⟨nine, key, queue, at_cursor, here, ⟨pack, holds⟩, other, inside, apart, more⟩ := ends
  have own : key ∈ chan.unlockQueues := UnlockQueueSet.mem_of_some here
  have begins : chan.startKey = some key := by
    unfold startKey
    rw [at_cursor, nine]
    rfl
  have pending : chan.pending segments key = true := by
    rw [pending_eq_true here, ← nextPack_eq_empty_iff, holds]
    exact nofun
  have answered := peek_serves valid begins (serving_start own pending) here holds
  obtain ⟨⟨again, second, shown⟩, _⟩ :=
    announces _ _ _ answered (shown_serves named here _ pack)
  have count : (chan.counted key key).curQueueRecvPkgCount.toNat = 10 := by
    rw [counted_count, served]
    dsimp only
    rw [if_pos rfl, startCount, at_cursor, nine]
    rfl
  have valid' := chan.counted_valid key own
  have own' : key ∈ (chan.counted key key).unlockQueues := own
  obtain ⟨start', _, begins'⟩ := valid'.startKey own'
  have next : (chan.unlockQueues.next key).or chan.unlockQueues.begin = some start' := by
    rw [← begins', startKey, count]
    exact (if_pos le_rfl).symm
  obtain ⟨first, served, differs⟩ := serving_next own next inside apart more
  obtain ⟨view, ok⟩ := ret_of_shown shown
  obtain ⟨_, found, queue', _, same, served', here', _, _, rfl⟩ :=
    peek_ok valid' own' second ok
  cases begins'.symm.trans same
  cases served.symm.trans served'
  have named' : (chan.counted key key).Named := named
  have twice := shown.symm.trans (shown_serves named' here' _ _)
  exact differs (Prod.mk.inj (Option.some.inj twice)).1.symm

/-- **Within a turn** the next call is answered from the same queue. -/
theorem CChannel.announces_of_not_turnEnds (goesOn : ¬ chan.TurnEnds segments) (valid : chan.CursorValid)
    {peer : ProcId} (member : peer ∈ chan.unlockQueues) (named : chan.Named) :
    chan.Announces segments := by
  intro peeked src message answered shown
  obtain ⟨view, ok⟩ := ret_of_shown shown
  obtain ⟨start, key, queue, pack, begins, served, here, holds, _, rfl⟩ :=
    peek_ok valid member answered ok
  obtain ⟨source, body⟩ :=
    Prod.mk.inj (Option.some.inj ((shown_serves named here _ pack).symm.trans shown))
  subst source body
  have own : key ∈ chan.unlockQueues := UnlockQueueSet.mem_of_some here
  have valid' := chan.counted_valid start own
  have own' : key ∈ (chan.counted start key).unlockQueues := own
  obtain ⟨start', _, begins'⟩ := valid'.startKey own'
  have turn : chan.curQueueRecvPkgCount = 9 → chan.curRecvQueue = some key →
      ∀ other ∈ chan.unlockQueues, other ≠ key → ¬ chan.pending segments other = true := by
    intro nine at_cursor other inside apart more
    exact goesOn ⟨nine, key, queue, at_cursor, here, ⟨pack, holds⟩, other, inside, apart, more⟩
  have served' := call_again begins served turn begins'
  refine ⟨⟨_, peek_serves valid' begins' served' here holds, ?_⟩, fun len enough => ?_⟩
  · have named' : (chan.counted start key).Named := named
    exact shown_serves named' here _ pack
  · have long : ¬ len < pack.packHead.bodyLen.toUInt32 := by
      rw [View.bytes, length_load] at enough
      rw [UInt32.lt_iff_toNat_lt, UInt16.toNat_toUInt32]
      exact Nat.not_lt.mpr enough
    exact ⟨_, recv_serves valid' begins' served' here holds long, named key queue here, rfl⟩

/-- **When `Peek` announces**: exactly when its turn does not end with the packet it shows. -/
theorem CChannel.announces_iff_of_named (valid : chan.CursorValid) {peer : ProcId}
    (member : peer ∈ chan.unlockQueues) (named : chan.Named) :
    chan.Announces segments ↔ ¬ chan.TurnEnds segments := by
  constructor
  · exact fun announces ends => ends.not_announces valid named announces
  · exact fun goesOn => announces_of_not_turnEnds goesOn valid member named

end Announced

/-! ### In every run -/

section Runs

variable {start : CChannel} {sys after : System} {key : ProcId}

/-- What every call keeps, whatever the peers do. -/
theorem SystemStep.placed {act : Act} (placed : sys.chan.Placed) (member : key ∈ sys.chan.unlockQueues)
    (taken : SystemStep sys act after) : after.chan.Placed := by
  obtain ⟨cursor, prepared⟩ := placed.prepare member
  cases taken with
  | recv len answer answered => exact CChannel.poll_placed prepared answered
  | peek answer answered => exact CChannel.poll_placed prepared answered
  | send | drop | peers => exact placed

theorem systemMachine_placed (placed : start.Placed) (member : key ∈ start.unlockQueues)
    (reached : (systemMachine start).Reachable sys) : sys.chan.Placed := by
  have base : ∀ first, (systemMachine start).init first → first.chan.Placed := by
    intro first begins
    rw [show first.chan = start from begins]
    exact placed
  refine reached.invariant base ?_
  intro last act next before inv taken
  have same := systemMachine_unlockQueues before
  exact SystemStep.placed inv (same.symm ▸ member) taken

/-- Ids that fit 32 bits survive `Init`. -/
theorem CChannel.Named.of_tagged {config : GlobalConfig} {procId : ProcId} {chan : CChannel}
    (tagged : Tagged config procId chan.unlockQueues)
    (fits : ∀ key ∈ chan.unlockQueues, key.toNat < 2 ^ 32) : chan.Named := by
  intro key queue member
  have small := fits key (UnlockQueueSet.mem_of_some member)
  rw [CUnlockQueue.peerId, (tagged key queue member).2]
  exact (toUInt64_toUInt32_eq_iff key).mpr small

end Runs

/-- Process `1` and its peers `4` and `5`, whose queues hold a message each, after some calls of `Peek`. -/
def starPeeked (count : UInt32) : CChannel := { starChannel with curQueueRecvPkgCount := count }

theorem starPeeked_keys {key : ProcId} (member : key ∈ starChannel.unlockQueues) : key = 4 ∨ key = 5 := by
  have listed := Std.TreeMap.mem_keys.mpr member
  rw [show starChannel.unlockQueues.keys = [4, 5] by decide] at listed
  simpa using listed

theorem starPeeked_reachable (count : ℕ) (few : count < 10) :
    (systemMachine starChannel).Reachable ⟨starPeeked (UInt32.ofNat count), pairSegments⟩ := by
  induction count with
  | zero => exact .start rfl
  | succ count ih =>
    have before := ih (by omega)
    have value : (UInt32.ofNat count).toNat = count :=
      UInt32.toNat_ofNat_of_lt' (by rw [UInt32.size]; omega)
    have valid : (starPeeked (UInt32.ofNat count)).CursorValid := starChannel.counted_valid 4 (by decide)
    have begins : (starPeeked (UInt32.ofNat count)).startKey = some 4 :=
      if_neg (value.symm ▸ Nat.not_le.mpr (Nat.lt_of_succ_lt few))
    have answered := @CChannel.peek_serves _ pairSegments 4 4 ⟨11, 10, 4⟩ valid begins rfl rfl _ rfl
    have counted : (starPeeked (UInt32.ofNat count)).counted 4 4 = starPeeked (UInt32.ofNat (count + 1)) := by
      have started : (starPeeked (UInt32.ofNat count)).startCount = UInt32.ofNat count :=
        if_neg (value.symm ▸ Nat.not_le.mpr (Nat.lt_of_succ_lt few))
      rw [CChannel.counted, CChannel.served, started, UInt32.ofNat_add]
      rfl
    rw [counted] at answered
    have taken : SystemStep ⟨starPeeked (UInt32.ofNat count), pairSegments⟩ .peek
        ⟨starPeeked (UInt32.ofNat (count + 1)), pairSegments⟩ :=
      .peek ⟨starPeeked (UInt32.ofNat count), pairSegments⟩ _ answered
    exact before.next taken

end Yarf.Channel
